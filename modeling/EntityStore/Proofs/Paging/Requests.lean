import EntityStore.Proofs.Json.Document
import EntityStore.Proofs.Paging.Pages

/-!
# Page requests stay valid

However a page request comes about, it holds what was asked for last, and where a size or a page
number is asked to be zero there is none.  What is written of a request is read back as that
request.

    (step.apply held).map parts = (step.asks (held.map parts)).filter valid         (parts_apply)
    (run steps).map parts = asked steps                                               (parts_run)
    parse? r.toDocument.render = some r                                           (parse?_render)
-/

namespace EntityStore

/-! ## Documents of sort keys -/

theorem Direction.ofName?_name (d : Direction) : ofName? d.name.toList = some d := by
  cases d <;> rfl

namespace SortKey

theorem writable_toDocument (key : SortKey) : key.toDocument.Writable := by
  refine Json.writable_ofMembers (List.forall_mem_cons.2 ⟨?_, List.forall_mem_singleton.2 ?_⟩)
  · exact Json.writable_text key.property.toList
  · exact Json.writable_text key.direction.name.toList

theorem nodup_fieldNames : fieldNames.Nodup := by decide

theorem ofDocument?_toDocument (key : SortKey) : ofDocument? key.toDocument = some key := by
  have hfields : key.toDocument.fields? fieldNames =
      some [some (.ofText key.property), some (.ofText key.direction.name)] :=
    Json.fields?_ofMembers (by exact nodup_fieldNames) fieldNames
  have hdirection : (Json.ofText key.direction.name).name? = some key.direction.name.toList := rfl
  rw [ofDocument?, hfields]
  simp only [Json.text?_ofText, hdirection, Direction.ofName?_name, Option.bind_eq_bind,
    Option.bind_some]
  rfl

theorem mapM_ofDocument? (keys : List SortKey) :
    (keys.map toDocument).mapM ofDocument? = some keys := by
  induction keys with
  | nil => rfl
  | cons key keys ih =>
    rw [List.map_cons, List.mapM_cons, ofDocument?_toDocument, ih]
    rfl

end SortKey

namespace PageRequest

/-- The parts of a page request, not checked. -/
structure Parts where
  size : Nat
  page : Nat
  sorts : List SortKey

def Parts.valid (p : Parts) : Bool := 1 ≤ p.size && 1 ≤ p.page

def parts (r : PageRequest) : Parts := ⟨r.size.toNat, r.page.toNat, r.sorts⟩

def partsOfDocument? (doc : Json) : Option Parts :=
  match doc.fields? fieldNames with
  | some [some size, some page, sorts] => do
    pure ⟨(← size.size?).toNat, (← page.size?).toNat, ← sortsOfDocument? sorts⟩
  | _ => none

/-- A page request is built, or the one at hand is changed. -/
inductive Step
  | ofSize (size : UInt64)
  | make (size page : UInt64) (sorts : List SortKey)
  | read (text : String)
  | withPage (page : UInt64)
  | sortBy (key : SortKey)
  | next

/-- The request at hand after a step, if there is one. -/
def Step.apply : Step → Option PageRequest → Option PageRequest
  | ofSize size, _ => (PageRequest.ofSize size).toOption
  | make size page sorts, _ => (PageRequest.make size page sorts).toOption
  | read text, _ => parse? text
  | withPage page, held => held.bind fun r => (r.withPage page).toOption
  | sortBy key, held => held.map fun r => r.sortBy key
  | next, held => held.map PageRequest.next

/-- The request at hand after a row of steps, the first of which has none at hand. -/
def run (steps : List Step) : Option PageRequest :=
  steps.foldl (fun held step => step.apply held) none

/-- What a step asks for, given the parts of the request at hand. -/
def Step.asks : Step → Option Parts → Option Parts
  | ofSize size, _ => some ⟨size.toNat, 1, []⟩
  | make size page sorts, _ => some ⟨size.toNat, page.toNat, sorts⟩
  | read text, _ => (Json.parse? text).bind partsOfDocument?
  | withPage page, held => held.map fun p => { p with page := page.toNat }
  | sortBy key, held => held.map fun p => { p with sorts := p.sorts ++ [key] }
  | next, held => held.map fun p => { p with page := min (p.page + 1) (2 ^ 64 - 1) }

/-- What a row of steps asks for; what is not valid is dropped. -/
def asked (steps : List Step) : Option Parts :=
  steps.foldl (fun held step => (step.asks held).filter Parts.valid) none

/-! ## One step -/

theorem valid_parts (r : PageRequest) : r.parts.valid = true := by
  rw [Parts.valid, Bool.and_eq_true]
  exact ⟨decide_eq_true r.size_pos, decide_eq_true r.page_pos⟩

/-- What there already is needs no check. -/
theorem map_parts_eq_filter (held : Option PageRequest) :
    held.map parts = (held.map parts).filter Parts.valid := by
  cases held with
  | none => rfl
  | some r => exact (Option.filter_eq_some_iff.2 ⟨rfl, r.valid_parts⟩).symm

theorem parts_make (size page : UInt64) (sorts : List SortKey) :
    (make size page sorts).toOption.map parts =
      (some ⟨size.toNat, page.toNat, sorts⟩ : Option Parts).filter Parts.valid := by
  unfold make
  split
  · next hs =>
    rw [hs]
    rfl
  · split
    · next hs hp =>
      have hinvalid : Parts.valid ⟨size.toNat, page.toNat, sorts⟩ = false := by
        rw [hp]
        exact Bool.and_false _
      simp only [Option.filter_some, hinvalid]
      rfl
    · next hs hp => exact map_parts_eq_filter (some ⟨size, page, sorts, hs, hp⟩)

theorem withPage_eq (r : PageRequest) (page : UInt64) :
    r.withPage page = make r.size page r.sorts := by
  rw [make, dif_neg r.size_ne_zero]
  rfl

theorem parts_next (r : PageRequest) :
    r.next.parts = { r.parts with page := min (r.page.toNat + 1) (2 ^ 64 - 1) } := by
  rw [parts, size_next, sorts_next, toNat_page_next]
  rfl

theorem parts_ofDocument? (doc : Json) :
    (ofDocument? doc).map parts = (partsOfDocument? doc).filter Parts.valid := by
  unfold ofDocument? partsOfDocument?
  generalize doc.fields? fieldNames = fields
  match fields with
  | none | some [] | some (none :: _) | some [some _] | some (some _ :: none :: _)
  | some [some _, some _] | some (some _ :: some _ :: _ :: _ :: _) => rfl
  | some [some size, some page, sorts] =>
    dsimp only
    cases size.size? with
    | none => rfl
    | some n =>
      cases page.size? with
      | none => rfl
      | some k =>
        cases sortsOfDocument? sorts with
        | none => rfl
        | some keys => exact parts_make n k keys

/-- Each step leaves what it asks for, if that is valid. -/
theorem parts_apply (step : Step) (held : Option PageRequest) :
    (step.apply held).map parts = (step.asks (held.map parts)).filter Parts.valid := by
  cases step with
  | ofSize size => exact parts_make size 1 []
  | make size page sorts => exact parts_make size page sorts
  | read text =>
    show ((Json.parse? text).bind ofDocument?).map parts =
      ((Json.parse? text).bind partsOfDocument?).filter Parts.valid
    cases Json.parse? text with
    | none => rfl
    | some doc => exact parts_ofDocument? doc
  | withPage page =>
    cases held with
    | none => rfl
    | some r =>
      show (r.withPage page).toOption.map parts = _
      rw [withPage_eq, parts_make]
      rfl
  | sortBy key =>
    cases held with
    | none => rfl
    | some r => exact map_parts_eq_filter (some (r.sortBy key))
  | next =>
    cases held with
    | none => rfl
    | some r =>
      show (some r.next).map parts = (some _ : Option Parts).filter Parts.valid
      rw [map_parts_eq_filter]
      exact congrArg (fun p => (some p : Option Parts).filter Parts.valid) r.parts_next

/-! ## Any steps -/

theorem parts_run (steps : List Step) : (run steps).map parts = asked steps := by
  have hfrom (held : Option PageRequest) :
      (steps.foldl (fun held step => step.apply held) held).map parts =
        steps.foldl (fun held step => (step.asks held).filter Parts.valid) (held.map parts) := by
    induction steps generalizing held with
    | nil => rfl
    | cons step steps ih => rw [List.foldl_cons, List.foldl_cons, ih, parts_apply]
  exact hfrom none

/-- The next page does not start before this one. -/
theorem skip_le_skip_next (r : PageRequest) : r.skip ≤ r.next.skip := by
  have hpage : r.page.toNat - 1 ≤ r.next.page.toNat - 1 := by
    have hlt := r.page.toNat_lt_size
    rw [toNat_page_next]
    omega
  have hbefore : r.size.toNat * (r.page.toNat - 1) ≤ r.size.toNat * (r.next.page.toNat - 1) :=
    Nat.mul_le_mul_left _ hpage
  rw [skip, skip, size_next]
  omega

/-! ## Written and read back -/

theorem writable_toDocument (r : PageRequest) : r.toDocument.Writable := by
  refine Json.writable_ofMembers (List.forall_mem_cons.2 ⟨?_, List.forall_mem_cons.2 ⟨?_,
    List.forall_mem_singleton.2 ?_⟩⟩)
  · exact Json.writable_ofInt r.size.toNat
  · exact Json.writable_ofInt r.page.toNat
  · exact Json.writable_array (List.forall_mem_map.2 fun key _ => key.writable_toDocument)

theorem nodup_fieldNames : fieldNames.Nodup := by decide

theorem ofDocument?_of_fields {doc size page : Json} {sorts : Option Json} {n k : UInt64}
    {keys : List SortKey} (hfields : doc.fields? fieldNames = some [some size, some page, sorts])
    (hsize : size.size? = some n) (hpage : page.size? = some k)
    (hsorts : sortsOfDocument? sorts = some keys) :
    ofDocument? doc = (make n k keys).toOption := by
  rw [ofDocument?, hfields]
  simp only [hsize, hpage, hsorts, Option.bind_eq_bind, Option.bind_some]

theorem make_self (r : PageRequest) : make r.size r.page r.sorts = .ok r := by
  rw [make, dif_neg r.size_ne_zero, dif_neg r.page_ne_zero]

theorem ofDocument?_toDocument (r : PageRequest) : ofDocument? r.toDocument = some r := by
  have hfields : r.toDocument.fields? fieldNames = some [some (.ofSize r.size),
      some (.ofSize r.page), some (.array (r.sorts.map SortKey.toDocument))] :=
    Json.fields?_ofMembers (by exact nodup_fieldNames) fieldNames
  have hsorts : sortsOfDocument? (some (.array (r.sorts.map SortKey.toDocument))) =
      some r.sorts := SortKey.mapM_ofDocument? r.sorts
  have hmake : ofDocument? r.toDocument = (make r.size r.page r.sorts).toOption :=
    ofDocument?_of_fields hfields (Json.size?_ofSize r.size) (Json.size?_ofSize r.page) hsorts
  exact hmake.trans (congrArg Except.toOption r.make_self)

theorem parse?_render (r : PageRequest) : parse? r.toDocument.render = some r := by
  rw [parse?, Json.parse?_render r.writable_toDocument, Option.bind_some,
    r.ofDocument?_toDocument]

/-! ## Top theorem -/

/-- **Page requests stay valid.**  After any constructions and changes, texts read included, the
request at hand is what was asked for, and there is none where a size or a page number was asked to
be zero.  Each that there is has a size and a page number from 1 up to the largest 64-bit number,
skips the pages before it or stops at that number, is followed by a request of the same size and
sort keys that skips no less, and is read back from what is written of it. -/
theorem requests_stay_valid (steps : List Step) :
    (run steps).map parts = asked steps ∧
    ∀ r, run steps = some r →
      (1 ≤ r.size.toNat ∧ r.size.toNat ≤ 2 ^ 64 - 1) ∧
      (1 ≤ r.page.toNat ∧ r.page.toNat ≤ 2 ^ 64 - 1) ∧
      r.skip = min (r.size.toNat * (r.page.toNat - 1)) (2 ^ 64 - 1) ∧
      r.next.size = r.size ∧ r.next.sorts = r.sorts ∧ r.skip ≤ r.next.skip ∧
      parse? r.toDocument.render = some r := by
  refine ⟨parts_run steps, fun r _ => ?_⟩
  refine ⟨⟨r.size_pos, ?_⟩, ⟨r.page_pos, ?_⟩, rfl, r.size_next, r.sorts_next,
    r.skip_le_skip_next, r.parse?_render⟩
  · exact Nat.le_sub_one_of_lt r.size.toNat_lt_size
  · exact Nat.le_sub_one_of_lt r.page.toNat_lt_size

/-- After a refusal, an array of a size and the largest page number, from which no page follows but
itself. -/
theorem requests_stay_valid_largest_page :
    let steps : List Step :=
      [.ofSize 0, .read "[3, 18446744073709551615]", .sortBy ⟨"\"title\"\n", .desc⟩, .next]
    let r : PageRequest := ⟨3, UInt64.ofNatLT 18446744073709551615 (by decide),
      [⟨"\"title\"\n", .desc⟩], by decide, by decide⟩
    run steps = some r ∧ (asked steps).isSome = true ∧ r.skip = 18446744073709551615 ∧
      parse? r.toDocument.render = some r := by
  intro steps r
  have hrun : run steps = some r := by decide +kernel
  obtain ⟨hasked, hheld⟩ := requests_stay_valid steps
  obtain ⟨-, -, hskip, -, -, -, hread⟩ := hheld r hrun
  have hlargest : min (3 * (18446744073709551615 - 1)) (2 ^ 64 - 1) = 18446744073709551615 := by
    decide +kernel
  refine ⟨hrun, ?_, hskip.trans hlargest, hread⟩
  rw [← hasked, hrun]
  rfl

end PageRequest

end EntityStore
