import EntityStore.Proofs.Condition.Comparisons

/-!
# The values that a condition takes

However a condition is nested, its parameters take the values of a call in order: the first
parameter from the left the first value, and so on.  So binding it to some values is binding, with
no values, the condition that has them in place of its parameters (`Condition.fill`), and what is
left are the values behind those taken.

    c.bind schema args = ((c.fill args).bind schema []).map fun bound =>
      (bound.1, args.drop c.parameterCount)                                           (bind_fill)

The comparisons of the filled condition stand for themselves: it can be bound if each of them has an
operand that its operator allows, and else fails as the first of them that does not.
-/

namespace EntityStore

/-- The operand with the first of the values in place of a parameter. -/
def Operand.fill : Operand → List Value → Operand
  | .parameter, v :: _ => .literal v
  | operand, _ => operand

namespace Comparison

/-- The comparison has an operand of its own, which its operator allows. -/
def Complete (l : Comparison) : Prop := ∃ v, l.operand = .literal v ∧ l.operator.Allows v

/-- Why a comparison cannot be bound when no value is left. -/
inductive Refuses (schema : Schema) (l : Comparison) : Failure → Prop
  | missing (h : l.operand = .parameter) : Refuses schema l .missingArguments
  | null {accessor : Accessor} (hfield : schema.resolve l.field = .ok accessor)
    (h : l.operand = .literal .null) : Refuses schema l (.nullOperand l.operator accessor.name)
  | noList {accessor : Accessor} {v : Value} (hfield : schema.resolve l.field = .ok accessor)
    (h : l.operand = .literal v) (hv : v ≠ .null) (hin : l.operator = .isIn)
    (hkind : v.kind ≠ .list) : Refuses schema l (.listRequired accessor.name v.kind)

theorem Refuses.category_eq {schema : Schema} {l : Comparison} {failure : Failure}
    (h : l.Refuses schema failure) :
    failure.category =
      if l.operand = .parameter ∨ l.operand = .literal .null then .argument else .mapping := by
  cases h with
  | missing h => rw [if_pos (.inl h)]; rfl
  | null _ h => rw [if_pos (.inr h)]; rfl
  | noList _ h hv _ _ =>
    rw [h, if_neg]
    · rfl
    · rintro (h | h)
      · cases h
      · cases h
        exact hv rfl

/-! ## Rows of comparisons -/

section
variable {schema : Schema} {l m : Comparison} {ls : List Comparison} {args rest : List Value}
  {failure : Failure}

theorem takes_cons_cases {v w : Value} (hw : l.operand.take args = .ok (w, rest))
    (h : Takes (l :: ls) args m v) : (m = l ∧ v = w) ∨ Takes ls rest m v := by
  obtain ⟨field, operator, operand⟩ := l
  cases operand with
  | literal u =>
    cases hw
    rcases h with ⟨hmem, hv⟩ | hzip
    · rcases List.mem_cons.1 hmem with rfl | hmem
      · cases hv
        exact .inl ⟨rfl, rfl⟩
      · exact .inr (.inl ⟨hmem, hv⟩)
    · exact .inr (.inr hzip)
  | parameter =>
    cases args with
    | nil => cases hw
    | cons u args =>
      cases hw
      rcases h with ⟨hmem, hv⟩ | hzip
      · rcases List.mem_cons.1 hmem with rfl | hmem
        · cases hv
        · exact .inr (.inl ⟨hmem, hv⟩)
      · rcases List.mem_cons.1 hzip with heq | hzip
        · cases heq
          exact .inl ⟨rfl, rfl⟩
        · exact .inr (.inr hzip)

/-- Whatever is bound has taken values that its operators allow. -/
theorem allows_of_bindAll {bound : List Filter × List Value} {v : Value}
    (h : bindAll schema ls args = .ok bound) (hm : Takes ls args m v) : m.operator.Allows v := by
  induction ls generalizing args bound with
  | nil =>
    rcases hm with ⟨hmem, -⟩ | hzip
    · cases hmem
    · cases hzip
  | cons l ls ih =>
    obtain ⟨f, fs, args', hf, hfs, -⟩ := bindAll_cons_eq_ok.1 h
    obtain ⟨accessor, w, -, hw, hcompare⟩ := bind_eq_ok_iff.1 hf
    rcases takes_cons_cases hw hm with ⟨rfl, rfl⟩ | hm
    · exact Filter.exists_compare_iff.1 ⟨f, hcompare⟩
    · exact ih hfs hm

/-! ### Without values -/

theorem bind_nil_of_literal {accessor : Accessor} {v : Value}
    (hfield : schema.resolve l.field = .ok accessor) (h : l.operand = .literal v) :
    l.bind schema [] = (Filter.compare l.operator v accessor).map fun f => (f, []) := by
  unfold bind Condition.bind
  rw [hfield, h]
  show (Filter.compare l.operator v accessor >>= _) = _
  cases Filter.compare l.operator v accessor <;> rfl

theorem bind_nil_of_complete (hfield : ∃ accessor, schema.resolve l.field = .ok accessor)
    (h : l.Complete) : ∃ f, l.bind schema [] = .ok (f, []) := by
  obtain ⟨accessor, hfield⟩ := hfield
  obtain ⟨v, hoperand, hallows⟩ := h
  obtain ⟨f, hf⟩ : ∃ f, Filter.compare l.operator v accessor = .ok f :=
    Filter.exists_compare_iff.2 hallows
  exact ⟨f, by rw [bind_nil_of_literal hfield hoperand, hf]; rfl⟩

theorem bind_nil_of_refuses (hfield : ∃ accessor, schema.resolve l.field = .ok accessor)
    (h : l.Refuses schema failure) : l.bind schema [] = .error failure := by
  cases h with
  | missing h =>
    obtain ⟨accessor, hfield⟩ := hfield
    unfold bind Condition.bind
    rw [hfield, h]
    rfl
  | null hfield h =>
    rw [bind_nil_of_literal hfield h]
    rfl
  | @noList accessor v hfield h hv hin hkind =>
    rw [bind_nil_of_literal hfield h, hin]
    cases v with
    | null => exact absurd rfl hv
    | list items => exact absurd rfl hkind
    | _ => rfl

theorem exists_refuses (hfield : ∃ accessor, schema.resolve l.field = .ok accessor)
    (h : ¬ l.Complete) : ∃ failure, l.Refuses schema failure := by
  obtain ⟨accessor, hfield⟩ := hfield
  cases hoperand : l.operand with
  | parameter => exact ⟨_, .missing hoperand⟩
  | literal v =>
    by_cases hv : v = .null
    · subst hv
      exact ⟨_, .null hfield hoperand⟩
    · have hlist : ¬ (l.operator = .isIn → v.kind = .list) := by
        intro hlist
        exact h ⟨v, hoperand, hv, hlist⟩
      obtain ⟨hin, hkind⟩ := Classical.not_imp.1 hlist
      exact ⟨_, .noList hfield hoperand hv hin hkind⟩

theorem bindAll_nil_of_complete
    (hfields : ∀ l ∈ ls, ∃ accessor, schema.resolve l.field = .ok accessor)
    (h : ∀ l ∈ ls, l.Complete) : ∃ fs, bindAll schema ls [] = .ok (fs, []) := by
  induction ls with
  | nil => exact ⟨[], rfl⟩
  | cons l ls ih =>
    rw [List.forall_mem_cons] at hfields h
    obtain ⟨f, hf⟩ := bind_nil_of_complete hfields.1 h.1
    obtain ⟨fs, hfs⟩ := ih hfields.2 h.2
    exact ⟨f :: fs, bindAll_cons_eq_ok.2 ⟨f, fs, [], hf, hfs, rfl⟩⟩

/-- The first comparison that is not complete decides how a row fails. -/
theorem bindAll_nil_eq_error_iff
    (hfields : ∀ l ∈ ls, ∃ accessor, schema.resolve l.field = .ok accessor) :
    bindAll schema ls [] = .error failure ↔ ∃ before l after, ls = before ++ l :: after ∧
      (∀ m ∈ before, m.Complete) ∧ l.Refuses schema failure := by
  constructor
  · intro h
    induction ls with
    | nil => cases h
    | cons l ls ih =>
      rw [List.forall_mem_cons] at hfields
      rw [bindAll] at h
      by_cases hl : l.Complete
      · obtain ⟨f, hf⟩ := bind_nil_of_complete hfields.1 hl
        rw [hf] at h
        replace h : (bindAll schema ls [] >>= fun others =>
            pure (f :: others.1, others.2)) = .error failure := h
        have hls : bindAll schema ls [] = .error failure := by
          rcases bind_eq_error.1 h with h | ⟨others, -, h⟩
          · exact h
          · cases h
        obtain ⟨before, m, after, rfl, hbefore, hm⟩ := ih hfields.2 hls
        exact ⟨l :: before, m, after, rfl, List.forall_mem_cons.2 ⟨hl, hbefore⟩, hm⟩
      · obtain ⟨failure', hrefuses⟩ := exists_refuses hfields.1 hl
        rw [bind_nil_of_refuses hfields.1 hrefuses] at h
        cases h
        exact ⟨[], l, ls, rfl, List.forall_mem_nil _, hrefuses⟩
  · rintro ⟨before, l, after, rfl, hbefore, hl⟩
    rw [List.forall_mem_append, List.forall_mem_cons] at hfields
    obtain ⟨fs, hfs⟩ := bindAll_nil_of_complete hfields.1 hbefore
    rw [bindAll_append, hfs]
    show ((bindAll schema (l :: after) [] >>= _) : Except Failure _) = _
    rw [bindAll, bind_nil_of_refuses hfields.2.1 hl]
    rfl

end

end Comparison

namespace Condition

mutual

/-- The condition with the first values in place of its parameters, from left to right.  Parameters
that no value is left for stay. -/
def fill : Condition → List Value → Condition
  | comparison field operator operand, args => comparison field operator (operand.fill args)
  | conj parts, args => conj (fillAll parts args)
  | disj parts, args => disj (fillAll parts args)
  | neg inner, args => neg (fill inner args)

def fillAll : List Condition → List Value → List Condition
  | [], _ => []
  | c :: cs, args => fill c args :: fillAll cs (args.drop c.parameterCount)

end

/-! ## What filling leaves -/

mutual

theorem fields_fill : ∀ (c : Condition) (args : List Value), (c.fill args).fields = c.fields
  | comparison _ _ _, _ => rfl
  | conj parts, args => fieldsAll_fillAll parts args
  | disj parts, args => fieldsAll_fillAll parts args
  | neg inner, args => fields_fill inner args

theorem fieldsAll_fillAll : ∀ (cs : List Condition) (args : List Value),
    fieldsAll (fillAll cs args) = fieldsAll cs
  | [], _ => rfl
  | c :: cs, args => by
    rw [fillAll, fieldsAll, fieldsAll, fields_fill c args, fieldsAll_fillAll cs]

end

theorem fillAll_ne_nil {cs : List Condition} (h : cs ≠ []) (args : List Value) :
    fillAll cs args ≠ [] := by
  cases cs with
  | nil => exact absurd rfl h
  | cons c cs => nofun

mutual

theorem WellFormed.fill : ∀ {c : Condition}, c.WellFormed → ∀ args : List Value,
    (c.fill args).WellFormed
  | comparison _ _ _, _, _ => trivial
  | conj _, h, args => ⟨fillAll_ne_nil h.1 args, AllWellFormed.fillAll h.2 args⟩
  | disj _, h, args => ⟨fillAll_ne_nil h.1 args, AllWellFormed.fillAll h.2 args⟩
  | neg inner, h, args => WellFormed.fill (c := inner) h args

theorem AllWellFormed.fillAll : ∀ {cs : List Condition}, AllWellFormed cs → ∀ args : List Value,
    AllWellFormed (fillAll cs args)
  | [], _, _ => trivial
  | _ :: _, h, args => ⟨WellFormed.fill h.1 args, AllWellFormed.fillAll h.2 _⟩

end

/-! ## Binding -/

section
variable {schema : Schema}

/-- With no values to take none is left. -/
theorem rest_of_bind_nil {c : Condition} {f : Filter} {rest : List Value}
    (h : c.bind schema [] = .ok (f, rest)) : rest = [] := by
  have hlength := length_bind h
  rw [List.length_nil] at hlength
  exact List.eq_nil_of_length_eq_zero (by omega)

mutual

theorem bind_fill : ∀ (c : Condition) (args : List Value),
    c.bind schema args = ((c.fill args).bind schema []).map fun bound =>
      (bound.1, args.drop c.parameterCount)
  | comparison field operator operand, args => by
    rw [fill, bind, bind, parameterCount]
    cases schema.resolve field with
    | error failure => rfl
    | ok accessor =>
      cases operand with
      | literal v =>
        show (Filter.compare operator v accessor >>= _) =
          (Filter.compare operator v accessor >>= _).map _
        cases Filter.compare operator v accessor <;> rfl
      | parameter =>
        cases args with
        | nil => rfl
        | cons v args =>
          show (Filter.compare operator v accessor >>= _) =
            (Filter.compare operator v accessor >>= _).map _
          cases Filter.compare operator v accessor <;> rfl
  | conj parts, args => by
    rw [bind, fill, bind, parameterCount]
    exact bindParts_fillAll .and parts args
  | disj parts, args => by
    rw [bind, fill, bind, parameterCount]
    exact bindParts_fillAll .or parts args
  | neg inner, args => by
    rw [bind, fill, bind, parameterCount, bind_fill inner args]
    cases (inner.fill args).bind schema [] <;> rfl

theorem bindParts_fillAll (k : Conjunction) : ∀ (cs : List Condition) (args : List Value),
    bindParts schema k cs args = (bindParts schema k (fillAll cs args) []).map fun bound =>
      (bound.1, args.drop (parameterCounts cs))
  | [], _ => rfl
  | c :: cs, args => by
    rw [bindParts, fillAll, bindParts, parameterCounts, bind_fill c args]
    cases hbound : (c.fill args).bind schema [] with
    | error failure => rfl
    | ok bound =>
      obtain ⟨f, rest⟩ := bound
      obtain rfl := rest_of_bind_nil hbound
      rw [← List.drop_drop]
      exact bindRest_fillAll k f cs _

theorem bindRest_fillAll (k : Conjunction) : ∀ (f : Filter) (cs : List Condition)
    (args : List Value),
    bindRest schema k f cs args = (bindRest schema k f (fillAll cs args) []).map fun bound =>
      (bound.1, args.drop (parameterCounts cs))
  | f, [], args => rfl
  | f, c :: cs, args => by
    rw [bindRest, fillAll, bindRest, parameterCounts, bind_fill c args]
    cases hbound : (c.fill args).bind schema [] with
    | error failure => rfl
    | ok bound =>
      obtain ⟨g, rest⟩ := bound
      obtain rfl := rest_of_bind_nil hbound
      rw [← List.drop_drop]
      exact bindRest_fillAll k _ cs _

end

theorem Agrees.eq_error_iff {x : Except Failure (Filter × List Value)}
    {y : Except Failure (List Filter × List Value)} {failure : Failure} (h : Agrees x y) :
    x = .error failure ↔ y = .error failure := by
  cases h with
  | ok _ _ => exact iff_of_false nofun nofun
  | error failure' => exact ⟨fun h => by cases h; rfl, fun h => by cases h; rfl⟩

theorem Agrees.exists_ok_iff {x : Except Failure (Filter × List Value)}
    {y : Except Failure (List Filter × List Value)} (h : Agrees x y) :
    (∃ bound, x = .ok bound) ↔ ∃ bound, y = .ok bound := by
  cases h with
  | ok _ _ => exact iff_of_true ⟨_, rfl⟩ ⟨_, rfl⟩
  | error _ => exact iff_of_false nofun nofun

variable {c : Condition} {args : List Value}

theorem resolve_of_mem_comparisons
    (hfields : ∀ field ∈ c.fields, ∃ accessor, schema.resolve field = .ok accessor) :
    ∀ l ∈ c.comparisons, ∃ accessor, schema.resolve l.field = .ok accessor := by
  intro l hl
  apply hfields
  rw [fields_eq]
  exact List.mem_map_of_mem hl

/-- A condition of attributes can be bound exactly where there are enough values and each comparison
allows the value that it takes. -/
theorem exists_bind_iff (hc : c.WellFormed)
    (hfields : ∀ field ∈ c.fields, ∃ accessor, schema.resolve field = .ok accessor) :
    (∃ bound, c.bind schema args = .ok bound) ↔
      c.parameterCount ≤ args.length ∧
        ∀ l v, Comparison.Takes c.comparisons args l v → l.operator.Allows v := by
  constructor
  · rintro ⟨⟨f, rest⟩, h⟩
    have hlength := length_bind h
    obtain ⟨bound, hbound⟩ := (agrees_bind hc args).exists_ok_iff.1 ⟨_, h⟩
    exact ⟨by omega, fun l v htakes => Comparison.allows_of_bindAll hbound htakes⟩
  · rintro ⟨hcount, hvalues⟩
    rw [← length_parameters] at hcount
    exact (agrees_bind hc args).exists_ok_iff.2
      (Comparison.exists_bindAll (resolve_of_mem_comparisons hfields) hcount hvalues)

/-- And else it fails as the first comparison does that cannot. -/
theorem bind_eq_error_iff (hc : c.WellFormed)
    (hfields : ∀ field ∈ c.fields, ∃ accessor, schema.resolve field = .ok accessor)
    {failure : Failure} :
    c.bind schema args = .error failure ↔
      ∃ before l after, (c.fill args).comparisons = before ++ l :: after ∧
        (∀ m ∈ before, m.Complete) ∧ l.Refuses schema failure := by
  have hfilled : ∀ field ∈ (c.fill args).fields, ∃ accessor,
      schema.resolve field = .ok accessor := by
    rw [fields_fill]
    exact hfields
  rw [bind_fill, map_eq_error, (agrees_bind (hc.fill args) []).eq_error_iff]
  exact Comparison.bindAll_nil_eq_error_iff (resolve_of_mem_comparisons hfilled)

/-- **Binding takes the values in order, each once, and no more than it needs.**  The condition can
be bound when there is a value for each parameter and no comparison is left with `null`, or with
anything but a list to look for members in; then what is bound is the condition with the values in
place of its parameters, and the values behind them are left.  Else the first comparison that is
left without such a value says what is wrong. -/
theorem binds_exactly (hc : c.WellFormed)
    (hfields : ∀ field ∈ c.fields, ∃ accessor, schema.resolve field = .ok accessor)
    (args : List Value) :
    ((∃ bound, c.bind schema args = .ok bound) ↔
      c.parameterCount ≤ args.length ∧
        ∀ l v, Comparison.Takes c.comparisons args l v → l.operator.Allows v) ∧
    (∀ f rest, c.bind schema args = .ok (f, rest) →
      rest = args.drop c.parameterCount ∧ (c.fill args).bind schema [] = .ok (f, [])) ∧
    ∀ failure, c.bind schema args = .error failure ↔
      ∃ before l after, (c.fill args).comparisons = before ++ l :: after ∧
        (∀ m ∈ before, m.Complete) ∧ l.Refuses schema failure ∧
        failure.category =
          if l.operand = .parameter ∨ l.operand = .literal .null then .argument else .mapping := by
  refine ⟨exists_bind_iff hc hfields, ?_, fun failure => ?_⟩
  · intro f rest h
    rw [bind_fill] at h
    obtain ⟨⟨g, rest'⟩, hg, heq⟩ := map_eq_ok.1 h
    cases heq
    obtain rfl := rest_of_bind_nil hg
    exact ⟨rfl, hg⟩
  · rw [bind_eq_error_iff hc hfields]
    constructor
    · rintro ⟨before, l, after, hsplit, hbefore, hl⟩
      exact ⟨before, l, after, hsplit, hbefore, hl, hl.category_eq⟩
    · rintro ⟨before, l, after, hsplit, hbefore, hl, -⟩
      exact ⟨before, l, after, hsplit, hbefore, hl⟩

end

/-- In `title = ? AND NOT (edition IN ? OR edition = 1)` the second value is the one to look for
members in: a number is refused, and with a list the third value is left. -/
theorem binds_exactly_second_value :
    let title : Accessor := ⟨"title", "Book", "Book", fun _ => .text "Dune"⟩
    let edition : Accessor := ⟨"edition", "Book", "Book", fun r => .integer (.ofNat r.id)⟩
    let schema : Schema := ⟨"Book", "Book", title, [edition]⟩
    let c : Condition := .conj [.comparison "title" .eq .parameter,
      .neg (.disj [.comparison "edition" .isIn .parameter,
        .comparison "edition" .eq (.literal (.integer 1))])]
    c.WellFormed ∧ (∀ field ∈ c.fields, ∃ accessor, schema.resolve field = .ok accessor) ∧
      c.bind schema [.text "Dune", .integer 3, .null] = .error (.listRequired "edition" .integer) ∧
      ∃ f, c.bind schema [.text "Dune", .list [.integer 3], .null] = .ok (f, [.null]) := by
  intro title edition schema c
  have hc : c.WellFormed := by simp [c, WellFormed, AllWellFormed]
  have hfields : ∀ field ∈ c.fields, ∃ accessor, schema.resolve field = .ok accessor := by
    simp only [c, fields, fieldsAll, List.cons_append, List.nil_append, List.forall_mem_cons]
    exact ⟨⟨title, rfl⟩, ⟨edition, rfl⟩, ⟨edition, rfl⟩, List.forall_mem_nil _⟩
  have hrefuses : Comparison.Refuses schema ⟨"edition", .isIn, .literal (.integer 3)⟩
      (.listRequired "edition" .integer) :=
    @Comparison.Refuses.noList schema _ edition (.integer 3) rfl rfl (by decide) rfl (by decide)
  have hvalues : ∀ l v,
      Comparison.Takes c.comparisons [.text "Dune", .list [.integer 3], .null] l v →
      l.operator.Allows v := by
    rintro l v (⟨hmem, hv⟩ | hzip)
    · simp only [c, comparisons, comparisonsAll, List.cons_append, List.nil_append, List.mem_cons,
        List.not_mem_nil, or_false] at hmem
      rcases hmem with rfl | rfl | rfl <;> cases hv
      decide
    · replace hzip : (l, v) ∈ [(⟨"title", .eq, .parameter⟩, .text "Dune"),
          (⟨"edition", .isIn, .parameter⟩, .list [.integer 3])] := hzip
      simp only [List.mem_cons, List.not_mem_nil, or_false, Prod.mk.injEq] at hzip
      rcases hzip with ⟨rfl, rfl⟩ | ⟨rfl, rfl⟩ <;> decide
  refine ⟨hc, hfields, ?_, ?_⟩
  · refine ((binds_exactly hc hfields _).2.2 _).2
      ⟨[⟨"title", .eq, .literal (.text "Dune")⟩], _, _, rfl, ?_, hrefuses, rfl⟩
    exact List.forall_mem_singleton.2 ⟨.text "Dune", rfl, by decide⟩
  · obtain ⟨⟨f, rest⟩, h⟩ := (binds_exactly hc hfields _).1.2 ⟨by decide, hvalues⟩
    obtain ⟨rfl, -⟩ := (binds_exactly hc hfields _).2.1 f rest h
    exact ⟨f, h⟩

end Condition

end EntityStore
