import EntityStore.Proofs.MethodName.Lead
import EntityStore.Proofs.Query.Twins
import EntityStore.Repository.Basic

/-!
# What a repository answers

The last signature that declares a name decides what the name means, and the base vocabulary only
where no signature declares it.  So a repository answers a base method exactly where the last
signature of that name, if there is one, is of the base vocabulary itself; of any other signature it
makes a derived query or no method at all, and then a call without arguments fails differently.

    r.method? name = match d.lastDeclared? name with
      | some signature => some (compileMethod schema signature).2
      | none => baseTable.lookup name                                           (method?_of_build)
    d.Keeps method → r.invoke method.name args = r.manager.callBase method args  (invoke_of_keeps)
    (∀ args s, r.invoke method.name args s = r₀.invoke method.name args s) ↔ d.Keeps method
                                                                       (answers_base_method_iff)
-/

namespace EntityStore

namespace RepositoryDescriptor

/-- The signature that decides what a name means. -/
def lastDeclared? (d : RepositoryDescriptor) (name : String) : Option MethodSignature :=
  d.methods.reverse.find? (·.name = name)

/-- Where the base method is declared, the last signature says that it is of the base vocabulary. -/
def Keeps (d : RepositoryDescriptor) (method : BaseMethod) : Prop :=
  ∀ signature ∈ d.lastDeclared? method.name, signature.isBase = true

instance (d : RepositoryDescriptor) (method : BaseMethod) : Decidable (d.Keeps method) :=
  inferInstanceAs (Decidable (∀ signature ∈ d.lastDeclared? method.name, signature.isBase = true))

theorem name_of_lastDeclared? {d : RepositoryDescriptor} {name : String}
    {signature : MethodSignature} (h : d.lastDeclared? name = some signature) :
    signature.name = name := by
  simpa using List.find?_some h

end RepositoryDescriptor

/-! ## The base vocabulary -/

namespace BaseMethod

theorem ofName?_name (method : BaseMethod) : ofName? method.name = some method := by
  cases method <;> rfl

theorem lookup_baseTable (method : BaseMethod) :
    Repository.baseTable.lookup method.name = some (.base, .base method.name) := by
  cases method <;> rfl

/-- The name of a base method, taken for that of a declared one, goes on after a lead or is none. -/
theorem classify_name {method : BaseMethod} (hall : method ≠ .findAll) :
    MethodKind.classify method.name false = .unsupported ∨
      (MethodKind.classify method.name false).isDerived = true := by
  cases method with
  | findAll => exact absurd rfl hall
  | findById | existsById | deleteById => exact .inr rfl
  | _ => exact .inl rfl

/-- Where it goes on after a lead, it asks for an identifier. -/
theorem parse_name {method : BaseMethod}
    (h : (MethodKind.classify method.name false).isDerived = true) :
    MethodQuery.parse method.name =
      .ok ⟨MethodKind.classify method.name false, .comparison "id" .eq .parameter, []⟩ := by
  cases method with
  | findById | existsById | deleteById => rfl
  | _ => exact absurd h (by decide)

end BaseMethod

/-- Only the base vocabulary is of the kind of base methods. -/
theorem MethodKind.classify_false_ne_base (name : String) : classify name false ≠ .base := by
  intro h
  rw [classify, if_neg Bool.false_ne_true] at h
  split at h
  · cases h
  · split at h
    · next kind body hderived =>
      obtain ⟨lead, hlead, -⟩ := MethodName.derived?_eq_some_iff.1 hderived
      rw [h] at hlead
      simp [leads] at hlead
    · cases h

/-- A name means no attribute only where there is no such attribute. -/
theorem Schema.eq_of_resolve {schema : Schema} {name : String} {failure : Failure}
    (h : schema.resolve name = .error failure) : failure = .unknownField name schema.name := by
  unfold resolve at h
  split at h
  · cases h
  · split at h
    · cases h
    · cases h
      rfl

namespace Repository

variable {d : RepositoryDescriptor} {type : EntityType} {catalog : Catalog} {r r₀ : Repository}
  {method : BaseMethod}

/-! ## Looking up a name -/

theorem build_eq_ok_iff : build d type catalog = .ok r ↔
    d.managed.typeName = type.typeName ∧ ∃ schema, catalog.schema type = .ok schema ∧
      r = ⟨d.name, ⟨catalog, type, schema⟩, d.methods.map (compileMethod schema)⟩ := by
  unfold build
  by_cases h : d.managed.typeName = type.typeName
  · rw [if_neg (not_not_intro h), bind_eq_ok, and_iff_right h]
    refine exists_congr fun schema => and_congr_right fun _ => ?_
    constructor
    · intro hr
      cases hr
      rfl
    · rintro rfl
      rfl
  · rw [if_pos h]
    constructor
    · intro hr
      cases hr
    · rintro ⟨htype, -⟩
      exact absurd htype h

/-- A repository builds whatever methods it declares. -/
theorem build_without (hr : build d type catalog = .ok r) :
    build { d with methods := [] } type catalog = .ok { r with declared := [] } := by
  obtain ⟨htype, schema, hschema, rfl⟩ := build_eq_ok_iff.1 hr
  exact build_eq_ok_iff.2 ⟨htype, schema, hschema, rfl⟩

theorem lookup_compileMethod (schema : Schema) (signatures : List MethodSignature) (name : String) :
    (signatures.map (compileMethod schema)).lookup name =
      (signatures.find? (·.name = name)).map fun signature =>
        (compileMethod schema signature).2 := by
  induction signatures with
  | nil => rfl
  | cons signature signatures ih =>
    show (((signature.name, (compileMethod schema signature).2) ::
      signatures.map (compileMethod schema)).lookup name) = _
    rw [List.lookup_cons, List.find?_cons, ih]
    by_cases h : name = signature.name
    · simp [h]
    · simp [beq_eq_false_iff_ne.2 h, Ne.symm h]

theorem method?_of_build (hr : build d type catalog = .ok r) (name : String) :
    r.method? name = match d.lastDeclared? name with
      | some signature => some (compileMethod r.manager.schema signature).2
      | none => baseTable.lookup name := by
  obtain ⟨-, schema, -, rfl⟩ := build_eq_ok_iff.1 hr
  rw [method?, List.lookup_append, ← List.map_reverse, lookup_compileMethod]
  rw [RepositoryDescriptor.lastDeclared?]
  cases d.methods.reverse.find? (·.name = name) with
  | none => rfl
  | some signature => rfl

/-! ## Methods that are kept -/

theorem method?_of_keeps (hr : build d type catalog = .ok r) (h : d.Keeps method) :
    r.method? method.name = some (.base, .base method.name) := by
  rw [method?_of_build hr]
  cases hlast : d.lastDeclared? method.name with
  | none => exact method.lookup_baseTable
  | some signature =>
    have hbase : signature.isBase = true := h signature hlast
    have hname := RepositoryDescriptor.name_of_lastDeclared? hlast
    have hkind : MethodKind.classify method.name signature.isBase = .base := if_pos hbase
    simp only [compileMethod, hname, hkind]

theorem invoke_of_keeps (hr : build d type catalog = .ok r) (h : d.Keeps method)
    (args : List Argument) : r.invoke method.name args = r.manager.callBase method args := by
  rw [invoke, method?_of_keeps hr h]
  dsimp only
  rw [Manager.call, method.ofName?_name]

/-! ## Methods that are hidden -/

section Hidden

variable (hr : build d type catalog = .ok r) (hhidden : ¬ d.Keeps method)
include hr hhidden

/-- A signature that hides a base method is read like that of any other name. -/
theorem method?_of_hidden : ∃ shape, r.method? method.name =
    some (compileMethod r.manager.schema ⟨method.name, shape, false⟩).2 := by
  rw [RepositoryDescriptor.Keeps] at hhidden
  push Not at hhidden
  obtain ⟨⟨name, shape, isBase⟩, hlast, hbase⟩ := hhidden
  obtain rfl : name = method.name := RepositoryDescriptor.name_of_lastDeclared? hlast
  obtain rfl : isBase = false := Bool.eq_false_iff.2 hbase
  refine ⟨shape, ?_⟩
  rw [method?_of_build hr, Option.mem_def.1 hlast]

theorem kind?_of_hidden : r.kind? method.name = some (MethodKind.classify method.name false) := by
  obtain ⟨shape, hmethod⟩ := method?_of_hidden hr hhidden
  rw [kind?, hmethod]
  rfl

theorem invoke_of_unsupported
    (hkind : MethodKind.classify method.name false = .unsupported) (args : List Argument) :
    r.invoke method.name args = Store.settled (.error (.unsupportedMethod method.name)) := by
  obtain ⟨shape, hmethod⟩ := method?_of_hidden hr hhidden
  rw [invoke, hmethod]
  simp only [compileMethod, hkind]

theorem invoke_of_isDerived (hkind : (MethodKind.classify method.name false).isDerived = true)
    (args : List Argument) : ∃ shape, r.invoke method.name args =
      match DerivedQuery.compile method.name shape r.manager.schema with
      | .ok q => q.execute args
      | .error failure => Store.settled (.error failure) := by
  obtain ⟨shape, hmethod⟩ := method?_of_hidden hr hhidden
  refine ⟨shape, ?_⟩
  rw [invoke, hmethod]
  cases h : MethodKind.classify method.name false with
  | base | findAll | unsupported => rw [h] at hkind; cases hkind
  | _ =>
    simp only [compileMethod, h]
    cases DerivedQuery.compile method.name shape r.manager.schema <;> rfl

end Hidden

/-! ## Calls without arguments -/

section Bare

variable {m : Manager} {s : Store}

theorem callBase_bare_of_isDerived
    (h : (MethodKind.classify method.name false).isDerived = true) :
    m.callBase method [] s = (.error (.identifierRequired method.name), s) := by
  cases method with
  | findById | existsById | deleteById => rfl
  | _ => exact absurd h (by decide)

/-- A base method is never refused as one that there is not. -/
theorem callBase_bare_ne_unsupported {schema : Schema}
    (hschema : m.catalog.schema m.type = .ok schema) (hall : method ≠ .findAll) (name : String) :
    (m.callBase method [] s).1 ≠ .error (.unsupportedMethod name) := by
  cases method with
  | findAll => exact absurd rfl hall
  | count =>
    have hcount : m.count s = .ok (schema.instances s.records).length := by
      rw [Manager.count, Manager.findAll, Catalog.entities, hschema]
      rfl
    have hcall : m.callBase .count [] s = _ := Store.bind_ok (Prod.ext hcount rfl)
    rw [hcall]
    exact nofun
  | _ => exact nofun

/-- A query that is brought no value for its parameter. -/
theorem execute_bare {name field : String} {kind : MethodKind} {shape : ResultShape}
    {operator : Operator} {schema : Schema} {accessor : Accessor}
    (h : schema.resolve field = .ok accessor) :
    DerivedQuery.execute
      ⟨name, kind, shape, some (.comparison field operator .parameter), [], schema⟩ [] s =
        (.error .missingArguments, s) := by
  have hbind : (Condition.comparison field operator .parameter).bind schema [] =
      .error .missingArguments := by
    rw [Condition.bind, h]
    rfl
  have hfilter : DerivedQuery.filter
      ⟨name, kind, shape, some (.comparison field operator .parameter), [], schema⟩ [] =
        .error .missingArguments := map_eq_error.2 hbind
  rw [DerivedQuery.execute, Store.settled_bind, hfilter]

/-- A query for an identifier that is brought none fails, if it could be compiled at all. -/
theorem compile_bare {name : String} {kind : MethodKind}
    (hparse : MethodQuery.parse name = .ok ⟨kind, .comparison "id" .eq .parameter, []⟩)
    (shape : ResultShape) (schema : Schema) :
    ∃ failure, (match DerivedQuery.compile name shape schema with
      | .ok q => q.execute []
      | .error failure => Store.settled (.error failure)) s = (.error failure, s) ∧
      (failure = .missingArguments ∨ failure = .unknownField "id" schema.name) := by
  cases hresolve : schema.resolve "id" with
  | ok accessor =>
    have hcompile : DerivedQuery.compile name shape schema =
        .ok ⟨name, kind, shape, some (.comparison "id" .eq .parameter), [], schema⟩ := by
      refine (DerivedQuery.compile_eq_ok_iff hparse).2 ⟨?_, ⟨[], rfl⟩, rfl⟩
      exact Condition.checkFields_eq_ok_iff.2 (List.forall_mem_singleton.2 ⟨accessor, hresolve⟩)
    refine ⟨.missingArguments, ?_, .inl rfl⟩
    rw [hcompile]
    exact execute_bare hresolve
  | error failure =>
    have hfields : (Condition.comparison "id" .eq .parameter).checkFields schema =
        .error failure := by
      show ((schema.resolve "id").map fun _ => ()) >>= _ = _
      rw [hresolve]
      rfl
    refine ⟨failure, ?_, .inr (Schema.eq_of_resolve hresolve)⟩
    rw [DerivedQuery.compile_eq_error hparse hfields shape]
    rfl

/-- A base method that is hidden is told from the one that hides it by a call without arguments. -/
theorem invoke_bare_ne (hr : build d type catalog = .ok r) (hhidden : ¬ d.Keeps method)
    (hall : method ≠ .findAll) (s : Store) :
    r.invoke method.name [] s ≠ r.manager.callBase method [] s := by
  intro hsame
  rcases BaseMethod.classify_name hall with hkind | hkind
  · obtain ⟨-, schema, hschema, rfl⟩ := build_eq_ok_iff.1 hr
    rw [invoke_of_unsupported hr hhidden hkind] at hsame
    exact callBase_bare_ne_unsupported hschema hall _ (congrArg Prod.fst hsame).symm
  · obtain ⟨shape, hinvoke⟩ := invoke_of_isDerived hr hhidden hkind []
    obtain ⟨failure, hfails, hfailure⟩ :=
      compile_bare (s := s) (BaseMethod.parse_name hkind) shape r.manager.schema
    rw [hinvoke, hfails, callBase_bare_of_isDerived hkind] at hsame
    cases hsame
    rcases hfailure with h | h <;> cases h

end Bare

/-! ## Top theorem -/

/-- **A repository answers the base methods that it keeps.**  A repository that declares no methods
has the whole base vocabulary.  In any other one each base method but `findAll` is of that
vocabulary, and does to every store with all arguments what it does there, exactly where the last
signature that declares its name, if there is any, says so. -/
theorem answers_base_method_iff (hr : build d type catalog = .ok r) (method : BaseMethod)
    (hall : method ≠ .findAll) :
    ∃ r₀, build { d with methods := [] } type catalog = .ok r₀ ∧
      r₀.kind? method.name = some .base ∧
      (r.kind? method.name = some .base ↔ d.Keeps method) ∧
      ((∀ args s, r.invoke method.name args s = r₀.invoke method.name args s) ↔
        d.Keeps method) := by
  have hr₀ := build_without hr
  have hkeeps₀ : RepositoryDescriptor.Keeps { d with methods := [] } method := nofun
  refine ⟨_, hr₀, ?_, ?_, ?_⟩
  · rw [kind?, method?_of_keeps hr₀ hkeeps₀]
    rfl
  · constructor
    · intro hkind
      by_contra hhidden
      rw [kind?_of_hidden hr hhidden] at hkind
      exact MethodKind.classify_false_ne_base _ (Option.some.inj hkind)
    · intro hkeeps
      rw [kind?, method?_of_keeps hr hkeeps]
      rfl
  · constructor
    · intro hsame
      by_contra hhidden
      refine invoke_bare_ne hr hhidden hall default ?_
      rw [hsame, invoke_of_keeps hr₀ hkeeps₀]
    · intro hkeeps args s
      rw [invoke_of_keeps hr hkeeps, invoke_of_keeps hr₀ hkeeps₀]

/-- A repository that declares a count of its own, then the base method, and a query for a list of
books with one identifier. -/
theorem answers_base_method_redeclared :
    let isbn : Attribute := ⟨"isbn", .identifier, fun r => .integer (.ofNat r.id)⟩
    let book : EntityType := ⟨"Book", "Book", [isbn]⟩
    let catalog : Catalog := ⟨[⟨"Book", "Book", book.accessor isbn, []⟩]⟩
    let d : RepositoryDescriptor := ⟨"Books", book,
      [⟨"count", .count, false⟩, .base "count", ⟨"findById", .list, false⟩]⟩
    ∃ r r₀, build d book catalog = .ok r ∧ build { d with methods := [] } book catalog = .ok r₀ ∧
      (∀ args s, r.invoke "count" args s = r₀.invoke "count" args s) ∧
      ¬ ∀ args s, r.invoke "findById" args s = r₀.invoke "findById" args s := by
  intro isbn book catalog d
  have hr : build d book catalog = .ok _ := rfl
  obtain ⟨r₀, hr₀, -, -, hcount⟩ := answers_base_method_iff hr .count (by decide)
  obtain ⟨r₁, hr₁, -, -, hfind⟩ := answers_base_method_iff hr .findById (by decide)
  obtain rfl : r₀ = r₁ := Except.ok.inj (hr₀.symm.trans hr₁)
  exact ⟨_, r₀, hr, hr₀, hcount.2 (by decide), fun hsame => absurd (hfind.1 hsame) (by decide)⟩

/-- A repository that declares a count of its own has no other. -/
theorem declared_count_hides_base :
    let isbn : Attribute := ⟨"isbn", .identifier, fun r => .integer (.ofNat r.id)⟩
    let book : EntityType := ⟨"Book", "Book", [isbn]⟩
    let catalog : Catalog := ⟨[⟨"Book", "Book", book.accessor isbn, []⟩]⟩
    let d : RepositoryDescriptor := ⟨"Books", book, [⟨"count", .count, false⟩]⟩
    ¬ ∀ r, build d book catalog = .ok r → r.kind? "count" = some .base := by
  intro isbn book catalog d hclaim
  have hkind := hclaim _ rfl
  revert hkind
  decide

end Repository

end EntityStore
