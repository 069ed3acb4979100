import EntityStore.Proofs.MethodName.Criteria
import EntityStore.Proofs.MethodName.Ordering

/-!
# Names written out

A name is written from what it is to mean: what is done with what is found, clauses that say how a
field is tested, and groups of sort keys.  The words for all of these are spelled out here once
more, so that they do not depend on how names are read.  Where no field has a keyword in it, reading
gives the meaning back.

    d.Plain → MethodQuery.parse d.render = .ok ⟨d.action.kind, d.condition, d.sorts⟩
                                                                                  (parse_render)
-/

namespace EntityStore

open MethodName

/-! ## Written names -/

/-- What is done with the records that a name is about. -/
inductive DerivedAction
  | find
  | delete
  | count
  | probe
deriving DecidableEq

namespace DerivedAction

def lead : DerivedAction → String
  | find => "findBy"
  | delete => "deleteBy"
  | count => "countBy"
  | probe => "existsBy"

def kind : DerivedAction → MethodKind
  | find => .derivedFind
  | delete => .derivedDelete
  | count => .derivedCount
  | probe => .derivedExists

end DerivedAction

/-- What a written clause holds its field against. -/
inductive WrittenTest
  /-- A value that the call brings. -/
  | parameter (operator : Operator)
  /-- A truth value that stands in the name. -/
  | truth (value : Bool)
deriving DecidableEq

namespace WrittenTest

def words : WrittenTest → List String
  | parameter .eq => []
  | parameter .lt => ["Less", "Than"]
  | parameter .lte => ["Less", "Than", "Equal"]
  | parameter .gt => ["Greater", "Than"]
  | parameter .gte => ["Greater", "Than", "Equal"]
  | parameter .isIn => ["In"]
  | truth true => ["True"]
  | truth false => ["False"]

def condition (field : String) : WrittenTest → Condition
  | parameter operator => .comparison field operator .parameter
  | truth value => .comparison field .eq (.literal (.boolean value))

/-- What reading takes the words for. -/
def suffix : WrittenTest → Suffix
  | parameter .eq => .equal
  | parameter .lt => .lessThan
  | parameter .lte => .lessThanEqual
  | parameter .gt => .greaterThan
  | parameter .gte => .greaterThanEqual
  | parameter .isIn => .isIn
  | truth true => .isTrue
  | truth false => .isFalse

end WrittenTest

/-- The attribute that a field means: its words without gaps, with a small letter first. -/
def attributeName (field : List String) : String :=
  String.ofList (match field.flatMap String.toList with
    | [] => []
    | c :: cs => c.toLower :: cs)

structure WrittenClause where
  field : List String
  negated : Bool
  test : WrittenTest
deriving DecidableEq

namespace WrittenClause

def words (clause : WrittenClause) : List String :=
  clause.field ++ (if clause.negated then ["Not"] else []) ++ clause.test.words

def condition (clause : WrittenClause) : Condition :=
  let leaf := clause.test.condition (attributeName clause.field)
  if clause.negated then .neg leaf else leaf

def clause (clause : WrittenClause) : Clause := ⟨clause.field, clause.negated, clause.test.suffix⟩

end WrittenClause

/-- What a derived name is to mean. -/
structure DerivedName where
  action : DerivedAction
  first : WrittenClause
  /-- The further clauses, each with what joins it to those before it. -/
  rest : List (Conjunction × WrittenClause)
  groups : List SortGroup
deriving DecidableEq

namespace DerivedName

def criteriaWords (d : DerivedName) : List String :=
  d.first.words ++ d.rest.flatMap fun part => conjunctionWord part.1 :: part.2.words

def words (d : DerivedName) : List String :=
  d.criteriaWords ++ d.groups.flatMap fun g => "Order" :: "By" :: g.words

/-- The name, written without gaps. -/
def render (d : DerivedName) : String := d.action.lead ++ String.join d.words

/-- The conditions of the clauses, combined from left to right. -/
def condition (d : DerivedName) : Condition :=
  d.rest.foldl (fun c part => c.combine part.1 part.2.condition) d.first.condition

/-- The sort keys of all groups in order; a key without direction is ascending. -/
def sorts (d : DerivedName) : List SortKey :=
  d.groups.flatMap fun g =>
    g.directed.map (fun key => ⟨attributeName key.1, key.2⟩) ++
      if g.bare = [] then [] else [⟨attributeName g.bare, .asc⟩]

/-- No field has a keyword in it, and every group has a key. -/
structure Plain (d : DerivedName) : Prop where
  first : IsField d.first.field
  rest : ∀ part ∈ d.rest, IsField part.2.field
  directed : ∀ g ∈ d.groups, ∀ key ∈ g.directed, IsField key.1
  bare : ∀ g ∈ d.groups, g.bare ≠ [] → IsField g.bare
  nonempty : ∀ g ∈ d.groups, g.directed ≠ [] ∨ g.bare ≠ []

instance (d : DerivedName) : Decidable d.Plain :=
  decidable_of_iff
    (IsField d.first.field ∧ (∀ part ∈ d.rest, IsField part.2.field) ∧
      (∀ g ∈ d.groups, ∀ key ∈ g.directed, IsField key.1) ∧
      (∀ g ∈ d.groups, g.bare ≠ [] → IsField g.bare) ∧
      ∀ g ∈ d.groups, g.directed ≠ [] ∨ g.bare ≠ [])
    ⟨fun ⟨h₁, h₂, h₃, h₄, h₅⟩ => ⟨h₁, h₂, h₃, h₄, h₅⟩,
      fun ⟨h₁, h₂, h₃, h₄, h₅⟩ => ⟨h₁, h₂, h₃, h₄, h₅⟩⟩

end DerivedName

/-! ## Words of the parts -/

namespace MethodName

theorem orderFree_of_not_mem {ws : List String} (h : "Order" ∉ ws) : OrderFree ws := by
  induction ws with
  | nil => exact List.isChain_nil
  | cons w ws ih =>
    rw [List.mem_cons, not_or] at h
    exact orderFree_cons.2 ⟨fun hpair => h.1 hpair.1.symm, ih h.2⟩

theorem isCamelWord_of_mem_keywords : ∀ w ∈ keywords, IsCamelWord w := by decide

theorem conjunctionWord_mem_keywords (k : Conjunction) :
    conjunctionWord k ∈ keywords ∧ conjunctionWord k ≠ "Order" := by
  cases k with
  | and => decide
  | or => decide

theorem lower_of_isUpper {c : Char} (h : c.isUpper = true) : Text.lower c = [c.toLower] := by
  have hrange : 'A'.val ≤ c.val ∧ c.val ≤ 'Z'.val := of_decide_eq_true h
  have hascii : c.toNat < 128 := Nat.lt_of_le_of_lt (UInt32.le_iff_toNat_le.1 hrange.2) (by decide)
  rw [Text.lower, if_pos hascii]

namespace IsField

variable {ws : List String}

theorem joinFree (h : IsField ws) : JoinFree ws := by
  intro w hw
  rw [conjunction?_eq_none_iff]
  exact ⟨fun hand => h.plain w hw (by rw [hand]; decide),
    fun hor => h.plain w hw (by rw [hor]; decide)⟩

theorem directionFree (h : IsField ws) : DirectionFree ws := by
  intro w hw
  rw [direction?_eq_none_iff]
  exact ⟨fun hasc => h.plain w hw (by rw [hasc]; decide),
    fun hdesc => h.plain w hw (by rw [hdesc]; decide)⟩

theorem order_not_mem (h : IsField ws) : "Order" ∉ ws :=
  fun hmem => h.plain _ hmem (by decide)

theorem fieldName_eq (h : IsField ws) : fieldName ws = attributeName ws := by
  obtain ⟨w, rest, rfl⟩ := List.exists_cons_of_ne_nil h.ne_nil
  obtain ⟨c, cs, hw, hupper, -⟩ := (h.camel w List.mem_cons_self).exists_cons
  rw [fieldName, attributeName, List.flatMap_cons, hw, List.cons_append, Text.decapitalize,
    lower_of_isUpper hupper, List.singleton_append]

end IsField

namespace Clause

variable {clause : Clause}

theorem isCamelWord_of_mem (h : IsField clause.field) : ∀ w ∈ clause.words, IsCamelWord w := by
  intro w hw
  rcases mem_words hw with hfield | ⟨hkeyword, -⟩
  · exact h.camel w hfield
  · exact isCamelWord_of_mem_keywords w hkeyword

theorem joinFree_words (h : IsField clause.field) : JoinFree clause.words := by
  intro w hw
  rcases mem_words hw with hfield | ⟨-, hjoin, -⟩
  · exact h.joinFree w hfield
  · exact hjoin

theorem order_not_mem_words (h : IsField clause.field) : "Order" ∉ clause.words := by
  intro hmem
  rcases mem_words hmem with hfield | ⟨-, -, hne⟩
  · exact h.order_not_mem hfield
  · exact hne rfl

end Clause

namespace SortGroup

variable {g : SortGroup}

theorem mem_words {w : String} (h : w ∈ g.words) :
    (∃ key ∈ g.directed, w ∈ key.1 ∨ w = key.2.name) ∨ w ∈ g.bare := by
  rw [words, List.mem_append, List.mem_flatMap] at h
  rcases h with ⟨key, hkey, hw⟩ | hbare
  · rw [List.mem_append, List.mem_singleton] at hw
    exact .inl ⟨key, hkey, hw⟩
  · exact .inr hbare

theorem name_mem_keywords (d : Direction) : d.name ∈ keywords ∧ d.name ≠ "Order" := by
  cases d with
  | asc => decide
  | desc => decide

section
variable (hdirected : ∀ key ∈ g.directed, IsField key.1) (hbare : g.bare ≠ [] → IsField g.bare)
include hdirected hbare

theorem isCamelWord_of_mem : ∀ w ∈ g.words, IsCamelWord w := by
  intro w hw
  rcases mem_words hw with ⟨key, hkey, hfield | rfl⟩ | hw
  · exact (hdirected key hkey).camel w hfield
  · exact isCamelWord_of_mem_keywords _ (name_mem_keywords key.2).1
  · exact (hbare (List.ne_nil_of_mem hw)).camel w hw

theorem order_not_mem_words : "Order" ∉ g.words := by
  intro hmem
  rcases mem_words hmem with ⟨key, hkey, hfield | hname⟩ | hw
  · exact (hdirected key hkey).order_not_mem hfield
  · exact (name_mem_keywords key.2).2 hname.symm
  · exact (hbare (List.ne_nil_of_mem hw)).order_not_mem hw

theorem readable_of_isField : g.Readable := by
  refine ⟨fun key hkey => ⟨(hdirected key hkey).ne_nil, (hdirected key hkey).directionFree⟩, ?_⟩
  intro w hw
  exact (hbare (List.ne_nil_of_mem hw)).directionFree w hw

end

end SortGroup

end MethodName

/-! ## Reading back -/

theorem WrittenTest.words_suffix (test : WrittenTest) : test.suffix.words = test.words := by
  obtain operator | value := test
  · cases operator <;> rfl
  · cases value <;> rfl

theorem WrittenTest.condition_eq (test : WrittenTest) (field : String) :
    Condition.comparison field test.suffix.operator test.suffix.operand = test.condition field := by
  obtain operator | value := test
  · cases operator <;> rfl
  · cases value <;> rfl

namespace WrittenClause

variable {clause : WrittenClause}

theorem words_clause (clause : WrittenClause) : clause.clause.words = clause.words := by
  rw [Clause.words, words, ← WrittenTest.words_suffix]
  rfl

variable (h : IsField clause.field)
include h

theorem isCamelWord_of_mem : ∀ w ∈ clause.words, IsCamelWord w := by
  rw [← words_clause]
  exact Clause.isCamelWord_of_mem h

theorem order_not_mem_words : "Order" ∉ clause.words := by
  rw [← words_clause]
  exact Clause.order_not_mem_words h

theorem toCondition_clause : clause.clause.toCondition = clause.condition := by
  rw [Clause.toCondition, condition, ← WrittenTest.condition_eq, ← h.fieldName_eq]
  rfl

end WrittenClause

namespace DerivedName

/-- The further clauses, as they are read. -/
def read (d : DerivedName) : List (Conjunction × Clause) :=
  d.rest.map fun part => (part.1, part.2.clause)

theorem criteriaWords_eq (d : DerivedName) : d.criteriaWords = d.first.clause.words ++
    (d.read.map fun part => (part.1, part.2.words)).flatMap joined := by
  rw [criteriaWords, read, List.flatMap_map, List.flatMap_map, WrittenClause.words_clause]
  simp only [joined, WrittenClause.words_clause]

section
variable {d : DerivedName} (h : d.Plain)
include h

theorem isField_of_mem_read : ∀ part ∈ d.read, IsField part.2.field := by
  intro part hpart
  obtain ⟨written, hwritten, rfl⟩ := List.mem_map.1 hpart
  exact h.rest written hwritten

theorem isCamelWord_of_mem_words : ∀ w ∈ d.words, IsCamelWord w := by
  intro w hw
  rw [words, criteriaWords, List.mem_append, List.mem_append, List.mem_flatMap,
    List.mem_flatMap] at hw
  rcases hw with (hw | ⟨part, hpart, hw⟩) | ⟨g, hg, hw⟩
  · exact WrittenClause.isCamelWord_of_mem h.first w hw
  · rcases List.mem_cons.1 hw with rfl | hw
    · exact isCamelWord_of_mem_keywords _ (conjunctionWord_mem_keywords part.1).1
    · exact WrittenClause.isCamelWord_of_mem (h.rest part hpart) w hw
  · rw [List.mem_cons, List.mem_cons] at hw
    rcases hw with rfl | rfl | hw
    · exact isCamelWord_of_mem_keywords _ (by decide)
    · exact isCamelWord_of_mem_keywords _ (by decide)
    · exact SortGroup.isCamelWord_of_mem (h.directed g hg) (h.bare g hg) w hw

theorem orderFree_criteriaWords : OrderFree d.criteriaWords := by
  apply orderFree_of_not_mem
  rw [criteriaWords, List.mem_append, List.mem_flatMap]
  rintro (hw | ⟨part, hpart, hw⟩)
  · exact WrittenClause.order_not_mem_words h.first hw
  · rcases List.mem_cons.1 hw with heq | hw
    · exact (conjunctionWord_mem_keywords part.1).2 heq.symm
    · exact WrittenClause.order_not_mem_words (h.rest part hpart) hw

theorem condition_eq :
    d.condition = d.first.clause.toCondition.combineAll (d.read.map conditionOf) := by
  have hrest : ∀ c : Condition, d.rest.foldl (fun c part => c.combine part.1 part.2.condition) c =
      c.combineAll (d.read.map conditionOf) := by
    have hfields := h.rest
    rw [read]
    generalize d.rest = rest at hfields ⊢
    induction rest with
    | nil => exact fun c => rfl
    | cons part rest ih =>
      obtain ⟨hpart, hfields⟩ := List.forall_mem_cons.1 hfields
      intro c
      rw [List.foldl_cons, ih hfields, ← WrittenClause.toCondition_clause hpart]
      rfl
  rw [condition, hrest, WrittenClause.toCondition_clause h.first]

theorem criteria_criteriaWords (method : String) :
    criteria method d.criteriaWords = .ok d.condition := by
  refine criteria_eq_ok_iff.2 ⟨d.first.clause.words,
    d.read.map fun part => (part.1, part.2.words), d.first.clause, d.read, criteriaWords_eq d,
    Clause.joinFree_words h.first, ?_, Clause.parse_words h.first,
    mapM_parsePart_words (isField_of_mem_read h), condition_eq h⟩
  intro part hpart
  obtain ⟨clause, hclause, rfl⟩ := List.mem_map.1 hpart
  exact Clause.joinFree_words (isField_of_mem_read h clause hclause)

theorem sorts_eq : d.sorts = d.groups.flatMap SortGroup.keys := by
  refine List.flatMap_congr fun g hg => ?_
  rw [SortGroup.keys]
  congr 1
  · refine List.map_congr_left fun key hkey => ?_
    rw [(h.directed g hg key hkey).fieldName_eq]
  · split
    · rfl
    · next hbare => rw [(h.bare g hg hbare).fieldName_eq]

theorem ordering_groups (method : String) :
    ordering method (d.groups.map SortGroup.words) = .ok d.sorts := by
  refine ordering_eq_ok_iff.2 ⟨d.groups, ?_, rfl, sorts_eq h, ?_⟩
  · intro g hg
    exact SortGroup.readable_of_isField (h.directed g hg) (h.bare g hg)
  · cases hgroups : d.groups with
    | nil => exact .inl rfl
    | cons g gs =>
      have hg : g ∈ d.groups := by rw [hgroups]; exact List.mem_cons_self
      refine .inr ⟨g, List.mem_cons_self, ?_⟩
      rw [Ne, SortGroup.words_eq_nil_iff, not_and_or]
      exact h.nonempty g hg

end

/-- **Parsing undoes writing.**  A name written from what it is to mean is parsed into just that:
the kind of its lead, the conditions of exactly its clauses combined from left to right, each with
its field, operator and operand and negated where it is written so, and exactly its sort keys. -/
theorem parse_render {d : DerivedName} (h : d.Plain) :
    MethodQuery.parse d.render = .ok ⟨d.action.kind, d.condition, d.sorts⟩ := by
  have hlead : (d.action.lead, d.action.kind) ∈ MethodKind.leads := by
    cases d.action <;> decide
  refine MethodQuery.parse_eq_ok_iff.2 ⟨d.action.lead, d.words.flatMap String.toList,
    d.criteriaWords, d.groups.map SortGroup.words, hlead, ?_, ?_, orderFree_criteriaWords h, ?_,
    criteria_criteriaWords h _, ordering_groups h _⟩
  · rw [render, String.toList_append, String.toList_join]
  · rw [words_flatMap (isCamelWord_of_mem_words h), List.flatMap_map]
    rfl
  · intro group hgroup
    obtain ⟨g, hg, rfl⟩ := List.mem_map.1 hgroup
    exact orderFree_of_not_mem (SortGroup.order_not_mem_words (h.directed g hg) (h.bare g hg))

/-- A negated suffix that starts like another, a literal before a conjunction, `Or` beside `Order`,
and a bare key before a second group. -/
theorem parse_render_two_groups :
    let d : DerivedName := ⟨.delete, ⟨["Release", "Year"], true, .parameter .lte⟩,
      [(.or, ⟨["Active"], false, .truth true⟩), (.and, ⟨["Title"], false, .parameter .isIn⟩)],
      [⟨[(["Edition"], .desc)], ["Release", "Year"]⟩, ⟨[], ["Isbn"]⟩]⟩
    d.Plain ∧
    MethodQuery.parse
      ("deleteByReleaseYearNotLessThanEqualOrActiveTrueAndTitleInOrderByEditionDescReleaseYear" ++
        "OrderByIsbn") =
      .ok ⟨.derivedDelete,
        .conj [.disj [.neg (.comparison "releaseYear" .lte .parameter),
          .comparison "active" .eq (.literal (.boolean true))],
          .comparison "title" .isIn .parameter],
        [⟨"edition", .desc⟩, ⟨"releaseYear", .asc⟩, ⟨"isbn", .asc⟩]⟩ := by
  intro d
  have hplain : d.Plain := by decide
  exact ⟨hplain, parse_render hplain⟩

end DerivedName

end EntityStore
