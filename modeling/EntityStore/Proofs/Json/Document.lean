import EntityStore.Json.Fields
import EntityStore.Proofs.Json.Tokens
import Mathlib.Data.List.Nodup

/-!
# Documents read back

A document is its row of tokens, written one behind the other.  Reading gives the document back
whenever its numbers are whole and its texts can be used.

    doc.chars = doc.tokens.flatMap Token.chars                                  (chars_eq_flatMap)
    doc.tokens.IsChain Token.Apart                                                (isChain_tokens)
    2 * doc.tokens.length ≤ fuel → read fuel (doc.tokens ++ rest) = some (doc, rest)  (read_tokens)
    doc.Writable → parse? doc.render = some doc                                     (parse?_render)
    (members.map (·.1)).Nodup → (ofMembers members).fields? names =
      some (names.map fun n => (members.find? fun m => m.1 = n).map (·.2))      (fields?_ofMembers)
-/

namespace EntityStore.Json

/-! ## The tokens of a document -/

mutual

def tokens : Json → List Token
  | null => [.null]
  | boolean b => [.boolean b]
  | number n => [.number n]
  | text s => [.text s]
  | array items => .openBracket :: tokensItems items ++ [.closeBracket]
  | object members => .openBrace :: tokensMembers members ++ [.closeBrace]

def tokensItems : List Json → List Token
  | [] => []
  | [item] => tokens item
  | item :: items => tokens item ++ .comma :: tokensItems items

def tokensMembers : List (Option (List Char) × Json) → List Token
  | [] => []
  | [(name, content)] => .text name :: .colon :: tokens content
  | (name, content) :: members =>
    .text name :: .colon :: tokens content ++ .comma :: tokensMembers members

end

/-- Only whole numbers, and only texts that can be used. -/
def Writable (doc : Json) : Prop := ∀ t ∈ doc.tokens, t.Readable

mutual

theorem chars_eq_flatMap : ∀ doc : Json, doc.chars = doc.tokens.flatMap Token.chars
  | null => rfl
  | boolean b => (List.append_nil _).symm
  | number n => (List.append_nil _).symm
  | text s => (List.append_nil _).symm
  | array items => by
    rw [chars, tokens, List.flatMap_append, List.flatMap_cons, charsItems_eq_flatMap items]
    rfl
  | object members => by
    rw [chars, tokens, List.flatMap_append, List.flatMap_cons, charsMembers_eq_flatMap members]
    rfl

theorem charsItems_eq_flatMap : ∀ items : List Json,
    charsItems items = (tokensItems items).flatMap Token.chars
  | [] => rfl
  | [item] => chars_eq_flatMap item
  | item :: item' :: items => by
    show chars item ++ ',' :: charsItems (item' :: items) =
      (tokens item ++ .comma :: tokensItems (item' :: items)).flatMap Token.chars
    rw [List.flatMap_append, List.flatMap_cons, chars_eq_flatMap item,
      charsItems_eq_flatMap (item' :: items)]
    rfl

theorem charsMembers_eq_flatMap : ∀ members : List (Option (List Char) × Json),
    charsMembers members = (tokensMembers members).flatMap Token.chars
  | [] => rfl
  | [(name, content)] => by
    rw [charsMembers, tokensMembers, List.flatMap_cons, List.flatMap_cons,
      chars_eq_flatMap content]
    rfl
  | (name, content) :: member :: members => by
    show quote (name.getD []) ++ ':' :: chars content ++ ',' :: charsMembers (member :: members) =
      (.text name :: .colon :: tokens content ++
        .comma :: tokensMembers (member :: members)).flatMap Token.chars
    rw [List.flatMap_append, List.flatMap_cons, List.flatMap_cons, List.flatMap_cons,
      chars_eq_flatMap content, charsMembers_eq_flatMap (member :: members)]
    rfl

end

/-! ## No number runs on -/

namespace Token

variable {t : Token} {us vs : List Token}

theorem isChain_cons (h : t.isNumber = false) (hvs : vs.IsChain Apart) :
    (t :: vs).IsChain Apart := by
  refine List.isChain_cons.2 ⟨?_, hvs⟩
  intro u _ ht
  rw [h] at ht
  cases ht

theorem isChain_append_cons (hus : us.IsChain Apart) (hvs : vs.IsChain Apart)
    (h : t.isPunctuation = true) : (us ++ t :: vs).IsChain Apart := by
  have hnumber : t.isNumber = false := by
    cases t <;> first | rfl | cases h
  refine List.isChain_append.2 ⟨hus, isChain_cons hnumber hvs, ?_⟩
  rintro u _ _ ⟨⟩ _
  exact h

end Token

mutual

theorem isChain_tokens : ∀ doc : Json, doc.tokens.IsChain Token.Apart
  | null => .singleton _
  | boolean _ => .singleton _
  | number _ => .singleton _
  | text _ => .singleton _
  | array items =>
    Token.isChain_append_cons (Token.isChain_cons rfl (isChain_tokensItems items)) .nil rfl
  | object members =>
    Token.isChain_append_cons (Token.isChain_cons rfl (isChain_tokensMembers members)) .nil rfl

theorem isChain_tokensItems : ∀ items : List Json, (tokensItems items).IsChain Token.Apart
  | [] => .nil
  | [item] => isChain_tokens item
  | item :: item' :: items =>
    Token.isChain_append_cons (isChain_tokens item) (isChain_tokensItems (item' :: items)) rfl

theorem isChain_tokensMembers : ∀ members : List (Option (List Char) × Json),
    (tokensMembers members).IsChain Token.Apart
  | [] => .nil
  | [(_, content)] => Token.isChain_cons rfl (Token.isChain_cons rfl (isChain_tokens content))
  | (_, content) :: member :: members =>
    Token.isChain_append_cons
      (Token.isChain_cons rfl (Token.isChain_cons rfl (isChain_tokens content)))
      (isChain_tokensMembers (member :: members)) rfl

end

/-! ## Reading the tokens -/

variable {fuel : Nat} {doc : Json} {rest ts : List Token}

theorem head?_tokens (doc : Json) (rest : List Token) :
    (doc.tokens ++ rest).head? ≠ some .closeBracket := by
  cases doc <;> exact nofun

theorem head?_tokensItems (item : Json) (items : List Json) (rest : List Token) :
    (tokensItems (item :: items) ++ rest).head? ≠ some .closeBracket := by
  cases items with
  | nil => exact head?_tokens item rest
  | cons item' items =>
    rw [tokensItems, List.append_assoc]
    · exact head?_tokens item _
    · exact nofun

theorem head?_tokensMembers (member : Option (List Char) × Json)
    (members : List (Option (List Char) × Json)) (rest : List Token) :
    (tokensMembers (member :: members) ++ rest).head? ≠ some .closeBrace := by
  cases members <;> exact nofun

theorem read_openBracket (h : ts.head? ≠ some .closeBracket) :
    read (fuel + 1) (.openBracket :: ts) =
      (readItems fuel ts).map fun (items, rest) => (array items, rest) := by
  rw [read]
  rintro _ rfl
  exact h rfl

theorem read_openBrace (h : ts.head? ≠ some .closeBrace) :
    read (fuel + 1) (.openBrace :: ts) =
      (readMembers fuel ts).map fun (members, rest) => (object members, rest) := by
  rw [read]
  rintro _ rfl
  exact h rfl

theorem readItems_last (h : read fuel ts = some (doc, .closeBracket :: rest)) :
    readItems (fuel + 1) ts = some ([doc], rest) := by
  rw [readItems]
  simp only [h]

theorem readItems_more (h : read fuel ts = some (doc, .comma :: rest)) :
    readItems (fuel + 1) ts =
      (readItems fuel rest).map fun (items, rest) => (doc :: items, rest) := by
  rw [readItems]
  simp only [h]

theorem readMembers_last {name : Option (List Char)}
    (h : read fuel ts = some (doc, .closeBrace :: rest)) :
    readMembers (fuel + 1) (.text name :: .colon :: ts) = some ([(name, doc)], rest) := by
  rw [readMembers]
  simp only [h]

theorem readMembers_more {name : Option (List Char)}
    (h : read fuel ts = some (doc, .comma :: rest)) :
    readMembers (fuel + 1) (.text name :: .colon :: ts) =
      (readMembers fuel rest).map fun (members, rest) => ((name, doc) :: members, rest) := by
  rw [readMembers]
  simp only [h]

mutual

-- Reading makes at most two steps for each token: one passes it, one goes down to an item.
theorem read_tokens : ∀ (doc : Json) {fuel : Nat} {rest : List Token},
    2 * doc.tokens.length ≤ fuel → read fuel (doc.tokens ++ rest) = some (doc, rest)
  | null, fuel + 1, _, _ => rfl
  | boolean _, fuel + 1, _, _ => rfl
  | number _, fuel + 1, _, _ => rfl
  | text _, fuel + 1, _, _ => rfl
  | array [], fuel + 1, _, _ => rfl
  | object [], fuel + 1, _, _ => rfl
  | array (item :: items), fuel + 1, rest, hfuel => by
    have htokens : (array (item :: items)).tokens ++ rest =
        .openBracket :: (tokensItems (item :: items) ++ .closeBracket :: rest) := by
      simp [tokens]
    have hlength : (array (item :: items)).tokens.length =
        (tokensItems (item :: items)).length + 2 := by
      simp [tokens]
    have hitems : readItems fuel (tokensItems (item :: items) ++ .closeBracket :: rest) =
        some (item :: items, rest) := readItems_tokens item items (by omega)
    rw [htokens, read_openBracket (head?_tokensItems item items _), hitems]
    rfl
  | object (member :: members), fuel + 1, rest, hfuel => by
    have htokens : (object (member :: members)).tokens ++ rest =
        .openBrace :: (tokensMembers (member :: members) ++ .closeBrace :: rest) := by
      simp [tokens]
    have hlength : (object (member :: members)).tokens.length =
        (tokensMembers (member :: members)).length + 2 := by
      simp [tokens]
    have hmembers : readMembers fuel (tokensMembers (member :: members) ++ .closeBrace :: rest) =
        some (member :: members, rest) := readMembers_tokens member members (by omega)
    rw [htokens, read_openBrace (head?_tokensMembers member members _), hmembers]
    rfl

theorem readItems_tokens : ∀ (item : Json) (items : List Json) {fuel : Nat} {rest : List Token},
    2 * (tokensItems (item :: items)).length < fuel →
      readItems fuel (tokensItems (item :: items) ++ .closeBracket :: rest) =
        some (item :: items, rest)
  | item, [], fuel + 1, _, hfuel =>
    readItems_last (read_tokens item (Nat.le_of_lt_succ hfuel))
  | item, item' :: items, fuel + 1, rest, hfuel => by
    have htokens : tokensItems (item :: item' :: items) ++ .closeBracket :: rest =
        item.tokens ++ .comma :: (tokensItems (item' :: items) ++ .closeBracket :: rest) := by
      simp [tokensItems]
    have hlength : (tokensItems (item :: item' :: items)).length =
        item.tokens.length + (tokensItems (item' :: items)).length + 1 := by
      simp [tokensItems]
      omega
    have hitem {rest : List Token} : read fuel (item.tokens ++ rest) = some (item, rest) :=
      read_tokens item (by omega)
    rw [htokens, readItems_more hitem, readItems_tokens item' items (by omega)]
    rfl

theorem readMembers_tokens : ∀ (member : Option (List Char) × Json)
    (members : List (Option (List Char) × Json)) {fuel : Nat} {rest : List Token},
    2 * (tokensMembers (member :: members)).length < fuel →
      readMembers fuel (tokensMembers (member :: members) ++ .closeBrace :: rest) =
        some (member :: members, rest)
  | (name, content), [], fuel + 1, rest, hfuel => by
    have hlength : (tokensMembers [(name, content)]).length = content.tokens.length + 2 := by
      simp [tokensMembers]
    exact readMembers_last (read_tokens content (by omega))
  | (name, content), member :: members, fuel + 1, rest, hfuel => by
    have htokens : tokensMembers ((name, content) :: member :: members) ++ .closeBrace :: rest =
        .text name :: .colon :: (content.tokens ++
          .comma :: (tokensMembers (member :: members) ++ .closeBrace :: rest)) := by
      simp [tokensMembers]
    have hlength : (tokensMembers ((name, content) :: member :: members)).length =
        content.tokens.length + (tokensMembers (member :: members)).length + 3 := by
      simp [tokensMembers]
      omega
    have hcontent {rest : List Token} :
        read fuel (content.tokens ++ rest) = some (content, rest) :=
      read_tokens content (by omega)
    rw [htokens, readMembers_more hcontent, readMembers_tokens member members (by omega)]
    rfl

end

/-! ## Reading the text -/

theorem ofTokens?_tokens (doc : Json) : ofTokens? doc.tokens = some doc := by
  have hread : read (2 * doc.tokens.length + 1) (doc.tokens ++ []) = some (doc, []) :=
    read_tokens doc (Nat.le_succ _)
  rw [List.append_nil] at hread
  rw [ofTokens?, hread]

theorem parse?_render (h : doc.Writable) : parse? doc.render = some doc := by
  have htokens : tokens? doc.chars = some doc.tokens := by
    rw [chars_eq_flatMap]
    exact tokens?_flatMap h (isChain_tokens doc)
  rw [parse?, render, String.toList_ofList, ofChars?, htokens]
  exact ofTokens?_tokens doc

/-! ## Built documents -/

theorem readable_tokensItems {items : List Json} (h : ∀ item ∈ items, item.Writable) :
    ∀ t ∈ tokensItems items, t.Readable := by
  induction items with
  | nil => exact nofun
  | cons item items ih =>
    rw [List.forall_mem_cons] at h
    cases items with
    | nil => exact h.1
    | cons item' items =>
      exact List.forall_mem_append.2 ⟨h.1, List.forall_mem_cons.2 ⟨trivial, ih h.2⟩⟩

theorem readable_tokensMembers {members : List (Option (List Char) × Json)}
    (h : ∀ m ∈ members, m.1.isSome = true ∧ m.2.Writable) :
    ∀ t ∈ tokensMembers members, t.Readable := by
  induction members with
  | nil => exact nofun
  | cons m members ih =>
    rw [List.forall_mem_cons] at h
    have hfirst : ∀ t ∈ tokensMembers [m], t.Readable :=
      List.forall_mem_cons.2 ⟨h.1.1, List.forall_mem_cons.2 ⟨trivial, h.1.2⟩⟩
    cases members with
    | nil => exact hfirst
    | cons m' members =>
      exact List.forall_mem_append.2 ⟨hfirst, List.forall_mem_cons.2 ⟨trivial, ih h.2⟩⟩

theorem writable_array {items : List Json} (h : ∀ item ∈ items, item.Writable) :
    (array items).Writable := by
  refine List.forall_mem_append.2 ⟨List.forall_mem_cons.2 ⟨trivial, ?_⟩, ?_⟩
  · exact readable_tokensItems h
  · exact List.forall_mem_singleton.2 trivial

theorem writable_object {members : List (Option (List Char) × Json)}
    (h : ∀ m ∈ members, m.1.isSome = true ∧ m.2.Writable) : (object members).Writable := by
  refine List.forall_mem_append.2 ⟨List.forall_mem_cons.2 ⟨trivial, ?_⟩, ?_⟩
  · exact readable_tokensMembers h
  · exact List.forall_mem_singleton.2 trivial

theorem writable_ofMembers {members : List (String × Json)} (h : ∀ m ∈ members, m.2.Writable) :
    (ofMembers members).Writable :=
  writable_object (List.forall_mem_map.2 fun m hm => ⟨rfl, h m hm⟩)

theorem writable_tagged (tag : String) (h : doc.Writable) : (tagged tag doc).Writable :=
  writable_object (List.forall_mem_singleton.2 ⟨rfl, h⟩)

theorem writable_boolean (b : Bool) : (boolean b).Writable := List.forall_mem_singleton.2 trivial

theorem writable_text (cs : List Char) : (text (some cs)).Writable :=
  List.forall_mem_singleton.2 rfl

theorem writable_ofInt (n : Int) : (ofInt n).Writable := List.forall_mem_singleton.2 ⟨n, rfl⟩

theorem depth_tagged (tag : String) (content : Json) :
    (tagged tag content).depth = content.depth + 1 :=
  congrArg (· + 1) (Nat.max_zero content.depth)

theorem text?_ofText (s : String) : (ofText s).text? = some s := congrArg some String.ofList_toList

theorem int?_ofInt (n : Int) : (ofInt n).int? = some n := Numeral.toInt?_ofInt n

-- Stated for any number: with one at hand, the check on the bounds would be computed.
theorem size?_of_int? {n : Int} (h : doc.int? = some n) :
    doc.size? = if 0 ≤ n ∧ n < UInt64.size then some (UInt64.ofNat n.toNat) else none := by
  rw [size?, h]
  rfl

theorem size?_ofSize (n : UInt64) : (ofSize n).size? = some n := by
  have hint : (ofSize n).int? = some (n.toNat : Int) := int?_ofInt n.toNat
  have hrange : (0 : Int) ≤ n.toNat ∧ (n.toNat : Int) < UInt64.size :=
    ⟨Int.natCast_nonneg _, Int.ofNat_lt.2 n.toNat_lt_size⟩
  rw [size?_of_int? hint, if_pos hrange, Int.toNat_natCast, UInt64.ofNat_toNat]

theorem keyed_fst_eq_iff {n : String} {m : String × Json} :
    (keyed m.1 m.2).1 = some n.toList ↔ m.1 = n := by
  rw [keyed, Option.some.injEq, String.toList_inj]

/-- Of members whose names differ, each is found under its name. -/
theorem fields?_ofMembers {members : List (String × Json)}
    (h : (members.map (·.1)).Nodup) (names : List String) :
    (ofMembers members).fields? names =
      some (names.map fun n => (members.find? fun m => m.1 = n).map (·.2)) := by
  have hnames : ((members.map fun m => keyed m.1 m.2).any fun m => m.1.isNone) = false := by
    rw [List.any_map]
    exact List.any_eq_false.2 fun m _ => nofun
  have honce : (names.any fun n => 1 < (members.map fun m => keyed m.1 m.2).countP
      fun m => m.1 = some n.toList) = false := by
    refine List.any_eq_false.2 fun n _ => ?_
    have hcount := List.nodup_iff_count_le_one.1 h n
    rw [List.count_eq_countP, List.countP_map] at hcount
    rw [decide_eq_true_iff, Nat.not_lt, List.countP_map]
    refine Nat.le_trans (List.countP_mono_left fun m _ hm => ?_) hcount
    exact beq_iff_eq.2 (keyed_fst_eq_iff.1 (of_decide_eq_true hm))
  have hfind : ∀ n, ((members.map fun m => keyed m.1 m.2).find? fun m =>
      m.1 = some n.toList).map (·.2) = (members.find? fun m => m.1 = n).map (·.2) := by
    intro n
    rw [List.find?_map, Option.map_map]
    simp only [Function.comp_def, keyed_fst_eq_iff]
    rfl
  rw [ofMembers, fields?, fieldsOfMembers?, hnames, honce]
  simp only [hfind]
  rfl

end EntityStore.Json
