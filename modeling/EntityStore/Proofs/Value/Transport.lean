import EntityStore.Proofs.Calendar.DateText
import EntityStore.Proofs.Json.Document
import EntityStore.Value.Transport

/-!
# Values survive their transport

Each kind but floats is written in a form that names one value, so a value is found again in its
document, and the document in its text.  Two levels of nesting in the document stand for each list
around a value, and only their number can keep a text from being read.

    v.hasFloat = false → readTransport? v.transport = some v          (readTransport?_transport)
    2 * v.nesting ≤ v.transport.depth ≤ 2 * v.nesting + 1                      (depth_transport)
    v.hasFloat = false →
      parse? v.transport.render = if v.nesting ≤ 63 then some v else none     (survives_transport)
-/

namespace EntityStore.Value

mutual

def hasFloat : Value → Bool
  | float _ => true
  | list items => hasFloatAny items
  | _ => false

def hasFloatAny : List Value → Bool
  | [] => false
  | v :: vs => hasFloat v || hasFloatAny vs

end

mutual

/-- How many lists stand inside each other. -/
def nesting : Value → Nat
  | list items => nestingAll items + 1
  | _ => 0

def nestingAll : List Value → Nat
  | [] => 0
  | v :: vs => max (nesting v) (nestingAll vs)

end

/-! ## The document -/

mutual

theorem writable_transport : ∀ {v : Value}, v.hasFloat = false → v.transport.Writable
  | null, _ => Json.writable_text _
  | integer n, _ => Json.writable_tagged _ (Json.writable_ofInt n.toInt)
  | text s, _ => Json.writable_tagged _ (Json.writable_text s.toList)
  | boolean b, _ => Json.writable_tagged _ (Json.writable_boolean b)
  | date d, _ => Json.writable_tagged _ (Json.writable_text d.chars)
  | list _, h => Json.writable_tagged _ (Json.writable_array (writable_transportAll h))

theorem writable_transportAll : ∀ {vs : List Value}, hasFloatAny vs = false →
    ∀ doc ∈ transportAll vs, doc.Writable
  | [], _ => nofun
  | _ :: _, h =>
    have hfree := Bool.or_eq_false_iff.1 h
    List.forall_mem_cons.2 ⟨writable_transport hfree.1, writable_transportAll hfree.2⟩

end

mutual

theorem depth_transport : ∀ v : Value,
    2 * v.nesting ≤ v.transport.depth ∧ v.transport.depth ≤ 2 * v.nesting + 1
  | null => ⟨Nat.le_refl 0, Nat.zero_le 1⟩
  | integer _ | text _ | boolean _ | date _ => ⟨Nat.zero_le 1, Nat.le_refl 1⟩
  | float x => by
    rw [transport, Json.depth_tagged, floatDocument]
    split <;> exact ⟨Nat.zero_le 1, Nat.le_refl 1⟩
  | list items => by
    have hitems := depth_transportAll items
    have hdepth : (transport (list items)).depth = Json.depthItems (transportAll items) + 2 :=
      Json.depth_tagged _ _
    have hnesting : (list items).nesting = nestingAll items + 1 := rfl
    omega

theorem depth_transportAll : ∀ vs : List Value,
    2 * nestingAll vs ≤ Json.depthItems (transportAll vs) ∧
      Json.depthItems (transportAll vs) ≤ 2 * nestingAll vs + 1
  | [] => ⟨Nat.le_refl 0, Nat.zero_le 1⟩
  | v :: vs => by
    have hfirst := depth_transport v
    have hrest := depth_transportAll vs
    rw [nestingAll, transportAll, Json.depthItems]
    omega

end

/-! ## Reading the document -/

theorem readInteger?_ofInt (n : Int64) :
    readInteger? (.number (Numeral.ofInt n.toInt)) = some n := by
  have hint : (Json.number (Numeral.ofInt n.toInt)).int? = some n.toInt := Json.int?_ofInt n.toInt
  have hrange : Int64.minValue.toInt ≤ n.toInt ∧ n.toInt ≤ Int64.maxValue.toInt := by
    rw [Int64.toInt_minValue, Int64.toInt_maxValue]
    exact ⟨n.le_toInt, Int.le_sub_one_of_lt n.toInt_lt⟩
  rw [readInteger?, hint]
  show (if _ then _ else _) = _
  rw [if_pos hrange, Int64.ofInt_toInt]

mutual

theorem readTransport?_transport : ∀ {v : Value}, v.hasFloat = false →
    readTransport? v.transport = some v
  | null, _ => rfl
  | integer n, _ => congrArg (Option.map integer) (readInteger?_ofInt n)
  | text s, _ => congrArg (Option.map text) (Json.text?_ofText s)
  | boolean _, _ => rfl
  | date d, _ => congrArg (Option.map date) (Date.ofChars?_chars d)
  | list _, h => congrArg (Option.map list) (readAll?_transportAll h)

theorem readAll?_transportAll : ∀ {vs : List Value}, hasFloatAny vs = false →
    readAll? (transportAll vs) = some vs
  | [], _ => rfl
  | v :: vs, h => by
    have hfree := Bool.or_eq_false_iff.1 h
    rw [transportAll, readAll?, readTransport?_transport hfree.1, readAll?_transportAll hfree.2]
    rfl

end

/-! ## Top theorem -/

/-- **Values survive their transport.**  The text of a value without floats is read back as that
value, whatever its texts, numbers and dates are, as long as lists are nested at most 63 deep;
deeper ones are refused. -/
theorem survives_transport {v : Value} (h : v.hasFloat = false) :
    parse? v.transport.render = if v.nesting ≤ 63 then some v else none := by
  have hparse : Json.parse? v.transport.render = some v.transport :=
    Json.parse?_render (writable_transport h)
  have hdepth : v.transport.depth ≤ maxDepth ↔ v.nesting ≤ 63 := by
    have hbounds := depth_transport v
    rw [maxDepth]
    omega
  rw [parse?, hparse]
  show (if v.transport.depth ≤ maxDepth then readTransport? v.transport else none) = _
  simp only [hdepth, readTransport?_transport h]

/-- A quote, a backslash, control characters, the least integer, years with a sign and `null` in
nested lists. -/
theorem survives_transport_nested_list :
    let v : Value := .list [.null, .list [.text "\"\\\n\x01é", .integer Int64.minValue],
      .list [], .date ⟨-262143, 1, 1, by decide⟩, .date ⟨12345, 12, 31, by decide⟩,
      .boolean false]
    v.hasFloat = false ∧
      v.transport.render = "\x7b\"List\":[\"Null\"," ++
        "\x7b\"List\":[\x7b\"Text\":\"\\\"\\\\\\n\\u0001é\"\x7d," ++
        "\x7b\"Integer\":-9223372036854775808\x7d]\x7d,\x7b\"List\":[]\x7d," ++
        "\x7b\"Date\":\"-262143-01-01\"\x7d,\x7b\"Date\":\"+12345-12-31\"\x7d," ++
        "\x7b\"Boolean\":false\x7d]\x7d" ∧
      parse? v.transport.render = some v := by
  intro v
  refine ⟨rfl, by decide +kernel, ?_⟩
  rw [survives_transport (v := v) rfl]
  rfl

end EntityStore.Value
