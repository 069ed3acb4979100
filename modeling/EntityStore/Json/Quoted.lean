import EntityStore.Text.Hexadecimal

/-!
# Quoted text

Text between quotes.  Writing escapes the quote, the backslash and the characters below the blank;
reading undoes the short escapes and `\u` escapes, of which two that name the halves of a surrogate
pair stand for one character.

    unquote (quotedBody cs ++ '"' :: rest) = some (some cs, rest)      (unquote_quotedBody)

Reading returns `some none` for the text where an escape names half a pair alone: such a text can
be passed over but not used.
-/

namespace EntityStore.Json

/-! ## Writing -/

def escape (c : Char) : List Char :=
  if c = '"' then ['\\', '"']
  else if c = '\\' then ['\\', '\\']
  else if c = '\n' then ['\\', 'n']
  else if c = '\r' then ['\\', 'r']
  else if c = '\t' then ['\\', 't']
  else if c = '\x08' then ['\\', 'b']
  else if c = '\x0c' then ['\\', 'f']
  else if c.toNat < 32 then ['\\', 'u', '0', '0', Text.hexDigit (c.toNat / 16),
    Text.hexDigit (c.toNat % 16)]
  else [c]

def quotedBody (cs : List Char) : List Char := cs.flatMap escape

def quote (cs : List Char) : List Char := '"' :: quotedBody cs ++ ['"']

/-! ## Reading -/

/-- What one character or escape of a quoted text stands for. -/
inductive TextUnit
  | char (c : Char)
  /-- A 16-bit code unit named by its number. -/
  | code (n : Nat)
deriving DecidableEq

/-- The number that four hexadecimal digits denote. -/
def codeOf? (a b c d : Char) : Option Nat := Text.hexNumber? 0 [a, b, c, d]

def shortEscape? : Char → Option Char
  | '"' => some '"'
  | '\\' => some '\\'
  | '/' => some '/'
  | 'b' => some '\x08'
  | 'f' => some '\x0c'
  | 'n' => some '\n'
  | 'r' => some '\r'
  | 't' => some '\t'
  | _ => none

/-- The units up to the closing quote, and what follows it. -/
def units? : List Char → Option (List TextUnit × List Char)
  | [] => none
  | '"' :: rest => some ([], rest)
  | '\\' :: 'u' :: a :: b :: c :: d :: rest => do
    let n ← codeOf? a b c d
    let (us, rest) ← units? rest
    pure (.code n :: us, rest)
  | '\\' :: c :: rest => do
    let e ← shortEscape? c
    let (us, rest) ← units? rest
    pure (.char e :: us, rest)
  | c :: rest => do
    if c.toNat < 32 ∨ c = '\\' then none
    let (us, rest) ← units? rest
    pure (.char c :: us, rest)

def isHighSurrogate (n : Nat) : Bool := 0xd800 ≤ n && n < 0xdc00

def isLowSurrogate (n : Nat) : Bool := 0xdc00 ≤ n && n < 0xe000

/-- Joins the halves of surrogate pairs; nothing where a half stands alone. -/
def joinUnits? : List TextUnit → Option (List Char)
  | [] => some []
  | .code high :: .code low :: rest =>
    if isHighSurrogate high then
      if isLowSurrogate low then
        (joinUnits? rest).map (Char.ofNat (0x10000 + (high - 0xd800) * 1024 + (low - 0xdc00)) :: ·)
      else none
    else if isLowSurrogate high then none
    else (joinUnits? (.code low :: rest)).map (Char.ofNat high :: ·)
  | .code n :: rest =>
    if isHighSurrogate n || isLowSurrogate n then none
    else (joinUnits? rest).map (Char.ofNat n :: ·)
  | .char c :: rest => (joinUnits? rest).map (c :: ·)

/-- Reads a quoted text whose opening quote has been passed. -/
def unquote (cs : List Char) : Option (Option (List Char) × List Char) :=
  (units? cs).map fun (us, rest) => (joinUnits? us, rest)

/-! ## Lemmas -/

/-- The unit that the written form of a character is read as. -/
def unitOf (c : Char) : TextUnit :=
  if c.toNat < 32 ∧ c ∉ ['\n', '\r', '\t', '\x08', '\x0c'] then .code c.toNat else .char c

theorem codeOf?_hexDigit {n : Nat} (h : n < 32) :
    codeOf? '0' '0' (Text.hexDigit (n / 16)) (Text.hexDigit (n % 16)) = some n := by
  have h1 : Text.hexValue? (Text.hexDigit (n / 16)) = some (n / 16) :=
    Text.hexValue?_hexDigit (by omega)
  have h2 : Text.hexValue? (Text.hexDigit (n % 16)) = some (n % 16) :=
    Text.hexValue?_hexDigit (by omega)
  have h0 : Text.hexValue? '0' = some 0 := by decide
  simp only [codeOf?, Text.hexNumber?, h0, h1, h2, Option.bind_some, Option.some.injEq]
  omega

theorem units?_escape (c : Char) (rest : List Char) :
    units? (escape c ++ rest) = (units? rest).map fun p => (unitOf c :: p.1, p.2) := by
  by_cases h : c ∈ ['"', '\\', '\n', '\r', '\t', '\x08', '\x0c']
  · simp only [List.mem_cons, List.not_mem_nil, or_false] at h
    rcases h with rfl | rfl | rfl | rfl | rfl | rfl | rfl <;>
      cases hr : units? rest <;> simp [escape, units?, shortEscape?, unitOf, hr]
  · simp only [List.mem_cons, List.not_mem_nil, or_false, not_or] at h
    obtain ⟨h1, h2, h3, h4, h5, h6, h7⟩ := h
    by_cases h32 : c.toNat < 32
    · simp only [escape, h1, h2, h3, h4, h5, h6, h7, h32, if_true, if_false, List.cons_append,
        List.nil_append, units?, codeOf?_hexDigit h32]
      cases hr : units? rest <;> simp [unitOf, h3, h4, h5, h6, h7, h32]
    · simp only [escape, h1, h2, h3, h4, h5, h6, h7, h32, if_false, List.cons_append,
        List.nil_append]
      rw [units?.eq_def]
      split
      · simp_all
      · simp_all
      · simp_all
      · simp_all
      · next c' rest' _ _ _ heq =>
        obtain ⟨rfl, rfl⟩ := heq
        cases hr : units? rest <;> simp [unitOf, h2, h32]

theorem joinUnits?_unitOf (c : Char) (us : List TextUnit) :
    joinUnits? (unitOf c :: us) = (joinUnits? us).map (c :: ·) := by
  unfold unitOf
  split
  · next h =>
    have hc : Char.ofNat c.toNat = c := Char.ofNat_toNat c
    have hh : isHighSurrogate c.toNat = false := by simp [isHighSurrogate]; omega
    have hl : isLowSurrogate c.toNat = false := by simp [isLowSurrogate]; omega
    rcases us with _ | ⟨_ | _, _⟩ <;> simp [joinUnits?, hh, hl, hc]
  · simp [joinUnits?]

theorem joinUnits?_map_unitOf (cs : List Char) : joinUnits? (cs.map unitOf) = some cs := by
  induction cs with
  | nil => simp [joinUnits?]
  | cons c cs ih => simp [joinUnits?_unitOf, ih]

theorem units?_quotedBody (cs rest : List Char) :
    units? (quotedBody cs ++ '"' :: rest) = some (cs.map unitOf, rest) := by
  induction cs with
  | nil => simp [quotedBody, units?]
  | cons c cs ih =>
    have h : quotedBody (c :: cs) = escape c ++ quotedBody cs := by simp [quotedBody]
    rw [h, List.append_assoc, units?_escape, ih]
    rfl

theorem unquote_quotedBody (cs rest : List Char) :
    unquote (quotedBody cs ++ '"' :: rest) = some (some cs, rest) := by
  simp [unquote, units?_quotedBody, joinUnits?_map_unitOf]

end EntityStore.Json
