import EntityStore.Json.Token

/-!
# Documents

The tree that a text in the JSON format denotes.  Members of an object keep their order and may
repeat a name; a text that cannot be used is kept as `none`, since it may stand where nobody reads
it.
-/

namespace EntityStore

inductive Json
  | null
  | boolean (b : Bool)
  | number (n : Numeral)
  | text (s : Option (List Char))
  | array (items : List Json)
  | object (members : List (Option (List Char) × Json))
deriving Inhabited

namespace Json

def ofText (s : String) : Json := text (some s.toList)

/-- The object with the given member only. -/
def tagged (tag : String) (content : Json) : Json := object [(some tag.toList, content)]

/-- The name of a member, or the name alone. -/
def keyed (name : String) (content : Json) : Option (List Char) × Json :=
  (some name.toList, content)

/-! ## Nesting -/

mutual

/-- How many arrays and objects stand inside each other. -/
def depth : Json → Nat
  | array items => depthItems items + 1
  | object members => depthMembers members + 1
  | _ => 0

def depthItems : List Json → Nat
  | [] => 0
  | item :: items => max (depth item) (depthItems items)

def depthMembers : List (Option (List Char) × Json) → Nat
  | [] => 0
  | (_, content) :: members => max (depth content) (depthMembers members)

end

/-! ## Writing -/

mutual

/-- The shortest text of a document: no blanks. -/
def chars : Json → List Char
  | null => ['n', 'u', 'l', 'l']
  | boolean b => if b then ['t', 'r', 'u', 'e'] else ['f', 'a', 'l', 's', 'e']
  | number n => n.chars
  | text s => quote (s.getD [])
  | array items => '[' :: charsItems items ++ [']']
  | object members => '{' :: charsMembers members ++ ['}']

def charsItems : List Json → List Char
  | [] => []
  | [item] => chars item
  | item :: items => chars item ++ ',' :: charsItems items

def charsMembers : List (Option (List Char) × Json) → List Char
  | [] => []
  | [(name, content)] => quote (name.getD []) ++ ':' :: chars content
  | (name, content) :: members =>
    quote (name.getD []) ++ ':' :: chars content ++ ',' :: charsMembers members

end

def render (doc : Json) : String := String.ofList doc.chars

/-! ## Reading -/

mutual

/-- Reads one document from the front of a row of tokens. -/
def read : Nat → List Token → Option (Json × List Token)
  | 0, _ => none
  | fuel + 1, tokens =>
    match tokens with
    | .null :: rest => some (null, rest)
    | .boolean b :: rest => some (boolean b, rest)
    | .number n :: rest => some (number n, rest)
    | .text s :: rest => some (text s, rest)
    | .openBracket :: .closeBracket :: rest => some (array [], rest)
    | .openBracket :: rest => (readItems fuel rest).map fun (items, rest) => (array items, rest)
    | .openBrace :: .closeBrace :: rest => some (object [], rest)
    | .openBrace :: rest =>
      (readMembers fuel rest).map fun (members, rest) => (object members, rest)
    | _ => none

/-- Items up to the closing bracket. -/
def readItems : Nat → List Token → Option (List Json × List Token)
  | 0, _ => none
  | fuel + 1, tokens =>
    match read fuel tokens with
    | some (item, .closeBracket :: rest) => some ([item], rest)
    | some (item, .comma :: rest) =>
      (readItems fuel rest).map fun (items, rest) => (item :: items, rest)
    | _ => none

/-- Members up to the closing brace. -/
def readMembers : Nat → List Token → Option (List (Option (List Char) × Json) × List Token)
  | 0, _ => none
  | fuel + 1, tokens =>
    match tokens with
    | .text name :: .colon :: rest =>
      match read fuel rest with
      | some (content, .closeBrace :: rest) => some ([(name, content)], rest)
      | some (content, .comma :: rest) =>
        (readMembers fuel rest).map fun (members, rest) => ((name, content) :: members, rest)
      | _ => none
    | _ => none

end

/-- The document of a row of tokens that holds nothing else. -/
def ofTokens? (tokens : List Token) : Option Json :=
  match read (2 * tokens.length + 1) tokens with
  | some (doc, []) => some doc
  | _ => none

/-- The document that a text denotes. -/
def ofChars? (cs : List Char) : Option Json := (tokens? cs).bind ofTokens?

def parse? (s : String) : Option Json := ofChars? s.toList

end Json

end EntityStore
