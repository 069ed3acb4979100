import EntityStore.Json.Quoted
import EntityStore.Number.Numeral

/-!
# Tokens of a document

A document is a row of punctuation, words, numerals and quoted texts, with blanks between them.
-/

namespace EntityStore.Json

inductive Token
  | openBrace
  | closeBrace
  | openBracket
  | closeBracket
  | comma
  | colon
  | null
  | boolean (b : Bool)
  | number (n : Numeral)
  /-- A quoted text, or none that can be used. -/
  | text (s : Option (List Char))
deriving DecidableEq

namespace Token

def isBlank (c : Char) : Bool := c = ' ' || c = '\n' || c = '\t' || c = '\r'

def punctuation? : Char → Option Token
  | '{' => some openBrace
  | '}' => some closeBrace
  | '[' => some openBracket
  | ']' => some closeBracket
  | ',' => some comma
  | ':' => some colon
  | _ => none

/-- The token at the front of a text that starts with no blank, and what follows. -/
def next? : List Char → Option (Token × List Char)
  | [] => none
  | '"' :: rest => (unquote rest).map fun (s, rest) => (text s, rest)
  | 'n' :: 'u' :: 'l' :: 'l' :: rest => some (null, rest)
  | 't' :: 'r' :: 'u' :: 'e' :: rest => some (boolean true, rest)
  | 'f' :: 'a' :: 'l' :: 's' :: 'e' :: rest => some (boolean false, rest)
  | c :: rest =>
    match punctuation? c with
    | some t => some (t, rest)
    | none => (Numeral.scan (c :: rest)).map fun (n, rest) => (number n, rest)

/-- The first tokens of a text, at most `fuel` of them; nothing if the text does not end there. -/
def scan : Nat → List Char → Option (List Token)
  | fuel, cs =>
    match cs.dropWhile isBlank, fuel with
    | [], _ => some []
    | _ :: _, 0 => none
    | c :: rest, fuel + 1 =>
      match next? (c :: rest) with
      | some (t, rest) => (scan fuel rest).map (t :: ·)
      | none => none

end Token

/-- The tokens of a whole text. -/
def tokens? (cs : List Char) : Option (List Token) := Token.scan cs.length cs

end EntityStore.Json
