import BuildVocabulary.Json.Basic

/-!
# Printing JSON text

A document is printed either without any blanks, or with one member or item a line. Strings escape
the quote, the backslash and the control characters below the space, and nothing else.
-/

namespace BuildVocabulary.Json

/-- The escape of a character, if it has to be escaped. -/
def escapeOf? (c : Char) : Option (List Char) :=
  match c with
  | '"' => some ['\\', '"']
  | '\\' => some ['\\', '\\']
  | '\n' => some ['\\', 'n']
  | '\r' => some ['\\', 'r']
  | '\t' => some ['\\', 't']
  | '\x08' => some ['\\', 'b']
  | '\x0c' => some ['\\', 'f']
  | c =>
    if c.toNat < 32 then
      some ['\\', 'u', '0', '0', Nat.digitChar (c.toNat / 16), Nat.digitChar (c.toNat % 16)]
    else none

/-- A character inside a string. -/
def escape (c : Char) : List Char := (escapeOf? c).getD [c]

def quoted (s : String) : List Char := '"' :: s.toList.flatMap escape ++ ['"']

/-- The text of a value that has no parts. -/
def scalarChars : Json → List Char
  | .null => "null".toList
  | .bool true => "true".toList
  | .bool false => "false".toList
  | .number n => n.text.toList
  | .text s => quoted s
  | .array _ | .object _ => []

/-! ## Without blanks -/

mutual

/-- The characters of a document without blanks. -/
def compactChars : Json → List Char
  | .array [] => ['[', ']']
  | .array (v :: vs) => '[' :: compactChars v ++ compactItems vs
  | .object [] => ['\x7b', '\x7d']
  | .object ((k, v) :: ms) => '\x7b' :: quoted k ++ ':' :: compactChars v ++ compactMembers ms
  | v => scalarChars v

def compactItems : List Json → List Char
  | [] => [']']
  | v :: vs => ',' :: compactChars v ++ compactItems vs

def compactMembers : List (String × Json) → List Char
  | [] => ['\x7d']
  | (k, v) :: ms => ',' :: quoted k ++ ':' :: compactChars v ++ compactMembers ms

end

/-- The text of a document without blanks. -/
def compact (v : Json) : String := String.ofList (compactChars v)

/-! ## One member or item a line -/

/-- A line break and the indentation of a depth, two spaces a level. -/
def lineBreak (depth : Nat) : List Char := '\n' :: List.replicate (2 * depth) ' '

mutual

/-- The characters of a document with one member or item a line, at a depth. -/
def prettyChars (depth : Nat) : Json → List Char
  | .array [] => ['[', ']']
  | .array (v :: vs) =>
    '[' :: lineBreak (depth + 1) ++ prettyChars (depth + 1) v ++ prettyItems depth vs
  | .object [] => ['\x7b', '\x7d']
  | .object ((k, v) :: ms) =>
    '\x7b' :: lineBreak (depth + 1) ++ quoted k ++ ':' :: ' ' :: prettyChars (depth + 1) v ++
      prettyMembers depth ms
  | v => scalarChars v

def prettyItems (depth : Nat) : List Json → List Char
  | [] => lineBreak depth ++ [']']
  | v :: vs => ',' :: lineBreak (depth + 1) ++ prettyChars (depth + 1) v ++ prettyItems depth vs

def prettyMembers (depth : Nat) : List (String × Json) → List Char
  | [] => lineBreak depth ++ ['\x7d']
  | (k, v) :: ms =>
    ',' :: lineBreak (depth + 1) ++ quoted k ++ ':' :: ' ' :: prettyChars (depth + 1) v ++
      prettyMembers depth ms

end

/-- The text of a document with one member or item a line. -/
def pretty (v : Json) : String := String.ofList (prettyChars 0 v)

end BuildVocabulary.Json
