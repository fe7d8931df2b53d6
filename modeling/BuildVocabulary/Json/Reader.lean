import BuildVocabulary.Json.Basic

/-!
# Reading JSON text

The reader is a machine that consumes one byte at a time. `Machine.step` refuses the first byte
that no document continues with; input that ends before the document does is told apart from that.

* Blanks are space, tab, line feed and carriage return; nothing but blanks follows the document.
* Strings are UTF-8 without raw control characters; surrogates are escaped in pairs only.
* At most `maxDepth` arrays and objects are open at a time.
-/

namespace BuildVocabulary.Json

/-- Why a text is no document. -/
inductive Fault where
  /-- The input ended before the document was complete. -/
  | endOfInput
  /-- Some byte cannot stand where it stands. -/
  | malformed
  deriving DecidableEq, Repr

/-- The number of arrays and objects that may be open at a time. -/
def maxDepth : Nat := 127

/-- An array or object under construction. -/
inductive Frame where
  /-- An array; its items stand in reverse order. -/
  | array (items : List Json)
  /-- An object between two members. -/
  | object (members : Members)
  /-- An object in which the value of a key is missing. -/
  | member (members : Members) (key : String)

/-- What may follow between two tokens. -/
inductive Position where
  | value
  /-- A value or the end of an array that has just begun. -/
  | firstItem
  | key
  /-- A key or the end of an object that has just begun. -/
  | firstKey
  | colon
  /-- A comma or the end of the enclosing array or object. -/
  | separator
  /-- The document is complete. -/
  | finished (document : Json)

/-- Where a numeral stands; its digits so far are a numeral in the phases `zero`, `integer`,
`fraction` and `exponent`. -/
inductive Phase where
  | minus
  | zero
  | integer
  | point
  | fraction
  | mark
  | markSign
  | exponent

/-- The token under construction; collected bytes stand in reverse order. -/
inductive Mode where
  | gap
  | string (bytes : List UInt8)
  | escape (bytes : List UInt8)
  /-- Four hexadecimal digits follow, after a leading surrogate if `high` is given. -/
  | unicode (bytes : List UInt8) (high : Option Nat) (digits : List UInt8)
  /-- The backslash of a trailing surrogate follows. -/
  | pairBackslash (bytes : List UInt8) (high : Nat)
  /-- The letter of a trailing surrogate follows. -/
  | pairLetter (bytes : List UInt8) (high : Nat)
  /-- The rest of a literal name follows. -/
  | literal (value : Json) (rest : List UInt8)
  | number (phase : Phase) (bytes : List UInt8)

structure Machine where
  stack : List Frame
  position : Position
  mode : Mode

def byte (c : Char) : UInt8 := c.toNat.toUInt8

def isBlank (b : UInt8) : Bool := b = 32 ∨ b = 9 ∨ b = 10 ∨ b = 13

def digit? (b : UInt8) : Option Nat := if 48 ≤ b ∧ b ≤ 57 then some (b.toNat - 48) else none

def hexDigit? (b : UInt8) : Option Nat :=
  if 48 ≤ b ∧ b ≤ 57 then some (b.toNat - 48)
  else if 97 ≤ b ∧ b ≤ 102 then some (b.toNat - 87)
  else if 65 ≤ b ∧ b ≤ 70 then some (b.toNat - 55)
  else none

/-! ## Numerals -/

/-- The digits at the front of a text, and what follows them. -/
def spanDigits : List UInt8 → List Nat × List UInt8
  | [] => ([], [])
  | b :: bs =>
    match digit? b with
    | some d => let (ds, rest) := spanDigits bs; (d :: ds, rest)
    | none => ([], b :: bs)

def ofDigits (ds : List Nat) : Nat := ds.foldl (fun n d => n * 10 + d) 0

/-- The exponent of a numeral, from its sign on. -/
def exponentOf : List UInt8 → Int
  | [] => 0
  | b :: bs =>
    if b = byte '-' then -ofDigits (spanDigits bs).1
    else if b = byte '+' then ofDigits (spanDigits bs).1
    else ofDigits (spanDigits (b :: bs)).1

def Numeral.ofBytes (bs : List UInt8) : Numeral :=
  let negative := bs.head? = some (byte '-')
  let (integer, rest) := spanDigits (if negative then bs.drop 1 else bs)
  let hasPoint := rest.head? = some (byte '.')
  let (fraction, rest) := if hasPoint then spanDigits (rest.drop 1) else ([], rest)
  { negative, integer
    fraction := if hasPoint then some fraction else none
    exponent := if rest.isEmpty then none else some (exponentOf (rest.drop 1)) }

/-- The phase after one more byte of a numeral: a phase, the end of the numeral, or a fault. -/
def Phase.step (p : Phase) (b : UInt8) : Except Fault (Option Phase) :=
  let isDigit := (digit? b).isSome
  let isMark := b = byte 'e' ∨ b = byte 'E'
  match p with
  | .minus => if b = 48 then .ok (some .zero) else if isDigit then .ok (some .integer)
    else .error .malformed
  | .zero => if isDigit then .error .malformed else if b = byte '.' then .ok (some .point)
    else if isMark then .ok (some .mark) else .ok none
  | .integer => if isDigit then .ok (some .integer) else if b = byte '.' then .ok (some .point)
    else if isMark then .ok (some .mark) else .ok none
  | .point => if isDigit then .ok (some .fraction) else .error .malformed
  | .fraction => if isDigit then .ok (some .fraction) else if isMark then .ok (some .mark)
    else .ok none
  | .mark => if isDigit then .ok (some .exponent)
    else if b = byte '+' ∨ b = byte '-' then .ok (some .markSign) else .error .malformed
  | .markSign => if isDigit then .ok (some .exponent) else .error .malformed
  | .exponent => if isDigit then .ok (some .exponent) else .ok none

def Phase.isComplete : Phase → Bool
  | .zero | .integer | .fraction | .exponent => true
  | .minus | .point | .mark | .markSign => false

namespace Machine

def start : Machine := ⟨[], .value, .gap⟩

/-! ## Completed tokens -/

/-- Hands a complete value to the enclosing array or object. -/
def deliver (m : Machine) (v : Json) : Except Fault Machine :=
  match m.stack with
  | [] => .ok ⟨[], .finished v, .gap⟩
  | .array items :: frames => .ok ⟨.array (v :: items) :: frames, .separator, .gap⟩
  | .member ms key :: frames => .ok ⟨.object (Members.put key v ms) :: frames, .separator, .gap⟩
  | .object _ :: _ => .error .malformed

def enter (m : Machine) (frame : Frame) (position : Position) : Except Fault Machine :=
  if m.stack.length < maxDepth then .ok ⟨frame :: m.stack, position, .gap⟩ else .error .malformed

def leave (m : Machine) (closing : UInt8) : Except Fault Machine :=
  match m.stack with
  | .array items :: frames =>
    if closing = byte ']' then deliver { m with stack := frames } (.array items.reverse)
    else .error .malformed
  | .object ms :: frames =>
    if closing = byte '}' then deliver { m with stack := frames } (.object ms)
    else .error .malformed
  | _ => .error .malformed

/-- Goes on after a comma. -/
def next (m : Machine) : Except Fault Machine :=
  match m.stack with
  | .array _ :: _ => .ok { m with position := .value }
  | .object _ :: _ => .ok { m with position := .key }
  | _ => .error .malformed

/-- Takes a complete string as a key or as a value. -/
def takeString (m : Machine) (bytes : List UInt8) : Except Fault Machine :=
  match String.fromUTF8? ⟨bytes.reverse.toArray⟩, m.position, m.stack with
  | none, _, _ => .error .malformed
  | some s, .key, .object ms :: frames => .ok ⟨.member ms s :: frames, .colon, .gap⟩
  | some s, .firstKey, .object ms :: frames => .ok ⟨.member ms s :: frames, .colon, .gap⟩
  | some s, _, _ => m.deliver (.text s)

def takeNumeral (m : Machine) (bytes : List UInt8) : Except Fault Machine :=
  match (Numeral.ofBytes bytes.reverse).value? with
  | some n => m.deliver (.number n)
  | none => .error .malformed

/-! ## Single bytes -/

/-- The first byte of a value. -/
def beginValue (m : Machine) (b : UInt8) : Except Fault Machine :=
  let go (mode : Mode) : Except Fault Machine := .ok { m with mode := mode }
  if b = byte '{' then m.enter (.object []) .firstKey
  else if b = byte '[' then m.enter (.array []) .firstItem
  else if b = byte '"' then go (.string [])
  else if b = byte '-' then go (.number .minus [b])
  else if b = 48 then go (.number .zero [b])
  else if (digit? b).isSome then go (.number .integer [b])
  else if b = byte 'n' then go (.literal .null ("ull".toList.map byte))
  else if b = byte 't' then go (.literal (.bool true) ("rue".toList.map byte))
  else if b = byte 'f' then go (.literal (.bool false) ("alse".toList.map byte))
  else .error .malformed

/-- A byte between two tokens. -/
def stepGap (m : Machine) (b : UInt8) : Except Fault Machine :=
  if isBlank b then .ok m
  else
    match m.position with
    | .value => m.beginValue b
    | .firstItem => if b = byte ']' then m.leave b else m.beginValue b
    | .key => if b = byte '"' then .ok { m with mode := .string [] } else .error .malformed
    | .firstKey =>
      if b = byte '"' then .ok { m with mode := .string [] }
      else if b = byte '}' then m.leave b
      else .error .malformed
    | .colon => if b = byte ':' then .ok { m with position := .value } else .error .malformed
    | .separator => if b = byte ',' then m.next else m.leave b
    | .finished _ => .error .malformed

/-- The byte that a one-letter escape stands for. -/
def escaped? (b : UInt8) : Option UInt8 :=
  [(byte '"', 34), (byte '\\', 92), (byte '/', 47), (byte 'b', 8), (byte 'f', 12), (byte 'n', 10),
    (byte 'r', 13), (byte 't', 9)].lookup b

/-- The end of a `\u` escape with this code unit. -/
def takeUnit (m : Machine) (bytes : List UInt8) (high : Option Nat) (unit : Nat) :
    Except Fault Machine :=
  let push (code : Nat) : Except Fault Machine :=
    .ok { m with mode := .string ((String.utf8EncodeChar (Char.ofNat code)).reverse ++ bytes) }
  let isLow := 0xDC00 ≤ unit ∧ unit ≤ 0xDFFF
  match high with
  | some h =>
    if isLow then push (0x10000 + (h - 0xD800) * 0x400 + (unit - 0xDC00)) else .error .malformed
  | none =>
    if isLow then .error .malformed
    else if 0xD800 ≤ unit ∧ unit ≤ 0xDBFF then .ok { m with mode := .pairBackslash bytes unit }
    else push unit

/-- One byte in any mode. -/
def step (m : Machine) (b : UInt8) : Except Fault Machine :=
  match m.mode with
  | .gap => m.stepGap b
  | .string bytes =>
    if b = byte '"' then m.takeString bytes
    else if b = byte '\\' then .ok { m with mode := .escape bytes }
    else if b < 32 then .error .malformed
    else .ok { m with mode := .string (b :: bytes) }
  | .escape bytes =>
    if b = byte 'u' then .ok { m with mode := .unicode bytes none [] }
    else
      match escaped? b with
      | some c => .ok { m with mode := .string (c :: bytes) }
      | none => .error .malformed
  | .unicode bytes high digits =>
    if digits.length < 3 then .ok { m with mode := .unicode bytes high (b :: digits) }
    else
      match (b :: digits).reverse.mapM hexDigit? with
      | some ds => m.takeUnit bytes high (ds.foldl (fun n d => n * 16 + d) 0)
      | none => .error .malformed
  | .pairBackslash bytes high =>
    if b = byte '\\' then .ok { m with mode := .pairLetter bytes high } else .error .malformed
  | .pairLetter bytes high =>
    if b = byte 'u' then .ok { m with mode := .unicode bytes (some high) [] }
    else .error .malformed
  | .literal v rest =>
    match rest with
    | [] => .error .malformed
    | r :: rest =>
      if b = r then if rest.isEmpty then m.deliver v else .ok { m with mode := .literal v rest }
      else .error .malformed
  | .number phase bytes => do
    match ← phase.step b with
    | some phase => .ok { m with mode := .number phase (b :: bytes) }
    -- only the byte behind a numeral tells that it is over
    | none => (← m.takeNumeral bytes).stepGap b

/-- The document, once the input has ended. -/
def finish (m : Machine) : Except Fault Json := do
  let m ← match m.mode with
    | .number phase bytes => if phase.isComplete then m.takeNumeral bytes else .error .endOfInput
    | _ => .ok m
  match m.mode, m.position with
  | .gap, .finished v => .ok v
  | _, _ => .error .endOfInput

end Machine

def read (bytes : List UInt8) : Except Fault Json := do
  (← bytes.foldlM Machine.step .start).finish

def readText (text : String) : Except Fault Json := read text.toUTF8.data.toList

end BuildVocabulary.Json
