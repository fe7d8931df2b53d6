import BuildVocabulary.Yaml.BlockScalar

/-!
# Tokens

A text is a list of tokens: scalars, the indicators around them, and the starts and ends of block
collections, which follow from columns. A key needs no indicator of its own: it is known by the
colon after it. `tokens?` gives the tokens of a text.

Anchors, aliases, tags and directives are left out. They have no tokens, and a text that uses one of
them is refused.
-/

namespace BuildVocabulary.Yaml

inductive Token where
  | documentStart
  | documentEnd
  | blockSequence
  | blockMapping
  | blockEnd
  | openBracket
  | closeBracket
  | openBrace
  | closeBrace
  | comma
  /-- The dash before an item of a block sequence. -/
  | item
  | key
  | value
  | scalar (isPlain : Bool) (text : String)
  deriving DecidableEq, Repr

/-- A place where a key may have begun. -/
structure KeyStart where
  position : Position
  /-- The number of tokens before it. -/
  count : Nat
  /-- Whether nothing but a key can begin there. -/
  isRequired : Bool

/-- The largest number of bytes from the start of a key to its colon. -/
def maxKeyLength : Nat := 1024

/-- Whether a colon here comes too late for a key. -/
def KeyStart.isLost (k : KeyStart) (p : Position) : Bool :=
  k.position.line < p.line || k.position.offset + maxKeyLength < p.offset

/-- A text that has been read up to a position. -/
structure Scan where
  position : Position := {}
  rest : List Char
  /-- The tokens so far, in reverse order. -/
  found : List Token := []
  /-- The number of these tokens. -/
  count : Nat := 0
  /-- The columns of the open block collections, the innermost first. -/
  columns : List Nat := []
  /-- Whether a key may begin here. -/
  allowsKey : Bool := true
  /-- Where the key of the next colon has begun, if it has. -/
  keyStart : Option KeyStart := none
  /-- The same around each open flow collection, the innermost first. -/
  outer : List (Option KeyStart) := []

namespace Scan

def inFlow (s : Scan) : Bool := !s.outer.isEmpty

/-- The first column that belongs to the innermost open block collection and to nothing around
it. -/
def least (s : Scan) : Nat :=
  match s.columns with
  | [] => 0
  | column :: _ => column + 1

def emit (s : Scan) (t : Token) : Scan := { s with found := t :: s.found, count := s.count + 1 }

/-- Adds a token that is written with `n` characters. -/
def take (s : Scan) (n : Nat) (t : Token) : Scan :=
  { s.emit t with
    position := s.position.advance n
    rest := s.rest.drop n }

/-! ## White space -/

/-- Goes on to the next character that is neither white space nor in a comment. Tabs are no white
space where a key may begin in a block, and a byte order mark is where it begins a line. The result
says whether a key may begin there. -/
def skipSpace (inFlow allowsKey inComment : Bool) (p : Position) :
    List Char → Bool × Position × List Char
  | [] => (allowsKey, p, [])
  | c :: cs =>
    if isBreak c then skipSpace inFlow (allowsKey || !inFlow) false (p.after c) cs
    else if inComment || c == '#' then skipSpace inFlow allowsKey true (p.after c) cs
    else if c == ' ' || (c == '\t' && (inFlow || !allowsKey)) || (c == '\uFEFF' && p.column == 0)
    then skipSpace inFlow allowsKey false (p.after c) cs
    else (allowsKey, p, c :: cs)

def toToken (s : Scan) : Scan :=
  let (allowsKey, position, rest) := skipSpace s.inFlow s.allowsKey false s.position s.rest
  { s with allowsKey, position, rest }

/-! ## Keys without an indicator -/

/-- Gives up the key that may have begun, which must not be required. -/
def dropKey (s : Scan) : Option Scan :=
  match s.keyStart with
  | some k => if k.isRequired then none else some { s with keyStart := none }
  | none => some s

/-- Gives up the key that may have begun if it has become too long. -/
def dropLostKey (s : Scan) : Option Scan :=
  if s.keyStart.any (·.isLost s.position) then s.dropKey else some s

/-- Notes that a key may begin here. -/
def beginKey (s : Scan) : Option Scan :=
  if s.allowsKey then do
    let isRequired := !s.inFlow && s.columns.head? == some s.position.column
    let s ← s.dropKey
    pure { s with keyStart := some ⟨s.position, s.count, isRequired⟩ }
  else some s

/-! ## Block collections -/

/-- Opens a block collection at a column, unless it is open already. -/
def openBlock (s : Scan) (column : Nat) (t : Token) : Scan :=
  if !s.inFlow && s.least ≤ column then { s.emit t with columns := column :: s.columns } else s

/-- Makes a key of the tokens from a start on. -/
def makeKey (s : Scan) (k : KeyStart) : Scan :=
  let (tokens, before) := s.found.splitAt (s.count - k.count)
  let s := { s with found := before, count := k.count, keyStart := none }
  -- the mapping and its key begin before the tokens that turned out to be the key
  let s := (s.openBlock k.position.column .blockMapping).emit .key
  { s with found := tokens ++ s.found, count := s.count + tokens.length }

/-- Closes the block collections at a column and beyond. -/
def closeFrom (s : Scan) (column : Nat) : Scan :=
  if s.inFlow then s
  else
    let (closed, columns) := s.columns.span (column ≤ ·)
    { s with
      found := closed.map (fun _ => Token.blockEnd) ++ s.found
      count := s.count + closed.length
      columns }

/-! ## One token -/

def marker (s : Scan) (t : Token) : Option Scan := do
  let s ← (s.closeFrom 0).dropKey
  pure ({ s with allowsKey := false }.take 3 t)

/-- Reads an opening bracket or brace, which may begin a key. -/
def openFlow (s : Scan) (t : Token) : Option Scan := do
  let s ← s.beginKey
  pure ({ s with outer := s.keyStart :: s.outer, keyStart := none, allowsKey := true }.take 1 t)

def closeFlow (s : Scan) (t : Token) : Option Scan := do
  let s ← s.dropKey
  let s := match s.outer with
    | [] => s
    | k :: outer => { s with keyStart := k, outer }
  pure ({ s with allowsKey := false }.take 1 t)

def comma (s : Scan) : Option Scan := do
  let s ← s.dropKey
  pure ({ s with allowsKey := true }.take 1 .comma)

/-- Whether an indicator stands where no entry of a block collection may begin. -/
def isMisplaced (s : Scan) : Bool := !s.inFlow && !s.allowsKey

def item (s : Scan) : Option Scan := do
  if s.isMisplaced then none
  let s ← (s.openBlock s.position.column .blockSequence).dropKey
  pure ({ s with allowsKey := true }.take 1 .item)

def key (s : Scan) : Option Scan := do
  if s.isMisplaced then none
  let s ← (s.openBlock s.position.column .blockMapping).dropKey
  pure ({ s with allowsKey := !s.inFlow }.take 1 .key)

/-- Reads the colon of a value. What begins a key on the same line becomes one. -/
def value (s : Scan) : Option Scan :=
  match s.keyStart with
  | some k => some ({ s.makeKey k with allowsKey := false }.take 1 .value)
  | none =>
    if s.isMisplaced then none
    else
      let s := s.openBlock s.position.column .blockMapping
      some ({ s with allowsKey := !s.inFlow }.take 1 .value)

def scalar (s : Scan) (isPlain : Bool) (r : Reading) : Scan :=
  { s.emit (.scalar isPlain r.text) with
    allowsKey := r.leftLine, position := r.position, rest := r.rest }

/-- Reads the next token, which begins with a character. -/
def next (s : Scan) (c : Char) (cs : List Char) : Option Scan :=
  let p := s.position
  if isMarker '-' p (c :: cs) then s.marker .documentStart
  else if isMarker '.' p (c :: cs) then s.marker .documentEnd
  else if c == '[' then s.openFlow .openBracket
  else if c == '\x7b' then s.openFlow .openBrace
  else if c == ']' then s.closeFlow .closeBracket
  else if c == '\x7d' then s.closeFlow .closeBrace
  else if c == ',' then s.comma
  else if c == '-' && blankFollows cs then s.item
  else if c == '?' && (s.inFlow || blankFollows cs) then s.key
  else if c == ':' && (s.inFlow || blankFollows cs) then s.value
  else if (c == '|' || c == '>') && !s.inFlow then do
    let s ← s.dropKey
    pure (s.scalar false (← blockScalar (c == '>') s.least (p.after c) cs))
  else do
    let s ← s.beginKey
    if c == '\'' then pure (s.scalar false (← singleQuoted (p.after c) cs))
    else if c == '"' then pure (s.scalar false (← doubleQuoted (p.after c) cs))
    else if beginsPlain s.inFlow (c :: cs) then
      pure (s.scalar true (← plain ⟨s.inFlow, s.least⟩ p (c :: cs)))
    else none

/-- The tokens at the end of a text. -/
def finish (s : Scan) : Option (List Token) := do
  let s ← (s.closeFrom 0).dropKey
  pure s.found.reverse

/-- The tokens of a text that has been read up to here. `fuel` bounds the number of the tokens that
are still to be read. -/
def run : (fuel : Nat) → Scan → Option (List Token)
  | 0, _ => none
  | fuel + 1, s => do
    let s ← s.toToken.dropLostKey
    -- a token ends the collections that begin to the right of it
    let s := s.closeFrom (s.position.column + 1)
    match s.rest with
    | [] => s.finish
    | c :: cs => run fuel (← s.next c cs)

end Scan

/-- The tokens of a text whose breaks are normalized. -/
def tokens? (cs : List Char) : Option (List Token) := Scan.run (cs.length + 1) { rest := cs }

end BuildVocabulary.Yaml
