import BuildVocabulary.Yaml.Scalar

/-!
# Reading block scalars

A block scalar stands on lines of its own below its header. All its lines begin at one column, which
the header gives or the first line shows. In a literal block a line break reads as itself; in a
folded one, a line feed between two lines without leading blanks reads as a space.
-/

namespace BuildVocabulary.Yaml

/-! ## Headers -/

/-- What becomes of the line breaks at the end of a block. -/
inductive Chomping where
  | strip
  | clip
  | keep
  deriving DecidableEq

/-- The header of a block: its form, and its indentation below that of what holds it. -/
structure BlockHeader where
  isFolded : Bool
  chomping : Option Chomping := none
  indent : Option Nat := none

/-- Reads the rest of a header, of which the indentation and the chomping come in either order. -/
def blockHeader (h : BlockHeader) (p : Position) :
    List Char → Option (BlockHeader × Position × List Char)
  | [] => some (h, p, [])
  | c :: cs =>
    if c == '-' && h.chomping.isNone then
      blockHeader { h with chomping := some .strip } (p.after c) cs
    else if c == '+' && h.chomping.isNone then
      blockHeader { h with chomping := some .keep } (p.after c) cs
    else if '1' ≤ c && c ≤ '9' && h.indent.isNone then
      blockHeader { h with indent := some (c.toNat - 48) } (p.after c) cs
    else (lineEnd? false p (c :: cs)).map fun rest => (h, rest)

/-! ## Lines -/

/-- What has been read of a block. -/
structure BlockText where
  /-- The text of the lines, in reverse order. -/
  out : List Char := []
  /-- The break that ends the last line with text. -/
  ending : List Char := []
  /-- The breaks after that, in reverse order. -/
  more : List Char := []
  /-- Whether the last line with text begins with a blank. -/
  beganBlank : Bool := false

namespace BlockText

/-- The break before a line that begins with a character, as it reads. -/
def joint (isFolded : Bool) (t : BlockText) (c : Char) : List Char :=
  if isFolded && t.ending == ['\n'] && !t.beganBlank && !isBlank c then
    if t.more.isEmpty then [' '] else []
  else t.ending

/-- Begins a line with a character. -/
def beginLine (isFolded : Bool) (t : BlockText) (c : Char) : BlockText where
  out := c :: t.more ++ t.joint isFolded c ++ t.out
  beganBlank := isBlank c

def close (chomping : Chomping) (t : BlockText) : String :=
  String.ofList <| List.reverse <|
    match chomping with
    | .strip => t.out
    | .clip => t.ending ++ t.out
    | .keep => t.more ++ t.ending ++ t.out

end BlockText

/-- The lines of a block, as far as they are known. -/
structure BlockShape where
  isFolded : Bool
  chomping : Chomping
  /-- The first column that lines may begin at. -/
  least : Nat
  /-- The column that all lines begin at. -/
  column? : Option Nat
  /-- The largest indentation so far of a line without text. -/
  widest : Nat := 0

namespace BlockShape

/-- Whether a column lies in the indentation, as far as this is known. -/
def indents (s : BlockShape) (column : Nat) : Bool := s.column?.all (column < ·)

/-- The shape after a line with nothing but indentation up to a column. -/
def widen (s : BlockShape) (column : Nat) : BlockShape :=
  { s with widest := max s.widest column }

/-- The column of all lines, when the first text stands at a column. -/
def columnAt (s : BlockShape) (column : Nat) : Nat :=
  s.column?.getD (max (max s.widest column) (max s.least 1))

end BlockShape

def blockFrom (s : BlockShape) (t : BlockText) (inLine : Bool) (p : Position) :
    List Char → Option Reading
  | [] => some ⟨t.close s.chomping, true, p, []⟩
  | c :: cs =>
    if inLine then
      if isBreak c then blockFrom s { t with ending := [c] } false (p.after c) cs
      else blockFrom s { t with out := c :: t.out } true (p.after c) cs
    else if s.indents p.column && c == ' ' then blockFrom s t false (p.after c) cs
    else if s.indents p.column && c == '\t' then none
    else if isBreak c then
      blockFrom (s.widen p.column) { t with more := c :: t.more } false (p.after c) cs
    else
      let column := s.columnAt p.column
      if p.column == column then
        blockFrom { s with column? := some column } (t.beginLine s.isFolded c) true (p.after c) cs
      else some ⟨t.close s.chomping, true, p, c :: cs⟩

/-- Reads a block scalar after its first character. Its lines begin at the column `least` at
least. -/
def blockScalar (isFolded : Bool) (least : Nat) (p : Position) (cs : List Char) :
    Option Reading := do
  let (h, p, rest) ← blockHeader { isFolded } p cs
  blockFrom
    { isFolded, chomping := h.chomping.getD .clip, least,
      column? := h.indent.map (least - 1 + ·) } {} false p rest

end BuildVocabulary.Yaml
