/-!
# Places in a text

The blanks and line breaks of a text, and the line and column of its characters. Of the ways to
break a line, `normalizeBreaks` leaves three: the line feed and the separators of lines and of
paragraphs, which are texts of their own where lines are joined.
-/

namespace BuildVocabulary.Yaml

/-! ## Blanks and breaks -/

def isBlank (c : Char) : Bool := c == ' ' || c == '\t'

def isBreak (c : Char) : Bool := c == '\n' || c == '\u2028' || c == '\u2029'

/-- Whether a blank, a line break or the end of the text follows. -/
def blankFollows (cs : List Char) : Bool :=
  match cs with
  | [] => true
  | c :: _ => isBlank c || isBreak c

/-- Line breaks that are no separators as line feeds. -/
def normalizeBreaks : List Char → List Char
  | [] => []
  | '\r' :: '\n' :: cs => '\n' :: normalizeBreaks cs
  | c :: cs => (if c == '\r' || c == '\u0085' then '\n' else c) :: normalizeBreaks cs

/-! ## Positions -/

/-- The line and column of a character, counted from zero. -/
structure Position where
  line : Nat := 0
  column : Nat := 0
  /-- The number of bytes before it on its line. -/
  offset : Nat := 0
  deriving DecidableEq, Repr

def Position.after (p : Position) (c : Char) : Position :=
  if isBreak c then { line := p.line + 1 }
  else { p with column := p.column + 1, offset := p.offset + c.utf8Size }

/-- The position after `n` characters of one byte on the same line. -/
def Position.advance (p : Position) (n : Nat) : Position :=
  { p with column := p.column + n, offset := p.offset + n }

/-- Whether a line begins here with three times a character, blanks or text following. -/
def isMarker (c : Char) (p : Position) (cs : List Char) : Bool :=
  p.column == 0 && cs.take 3 == [c, c, c] && blankFollows (cs.drop 3)

/-- Whether a line that ends or separates documents begins here. -/
def isAnyMarker (p : Position) (cs : List Char) : Bool := isMarker '-' p cs || isMarker '.' p cs

/-- What follows the current line, if nothing but blanks and a comment is left of it. -/
def lineEnd? (inComment : Bool) (p : Position) : List Char → Option (Position × List Char)
  | [] => some (p, [])
  | c :: cs =>
    if isBreak c then some (p.after c, cs)
    else if inComment || c == '#' then lineEnd? true (p.after c) cs
    else if isBlank c then lineEnd? false (p.after c) cs
    else none

end BuildVocabulary.Yaml
