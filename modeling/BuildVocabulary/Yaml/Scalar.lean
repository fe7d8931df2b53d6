import BuildVocabulary.Yaml.Position

/-!
# Reading scalars on folded lines

A scalar outside blocks is plain, in single quotes or in double quotes. Its lines are folded: blanks
around a line break are dropped, one line feed reads as a space and further breaks read as
themselves. A separator of lines or paragraphs is never dropped. Each reader gives a `Reading`.

* `plain`: a plain scalar, with the rule for which lines continue it;
* `singleQuoted`, `doubleQuoted`: the text after the opening quote.
-/

namespace BuildVocabulary.Yaml

/-- A scalar that has been read, and where the text goes on. -/
structure Reading where
  text : String
  /-- Whether the line of the last character has been left. -/
  leftLine : Bool
  position : Position
  rest : List Char

/-! ## Gaps -/

/-- What has been read since the last character that counts. -/
inductive Gap where
  /-- Blanks inside a line, in reverse order. -/
  | blanks (cs : List Char)
  /-- A line break and further ones, those in reverse order. The first is missing where it is
  escaped. -/
  | breaks (first : Option Char) (more : List Char)

namespace Gap

/-- The characters that a gap reads as, in reverse order. -/
def chars : Gap → List Char
  | .blanks cs => cs
  | .breaks first more =>
    if first == some '\n' then if more.isEmpty then [' '] else more
    else more ++ first.toList

def isEmpty : Gap → Bool
  | .blanks cs => cs.isEmpty
  | .breaks _ _ => false

def hasBreak : Gap → Bool
  | .blanks _ => false
  | .breaks _ _ => true

def addBlank (c : Char) : Gap → Gap
  | .blanks cs => .blanks (c :: cs)
  | g => g

def addBreak (c : Char) : Gap → Gap
  | .blanks _ => .breaks (some c) []
  | .breaks first more => .breaks first (c :: more)

end Gap

/-! ## Plain scalars -/

/-- The characters that structure flow collections. -/
def isFlowIndicator (c : Char) : Bool := [',', '[', ']', '\x7b', '\x7d'].contains c

/-- The characters that begin something else than a plain scalar wherever they stand. -/
def isIndicator (c : Char) : Bool :=
  isFlowIndicator c || ['#', '&', '*', '!', '|', '>', '\'', '"', '%', '@', '\x60'].contains c

def beginsPlain (inFlow : Bool) : List Char → Bool
  | [] => false
  | c :: cs =>
    if c == '-' then !blankFollows cs
    else if c == '?' || c == ':' then !inFlow && !blankFollows cs
    else !isBlank c && !isBreak c && !isIndicator c

structure PlainContext where
  inFlow : Bool
  /-- The first column that a line may begin at to continue a scalar. -/
  least : Nat

/-- Whether a plain scalar ends before the first of these characters, which is no blank. -/
def PlainContext.endsBefore (ctx : PlainContext) (gap : Gap) (p : Position) (c : Char)
    (cs : List Char) : Bool :=
  (gap.hasBreak && !ctx.inFlow && p.column < ctx.least) || isAnyMarker p (c :: cs) ||
    (c == '#' && !gap.isEmpty) || (c == ':' && blankFollows cs) ||
    (ctx.inFlow && isFlowIndicator c)

/-- Whether a colon stands where a plain scalar in a flow collection admits none. -/
def PlainContext.isMisplaced (ctx : PlainContext) (c : Char) (cs : List Char) : Bool :=
  ctx.inFlow && c == ':' && cs.head?.any (fun d => isFlowIndicator d || d == '?')

/-- Reads the rest of a plain scalar. `out` is what has been read, in reverse order. -/
def plainFrom (ctx : PlainContext) (out : List Char) (gap : Gap) (p : Position) :
    List Char → Option Reading
  | [] => some ⟨String.ofList out.reverse, gap.hasBreak, p, []⟩
  | c :: cs =>
    if isBreak c then plainFrom ctx out (gap.addBreak c) (p.after c) cs
    else if isBlank c then
      if c == '\t' && gap.hasBreak && p.column < ctx.least then none
      else plainFrom ctx out (gap.addBlank c) (p.after c) cs
    else if ctx.endsBefore gap p c cs then
      some ⟨String.ofList out.reverse, gap.hasBreak, p, c :: cs⟩
    else if ctx.isMisplaced c cs then none
    else plainFrom ctx (c :: gap.chars ++ out) (.blanks []) (p.after c) cs

def plain (ctx : PlainContext) (p : Position) (cs : List Char) : Option Reading :=
  plainFrom ctx [] (.blanks []) p cs

/-! ## Quoted scalars -/

/-- Reads the rest of a scalar in single quotes, in which a quote is written twice. -/
def singleQuotedFrom (out : List Char) (gap : Gap) (p : Position) : List Char → Option Reading
  | [] => none
  | '\'' :: '\'' :: cs =>
    singleQuotedFrom ('\'' :: gap.chars ++ out) (.blanks []) ((p.after '\'').after '\'') cs
  | '\'' :: cs => some ⟨String.ofList (gap.chars ++ out).reverse, false, p.after '\'', cs⟩
  | c :: cs =>
    if isAnyMarker p (c :: cs) then none
    else if isBreak c then singleQuotedFrom out (gap.addBreak c) (p.after c) cs
    else if isBlank c then singleQuotedFrom out (gap.addBlank c) (p.after c) cs
    else singleQuotedFrom (c :: gap.chars ++ out) (.blanks []) (p.after c) cs

/-- Reads a scalar in single quotes, after the opening quote. -/
def singleQuoted (p : Position) (cs : List Char) : Option Reading :=
  singleQuotedFrom [] (.blanks []) p cs

/-- The character that a one-letter escape stands for. -/
def escaped? (c : Char) : Option Char :=
  [('0', '\x00'), ('a', '\x07'), ('b', '\x08'), ('t', '\t'), ('\t', '\t'), ('n', '\n'),
    ('v', '\x0b'), ('f', '\x0c'), ('r', '\r'), ('e', '\x1b'), (' ', ' '), ('"', '"'), ('/', '/'),
    ('\\', '\\'), ('N', '\u0085'), ('_', '\u00a0'), ('L', '\u2028'), ('P', '\u2029')].lookup c

/-- The number of hexadecimal digits after the letter of a numeric escape. -/
def codeLength? (c : Char) : Option Nat := [('x', 2), ('u', 4), ('U', 8)].lookup c

def hexDigit? (c : Char) : Option Nat :=
  if c.isDigit then some (c.toNat - 48)
  else if 'a' ≤ c ∧ c ≤ 'f' then some (c.toNat - 87)
  else if 'A' ≤ c ∧ c ≤ 'F' then some (c.toNat - 55)
  else none

/-- What is being read of a scalar in double quotes. -/
inductive QuotePhase where
  | text (gap : Gap)
  | escape
  /-- `missing + 1` digits of a numeric escape follow. -/
  | code (missing value : Nat)

/-- Reads the rest of a scalar in double quotes. -/
def doubleQuotedFrom (out : List Char) (p : Position) : QuotePhase → List Char → Option Reading
  | _, [] => none
  | .text gap, c :: cs =>
    if isAnyMarker p (c :: cs) then none
    else if c == '"' then some ⟨String.ofList (gap.chars ++ out).reverse, false, p.after c, cs⟩
    else if c == '\\' then doubleQuotedFrom (gap.chars ++ out) (p.after c) .escape cs
    else if isBreak c then doubleQuotedFrom out (p.after c) (.text (gap.addBreak c)) cs
    else if isBlank c then doubleQuotedFrom out (p.after c) (.text (gap.addBlank c)) cs
    else doubleQuotedFrom (c :: gap.chars ++ out) (p.after c) (.text (.blanks [])) cs
  | .escape, c :: cs =>
    if isBreak c then doubleQuotedFrom out (p.after c) (.text (.breaks none [])) cs
    else
      match escaped? c, codeLength? c with
      | some d, _ => doubleQuotedFrom (d :: out) (p.after c) (.text (.blanks [])) cs
      | none, some n => doubleQuotedFrom out (p.after c) (.code (n - 1) 0) cs
      | none, none => none
  | .code missing value, c :: cs =>
    match hexDigit? c with
    | none => none
    | some d =>
      let value := value * 16 + d
      match missing with
      | missing + 1 => doubleQuotedFrom out (p.after c) (.code missing value) cs
      | 0 =>
        if value.isValidChar then
          doubleQuotedFrom (Char.ofNat value :: out) (p.after c) (.text (.blanks [])) cs
        else none

/-- Reads a scalar in double quotes, after the opening quote. -/
def doubleQuoted (p : Position) (cs : List Char) : Option Reading :=
  doubleQuotedFrom [] p (.text (.blanks [])) cs

end BuildVocabulary.Yaml
