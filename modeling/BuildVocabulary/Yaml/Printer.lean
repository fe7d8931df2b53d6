import BuildVocabulary.Yaml.Implicit

/-!
# Writing scalars

A scalar is written in the simplest style that keeps its text: plain, else in single quotes. A text
with line feeds becomes a literal block, and one that no other style keeps is put in double quotes.
A separator of lines or paragraphs stays as it is, and what follows it is indented.
-/

namespace BuildVocabulary.Yaml

inductive Style where
  | plain
  | singleQuoted
  | doubleQuoted
  | literal
  deriving DecidableEq, Repr

/-! ## The choice of a style -/

/-- Whether a character can be written as it is. -/
def isPrintable (c : Char) : Bool :=
  let n := c.toNat
  c == '\n' || (0x20 ≤ n && n ≤ 0x7E) ||
    (0xA0 ≤ n && n != 0xFEFF && n != 0xFFFE && n != 0xFFFF)

/-- Whether a text begins like a line that separates documents. -/
def beginsMarker (cs : List Char) : Bool :=
  cs.take 3 == ['-', '-', '-'] || cs.take 3 == ['.', '.', '.']

/-- Whether a plain scalar would end within a text, at a colon before a blank or at a number sign
after one. -/
def hasPlainEnd (afterBlank : Bool) : List Char → Bool
  | [] => false
  | c :: cs =>
    (c == ':' && blankFollows cs) || (c == '#' && afterBlank) || hasPlainEnd (isBlank c) cs

def endsWithSpace (cs : List Char) : Bool := cs.getLast? == some ' '

def hasSpaceBeforeBreak (cs : List Char) : Bool :=
  (cs.zip (cs.drop 1)).any fun (c, d) => c == ' ' && isBreak d

def hasSpaceAfterBreak (cs : List Char) : Bool :=
  (cs.zip (cs.drop 1)).any fun (c, d) => isBreak c && d == ' '

/-- Whether a text can be written plain and be read as the same text. -/
def isPlainText (s : String) : Bool :=
  let cs := s.toList
  beginsPlain false cs && !beginsMarker cs && !hasPlainEnd false cs && !endsWithSpace cs &&
    !cs.any isBreak && !isImplicit s

def Style.ofText (s : String) : Style :=
  let cs := s.toList
  if !cs.all isPrintable || hasSpaceBeforeBreak cs then .doubleQuoted
  else if cs.contains '\n' then if endsWithSpace cs then .doubleQuoted else .literal
  else if isPlainText s then .plain
  else if hasSpaceAfterBreak cs then .doubleQuoted
  else .singleQuoted

/-! ## Lines -/

/-- The blanks before a line of a scalar that is not its first. -/
def indentation : List Char := [' ', ' ']

/-- A text whose lines are indented, except for empty ones, each character written by a function.
The first line is indented if it comes after a break. -/
def indentLines (write : Char → List Char) (afterBreak : Bool) : List Char → List Char
  | [] => []
  | c :: cs =>
    if isBreak c then c :: indentLines write true cs
    else (if afterBreak then indentation else []) ++ write c ++ indentLines write false cs

def endsWithBreak (cs : List Char) : Bool := cs.getLast?.any isBreak

/-! ## Quotes -/

/-- A text in single quotes, a quote in it written twice. -/
def singleQuotes (cs : List Char) : List Char :=
  '\'' :: indentLines (fun c => if c == '\'' then ['\'', '\''] else [c]) false cs ++
    (if endsWithBreak cs then indentation else []) ++ ['\'']

/-- The last `width` hexadecimal digits of a number. -/
def hexDigits (n : Nat) : (width : Nat) → List Char
  | 0 => []
  | width + 1 => hexDigits (n / 16) width ++ [(Nat.digitChar (n % 16)).toUpper]

/-- A character between double quotes. -/
def escape (c : Char) : List Char :=
  match [('\x00', '0'), ('\x07', 'a'), ('\x08', 'b'), ('\t', 't'), ('\n', 'n'), ('\x0b', 'v'),
    ('\x0c', 'f'), ('\r', 'r'), ('\x1b', 'e'), ('"', '"'), ('\\', '\\'), ('\u0085', 'N'),
    ('\u2028', 'L'), ('\u2029', 'P')].lookup c
  with
  | some letter => ['\\', letter]
  | none =>
    let n := c.toNat
    if isPrintable c then [c]
    else if n < 0x100 then '\\' :: 'x' :: hexDigits n 2
    else '\\' :: 'u' :: hexDigits n 4

def doubleQuotes (cs : List Char) : List Char := '"' :: cs.flatMap escape ++ ['"']

/-! ## Literal blocks -/

/-- The sign in the header of a literal block that tells what becomes of its last line breaks. -/
def chompingSign (cs : List Char) : List Char :=
  match cs.reverse with
  | c :: cs => if !isBreak c then ['-'] else if cs.head?.all isBreak then ['+'] else []
  | [] => ['-']

/-- The indentation in the header of a literal block, where it does not show from the first
line. -/
def indentSign : List Char → List Char
  | c :: _ => if c == ' ' || isBreak c then ['2'] else []
  | [] => []

def literalBlock (cs : List Char) : List Char :=
  '|' :: indentSign cs ++ chompingSign cs ++ '\n' :: indentLines (fun c => [c]) true cs

/-! ## Scalars -/

/-- The scalar with a text, up to the end of its last line. -/
def render (s : String) : String :=
  let cs := s.toList
  String.ofList <|
    match Style.ofText s with
    | .plain => cs ++ ['\n']
    | .singleQuoted => singleQuotes cs ++ ['\n']
    | .doubleQuoted => doubleQuotes cs ++ ['\n']
    | .literal => literalBlock cs ++ if endsWithBreak cs then [] else ['\n']

end BuildVocabulary.Yaml
