import BuildVocabulary.Proofs.Segments
import BuildVocabulary.Yaml.Document
import BuildVocabulary.Yaml.Printer
import Mathlib.Data.Bool.AllAny
import Mathlib.Data.List.Basic

/-!
# Scalars that are read back

Texts of versions and paths are written plain or in single quotes, on one line. Both forms are read
as the text that was written, whatever comes on the next line.

* `IsPathText`, `PathChar`: the texts in question, and what their characters are not;
* `render_cases`: how such a text is written;
* `plain_line`, `plain_key`, `singleQuoted_line`: how it is read.
-/

namespace BuildVocabulary.Yaml

/-! ## Characters of paths -/

/-- Letters and digits of ASCII, dots, underscores, dashes and slashes. -/
def isPathChar (c : Char) : Bool := c.isAlphanum || ['.', '_', '-', '/'].contains c

/-- A text of such characters, which may be empty. -/
def IsPathText (s : String) : Prop := ∀ c ∈ s.toList, isPathChar c = true

instance (s : String) : Decidable (IsPathText s) :=
  List.decidableBAll _ s.toList

/-- What a character of a path is, for those who write and read scalars. -/
structure PathChar (c : Char) : Prop where
  not_break : isBreak c = false
  not_blank : isBlank c = false
  not_indicator : isIndicator c = false
  not_colon : c ≠ ':'
  not_question : c ≠ '?'
  not_return : c ≠ '\r'
  not_nextLine : c ≠ '\u0085'
  not_byteOrderMark : c ≠ '\uFEFF'
  printable : isPrintable c = true
  allowed : isAllowed c = true
  utf8Size : c.utf8Size = 1

theorem toNat_lt_of_isPathChar {c : Char} (h : isPathChar c = true) : c.toNat < 128 := by
  rw [isPathChar, Bool.or_eq_true, List.contains_iff_mem] at h
  rcases h with h | h
  · exact toNat_lt_of_isAlphanum h
  · have hall : ∀ d ∈ ['.', '_', '-', '/'], d.toNat < 128 :=
      List.all_iff_forall_prop.mp (by decide)
    exact hall c h

/-- There are few characters to look at. -/
theorem of_isPathChar {p : Char → Bool}
    (hp : ∀ n < 128, isPathChar (Char.ofNat n) = true → p (Char.ofNat n) = true) {c : Char}
    (h : isPathChar c = true) : p c = true := by
  have hc := hp c.toNat (toNat_lt_of_isPathChar h)
  rw [Char.ofNat_toNat] at hc
  exact hc h

instance : DecidablePred PathChar := fun c =>
  decidable_of_iff (isBreak c = false ∧ isBlank c = false ∧ isIndicator c = false ∧ c ≠ ':' ∧
      c ≠ '?' ∧ c ≠ '\r' ∧ c ≠ '\u0085' ∧ c ≠ '\uFEFF' ∧ isPrintable c = true ∧
      isAllowed c = true ∧ c.utf8Size = 1)
    ⟨fun ⟨h₁, h₂, h₃, h₄, h₅, h₆, h₇, h₈, h₉, h₁₀, h₁₁⟩ =>
        ⟨h₁, h₂, h₃, h₄, h₅, h₆, h₇, h₈, h₉, h₁₀, h₁₁⟩,
      fun ⟨h₁, h₂, h₃, h₄, h₅, h₆, h₇, h₈, h₉, h₁₀, h₁₁⟩ =>
        ⟨h₁, h₂, h₃, h₄, h₅, h₆, h₇, h₈, h₉, h₁₀, h₁₁⟩⟩

theorem pathChar_of_isPathChar {c : Char} (h : isPathChar c = true) : PathChar c :=
  of_decide_eq_true (of_isPathChar (p := fun c => decide (PathChar c)) (by decide +kernel) h)

variable {c : Char} {w cs rest out : List Char} {p : Position} {ctx : PlainContext} {s : String}

theorem PathChar.ne_quote (h : PathChar c) : c ≠ '\'' := by
  rintro rfl
  exact absurd h.not_indicator (by decide)

theorem forall_pathChar (h : IsPathText s) : ∀ c ∈ s.toList, PathChar c := fun c hc =>
  pathChar_of_isPathChar (h c hc)

/-! ## Positions -/

theorem PathChar.after (h : PathChar c) (p : Position) : p.after c = p.advance 1 := by
  rw [Position.after, h.not_break, h.utf8Size]
  rfl

theorem Position.advance_advance (p : Position) (m n : ℕ) :
    (p.advance m).advance n = p.advance (m + n) := by
  simp only [Position.advance, Nat.add_assoc]

theorem isAnyMarker_of_column (h : 0 < p.column) (cs : List Char) : isAnyMarker p cs = false := by
  have hcolumn : (p.column == 0) = false := beq_false_of_ne (Nat.ne_of_gt h)
  simp only [isAnyMarker, isMarker, hcolumn, Bool.false_and, Bool.or_false]

theorem isAnyMarker_of_head (hdash : c ≠ '-') (hdot : c ≠ '.') (p : Position) (cs : List Char) :
    isAnyMarker p (c :: cs) = false := by
  simp [isAnyMarker, isMarker, hdash, hdot]

/-- What may stand at the beginning of the next line. -/
def BeginsLine (rest : List Char) : Prop := ∀ c ∈ rest.head?, PathChar c

/-! ## Plain scalars -/

theorem plainFrom_cons (hc : PathChar c) (hflow : ctx.inFlow = false)
    (hmarker : isAnyMarker p (c :: cs) = false) :
    plainFrom ctx out (.blanks []) p (c :: cs) =
      plainFrom ctx (c :: out) (.blanks []) (p.advance 1) cs := by
  rw [plainFrom, hc.not_break, hc.not_blank, hc.after]
  simp [PlainContext.endsBefore, PlainContext.isMisplaced, Gap.hasBreak, Gap.isEmpty, Gap.chars,
    hmarker, hflow, hc.not_colon]

theorem plainFrom_append (hw : ∀ c ∈ w, PathChar c) (hflow : ctx.inFlow = false)
    (hp : 0 < p.column) (rest : List Char) :
    plainFrom ctx out (.blanks []) p (w ++ rest) =
      plainFrom ctx (w.reverse ++ out) (.blanks []) (p.advance w.length) rest := by
  induction w generalizing out p with
  | nil => rfl
  | cons c w ih =>
    obtain ⟨hc, hw⟩ := List.forall_mem_cons.mp hw
    have hp' : 0 < (p.advance 1).column := Nat.lt_add_right 1 hp
    rw [List.cons_append, plainFrom_cons hc hflow (isAnyMarker_of_column hp _), ih hw hp',
      Position.advance_advance, List.length_cons, Nat.add_comm, List.reverse_cons,
      List.append_assoc, List.singleton_append]

theorem plainFrom_lineFeed (hflow : ctx.inFlow = false) (hleast : 0 < ctx.least)
    (hrest : BeginsLine rest) : plainFrom ctx out (.blanks []) p ('\n' :: rest) =
      some ⟨String.ofList out.reverse, true, { line := p.line + 1 }, rest⟩ := by
  have hbreak : isBreak '\n' = true := by decide
  rw [plainFrom, if_pos hbreak, Position.after, if_pos hbreak]
  cases rest with
  | nil => rfl
  | cons d ds =>
    have hd : PathChar d := hrest d rfl
    rw [plainFrom, hd.not_break, hd.not_blank]
    simp [PlainContext.endsBefore, Gap.addBreak, Gap.hasBreak, hflow, hleast]

theorem plainFrom_colon (hrest : blankFollows rest = true) :
    plainFrom ctx out (.blanks []) p (':' :: rest) =
      some ⟨String.ofList out.reverse, false, p, ':' :: rest⟩ := by
  have hbreak : isBreak ':' = false := by decide
  have hblank : isBlank ':' = false := by decide
  rw [plainFrom, hbreak, hblank]
  simp [PlainContext.endsBefore, Gap.hasBreak, hrest]

/-- A scalar that ends with its line, where the next line belongs to something else. -/
theorem plain_line (hw : ∀ c ∈ w, PathChar c) (hflow : ctx.inFlow = false)
    (hleast : 0 < ctx.least) (hp : 0 < p.column) (hrest : BeginsLine rest) :
    plain ctx p (w ++ '\n' :: rest) =
      some ⟨String.ofList w, true, { line := p.line + 1 }, rest⟩ := by
  rw [plain, plainFrom_append hw hflow hp, plainFrom_lineFeed hflow hleast hrest, List.append_nil,
    List.reverse_reverse]
  rfl

/-- A key that begins its line. -/
theorem plain_key (hc : PathChar c) (hw : ∀ c ∈ w, PathChar c) (hdash : c ≠ '-') (hdot : c ≠ '.')
    (hflow : ctx.inFlow = false) (hrest : blankFollows rest = true) :
    plain ctx p (c :: (w ++ ':' :: rest)) =
      some ⟨String.ofList (c :: w), false, p.advance (w.length + 1), ':' :: rest⟩ := by
  have hp : 0 < (p.advance 1).column := Nat.succ_pos _
  rw [plain, plainFrom_cons hc hflow (isAnyMarker_of_head hdash hdot p _),
    plainFrom_append hw hflow hp, plainFrom_colon hrest, Position.advance_advance, Nat.add_comm]
  simp

/-! ## Scalars in single quotes -/

theorem singleQuotedFrom_cons (hc : PathChar c) (hp : 0 < p.column) :
    singleQuotedFrom out (.blanks []) p (c :: cs) =
      singleQuotedFrom (c :: out) (.blanks []) (p.advance 1) cs := by
  rw [singleQuotedFrom, isAnyMarker_of_column hp, hc.not_break, hc.not_blank, hc.after]
  · rfl
  · exact fun _ h => absurd h hc.ne_quote
  · exact fun h => absurd h hc.ne_quote

theorem singleQuotedFrom_append (hw : ∀ c ∈ w, PathChar c) (hp : 0 < p.column)
    (rest : List Char) : singleQuotedFrom out (.blanks []) p (w ++ rest) =
      singleQuotedFrom (w.reverse ++ out) (.blanks []) (p.advance w.length) rest := by
  induction w generalizing out p with
  | nil => rfl
  | cons c w ih =>
    obtain ⟨hc, hw⟩ := List.forall_mem_cons.mp hw
    have hp' : 0 < (p.advance 1).column := Nat.lt_add_right 1 hp
    rw [List.cons_append, singleQuotedFrom_cons hc hp, ih hw hp', Position.advance_advance,
      List.length_cons, Nat.add_comm, List.reverse_cons, List.append_assoc, List.singleton_append]

/-- A scalar that ends with its line. -/
theorem singleQuoted_line (hw : ∀ c ∈ w, PathChar c) (hp : 0 < p.column) (rest : List Char) :
    singleQuoted p (w ++ '\'' :: '\n' :: rest) =
      some ⟨String.ofList w, false, p.advance (w.length + 1), '\n' :: rest⟩ := by
  have hafter : (p.advance w.length).after '\'' = p.advance (w.length + 1) :=
    Position.advance_advance p w.length 1
  rw [singleQuoted, singleQuotedFrom_append hw hp, singleQuotedFrom, hafter, Gap.chars,
    List.nil_append, List.append_nil, List.reverse_reverse]
  exact fun _ h => absurd (List.cons.inj h).1 (by decide)

/-! ## Writing -/

theorem hasSpaceBeforeBreak_eq_false (h : ∀ c ∈ cs, PathChar c) :
    hasSpaceBeforeBreak cs = false := by
  rw [hasSpaceBeforeBreak, List.any_eq_false]
  rintro ⟨c, d⟩ hcd
  have hd : d ∈ cs := List.mem_of_mem_drop (List.of_mem_zip hcd).2
  simp [(h d hd).not_break]

theorem hasSpaceAfterBreak_eq_false (h : ∀ c ∈ cs, PathChar c) :
    hasSpaceAfterBreak cs = false := by
  rw [hasSpaceAfterBreak, List.any_eq_false]
  rintro ⟨c, d⟩ hcd
  have hc : c ∈ cs := (List.of_mem_zip hcd).1
  simp [(h c hc).not_break]

theorem style_of_isPathText (h : IsPathText s) :
    Style.ofText s = if isPlainText s then .plain else .singleQuoted := by
  have hchars := forall_pathChar h
  have hprintable : s.toList.all isPrintable = true :=
    List.all_eq_true.mpr fun c hc => (hchars c hc).printable
  have hline : s.toList.contains '\n' = false := by
    rw [List.contains_eq_mem, decide_eq_false_iff_not]
    exact fun hmem => absurd (hchars _ hmem).not_break (by decide)
  rw [Style.ofText, hprintable, hasSpaceBeforeBreak_eq_false hchars, hline,
    hasSpaceAfterBreak_eq_false hchars]
  simp

theorem indentLines_eq_self {write : Char → List Char} (h : ∀ c ∈ cs, PathChar c)
    (hwrite : ∀ c ∈ cs, write c = [c]) : indentLines write false cs = cs := by
  induction cs with
  | nil => rfl
  | cons c cs ih =>
    obtain ⟨hc, hcs⟩ := List.forall_mem_cons.mp h
    obtain ⟨hwc, hwcs⟩ := List.forall_mem_cons.mp hwrite
    rw [indentLines, hc.not_break, ih hcs hwcs, hwc]
    rfl

theorem singleQuotes_eq (h : ∀ c ∈ cs, PathChar c) : singleQuotes cs = '\'' :: cs ++ ['\''] := by
  have hend : endsWithBreak cs = false := by
    rw [endsWithBreak, Option.any_eq_false]
    exact fun c hc => by simp [(h c (List.mem_of_getLast? hc)).not_break]
  rw [singleQuotes, indentLines_eq_self h, hend]
  · simp
  · intro c hc
    simp [(h c hc).ne_quote]

/-- A text of this kind is written plain where this reads as a text, and in single quotes else. -/
theorem render_cases (h : IsPathText s) :
    (isPlainText s = true ∧ (render s).toList = s.toList ++ ['\n']) ∨
    (isPlainText s = false ∧ (render s).toList = '\'' :: (s.toList ++ '\'' :: ['\n'])) := by
  rw [render, style_of_isPathText h, String.toList_ofList]
  cases hplain : isPlainText s with
  | true => exact .inl ⟨rfl, rfl⟩
  | false =>
    refine .inr ⟨rfl, ?_⟩
    simp [singleQuotes_eq (forall_pathChar h)]

end BuildVocabulary.Yaml
