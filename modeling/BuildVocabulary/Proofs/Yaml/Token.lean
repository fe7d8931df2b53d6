import BuildVocabulary.Proofs.Yaml.Scalar

/-!
# Tokens of written lines

A mapping is written with one key on each line, at the left margin. Its lines are read one after the
other, each step from one place of a line to the next.

* `Scan.Reads`: the tokens of a text that is being read;
* `Reads.of_next`, `Reads.of_settle`: one step;
* `Reads.key`, `Reads.dash`: what begins a line;
* `Reads.plainWord`, `Reads.written`, `Reads.list`: what ends it.
-/

namespace BuildVocabulary.Yaml.Scan

variable {s s' s₁ : Scan} {ts found : List Token} {c : Char} {w cs rest : List Char}
  {line column : ℕ} {allowsKey isFirst : Bool}

/-! ## Steps -/

/-- The scan where its next token begins. -/
def settle (s : Scan) : Option Scan := do
  let s ← s.toToken.dropLostKey
  pure (s.closeFrom (s.position.column + 1))

/-- Reads the token that begins here, and all that follow. -/
def runFrom (fuel : ℕ) (s : Scan) : Option (List Token) :=
  match s.rest with
  | [] => s.finish
  | c :: cs => (s.next c cs).bind (run fuel)

theorem run_succ (fuel : ℕ) (s : Scan) : run (fuel + 1) s = s.settle.bind (runFrom fuel) := by
  rw [run, settle]
  cases s.toToken.dropLostKey with
  | none => rfl
  | some s => rfl

/-- More fuel than needed makes no difference. -/
theorem run_mono {m n : ℕ} (h : run m s = some ts) (hmn : m ≤ n) : run n s = some ts := by
  induction m generalizing n s with
  | zero => cases h
  | succ m ih =>
    obtain ⟨n, rfl⟩ : ∃ k, n = k + 1 := ⟨n - 1, by omega⟩
    rw [run_succ] at h ⊢
    obtain ⟨s₁, hs₁, h⟩ := Option.bind_eq_some_iff.mp h
    rw [hs₁, Option.bind_some]
    unfold runFrom at h ⊢
    cases hrest : s₁.rest with
    | nil =>
      rw [hrest] at h
      exact h
    | cons c cs =>
      rw [hrest] at h
      obtain ⟨s', hs', h⟩ := Option.bind_eq_some_iff.mp h
      exact Option.bind_eq_some_iff.mpr ⟨s', hs', ih h (by omega)⟩

/-- These are the tokens of the text, those that have been found included. -/
def Reads (s : Scan) (ts : List Token) : Prop := run (s.rest.length + 1) s = some ts

/-- What is skipped before a token makes no difference. -/
theorem Reads.of_settle (h : s'.Reads ts) (hsettle : s.settle = s'.settle)
    (hlength : s'.rest.length ≤ s.rest.length) : s.Reads ts := by
  have hrun := run_mono h (Nat.succ_le_succ hlength)
  rw [run_succ] at hrun
  rw [Reads, run_succ, hsettle]
  exact hrun

/-- One token is read, which uses up part of the text. -/
theorem Reads.of_next (h : s'.Reads ts) (hsettle : s.settle = some s₁)
    (hrest : s₁.rest = c :: cs) (hnext : s₁.next c cs = some s')
    (hlength : s'.rest.length < s.rest.length) : s.Reads ts := by
  have hrun := run_mono h (Nat.succ_le_of_lt hlength)
  rw [Reads, run_succ, hsettle, Option.bind_some, runFrom, hrest]
  exact Option.bind_eq_some_iff.mpr ⟨s', hnext, hrun⟩

/-! ## Places -/

/-- The beginning of a line of a mapping at the left margin, which is open unless this is its first
line. -/
def atLine (isFirst : Bool) (line : ℕ) (found : List Token) (rest : List Char) : Scan where
  position := { line }
  rest := rest
  found := found
  count := found.length
  columns := if isFirst then [] else [0]

/-- The place after an indicator at the beginning of a line or after its key. -/
def afterMark (line column : ℕ) (allowsKey : Bool) (found : List Token) (rest : List Char) :
    Scan where
  position := ⟨line, column, column⟩
  rest := rest
  found := found
  count := found.length
  columns := [0]
  allowsKey := allowsKey

theorem skipSpace_cons {p : Position} {inFlow : Bool} (hbreak : isBreak c = false)
    (hblank : isBlank c = false) (hcomment : c ≠ '#') (hmark : c ≠ '\uFEFF') :
    skipSpace inFlow allowsKey false p (c :: cs) = (allowsKey, p, c :: cs) := by
  rw [isBlank, Bool.or_eq_false_iff] at hblank
  rw [skipSpace, hbreak]
  simp [hcomment, hmark, hblank.1, hblank.2]

theorem skipSpace_blank {p : Position} {inFlow : Bool} :
    skipSpace inFlow allowsKey false p (' ' :: cs) =
      skipSpace inFlow allowsKey false (p.advance 1) cs := by
  rw [skipSpace]
  rfl

theorem skipSpace_of_beginsLine {p : Position} {inFlow : Bool} (h : BeginsLine rest) :
    skipSpace inFlow allowsKey false p rest = (allowsKey, p, rest) := by
  cases rest with
  | nil => rfl
  | cons c cs =>
    have hc : PathChar c := h c rfl
    refine skipSpace_cons hc.not_break hc.not_blank ?_ hc.not_byteOrderMark
    rintro rfl
    exact absurd hc.not_indicator (by decide)

theorem settle_atLine (h : BeginsLine rest) :
    (atLine isFirst line found rest).settle = some (atLine isFirst line found rest) := by
  have hskip : (atLine isFirst line found rest).toToken = atLine isFirst line found rest := by
    simp only [toToken, atLine, skipSpace_of_beginsLine h]
  rw [settle, hskip]
  cases isFirst <;> rfl

/-- The same place, where a key may have begun before. -/
def withKey (s : Scan) (keyStart : Option KeyStart) : Scan := { s with keyStart }

/-- A key that began on an earlier line, where no key had to begin. -/
def IsStale (line : ℕ) (k : KeyStart) : Prop := k.position.line < line ∧ k.isRequired = false

/-- The key that may have begun on an earlier line is given up. -/
theorem settle_of_isStale {keyStart : Option KeyStart} (h : BeginsLine rest)
    (hkey : ∀ k ∈ keyStart, IsStale line k) :
    ((atLine false line found rest).withKey keyStart).settle =
      some (atLine false line found rest) := by
  have hskip : ((atLine false line found rest).withKey keyStart).toToken =
      (atLine false line found rest).withKey keyStart := by
    simp only [toToken, withKey, atLine, skipSpace_of_beginsLine h]
  rw [settle, hskip]
  cases keyStart with
  | none => rfl
  | some k =>
    obtain ⟨hline, hrequired⟩ := hkey k rfl
    have hlost : k.isLost { line } = true := by simp [KeyStart.isLost, hline]
    simp only [withKey, atLine, dropLostKey, dropKey, Option.any_some, hlost, hrequired]
    rfl

/-- A line feed is skipped, and gives up a key that may have begun before it. -/
theorem settle_lineFeed {p : Position} {keyStart : Option KeyStart} (h : BeginsLine rest)
    (hkey : ∀ k ∈ keyStart, IsStale (p.line + 1) k) :
    ({ position := p, rest := '\n' :: rest, found, count := found.length, columns := [0],
       allowsKey, keyStart } : Scan).settle = some (atLine false (p.line + 1) found rest) := by
  rw [← settle_of_isStale h hkey]
  have hskip : ∀ inFlow, skipSpace inFlow allowsKey false p ('\n' :: rest) =
      skipSpace inFlow (allowsKey || !inFlow) false { line := p.line + 1 } rest := by
    intro inFlow
    rw [skipSpace, if_pos (by decide)]
    rfl
  simp only [settle, toToken, hskip]
  simp [withKey, atLine, inFlow]

theorem settle_blank (hbreak : isBreak c = false) (hblank : isBlank c = false) (hcomment : c ≠ '#')
    (hmark : c ≠ '\uFEFF') : (afterMark line column allowsKey found (' ' :: c :: cs)).settle =
      some (afterMark line (column + 1) allowsKey found (c :: cs)) := by
  simp only [settle, toToken, afterMark, skipSpace_blank,
    skipSpace_cons hbreak hblank hcomment hmark]
  rfl

/-! ## One token -/

theorem next_plain (hc : PathChar c) (hmarker : isAnyMarker s.position (c :: cs) = false)
    (hflow : s.inFlow = false) (hbegin : beginsPlain false (c :: cs) = true)
    (hkey : s.beginKey = some s₁) (hsame : s₁.inFlow = false) :
    s.next c cs =
      (plain ⟨false, s₁.least⟩ s.position (c :: cs)).bind fun r => some (s₁.scalar true r) := by
  rw [isAnyMarker, Bool.or_eq_false_iff] at hmarker
  have hne : ∀ d, isIndicator d = true → (c == d) = false := by
    intro d hd
    refine beq_false_of_ne ?_
    rintro rfl
    rw [hc.not_indicator] at hd
    cases hd
  have hitem : (c == '-' && blankFollows cs) = false := by
    rw [beginsPlain] at hbegin
    cases hdash : c == '-' with
    | true => simpa [hdash] using hbegin
    | false => rfl
  simp [next, hmarker.1, hmarker.2, hflow, hkey, hsame, hitem, hbegin,
    hne '[' (by decide), hne '\x7b' (by decide), hne ']' (by decide), hne '\x7d' (by decide),
    hne ',' (by decide), hne '|' (by decide), hne '>' (by decide), hne '\'' (by decide),
    hne '"' (by decide), hc.not_colon, hc.not_question]

/-- The key that may begin after an indicator. -/
def keyAfterMark (line column : ℕ) (allowsKey : Bool) (found : List Token) : Option KeyStart :=
  if allowsKey then some ⟨⟨line, column + 1, column + 1⟩, found.length, false⟩ else none

theorem isStale_keyAfterMark :
    ∀ k ∈ keyAfterMark line column allowsKey found, IsStale (line + 1) k := by
  intro k hk
  cases allowsKey with
  | true =>
    cases hk
    exact ⟨Nat.lt_succ_self line, rfl⟩
  | false => cases hk

theorem beginKey_afterMark : (afterMark line (column + 1) allowsKey found rest).beginKey =
    some ((afterMark line (column + 1) allowsKey found rest).withKey
      (keyAfterMark line column allowsKey found)) := by
  cases allowsKey with
  | true => rfl
  | false => rfl

/-! ## Beginnings of lines -/

/-- The tokens before the first key of a mapping. -/
def opening (isFirst : Bool) : List Token := if isFirst then [.blockMapping] else []

/-- The place after a word that begins a line, which may turn out to be a key. -/
def afterWord (isFirst : Bool) (line : ℕ) (found : List Token) (w rest : List Char) : Scan where
  position := ⟨line, w.length, w.length⟩
  rest := rest
  found := .scalar true (String.ofList w) :: found
  count := found.length + 1
  columns := if isFirst then [] else [0]
  allowsKey := false
  keyStart := some ⟨{ line }, found.length, !isFirst⟩

theorem next_word (hc : PathChar c) (hw : ∀ d ∈ w, PathChar d) (hdash : c ≠ '-') (hdot : c ≠ '.')
    (hrest : blankFollows rest = true) :
    (atLine isFirst line found (c :: (w ++ ':' :: rest))).next c (w ++ ':' :: rest) =
      some (afterWord isFirst line found (c :: w) (':' :: rest)) := by
  have hbegin : beginsPlain false (c :: (w ++ ':' :: rest)) = true := by
    simp [beginsPlain, hdash, hc.not_question, hc.not_colon, hc.not_blank, hc.not_break,
      hc.not_indicator]
  have hkey : (atLine isFirst line found (c :: (w ++ ':' :: rest))).beginKey =
      some ((atLine isFirst line found (c :: (w ++ ':' :: rest))).withKey
        (some ⟨{ line }, found.length, !isFirst⟩)) := by
    cases isFirst with
    | true => rfl
    | false => rfl
  have hplain : plain ⟨false, (atLine isFirst line found []).least⟩ { line }
      (c :: (w ++ ':' :: rest)) = _ := plain_key hc hw hdash hdot rfl hrest
  rw [next_plain hc (isAnyMarker_of_head hdash hdot _ _) rfl hbegin hkey rfl]
  refine (congrArg (Option.bind · _) hplain).trans ?_
  simp [afterWord, atLine, withKey, scalar, emit, Position.advance]

theorem settle_afterWord (hlength : w.length ≤ maxKeyLength) :
    (afterWord isFirst line found w (':' :: rest)).settle =
      some (afterWord isFirst line found w (':' :: rest)) := by
  have hkept : KeyStart.isLost ⟨{ line }, found.length, !isFirst⟩ ⟨line, w.length, w.length⟩ =
      false := by
    simp [KeyStart.isLost, hlength]
  have hskip : skipSpace false false false ⟨line, w.length, w.length⟩ (':' :: rest) =
      (false, ⟨line, w.length, w.length⟩, ':' :: rest) :=
    skipSpace_cons (by decide) (by decide) (by decide) (by decide)
  have htoken : (afterWord isFirst line found w (':' :: rest)).toToken =
      afterWord isFirst line found w (':' :: rest) := by
    simp only [toToken, afterWord, inFlow, List.isEmpty_nil, Bool.not_true, hskip]
  rw [settle, htoken, dropLostKey]
  simp only [afterWord, Option.any_some, hkept]
  cases isFirst with
  | true => rfl
  | false => rfl

theorem next_colon (hpos : 0 < w.length) (hrest : blankFollows rest = true) :
    (afterWord isFirst line found w (':' :: rest)).next ':' rest =
      some (afterMark line (w.length + 1) false
        (.value :: .scalar true (String.ofList w) :: .key :: (opening isFirst ++ found)) rest) := by
  have hmarker : isAnyMarker ⟨line, w.length, w.length⟩ (':' :: rest) = false :=
    isAnyMarker_of_column hpos _
  rw [isAnyMarker, Bool.or_eq_false_iff] at hmarker
  simp only [next, afterWord, hmarker.1, hmarker.2, hrest]
  cases isFirst with
  | true =>
    simp [value, makeKey, openBlock, inFlow, least, emit, take, afterMark, opening,
      Position.advance]
  | false =>
    simp [value, makeKey, openBlock, inFlow, least, emit, take, afterMark, opening,
      Position.advance]

/-- A word that can be a key at the beginning of a line. -/
structure KeyWord (w : List Char) : Prop where
  pathChar : ∀ d ∈ w, PathChar d
  ne_dash : w.head? ≠ some '-'
  ne_dot : w.head? ≠ some '.'
  ne_nil : w ≠ []
  length_le : w.length ≤ maxKeyLength

instance : DecidablePred KeyWord := fun w =>
  decidable_of_iff (w.all (fun d => decide (PathChar d)) = true ∧ w.head? ≠ some '-' ∧
      w.head? ≠ some '.' ∧ w ≠ [] ∧ w.length ≤ maxKeyLength)
    ⟨fun ⟨h₁, h₂, h₃, h₄, h₅⟩ => ⟨List.all_iff_forall_prop.mp h₁, h₂, h₃, h₄, h₅⟩,
      fun ⟨h₁, h₂, h₃, h₄, h₅⟩ => ⟨List.all_iff_forall_prop.mpr h₁, h₂, h₃, h₄, h₅⟩⟩

theorem KeyWord.beginsLine (hw : KeyWord w) (rest : List Char) : BeginsLine (w ++ rest) := by
  cases w with
  | nil => exact absurd rfl hw.ne_nil
  | cons c w =>
    intro d hd
    cases hd
    exact hw.pathChar c List.mem_cons_self

/-- A key that begins its line. -/
theorem Reads.key (hw : KeyWord w) (hrest : blankFollows rest = true)
    (h : (afterMark line (w.length + 1) false
      (.value :: .scalar true (String.ofList w) :: .key :: (opening isFirst ++ found)) rest).Reads
        ts) :
    (atLine isFirst line found (w ++ ':' :: rest)).Reads ts := by
  have hsettle : (atLine isFirst line found (w ++ ':' :: rest)).settle = _ :=
    settle_atLine (hw.beginsLine (':' :: rest))
  cases w with
  | nil => exact absurd rfl hw.ne_nil
  | cons c w =>
    obtain ⟨hc, hchars⟩ := List.forall_mem_cons.mp hw.pathChar
    have hdash : c ≠ '-' := fun hc => hw.ne_dash (congrArg some hc)
    have hdot : c ≠ '.' := fun hc => hw.ne_dot (congrArg some hc)
    have hcolon : (afterWord isFirst line found (c :: w) (':' :: rest)).Reads ts :=
      Reads.of_next h (settle_afterWord hw.length_le) rfl (next_colon (Nat.succ_pos _) hrest)
        (Nat.lt_succ_self _)
    refine Reads.of_next hcolon hsettle rfl (next_word hc hchars hdash hdot hrest) ?_
    simp only [afterWord, atLine, List.length_cons, List.length_append]
    omega

/-- A dash that begins its line. -/
theorem Reads.dash (h : (afterMark line 1 true (.item :: found) (' ' :: rest)).Reads ts) :
    (atLine false line found ('-' :: ' ' :: rest)).Reads ts :=
  Reads.of_next h (settle_atLine fun d hd => by cases hd; decide) rfl
    (by simp [next, isMarker]; rfl) (Nat.lt_succ_self _)

/-! ## Ends of lines -/

/-- The rest of a line is over where the next line begins. -/
theorem Reads.of_isStale {keyStart : Option KeyStart} (hrest : BeginsLine rest)
    (hkey : ∀ k ∈ keyStart, IsStale line k) (h : (atLine false line found rest).Reads ts) :
    ((atLine false line found rest).withKey keyStart).Reads ts :=
  h.of_settle ((settle_of_isStale hrest hkey).trans (settle_atLine hrest).symm) (Nat.le_refl _)

/-- The next line begins after a line feed. -/
theorem Reads.of_lineFeed {p : Position} {keyStart : Option KeyStart} (hrest : BeginsLine rest)
    (hkey : ∀ k ∈ keyStart, IsStale (p.line + 1) k)
    (h : (atLine false (p.line + 1) found rest).Reads ts) :
    ({ position := p, rest := '\n' :: rest, found, count := found.length, columns := [0],
       allowsKey, keyStart } : Scan).Reads ts :=
  h.of_settle ((settle_lineFeed hrest hkey).trans (settle_atLine hrest).symm) (Nat.le_succ _)

theorem Reads.lineFeed (hrest : BeginsLine rest)
    (h : (atLine false (line + 1) found rest).Reads ts) :
    (afterMark line column allowsKey found ('\n' :: rest)).Reads ts :=
  Reads.of_lineFeed hrest (fun k hk => by cases hk) h

theorem beginsPlain_lineFeed (h : beginsPlain false w = true) (rest : List Char) :
    beginsPlain false (w ++ '\n' :: rest) = true := by
  cases w with
  | nil => cases h
  | cons c w =>
    cases w with
    | nil =>
      have hend : blankFollows ('\n' :: rest) = blankFollows [] := rfl
      rw [beginsPlain] at h
      rw [List.singleton_append, beginsPlain, hend]
      exact h
    | cons d w => exact h

theorem next_plainWord (hc : PathChar c) (hw : ∀ d ∈ w, PathChar d)
    (hbegin : beginsPlain false (c :: w) = true) (hrest : BeginsLine rest) :
    (afterMark line (column + 1) allowsKey found (c :: (w ++ '\n' :: rest))).next c
        (w ++ '\n' :: rest) =
      some ((atLine false (line + 1) (.scalar true (String.ofList (c :: w)) :: found) rest).withKey
        (keyAfterMark line column allowsKey found)) := by
  have hp : 0 < (⟨line, column + 1, column + 1⟩ : Position).column := Nat.succ_pos column
  have hplain : plain ⟨false, 1⟩ ⟨line, column + 1, column + 1⟩ (c :: (w ++ '\n' :: rest)) =
      some ⟨String.ofList (c :: w), true, { line := line + 1 }, rest⟩ :=
    plain_line (List.forall_mem_cons.mpr ⟨hc, hw⟩) rfl Nat.one_pos hp hrest
  have hbegin' : beginsPlain false (c :: (w ++ '\n' :: rest)) = true :=
    beginsPlain_lineFeed hbegin rest
  rw [next_plain hc (isAnyMarker_of_column hp _) rfl hbegin' beginKey_afterMark rfl]
  exact congrArg (Option.bind · _) hplain

/-- A plain word that ends its line. -/
theorem Reads.plainWord (hw : ∀ d ∈ w, PathChar d) (hbegin : beginsPlain false w = true)
    (hrest : BeginsLine rest)
    (h : (atLine false (line + 1) (.scalar true (String.ofList w) :: found) rest).Reads ts) :
    (afterMark line column allowsKey found (' ' :: (w ++ '\n' :: rest))).Reads ts := by
  cases w with
  | nil => cases hbegin
  | cons c w =>
    have hc : PathChar c := hw c List.mem_cons_self
    have hcomment : c ≠ '#' := by
      rintro rfl
      exact absurd hc.not_indicator (by decide)
    refine Reads.of_next (h.of_isStale hrest isStale_keyAfterMark)
      (settle_blank hc.not_break hc.not_blank hcomment hc.not_byteOrderMark) rfl
      (next_plainWord hc (List.forall_mem_cons.mp hw).2 hbegin hrest) ?_
    simp only [withKey, atLine, afterMark, List.length_cons, List.length_append]
    omega

theorem next_quotedWord (hw : ∀ d ∈ w, PathChar d) (rest : List Char) :
    (afterMark line (column + 1) allowsKey found ('\'' :: (w ++ '\'' :: '\n' :: rest))).next '\''
        (w ++ '\'' :: '\n' :: rest) =
      some { position := (Position.mk line (column + 2) (column + 2)).advance (w.length + 1)
             rest := '\n' :: rest
             found := .scalar false (String.ofList w) :: found
             count := found.length + 1
             columns := [0]
             allowsKey := false
             keyStart := keyAfterMark line column allowsKey found } := by
  have hp : 0 < (⟨line, column + 2, column + 2⟩ : Position).column := Nat.succ_pos (column + 1)
  have hquoted : singleQuoted ((⟨line, column + 1, column + 1⟩ : Position).after '\'')
      (w ++ '\'' :: '\n' :: rest) = _ := singleQuoted_line hw hp rest
  rw [next, beginKey_afterMark]
  simp [afterMark, isMarker, hquoted]
  rfl

/-- A word in quotes that ends its line. -/
theorem Reads.quotedWord (hw : ∀ d ∈ w, PathChar d) (hrest : BeginsLine rest)
    (h : (atLine false (line + 1) (.scalar false (String.ofList w) :: found) rest).Reads ts) :
    (afterMark line column allowsKey found (' ' :: '\'' :: (w ++ '\'' :: '\n' :: rest))).Reads
      ts := by
  refine Reads.of_next (Reads.of_lineFeed hrest isStale_keyAfterMark h)
    (settle_blank (by decide) (by decide) (by decide) (by decide)) rfl (next_quotedWord hw rest) ?_
  simp only [afterMark, List.length_cons, List.length_append]
  omega

/-- A text that ends its line as it is written. -/
theorem Reads.written {t : String} (ht : IsPathText t) (hrest : BeginsLine rest)
    (h : (atLine false (line + 1) (.scalar (isPlainText t) t :: found) rest).Reads ts) :
    (afterMark line column allowsKey found (' ' :: ((render t).toList ++ rest))).Reads ts := by
  have hw : ∀ c ∈ t.toList, PathChar c := forall_pathChar ht
  rcases render_cases ht with ⟨hplain, hrender⟩ | ⟨hplain, hrender⟩
  · have hbegin : beginsPlain false t.toList = true := by
      simp only [isPlainText, Bool.and_eq_true] at hplain
      exact hplain.1.1.1.1.1
    rw [hplain, ← String.ofList_toList (s := t)] at h
    rw [hrender, List.append_assoc]
    exact Reads.plainWord hw hbegin hrest h
  · rw [hplain, ← String.ofList_toList (s := t)] at h
    rw [hrender, List.cons_append, List.append_assoc]
    exact Reads.quotedWord hw hrest h

/-- The place between two brackets. -/
def inBrackets (line column : ℕ) (found : List Token) (rest : List Char) : Scan :=
  { afterMark line column true found rest with outer := [none] }

/-- An empty list in brackets. -/
theorem Reads.brackets (hrest : BeginsLine rest)
    (h : (atLine false (line + 1) (.closeBracket :: .openBracket :: found) rest).Reads ts) :
    (afterMark line column false found (' ' :: '[' :: ']' :: '\n' :: rest)).Reads ts := by
  have hinside : (inBrackets line (column + 2) (.openBracket :: found)
      (']' :: '\n' :: rest)).Reads ts :=
    Reads.of_next (h.lineFeed hrest) rfl rfl rfl (Nat.lt_succ_self _)
  have hopen : (afterMark line (column + 1) false found ('[' :: ']' :: '\n' :: rest)).next '['
      (']' :: '\n' :: rest) =
        some (inBrackets line (column + 2) (.openBracket :: found) (']' :: '\n' :: rest)) := by
    rfl
  exact Reads.of_next hinside (settle_blank (by decide) (by decide) (by decide) (by decide)) rfl
    hopen (Nat.lt_add_of_pos_right Nat.two_pos)

/-! ## Lists -/

/-- A list of texts, up to the end of its last line. -/
def listChars (texts : List String) : List Char :=
  if texts.isEmpty then [' ', '[', ']', '\n']
  else '\n' :: texts.flatMap fun t => '-' :: ' ' :: (render t).toList

def listTokens (texts : List String) : List Token :=
  if texts.isEmpty then [.openBracket, .closeBracket]
  else texts.flatMap fun t => [.item, .scalar (isPlainText t) t]

theorem beginsLine_items (texts : List String) (hrest : BeginsLine rest) :
    BeginsLine ((texts.flatMap fun t => '-' :: ' ' :: (render t).toList) ++ rest) := by
  cases texts with
  | nil => exact hrest
  | cons t texts =>
    intro d hd
    cases hd
    decide

theorem Reads.items {texts : List String} (ht : ∀ t ∈ texts, IsPathText t)
    (hrest : BeginsLine rest)
    (h : (atLine false (line + texts.length)
      ((texts.flatMap fun t => [.item, .scalar (isPlainText t) t]).reverse ++ found) rest).Reads
        ts) :
    (atLine false line found
      ((texts.flatMap fun t => '-' :: ' ' :: (render t).toList) ++ rest)).Reads ts := by
  induction texts generalizing line found with
  | nil => exact h
  | cons t texts ih =>
    obtain ⟨htext, ht⟩ := List.forall_mem_cons.mp ht
    simp only [List.flatMap_cons, List.cons_append, List.nil_append, List.append_assoc,
      List.reverse_cons, List.length_cons] at h ⊢
    refine Reads.dash (Reads.written htext (beginsLine_items texts hrest) (ih ht ?_))
    rwa [Nat.add_right_comm]

/-- A list after its key. -/
theorem Reads.list {texts : List String} (ht : ∀ t ∈ texts, IsPathText t) (hrest : BeginsLine rest)
    (h : (atLine false (line + 1 + texts.length) ((listTokens texts).reverse ++ found) rest).Reads
      ts) : (afterMark line column false found (listChars texts ++ rest)).Reads ts := by
  rw [listTokens] at h
  rw [listChars]
  cases texts with
  | nil => exact Reads.brackets hrest h
  | cons t texts =>
    exact Reads.lineFeed (beginsLine_items (t :: texts) hrest) (Reads.items ht hrest h)

/-! ## Whole texts -/

/-- The end of the mapping. -/
theorem Reads.of_end (h : found.reverse ++ [.blockEnd] = ts) :
    (atLine false line found []).Reads ts := by
  rw [Reads, run_succ, settle_atLine (fun c hc => by cases hc), Option.bind_some, runFrom, ← h]
  exact congrArg some List.reverse_cons

/-- A text that is a mapping begins with its first line. -/
theorem tokens?_of_reads (h : (atLine true 0 [] cs).Reads ts) : tokens? cs = some ts := h

end BuildVocabulary.Yaml.Scan
