import BuildVocabulary.Json.Printer

/-!
# Documents and their text

The text of a document determines the document, in either layout. What is printed of a value is
never the beginning of what is printed of another value, so that the text of an array or an object
can be taken apart at one place only. Documents with numbers are left out.

* `Tidy`: documents without numbers and without repeated keys in an object;
* `escape_append_inj`, `quoted_append_inj`: characters and strings in front of more text;
* `delimited_append_inj`: items with commas between them;
* `PrintsBy`: what both layouts have in common; `PrintsBy.append_inj`: documents in front of more
  text;
* **`compact_inj`**, **`pretty_inj`**: whole documents; `compact_ne_pretty`: an object
  with members has different texts in the two layouts.
-/

namespace BuildVocabulary.Json

/-- No number occurs, and no object has a key twice. -/
inductive Tidy : Json → Prop
  | null : Tidy .null
  | bool (b : Bool) : Tidy (.bool b)
  | text (s : String) : Tidy (.text s)
  | array {vs : List Json} (items : ∀ v ∈ vs, Tidy v) : Tidy (.array vs)
  | object {ms : Members} (distinct : ms.keys.Nodup) (values : ∀ m ∈ ms, Tidy m.2) :
      Tidy (.object ms)

attribute [simp] Tidy.null Tidy.bool Tidy.text

/-! ## Words in a row -/

section Words

variable {α β : Type} {xs ys : List α}

/-- Words of which none begins another one, in front of something that begins with none of them. -/
theorem flatMap_append_inj {word : α → List β} {r r' : List β}
    (hword : ∀ x ∈ xs, ∀ y ∈ ys, ∀ u u', word x ++ u = word y ++ u' → x = y ∧ u = u')
    (hx : ∀ x ∈ xs, ∀ u, word x ++ u ≠ r') (hy : ∀ y ∈ ys, ∀ u, word y ++ u ≠ r)
    (h : xs.flatMap word ++ r = ys.flatMap word ++ r') : xs = ys ∧ r = r' := by
  induction xs generalizing ys with
  | nil =>
    cases ys with
    | nil => exact ⟨rfl, h⟩
    | cons y ys =>
      rw [List.flatMap_cons, List.append_assoc] at h
      exact absurd h.symm (hy y List.mem_cons_self _)
  | cons x xs ih =>
    rw [List.flatMap_cons, List.append_assoc] at h
    cases ys with
    | nil => exact absurd h (hx x List.mem_cons_self _)
    | cons y ys =>
      rw [List.flatMap_cons, List.append_assoc] at h
      obtain ⟨rfl, hrest⟩ := hword x List.mem_cons_self y List.mem_cons_self _ _ h
      obtain ⟨rfl, hr⟩ := ih
        (fun a ha b hb => hword a (List.mem_cons_of_mem _ ha) b (List.mem_cons_of_mem _ hb))
        (fun a ha => hx a (List.mem_cons_of_mem _ ha))
        (fun b hb => hy b (List.mem_cons_of_mem _ hb)) hrest
      exact ⟨rfl, hr⟩

/-- Words with commas between them, and a closing bracket. Blanks stand before the bracket unless
there are no words. -/
def delimited (word : α → List Char) (blanks : List Char) (close : Char) : List α → List Char
  | [] => [close]
  | x :: xs => word x ++ (xs.flatMap fun y => ',' :: word y) ++ (blanks ++ [close])

theorem delimited_append_inj {word : α → List Char} {blanks : List Char} {close : Char}
    {r r' : List Char}
    (hword : ∀ x ∈ xs, ∀ y ∈ ys, ∀ u u', word x ++ u = word y ++ u' → x = y ∧ u = u')
    (hx : ∀ x ∈ xs, ∀ u u', word x ++ u ≠ close :: u')
    (hy : ∀ y ∈ ys, ∀ u u', word y ++ u ≠ close :: u')
    (hcomma : ∀ u u', blanks ++ close :: u ≠ ',' :: u')
    (h : delimited word blanks close xs ++ r = delimited word blanks close ys ++ r') :
    xs = ys ∧ r = r' := by
  cases xs with
  | nil =>
    cases ys with
    | nil => exact ⟨rfl, (List.cons.inj h).2⟩
    | cons y ys =>
      simp only [delimited, List.append_assoc, List.cons_append] at h
      exact absurd h.symm (hy y List.mem_cons_self _ _)
  | cons x xs =>
    cases ys with
    | nil =>
      simp only [delimited, List.append_assoc, List.cons_append] at h
      exact absurd h (hx x List.mem_cons_self _ _)
    | cons y ys =>
      simp only [delimited, List.append_assoc, List.cons_append, List.nil_append] at h
      obtain ⟨rfl, hrest⟩ := hword x List.mem_cons_self y List.mem_cons_self _ _ h
      have hafter : ∀ a ∈ xs, ∀ b ∈ ys, ∀ u u',
          ',' :: word a ++ u = ',' :: word b ++ u' → a = b ∧ u = u' := fun a ha b hb u u' hab =>
        hword a (List.mem_cons_of_mem _ ha) b (List.mem_cons_of_mem _ hb) u u'
          (List.cons.inj hab).2
      obtain ⟨rfl, hr⟩ := flatMap_append_inj hafter (fun _ _ _ hu => hcomma _ _ hu.symm)
        (fun _ _ _ hu => hcomma _ _ hu.symm) hrest
      exact ⟨rfl, (List.cons.inj (List.append_cancel_left hr)).2⟩

end Words

/-! ## Strings -/

/-- The characters that have to be escaped. -/
def specials : List Char := ['"', '\\'] ++ (List.range 32).map Char.ofNat

theorem escape_of_not_mem_specials {c : Char} (h : c ∉ specials) : escape c = [c] := by
  have hcontrol : ¬ c.toNat < 32 := fun hc =>
    h (List.mem_append_right _ (List.mem_map.mpr ⟨c.toNat, List.mem_range.mpr hc, by simp⟩))
  have hnone : escapeOf? c = none := by
    unfold escapeOf?
    split <;> first | exact absurd (by decide) h | rfl | exact if_neg hcontrol
  rw [escape, hnone, Option.getD_none]

theorem escape_special {c : Char} (h : c ∈ specials) : ∃ t, escape c = '\\' :: t := by
  have hheads : (specials.all fun c => (escape c).head? = some '\\') = true := by decide +kernel
  exact List.head?_eq_some_iff.mp (of_decide_eq_true (List.all_eq_true.mp hheads c h))

theorem eq_of_prefix_escape {c d : Char} (hc : c ∈ specials) (hd : d ∈ specials)
    (h : escape c <+: escape d) : c = d := by
  have hpairs : (specials.all fun c => specials.all fun d =>
      (escape c).isPrefixOf (escape d) → c = d) = true := by decide +kernel
  have hpair := List.all_eq_true.mp (List.all_eq_true.mp hpairs c hc) d hd
  exact of_decide_eq_true hpair (List.isPrefixOf_iff_prefix.mpr h)

theorem escape_append_inj {c d : Char} {r r' : List Char} (h : escape c ++ r = escape d ++ r') :
    c = d ∧ r = r' := by
  by_cases hc : c ∈ specials <;> by_cases hd : d ∈ specials
  · have hcd : c = d := by
      have hleft : escape c <+: escape d ++ r' := ⟨r, h⟩
      rcases List.prefix_or_prefix_of_prefix hleft (List.prefix_append _ _) with hp | hp
      · exact eq_of_prefix_escape hc hd hp
      · exact (eq_of_prefix_escape hd hc hp).symm
    subst hcd
    exact ⟨rfl, List.append_cancel_left h⟩
  · obtain ⟨t, ht⟩ := escape_special hc
    rw [ht, escape_of_not_mem_specials hd] at h
    exact absurd ((List.cons.inj h).1 ▸ by decide) hd
  · obtain ⟨t, ht⟩ := escape_special hd
    rw [ht, escape_of_not_mem_specials hc] at h
    exact absurd ((List.cons.inj h).1 ▸ by decide) hc
  · rw [escape_of_not_mem_specials hc, escape_of_not_mem_specials hd] at h
    exact List.cons.inj h

/-- No escape begins like the end of a string. -/
theorem escape_append_ne_quote (c : Char) (r r' : List Char) : escape c ++ r ≠ '"' :: r' := by
  intro h
  by_cases hc : c ∈ specials
  · obtain ⟨t, ht⟩ := escape_special hc
    rw [ht] at h
    exact absurd (List.cons.inj h).1 (by decide)
  · rw [escape_of_not_mem_specials hc] at h
    exact hc ((List.cons.inj h).1 ▸ by decide)

theorem quoted_append_inj {s t : String} {r r' : List Char} (h : quoted s ++ r = quoted t ++ r') :
    s = t ∧ r = r' := by
  simp only [quoted, List.cons_append, List.append_assoc, List.cons.injEq, true_and,
    List.nil_append] at h
  obtain ⟨hst, hr⟩ := flatMap_append_inj (fun _ _ _ _ _ _ => escape_append_inj)
    (fun c _ u => escape_append_ne_quote c u r') (fun c _ u => escape_append_ne_quote c u r) h
  exact ⟨String.toList_inj.mp hst, (List.cons.inj hr).2⟩

/-! ## Layouts -/

/-- The shape of the value whose text begins with a character, numbers apart. -/
def shapeOf? : Char → Option Shape
  | 'n' => some .null
  | 't' | 'f' => some .boolean
  | '"' => some .string
  | '[' => some .array
  | '\x7b' => some .object
  | _ => none

/-- How values are printed at each depth: with `line` before every item and before the closing
bracket, and `gap` after every colon. -/
structure PrintsBy (line : Nat → List Char) (gap : List Char)
    (print : Nat → Json → List Char) : Prop where
  line_cases : ∀ d, line d = [] ∨ ∃ t, line d = '\n' :: t
  null : ∀ d, print d .null = "null".toList
  bool : ∀ d b, print d (.bool b) = scalarChars (.bool b)
  text : ∀ d s, print d (.text s) = quoted s
  array : ∀ d vs, print d (.array vs) =
    '[' :: delimited (fun v => line (d + 1) ++ print (d + 1) v) (line d) ']' vs
  object : ∀ d ms, print d (.object ms) =
    '\x7b' :: delimited (fun m => line (d + 1) ++ (quoted m.1 ++ ':' :: (gap ++ print (d + 1) m.2)))
      (line d) '\x7d' ms

namespace PrintsBy

variable {line : Nat → List Char} {gap : List Char} {print : Nat → Json → List Char}
  {d : Nat} {c e : Char} {u v : Json} {r r' : List Char}

/-- After a line break, or none, text begins with the break or with what follows. -/
theorem line_append_ne (hp : PrintsBy line gap print) (hc : c ≠ e) (he : '\n' ≠ e) :
    line d ++ c :: r ≠ e :: r' := by
  intro h
  rcases hp.line_cases d with hd | ⟨t, hd⟩
  · rw [hd] at h
    exact hc (List.cons.inj h).1
  · rw [hd] at h
    exact he (List.cons.inj h).1

theorem exists_cons (hp : PrintsBy line gap print) (hv : v.Tidy) (d : Nat) :
    ∃ c t, print d v = c :: t ∧ shapeOf? c = some v.shape := by
  cases hv with
  | null => exact ⟨'n', "ull".toList, hp.null d, rfl⟩
  | bool b =>
    cases b with
    | false => exact ⟨'f', "alse".toList, hp.bool d false, rfl⟩
    | true => exact ⟨'t', "rue".toList, hp.bool d true, rfl⟩
  | text s => exact ⟨'"', _, hp.text d s, rfl⟩
  | array => exact ⟨'[', _, hp.array d _, rfl⟩
  | object => exact ⟨'\x7b', _, hp.object d _, rfl⟩

theorem shape_eq (hp : PrintsBy line gap print) (hu : u.Tidy) (hv : v.Tidy)
    (h : print d u ++ r = print d v ++ r') : u.shape = v.shape := by
  obtain ⟨c, t, hct, hc⟩ := hp.exists_cons hu d
  obtain ⟨e, t', het, he⟩ := hp.exists_cons hv d
  rw [hct, het] at h
  rw [(List.cons.inj h).1] at hc
  exact Option.some.inj (hc.symm.trans he)

theorem item_ne_close (hp : PrintsBy line gap print) (hv : v.Tidy) :
    line d ++ print d v ++ r ≠ ']' :: r' := by
  obtain ⟨c, t, hct, hc⟩ := hp.exists_cons hv d
  have hne : c ≠ ']' := by
    rintro rfl
    exact nomatch hc
  rw [hct, List.append_assoc]
  exact hp.line_append_ne hne (by decide)

theorem member_ne_close (hp : PrintsBy line gap print) (m : String × Json) :
    line d ++ (quoted m.1 ++ ':' :: (gap ++ print d m.2)) ++ r ≠ '\x7d' :: r' := by
  rw [List.append_assoc]
  exact hp.line_append_ne (by decide) (by decide)

theorem array_append_inj (hp : PrintsBy line gap print) {vs ws : List Json}
    (hvs : ∀ v ∈ vs, v.Tidy) (hws : ∀ w ∈ ws, w.Tidy)
    (hparts : ∀ v ∈ vs, ∀ w ∈ ws, ∀ u u',
      print (d + 1) v ++ u = print (d + 1) w ++ u' → v = w ∧ u = u')
    (h : print d (.array vs) ++ r = print d (.array ws) ++ r') : vs = ws ∧ r = r' := by
  rw [hp.array, hp.array] at h
  refine delimited_append_inj (fun v hv w hw u u' hvw => ?_)
    (fun v hv _ _ => hp.item_ne_close (hvs v hv)) (fun w hw _ _ => hp.item_ne_close (hws w hw))
    (fun _ _ => hp.line_append_ne (by decide) (by decide)) (List.cons.inj h).2
  rw [List.append_assoc, List.append_assoc] at hvw
  exact hparts v hv w hw u u' (List.append_cancel_left hvw)

theorem object_append_inj (hp : PrintsBy line gap print) {ms ns : Members}
    (hparts : ∀ m ∈ ms, ∀ n ∈ ns, ∀ u u',
      print (d + 1) m.2 ++ u = print (d + 1) n.2 ++ u' → m.2 = n.2 ∧ u = u')
    (h : print d (.object ms) ++ r = print d (.object ns) ++ r') : ms = ns ∧ r = r' := by
  rw [hp.object, hp.object] at h
  refine delimited_append_inj (fun m hm n hn u u' hmn => ?_)
    (fun m _ _ _ => hp.member_ne_close m) (fun n _ _ _ => hp.member_ne_close n)
    (fun _ _ => hp.line_append_ne (by decide) (by decide)) (List.cons.inj h).2
  simp only [List.append_assoc, List.cons_append] at hmn
  obtain ⟨hkey, hvalue⟩ := quoted_append_inj (List.append_cancel_left hmn)
  obtain ⟨heq, hu⟩ := hparts m hm n hn u u' (List.append_cancel_left (List.cons.inj hvalue).2)
  exact ⟨Prod.ext hkey heq, hu⟩

/-- A document in front of more text is determined by the whole text, and so is the rest. -/
theorem append_inj (hp : PrintsBy line gap print) (hu : u.Tidy) (hv : v.Tidy)
    (h : print d u ++ r = print d v ++ r') : u = v ∧ r = r' := by
  -- for any rests, since the parts of arrays and objects stand in front of the parts that follow
  induction hu generalizing v d r r' with
  | null =>
    have hshape := hp.shape_eq .null hv h
    cases hv with
    | null => exact ⟨rfl, List.append_cancel_left h⟩
    | bool | text | array | object => nomatch hshape
  | bool b =>
    have hshape := hp.shape_eq (.bool b) hv h
    cases hv with
    | bool c =>
      rw [hp.bool, hp.bool] at h
      cases b <;> cases c
      · exact ⟨rfl, List.append_cancel_left h⟩
      · exact absurd (List.cons.inj h).1 (by decide)
      · exact absurd (List.cons.inj h).1 (by decide)
      · exact ⟨rfl, List.append_cancel_left h⟩
    | null | text | array | object => nomatch hshape
  | text s =>
    have hshape := hp.shape_eq (.text s) hv h
    cases hv with
    | text t =>
      rw [hp.text, hp.text] at h
      exact (quoted_append_inj h).imp_left (congrArg Json.text)
    | null | bool | array | object => nomatch hshape
  | array hvs ih =>
    have hshape := hp.shape_eq (.array hvs) hv h
    cases hv with
    | array hws =>
      have hparts := hp.array_append_inj hvs hws (fun v hv w hw _ _ => ih v hv (hws w hw)) h
      exact hparts.imp_left (congrArg Json.array)
    | null | bool | text | object => nomatch hshape
  | object hkeys hms ih =>
    have hshape := hp.shape_eq (.object hkeys hms) hv h
    cases hv with
    | object _ hns =>
      have hparts := hp.object_append_inj (fun m hm n hn _ _ => ih m hm (hns n hn)) h
      exact hparts.imp_left (congrArg Json.object)
    | null | bool | text | array => nomatch hshape

end PrintsBy

/-! ## Without blanks -/

theorem compactItems_eq (vs : List Json) :
    compactItems vs = (vs.flatMap fun v => ',' :: compactChars v) ++ [']'] := by
  induction vs with
  | nil => rfl
  | cons v vs ih => rw [compactItems, ih, List.flatMap_cons, List.append_assoc]

theorem compactMembers_eq (ms : Members) :
    compactMembers ms =
      (ms.flatMap fun m => ',' :: (quoted m.1 ++ ':' :: compactChars m.2)) ++ ['\x7d'] := by
  induction ms with
  | nil => rfl
  | cons m ms ih =>
    rw [compactMembers, ih, List.flatMap_cons]
    simp only [List.append_assoc, List.cons_append]

theorem printsBy_compact : PrintsBy (fun _ => []) [] fun _ => compactChars where
  line_cases _ := .inl rfl
  null _ := by simp only [compactChars, scalarChars]
  bool _ b := by simp only [compactChars]
  text _ s := by simp only [compactChars, scalarChars]
  array _ vs := by
    cases vs with
    | nil => simp only [compactChars, delimited]
    | cons v vs => simp [compactChars, compactItems_eq, delimited]
  object _ ms := by
    cases ms with
    | nil => simp only [compactChars, delimited]
    | cons m ms => simp [compactChars, compactMembers_eq, delimited]

/-! ## One member or item a line -/

theorem prettyItems_eq (d : Nat) (vs : List Json) :
    prettyItems d vs =
      (vs.flatMap fun v => ',' :: (lineBreak (d + 1) ++ prettyChars (d + 1) v)) ++
        (lineBreak d ++ [']']) := by
  induction vs with
  | nil => rw [prettyItems]; rfl
  | cons v vs ih =>
    rw [prettyItems, ih, List.flatMap_cons]
    simp only [List.append_assoc, List.cons_append]

theorem prettyMembers_eq (d : Nat) (ms : Members) :
    prettyMembers d ms =
      (ms.flatMap fun m =>
        ',' :: (lineBreak (d + 1) ++ (quoted m.1 ++ ':' :: ' ' :: prettyChars (d + 1) m.2))) ++
        (lineBreak d ++ ['\x7d']) := by
  induction ms with
  | nil => rw [prettyMembers]; rfl
  | cons m ms ih =>
    rw [prettyMembers, ih, List.flatMap_cons]
    simp only [List.append_assoc, List.cons_append]

theorem printsBy_pretty : PrintsBy lineBreak [' '] prettyChars where
  line_cases d := .inr ⟨_, rfl⟩
  null _ := by simp only [prettyChars, scalarChars]
  bool _ b := by simp only [prettyChars]
  text _ s := by simp only [prettyChars, scalarChars]
  array _ vs := by
    cases vs with
    | nil => simp only [prettyChars, delimited]
    | cons v vs => simp [prettyChars, prettyItems_eq, delimited]
  object _ ms := by
    cases ms with
    | nil => simp only [prettyChars, delimited]
    | cons m ms => simp [prettyChars, prettyMembers_eq, delimited]

/-! ## Whole documents -/

variable {u v : Json}

theorem PrintsBy.inj {line : Nat → List Char} {gap : List Char} {print : Nat → Json → List Char}
    (hp : PrintsBy line gap print) (hu : u.Tidy) (hv : v.Tidy) {d : Nat} :
    String.ofList (print d u) = String.ofList (print d v) ↔ u = v := by
  refine ⟨fun h => ?_, fun h => h ▸ rfl⟩
  have hchars : print d u ++ [] = print d v ++ [] := congrArg (· ++ []) (String.ofList_injective h)
  exact (hp.append_inj hu hv hchars).1

theorem compact_inj (hu : u.Tidy) (hv : v.Tidy) : compact u = compact v ↔ u = v :=
  printsBy_compact.inj hu hv (d := 0)

theorem pretty_inj (hu : u.Tidy) (hv : v.Tidy) : pretty u = pretty v ↔ u = v :=
  printsBy_pretty.inj hu hv

/-- The layouts differ from the first member on. -/
theorem compact_ne_pretty (m n : String × Json) (ms ns : Members) :
    compact (.object (m :: ms)) ≠ pretty (.object (n :: ns)) := by
  intro h
  have hchars := String.ofList_injective h
  rw [compactChars, prettyChars] at hchars
  exact absurd (List.cons.inj (List.cons.inj hchars).2).1 (by decide)

end BuildVocabulary.Json
