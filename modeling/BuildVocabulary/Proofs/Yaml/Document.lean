import BuildVocabulary.Proofs.Yaml.Token
import Mathlib.Data.List.Basic

/-!
# Nodes of written lines

The tokens of a mapping whose values are scalars and lists of scalars make up that mapping.

* `Node.blockEntries_entry`: one entry, with `Node.blockPart_scalar` and `Node.blockPart_list` for
  its value;
* `IsUntouched`: the characters of a text that is read as it stands.
-/

namespace BuildVocabulary.Yaml

/-! ## Characters -/

/-- A character that may stand in a text and is no line break to normalize. -/
def IsUntouched (c : Char) : Prop := isAllowed c = true ∧ c ≠ '\r' ∧ c ≠ '\u0085'

instance : DecidablePred IsUntouched := fun c =>
  inferInstanceAs (Decidable (isAllowed c = true ∧ c ≠ '\r' ∧ c ≠ '\u0085'))

theorem normalizeBreaks_eq_self {cs : List Char} (h : ∀ c ∈ cs, IsUntouched c) :
    normalizeBreaks cs = cs := by
  induction cs with
  | nil => rfl
  | cons c cs ih =>
    obtain ⟨⟨-, hreturn, hnext⟩, hcs⟩ := List.forall_mem_cons.mp h
    rw [normalizeBreaks, ih hcs]
    · simp [hreturn, hnext]
    · exact fun _ hc => absurd hc hreturn

theorem read_of_untouched {text : String} (h : ∀ c ∈ text.toList, IsUntouched c) :
    read text = (tokens? text.toList).bind Node.ofTokens? := by
  have hallowed : text.toList.all isAllowed = true :=
    List.all_eq_true.mpr fun c hc => (h c hc).1
  rw [read, if_pos hallowed, normalizeBreaks_eq_self h]

theorem untouched_text {t : String} (ht : IsPathText t) : ∀ c ∈ t.toList, IsUntouched c := by
  intro c hc
  have h : PathChar c := forall_pathChar ht c hc
  exact ⟨h.allowed, h.not_return, h.not_nextLine⟩

theorem untouched_render {t : String} (ht : IsPathText t) :
    ∀ c ∈ (render t).toList, IsUntouched c := by
  have hquote : IsUntouched '\'' := by decide
  have hfeed : ∀ c ∈ ['\n'], IsUntouched c := List.all_iff_forall_prop.mp (by decide)
  rcases render_cases ht with ⟨-, hrender⟩ | ⟨-, hrender⟩
  · rw [hrender, List.forall_mem_append]
    exact ⟨untouched_text ht, hfeed⟩
  · rw [hrender, List.forall_mem_cons, List.forall_mem_append, List.forall_mem_cons]
    exact ⟨hquote, untouched_text ht, hquote, hfeed⟩

theorem untouched_listChars {texts : List String} (ht : ∀ t ∈ texts, IsPathText t) :
    ∀ c ∈ Scan.listChars texts, IsUntouched c := by
  rw [Scan.listChars]
  split
  · exact List.all_iff_forall_prop.mp (by decide)
  · intro c hc
    rcases List.mem_cons.mp hc with rfl | hc
    · decide
    · obtain ⟨t, hmem, hc⟩ := List.mem_flatMap.mp hc
      have hdash : IsUntouched '-' ∧ IsUntouched ' ' := by decide
      have hitem : ∀ c ∈ '-' :: ' ' :: (render t).toList, IsUntouched c := by
        rw [List.forall_mem_cons, List.forall_mem_cons]
        exact ⟨hdash.1, hdash.2, untouched_render (ht t hmem)⟩
      exact hitem c hc

namespace Node

variable {entries : List (Node × Node)} {ts ts' : List Token} {items : List Node}

/-! ## Lists -/

/-- A text as a node, which stands plain if it is written so. -/
def written (t : String) : Node := .scalar (isPlainText t) t

theorem blockItems_texts (texts : List String) (n : ℕ) :
    blockItems (texts.length + n + 1) false items
        ((texts.flatMap fun t => [.item, .scalar (isPlainText t) t]) ++ .key :: ts) =
      some (.sequence (items.reverse ++ texts.map written), .key :: ts) := by
  induction texts generalizing items with
  | nil => simp [blockItems]
  | cons t texts ih =>
    have hitem : blockItems (texts.length + n + 2) false items
        (.item :: .scalar (isPlainText t) t ::
          ((texts.flatMap fun t => [.item, .scalar (isPlainText t) t]) ++ .key :: ts)) =
      blockItems (texts.length + n + 1) false (written t :: items)
        ((texts.flatMap fun t => [.item, .scalar (isPlainText t) t]) ++ .key :: ts) := rfl
    rw [List.flatMap_cons, List.append_assoc, List.length_cons, Nat.add_right_comm texts.length 1 n]
    refine hitem.trans (ih.trans ?_)
    rw [List.reverse_cons, List.append_assoc, List.singleton_append, List.map_cons]

theorem length_le_listTokens (texts : List String) :
    texts.length ≤ (Scan.listTokens texts).length := by
  rw [Scan.listTokens]
  cases texts with
  | nil => exact Nat.zero_le _
  | cons t texts =>
    simp
    omega

/-! ## Entries -/

theorem blockPart_scalar (n : ℕ) (isPlain : Bool) (text : String) (ts : List Token) :
    blockPart (n + 2) (.scalar isPlain text :: ts) = some (.scalar isPlain text, ts) := rfl

theorem blockPart_list (texts : List String) (n : ℕ) (ts : List Token) :
    blockPart (texts.length + n + 3) (Scan.listTokens texts ++ .key :: ts) =
      some (.sequence (texts.map written), .key :: ts) := by
  cases texts with
  | nil => rfl
  | cons t texts => exact blockItems_texts (t :: texts) n

theorem blockEntries_entry {value : Node} {n : ℕ} (isPlain : Bool) (key : String)
    (h : blockPart (n + 2) ts = some (value, ts')) :
    blockEntries (n + 3) entries (.key :: .scalar isPlain key :: .value :: ts) =
      blockEntries (n + 2) ((.scalar isPlain key, value) :: entries) ts' := by
  rw [blockEntries, blockPart_scalar]
  exact congrArg (Option.bind · _) h

/-! ## Documents -/

theorem ofTokens?_of_ofBlock {node : Node} (hstart : ts.head? ≠ some .documentStart)
    (h : ofBlock (2 * ts.length + 2) false ts = some (node, [])) : ofTokens? ts = some node := by
  rw [ofTokens?, h]
  · rfl
  · rintro ts' rfl
    exact hstart rfl

end Node

end BuildVocabulary.Yaml
