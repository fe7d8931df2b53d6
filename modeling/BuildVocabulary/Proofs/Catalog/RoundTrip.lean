import BuildVocabulary.Catalog
import BuildVocabulary.Proofs.Yaml.Document
import Mathlib.Data.List.Basic

/-!
# Saved catalogs

A catalog is read from its own text, and so from the file where it is saved. Every step from the
characters to the catalog has its lemma.

* `Catalog.tokens?_render`, `Catalog.ofTokens?_tokens`, `Catalog.ofNode?_node`: the three steps;
* **`Catalog.read_after_write`**: a saved catalog is read as it was.
-/

namespace BuildVocabulary.Catalog

open Yaml

variable {c : Catalog}

/-- The version and the paths of a catalog are made of letters, digits, dots, underscores, dashes
and slashes. -/
def HasPathTexts (c : Catalog) : Prop := ∀ s ∈ c.version :: c.schemas, IsPathText s

instance (c : Catalog) : Decidable (c.HasPathTexts) :=
  inferInstanceAs (Decidable (∀ s ∈ c.version :: c.schemas, IsPathText s))

theorem HasPathTexts.version (h : c.HasPathTexts) : IsPathText c.version :=
  h c.version List.mem_cons_self

theorem HasPathTexts.schemas (h : c.HasPathTexts) : ∀ s ∈ c.schemas, IsPathText s := fun _ hs =>
  h _ (List.mem_cons_of_mem _ hs)

/-! ## Characters -/

/-- The word for a truth value. -/
def truthWord (b : Bool) : String := if b then "true" else "false"

theorem toList_renderSchemas (schemas : List String) :
    (renderSchemas schemas).toList = "schemas".toList ++ ':' :: Scan.listChars schemas := by
  rw [renderSchemas, Scan.listChars]
  cases schemas with
  | nil => rfl
  | cons s schemas =>
    rw [List.isEmpty_cons, if_neg Bool.false_ne_true, if_neg Bool.false_ne_true,
      String.toList_append, String.toList_join, List.flatMap_map]
    simp

/-- The lines of a catalog. -/
theorem toList_render (c : Catalog) : c.render.toList =
    "version".toList ++ ':' :: ' ' :: ((Yaml.render c.version).toList ++
      ("schemas".toList ++ ':' :: (Scan.listChars c.schemas ++
        ("merge".toList ++ ':' :: ' ' :: (c.merge.label.toList ++ '\n' ::
          ("deny_warnings".toList ++ ':' :: ' ' ::
            ((truthWord c.denyWarnings).toList ++ '\n' :: []))))))) := by
  unfold render
  simp [truthWord, toList_renderSchemas]

theorem isPathText_label (s : Strategy) : IsPathText s.label := by
  cases s <;> decide

theorem isPathText_truthWord (b : Bool) : IsPathText (truthWord b) := by
  cases b <;> decide

theorem HasPathTexts.untouched (h : c.HasPathTexts) : ∀ d ∈ c.render.toList, IsUntouched d := by
  have hcolon : IsUntouched ':' := by decide
  have hspace : IsUntouched ' ' := by decide
  have hfeed : IsUntouched '\n' := by decide
  simp only [toList_render, List.forall_mem_append, List.forall_mem_cons]
  exact ⟨untouched_text (by decide), hcolon, hspace, untouched_render h.version,
    untouched_text (by decide), hcolon, untouched_listChars h.schemas,
    untouched_text (by decide), hcolon, hspace, untouched_text (isPathText_label _), hfeed,
    untouched_text (by decide), hcolon, hspace, untouched_text (isPathText_truthWord _), hfeed,
    List.forall_mem_nil _⟩

/-! ## Tokens -/

/-- The tokens of a catalog. -/
def tokens (c : Catalog) : List Token :=
  .blockMapping :: .key :: .scalar true "version" :: .value ::
    .scalar (isPlainText c.version) c.version :: .key :: .scalar true "schemas" :: .value ::
      (Scan.listTokens c.schemas ++ [.key, .scalar true "merge", .value,
        .scalar true c.merge.label, .key, .scalar true "deny_warnings", .value,
        .scalar true (truthWord c.denyWarnings), .blockEnd])

theorem beginsPlain_label (s : Strategy) : beginsPlain false s.label.toList = true := by
  cases s <;> decide

theorem beginsPlain_truthWord (b : Bool) : beginsPlain false (truthWord b).toList = true := by
  cases b <;> decide

theorem blankFollows_listChars (texts : List String) (rest : List Char) :
    blankFollows (Scan.listChars texts ++ rest) = true := by
  cases texts with
  | nil => rfl
  | cons t texts => rfl

theorem tokens?_render (h : c.HasPathTexts) : tokens? c.render.toList = some c.tokens := by
  have hversion : Scan.KeyWord "version".toList := by decide
  have hschemas : Scan.KeyWord "schemas".toList := by decide
  have hmerge : Scan.KeyWord "merge".toList := by decide
  have hdeny : Scan.KeyWord "deny_warnings".toList := by decide
  refine Scan.tokens?_of_reads ?_
  rw [toList_render]
  refine Scan.Reads.key hversion rfl ?_
  refine Scan.Reads.written h.version (hschemas.beginsLine _) ?_
  refine Scan.Reads.key hschemas (blankFollows_listChars _ _) ?_
  refine Scan.Reads.list h.schemas (hmerge.beginsLine _) ?_
  refine Scan.Reads.key hmerge rfl ?_
  refine Scan.Reads.plainWord (forall_pathChar (isPathText_label _)) (beginsPlain_label _)
    (hdeny.beginsLine _) ?_
  refine Scan.Reads.key hdeny rfl ?_
  refine Scan.Reads.plainWord (forall_pathChar (isPathText_truthWord _))
    (beginsPlain_truthWord _) (fun d hd => by cases hd) ?_
  refine Scan.Reads.of_end ?_
  simp [tokens, Scan.opening]

/-! ## The document -/

/-- The entries of a catalog. -/
def entries (c : Catalog) : List (Node × Node) := [
  (.scalar true "version", .written c.version),
  (.scalar true "schemas", .sequence (c.schemas.map .written)),
  (.scalar true "merge", .scalar true c.merge.label),
  (.scalar true "deny_warnings", .scalar true (truthWord c.denyWarnings))]

/-- A catalog as a document. -/
def node (c : Catalog) : Node := .mapping c.entries

theorem ofTokens?_tokens (c : Catalog) : Node.ofTokens? c.tokens = some c.node := by
  -- each list item takes two tokens, and so more fuel than it needs
  obtain ⟨n, hn⟩ : ∃ n, 2 * c.tokens.length + 2 = c.schemas.length + n + 7 := by
    have hlist := Node.length_le_listTokens c.schemas
    have hlength : (Scan.listTokens c.schemas).length + 17 = c.tokens.length := by
      simp [tokens]
    exact ⟨2 * c.tokens.length + 2 - (c.schemas.length + 7), by omega⟩
  refine Node.ofTokens?_of_ofBlock (by rintro ⟨⟩) ?_
  rw [hn, tokens, Node.ofBlock]
  refine (Node.blockEntries_entry true _ (Node.blockPart_scalar _ _ _ _)).trans ?_
  refine (Node.blockEntries_entry true _ (Node.blockPart_list c.schemas (n + 1) _)).trans ?_
  refine (Node.blockEntries_entry true _ (Node.blockPart_scalar _ _ _ _)).trans ?_
  exact (Node.blockEntries_entry true _ (Node.blockPart_scalar _ _ _ _))

/-! ## The catalog -/

theorem textsOf?_written (texts : List String) :
    textsOf? (.sequence (texts.map .written)) = some texts := by
  rw [textsOf?, List.mapM_map]
  exact List.mapM_pure.trans (congrArg some (List.map_id texts))

theorem strategyOf?_label (s : Strategy) : strategyOf? (.scalar true s.label) = some s := by
  cases s <;> decide

theorem truthOf?_truthWord (b : Bool) : truthOf? (.scalar true (truthWord b)) = some b := by
  cases b <;> decide

theorem ofNode?_node (c : Catalog) : ofNode? c.node = some c := by
  have hversion : valueOf? "version" c.entries = some (some (.written c.version)) := rfl
  have hschemas : valueOf? "schemas" c.entries =
    some (some (.sequence (c.schemas.map .written))) := rfl
  have hmerge : valueOf? "merge" c.entries = some (some (.scalar true c.merge.label)) := rfl
  have htruth : valueOf? "deny_warnings" c.entries =
    some (some (.scalar true (truthWord c.denyWarnings))) := rfl
  have htext : (Node.written c.version).text? = some c.version := rfl
  simp [node, ofNode?, hversion, hschemas, hmerge, htruth, htext, textsOf?_written,
    strategyOf?_label, truthOf?_truthWord]

theorem read?_render (h : c.HasPathTexts) : read? c.render = some c := by
  rw [read?, read_of_untouched h.untouched, tokens?_render h, Option.bind_some,
    ofTokens?_tokens, Option.bind_some, ofNode?_node]

/-! ## Files -/

theorem fromUTF8?_toUTF8 (s : String) :
    String.fromUTF8? ⟨s.toUTF8.data.toList.toArray⟩ = some s := by
  have hbytes : (⟨s.toUTF8.data.toList.toArray⟩ : ByteArray) = s.toUTF8 := by
    rw [Array.toArray_toList]
  rw [hbytes, String.fromUTF8?, String.toUTF8_eq_toByteArray, dif_pos s.isValidUTF8]
  rfl

/-- **A saved catalog is read as it was.** -/
theorem read_after_write (c : Catalog) (h : c.HasPathTexts) (files : Files) (path : String) :
    readPath (c.writePath files path) path = .ok c := by
  simp only [readPath, writePath, Files.write, if_pos, fromUTF8?_toUTF8, Option.bind_some,
    read?_render h]

/-- Texts that would read as numbers, truth values, no value, an item or the end of a document. -/
def ambiguous : Catalog where
  version := "1.0"
  schemas := ["", "null", "true", "0x1F", "007", "-", "---", "...", "-/a.json", "a_b/c-d.json"]
  merge := .preferBase
  denyWarnings := true

def noFiles : Files := fun _ => .error .notFound

theorem read_after_write_ambiguous : ambiguous.HasPathTexts ∧
    readPath (ambiguous.writePath noFiles "catalog.yml") "catalog.yml" = .ok ambiguous := by
  have h : ambiguous.HasPathTexts := by decide
  exact ⟨h, read_after_write ambiguous h noFiles "catalog.yml"⟩

end BuildVocabulary.Catalog
