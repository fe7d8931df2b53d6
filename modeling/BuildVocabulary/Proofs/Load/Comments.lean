import BuildVocabulary.Proofs.Load.SectionOrder
import BuildVocabulary.Proofs.Resolve

/-!
# Comments

Members whose key begins with `#` are comments. Each part of a document skips them in a loop of its
own, so that a document loads alike with and without them; only at the top, where keys name
sections, a comment shows as an unknown key.

* `Json.uncommented`, `Json.uncommentedInside`: a value without any comments, and a document without
  those inside its sections;
* `Blind`: a part that reads a value alike with and without its comments;
* `foldlM_uncommented`: a loop that skips comments, whose steps are blind;
* `blind_resolveType`, `resolveField_uncommented`, `blind_resolveItem`, `blind_applyGroup`: the
  parts of a document;
* **`load_uncommented`**: whole documents.
-/

namespace BuildVocabulary

open Json (Location Members)

namespace Json

mutual

/-- The value without its comments, at every depth. -/
def uncommented : Json → Json
  | .array vs => .array (uncommentedItems vs)
  | .object ms => .object (uncommentedMembers ms)
  | v => v

def uncommentedItems : List Json → List Json
  | [] => []
  | v :: vs => v.uncommented :: uncommentedItems vs

def uncommentedMembers : Members → Members
  | [] => []
  | (key, v) :: ms =>
    if isComment key then uncommentedMembers ms
    else (key, v.uncommented) :: uncommentedMembers ms

end

/-- The document without the comments inside its members; those among its own keys stay. -/
def uncommentedInside : Json → Json
  | .object ms => .object (ms.map fun e => (e.1, e.2.uncommented))
  | v => v.uncommented

variable {here : Location} {v : Json} {ms : Members}

/-! ## Values without comments -/

theorem find?_uncommentedMembers (ms : Members) {key : String} (hkey : isComment key = false) :
    Members.find? (uncommentedMembers ms) key = (Members.find? ms key).map uncommented := by
  unfold Members.find?
  induction ms with
  | nil => rfl
  | cons e ms ih =>
    obtain ⟨k, v⟩ := e
    rw [uncommentedMembers]
    by_cases hk : key = k
    · subst hk
      rw [hkey, if_neg Bool.false_ne_true, List.lookup_cons_self, List.lookup_cons_self]
      rfl
    · have hne : (key == k) = false := beq_false_of_ne hk
      split_ifs
      · rw [List.lookup_cons, hne, ih]
      · rw [List.lookup_cons, List.lookup_cons, hne, ih]

theorem requireText_uncommented (v : Json) :
    requireText here v.uncommented = requireText here v := by
  cases v <;> rfl

theorem requireBool_uncommented (v : Json) :
    requireBool here v.uncommented = requireBool here v := by
  cases v <;> rfl

theorem requireText?_uncommented (v : Json) :
    requireText? here v.uncommented = requireText? here v := by
  cases v <;> rfl

theorem requireScalar?_uncommented (v : Json) :
    requireScalar? here v.uncommented = requireScalar? here v := by
  cases v <;> rfl

theorem requireTexts_uncommented (i : ℕ) (vs : List Json) :
    requireTexts here i (uncommentedItems vs) = requireTexts here i vs := by
  induction vs generalizing i with
  | nil => rfl
  | cons v vs ih => rw [uncommentedItems, requireTexts, requireTexts, requireText_uncommented, ih]

theorem requireStrings_uncommented (v : Json) :
    requireStrings here v.uncommented = requireStrings here v := by
  cases v with
  | array vs => exact requireTexts_uncommented 0 vs
  | _ => rfl

end Json

/-! ## Parts that do not look at comments -/

theorem ne_of_isComment {key known : String} (h : isComment key = true)
    (hknown : isComment known = false) : key ≠ known := by
  rintro rfl
  rw [h] at hknown
  cases hknown

/-- The part reads a value alike with and without its comments. -/
def Blind {α : Type} (resolve : Json → Resolve α) : Prop := ∀ v, resolve v.uncommented = resolve v

section Loops

variable {α β : Type} {step : β → String × Json → Resolve β} {ms : Members}

/-- A loop that skips comments does not miss them. What it collects may hold values of its own,
which lose their comments by `g`. -/
theorem foldlM_uncommented {g : β → β} (hskip : ∀ b e, isComment e.1 = true → step b e = pure b)
    (hstep : ∀ b key v, isComment key = false →
      step (g b) (key, v.uncommented) = g <$> step b (key, v)) (b : β) :
    (Json.uncommentedMembers ms).foldlM step (g b) = g <$> ms.foldlM step b := by
  induction ms generalizing b with
  | nil => rfl
  | cons e ms ih =>
    obtain ⟨key, v⟩ := e
    rw [Json.uncommentedMembers, List.foldlM_cons]
    by_cases hc : isComment key = true
    · rw [if_pos hc, hskip b (key, v) hc, pure_bind, ih]
    · have hstep := hstep b key v (Bool.eq_false_iff.mpr hc)
      rw [if_neg hc, List.foldlM_cons, hstep, bind_map_left, map_bind]
      simp only [ih]

theorem foldlM_uncommented_of_blind (hskip : ∀ b e, isComment e.1 = true → step b e = pure b)
    (hstep : ∀ b key, isComment key = false → Blind fun v => step b (key, v)) (b : β) :
    (Json.uncommentedMembers ms).foldlM step b = ms.foldlM step b := by
  have hsame : ∀ b key v, isComment key = false →
      step (id b) (key, v.uncommented) = id <$> step b (key, v) := by
    intro b key v hkey
    rw [id_map]
    exact hstep b key hkey v
  rw [← id_map (ms.foldlM step b)]
  exact foldlM_uncommented hskip hsame b

end Loops

variable {registry : Registry} {here : Location} {role : Role} {name : String} {v : Json}
  {ms : Members}

theorem blind_resolveSection {α : Type} {again : String → Finding}
    {resolve : Location → String → Json → Resolve α}
    (h : ∀ there name, Blind (resolve there name)) :
    Blind (resolveSection again resolve here) := by
  intro v
  cases v with
  | object ms =>
    simp only [Json.uncommented, resolveSection, Json.requireObject, Resolve.lift_ok_bind]
    refine foldlM_uncommented_of_blind (fun m e he => ?_) (fun m key _ v => ?_) NameMap.empty
    · rw [declare, if_pos he]
    · simp only [declare, h _ _ v]
  | _ => rfl

/-! ## Custom types -/

theorem addMember_of_isComment {registered : Option String} {t : CustomType} {e : String × Json}
    (h : isComment e.1 = true) : t.addMember registered here e = pure t := by
  have hname : e.1 ≠ "$name" := ne_of_isComment h (by decide)
  have hallow : e.1 ≠ "$allow-unknown-values" := ne_of_isComment h (by decide)
  rw [CustomType.addMember, if_neg hname, if_neg hallow, if_pos h]

theorem blind_addMember {registered : Option String} {t : CustomType} {key : String} :
    Blind fun v => t.addMember registered here (key, v) := by
  intro v
  simp only [CustomType.addMember, Json.requireText_uncommented, Json.requireBool_uncommented,
    Json.requireText?_uncommented]

theorem addItems_uncommentedItems {i : ℕ} {t : CustomType} {vs : List Json} :
    t.addItems here i (Json.uncommentedItems vs) = t.addItems here i vs := by
  induction vs generalizing i t with
  | nil => rfl
  | cons v vs ih =>
    simp only [Json.uncommentedItems, CustomType.addItems, Json.requireText_uncommented, ih]

theorem blind_resolveType {registered : Option String} : Blind (resolveType registered here) := by
  intro v
  cases v with
  | object ms =>
    have hmembers : ∀ t : CustomType, (Json.uncommentedMembers ms).foldlM
        (CustomType.addMember registered here) t =
          ms.foldlM (CustomType.addMember registered here) t :=
      foldlM_uncommented_of_blind (fun _ _ => addMember_of_isComment) fun _ _ _ => blind_addMember
    simp only [Json.uncommented, resolveType, hmembers]
  | array vs => simp only [Json.uncommented, resolveType, addItems_uncommentedItems]
  | _ => rfl

theorem blind_resolveNamedType : Blind (resolveNamedType here name) := by
  intro v
  simp only [resolveNamedType, blind_resolveType v]

/-! ## Fields -/

namespace Field

/-- The field without comments in the metadata that it holds unread. -/
def uncommented (f : Field) : Field := { f with metadata := f.metadata.map Json.uncommented }

theorem putInline_uncommented (f : Field) (v : Json) :
    f.uncommented.putInline here v.uncommented = uncommented <$> f.putInline here v := by
  simp only [putInline, blind_resolveType v, map_bind]
  rfl

theorem put_uncommented (f : Field) (v : Json) (k : FieldKey) :
    f.uncommented.put registry here v.uncommented k = uncommented <$> f.put registry here v k := by
  cases k with
  | type =>
    cases v with
    | text token => simp only [put, Json.uncommented, map_bind]; rfl
    | object ms => exact putInline_uncommented f (.object ms)
    | array vs => exact putInline_uncommented f (.array vs)
    | _ => rfl
  | values => exact putInline_uncommented f v
  | metadata => rfl
  | _ =>
    simp only [put, Json.requireText_uncommented, Json.requireBool_uncommented,
      Json.requireText?_uncommented, Json.requireScalar?_uncommented, map_bind]
    rfl

theorem add_of_isComment {f : Field} {e : String × Json} (h : isComment e.1 = true) :
    f.add registry role name here e = pure f := if_pos h

theorem add_uncommented (f : Field) (key : String) (v : Json) :
    f.uncommented.add registry role name here (key, v.uncommented) =
      uncommented <$> f.add registry role name here (key, v) := by
  unfold add
  dsimp only
  split_ifs
  · rfl
  · cases (FieldKey.table role).lookup key with
    | some k => exact put_uncommented f v k
    | none => rfl

end Field

theorem resolveField_uncommented :
    resolveField registry role name here (Json.uncommentedMembers ms) =
      Field.uncommented <$> resolveField registry role name here ms := by
  have hmembers : (Json.uncommentedMembers ms).foldlM (Field.add registry role name here) {} =
      Field.uncommented <$> ms.foldlM (Field.add registry role name here) {} :=
    foldlM_uncommented (fun f e he => Field.add_of_isComment he)
      (fun f key v _ => Field.add_uncommented f key v) {}
  rw [resolveField, resolveField, hmembers, bind_map_left, map_bind]
  simp only [Resolve.map_ok]
  -- what is reported at the end does not depend on the metadata
  rfl

/-! ## Entries -/

theorem blind_resolveProperty : Blind (resolveProperty registry here name) := by
  intro v
  cases v with
  | object ms =>
    simp only [Json.uncommented, resolveProperty, resolveField_uncommented, bind_map_left]
    rfl
  | _ => rfl

theorem blind_resolveMetadata {item : String} :
    Blind (resolveMetadata registry item here name) := by
  intro v
  cases v with
  | object ms =>
    simp only [Json.uncommented, resolveMetadata, resolveField_uncommented, bind_map_left]
    rfl
  | _ => rfl

theorem resolveItemMetadata_uncommented {item : String} {w : Option Json} :
    resolveItemMetadata registry item here (w.map Json.uncommented) =
      resolveItemMetadata registry item here w := by
  cases w with
  | none => rfl
  | some w => exact blind_resolveSection (fun _ _ => blind_resolveMetadata) w

theorem blind_resolveItem : Blind (resolveItem registry here name) := by
  intro v
  cases v with
  | object ms =>
    have hmetadata : ∀ f : Field,
        resolveItemMetadata registry name (here.key "metadata") f.uncommented.metadata =
          resolveItemMetadata registry name (here.key "metadata") f.metadata := fun f =>
      resolveItemMetadata_uncommented
    simp only [Json.uncommented, resolveItem, Json.requireObject, Resolve.lift_ok_bind,
      resolveField_uncommented, bind_map_left, hmetadata]
    rfl
  | _ => rfl

theorem targetAdd_of_isComment {t : Target} {e : String × Json} (h : isComment e.1 = true) :
    Target.add here t e = pure t := by
  have hdescription : e.1 ≠ "description" := ne_of_isComment h (by decide)
  rw [Target.add, if_neg hdescription, if_pos h]

theorem blind_resolveTarget : Blind (resolveTarget here name) := by
  intro v
  cases v with
  | object ms =>
    refine foldlM_uncommented_of_blind (fun t e => targetAdd_of_isComment) (fun t key _ v => ?_) _
    simp only [Target.add, Json.requireText?_uncommented]
  | _ => rfl

/-! ## Groups -/

theorem resolveDeclarations_uncommented {owner : String} :
    resolveDeclarations registry owner here (Json.uncommentedMembers ms) =
      resolveDeclarations registry owner here ms := by
  induction ms with
  | nil => rfl
  | cons e ms ih =>
    obtain ⟨key, v⟩ := e
    rw [Json.uncommentedMembers]
    by_cases hc : isComment key = true
    · rw [if_pos hc, ih, resolveDeclarations, hc, Bool.or_true, if_pos rfl]
    · rw [if_neg hc, resolveDeclarations, resolveDeclarations, ih, blind_resolveMetadata v]

theorem blind_applyGroup {items : NameMap Item} : Blind (applyGroup registry here items) := by
  intro v
  cases v with
  | object ms =>
    have hlisted := Json.find?_uncommentedMembers ms (show isComment appliesTo = false by decide)
    simp only [Json.uncommented, applyGroup, Json.requireObject, Resolve.lift_ok_bind, hlisted]
    cases Members.find? ms appliesTo with
    | none => rfl
    | some listed =>
      simp only [Option.map_some, Json.requireStrings_uncommented, resolveDeclarations_uncommented]
  | _ => rfl

theorem applyGroups_uncommentedItems {i : ℕ} {items : NameMap Item} {vs : List Json} :
    applyGroups registry here i items (Json.uncommentedItems vs) =
      applyGroups registry here i items vs := by
  induction vs generalizing i items with
  | nil => rfl
  | cons v vs ih => simp only [Json.uncommentedItems, applyGroups, blind_applyGroup v, ih]

/-! ## Documents -/

theorem blind_resolveImports : Blind (resolveImports here) := by
  intro v
  cases v with
  | array vs =>
    simp only [Json.uncommented, resolveImports, Json.requireArray, Resolve.lift_ok_bind,
      Json.requireTexts_uncommented]
  | _ => rfl

theorem blind_resolveGroups {items : NameMap Item} :
    Blind (resolveGroups registry items here) := by
  intro v
  cases v with
  | array vs =>
    simp only [Json.uncommented, resolveGroups, Json.requireArray, Resolve.lift_ok_bind,
      applyGroups_uncommentedItems]
  | _ => rfl

theorem find?_map_uncommented (ms : Members) (key : String) :
    Members.find? (ms.map fun e => (e.1, e.2.uncommented)) key =
      (ms.find? key).map Json.uncommented := by
  unfold Members.find?
  induction ms with
  | nil => rfl
  | cons e ms ih =>
    rw [List.map_cons, List.lookup_cons, List.lookup_cons, ih]
    cases key == e.1 <;> rfl

theorem sectionOr_map_uncommented {α : Type} (key : String) (absent : α)
    (resolve : Location → Json → Resolve α) (h : ∀ there, Blind (resolve there)) :
    sectionOr (ms.map fun e => (e.1, e.2.uncommented)) key absent resolve =
      sectionOr ms key absent resolve := by
  rw [sectionOr, sectionOr, find?_map_uncommented]
  cases ms.find? key with
  | none => rfl
  | some v => exact h _ v

theorem resolveMembers_map_uncommented (ms : Members) :
    resolveMembers (ms.map fun e => (e.1, e.2.uncommented)) = resolveMembers ms := by
  have hkeys : topLevelFindings (ms.map fun e => (e.1, e.2.uncommented)) = topLevelFindings ms := by
    rw [topLevelFindings, topLevelFindings, Members.keys, Members.keys, List.map_map]
    rfl
  simp only [resolveMembers, hkeys,
    sectionOr_map_uncommented _ _ resolveImports fun _ => blind_resolveImports,
    sectionOr_map_uncommented _ _ resolveRegistry fun _ =>
      blind_resolveSection fun _ _ => blind_resolveNamedType,
    sectionOr_map_uncommented _ _ (resolveSection _ (resolveProperty _)) fun _ =>
      blind_resolveSection fun _ _ => blind_resolveProperty,
    sectionOr_map_uncommented _ _ (resolveSection _ (resolveItem _)) fun _ =>
      blind_resolveSection fun _ _ => blind_resolveItem,
    sectionOr_map_uncommented _ _ (resolveGroups _ _) fun _ => blind_resolveGroups,
    sectionOr_map_uncommented _ _ (resolveSection _ resolveTarget) fun _ =>
      blind_resolveSection fun _ _ => blind_resolveTarget]

theorem load_uncommentedInside (doc : Json) : load doc.uncommentedInside = load doc := by
  cases doc with
  | object ms =>
    simp only [Json.uncommentedInside, load_eq, resolveDocument, resolveMembers_map_uncommented]
  | _ => rfl

/-! ## Comments at the top -/

section Top

variable {pre post : Members} {key : String}

theorem find?_append_cons_of_ne {known : String} (h : known ≠ key) :
    Members.find? (pre ++ (key, v) :: post) known = Members.find? (pre ++ post) known := by
  have hne : (known == key) = false := beq_false_of_ne h
  rw [Members.find?, Members.find?, List.lookup_append, List.lookup_append, List.lookup_cons, hne]

theorem isComment_of_mem_known {known : String} (h : known ∈ SectionKey.known) :
    isComment known = false := by
  revert known
  decide

/-- A comment at the top is a key like any other that is not known. -/
theorem not_mem_known_of_isComment (h : isComment key = true) : key ∉ SectionKey.known := by
  intro hmem
  rw [isComment_of_mem_known hmem] at h
  cases h

theorem unknownKeyWarnings_append :
    unknownKeyWarnings (pre ++ post) = unknownKeyWarnings pre ++ unknownKeyWarnings post := by
  rw [unknownKeyWarnings, Members.keys, List.map_append, List.filter_append, List.map_append]
  rfl

theorem unknownKeyWarnings_cons (h : key ∉ SectionKey.known) :
    unknownKeyWarnings ((key, v) :: post) =
      ⟨.warning, s!"unknown top-level key '{key}'"⟩ :: unknownKeyWarnings post := by
  rw [unknownKeyWarnings, Members.keys, List.map_cons, List.filter_cons_of_pos (by simpa using h),
    List.map_cons]
  rfl

end Top

/-- **Comments carry no meaning.** A document loads alike with and without the comments inside its
members. Without a comment among its own keys it loads alike but for the warning about this key. -/
theorem load_uncommented :
    (∀ doc : Json, load doc.uncommentedInside = load doc) ∧
    ∀ (pre post : Members) (key : String) (v : Json), isComment key = true →
      (∃ e, load (.object (pre ++ (key, v) :: post)) = .error e ∧
        load (.object (pre ++ post)) = .error e) ∨
      ∃ model rest,
        load (.object (pre ++ (key, v) :: post)) = .ok ⟨model,
          unknownKeyWarnings pre ++ ⟨.warning, s!"unknown top-level key '{key}'"⟩ :: rest⟩ ∧
        load (.object (pre ++ post)) = .ok ⟨model, unknownKeyWarnings pre ++ rest⟩ := by
  refine ⟨load_uncommentedInside, fun pre post key v hkey => ?_⟩
  have hunknown := not_mem_known_of_isComment hkey
  have hfind : ∀ known ∈ SectionKey.known,
      Members.find? (pre ++ (key, v) :: post) known = Members.find? (pre ++ post) known := by
    intro known hmem
    exact find?_append_cons_of_ne fun heq => hunknown (heq ▸ hmem)
  obtain ⟨rest, hwith, hwithout⟩ := resolveMembers_congr_of_known hfind
  cases rest with
  | fail e => exact .inl ⟨e, load_object_of_fail hwith, load_object_of_fail hwithout⟩
  | ok model fs =>
    have hloadWith := load_object_of_ok hwith
    have hloadWithout := load_object_of_ok hwithout
    rw [unknownKeyWarnings_append, List.append_assoc] at hloadWith hloadWithout
    rw [unknownKeyWarnings_cons hunknown, List.cons_append] at hloadWith
    exact .inr ⟨model, _, hloadWith, hloadWithout⟩

/-- Sections with comments at every depth, some of them of a shape that nothing else may have. -/
def commentedSections : Members := [
  ("customTypes", .object [("#", .null),
    ("Color", .object [("#old", .bool true), ("Red", .null)])]),
  ("items", .object [
    ("Compile", .object [
      ("#", .array []),
      ("metadata", .object [("#Tint", .null), ("Tint", .object [("type", .text "@Color"),
        ("#type", .text "@Colour")])])]),
    ("#Compile", .text "no item")]),
  ("metadata", .array [.object [("#", .null), ("$appliesTo", .text "compile"),
    ("Link", .text "Path"), ("#Link", .null)]])]

/-- The same sections without comments. -/
def bareSections : Members := [
  ("customTypes", .object [("Color", .object [("Red", .null)])]),
  ("items", .object [
    ("Compile", .object [("metadata", .object [("Tint", .object [("type", .text "@Color")])])])]),
  ("metadata", .array [.object [("$appliesTo", .text "compile"), ("Link", .text "Path")]])]

/-- Both kinds of comments are left out, one after the other. -/
theorem load_uncommented_sections : isComment "#note" = true ∧
    load (.object (("zeta", .null) :: bareSections)) =
      load (.object (("zeta", .null) :: commentedSections)) ∧
    ∃ model rest,
      load (.object ([("zeta", .null)] ++ ("#note", .array [.text "kept"]) :: commentedSections)) =
        .ok ⟨model, unknownKeyWarnings [("zeta", .null)] ++
          ⟨.warning, "unknown top-level key '#note'"⟩ :: rest⟩ ∧
      load (.object ([("zeta", .null)] ++ commentedSections)) =
        .ok ⟨model, unknownKeyWarnings [("zeta", .null)] ++ rest⟩ := by
  have hcomment : isComment "#note" = true := by decide
  have hbare : (Json.object (("zeta", .null) :: commentedSections)).uncommentedInside =
      .object (("zeta", .null) :: bareSections) := by rfl
  have hloads : (load (.object ([("zeta", .null)] ++ commentedSections))).isOk = true := by
    decide +kernel
  refine ⟨hcomment, hbare ▸ load_uncommented.1 _, ?_⟩
  have htop := load_uncommented.2 [("zeta", .null)] commentedSections "#note"
    (.array [.text "kept"]) hcomment
  rcases htop with ⟨e, -, he⟩ | hsame
  · rw [he] at hloads
    cases hloads
  · exact hsame

end BuildVocabulary
