import BuildVocabulary.CommandLine.Run
import BuildVocabulary.Proofs.Json.Printing
import BuildVocabulary.Proofs.NameMap

/-!
# Written models

A written model has all that the model holds, and each part of it in one place: the labels of kinds
are distinct, an absent value differs from every present one, and the fields of a deprecation do not
clash with those of the entity that they stand in.

* `Members.collect_of_nodup`: members with distinct keys that are collected one by one;
* `BaseKind.label_inj`, `Modifiers.label_inj`: labels;
* `tidy_encode`, `encode_inj`, for every kind of entity: written entities repeat no key and are
  determined by what is written;
* `NameMap.encode_inj`: the same for maps, with order and spellings;
* **`encoding_lossless`**: the same for models, their texts and what is printed of files.
-/

namespace BuildVocabulary

open Json (Members Tidy)

/-! ## Members of an object -/

namespace Json

namespace Members

/-- Members collected one by one, as a reader does. -/
def collect (ms : Members) : Members := ms.foldl (fun acc m => put m.1 m.2 acc) []

theorem put_eq_append {key : String} {ms : Members} (h : key ∉ ms.keys) (v : Json) :
    put key v ms = ms ++ [(key, v)] := by
  induction ms with
  | nil => rfl
  | cons m ms ih =>
    obtain ⟨hm, hms⟩ := not_or.mp fun h' => h (List.mem_cons.mpr h')
    rw [put, if_neg (Ne.symm hm), ih hms, List.cons_append]

theorem foldl_put_eq_append {ms ns : Members} (h : (ms ++ ns).keys.Nodup) :
    ns.foldl (fun acc m => put m.1 m.2 acc) ms = ms ++ ns := by
  induction ns generalizing ms with
  | nil => exact (List.append_nil ms).symm
  | cons n ns ih =>
    have hnew : n.1 ∉ ms.keys := by
      intro hn
      rw [keys, List.map_append, List.map_cons] at h
      exact (List.nodup_append.mp h).2.2 n.1 hn n.1 List.mem_cons_self rfl
    rw [List.foldl_cons, put_eq_append hnew, ih (by rwa [List.append_assoc]), List.append_assoc,
      List.singleton_append]

/-- No member is lost, and none moves, when no key is repeated. -/
theorem collect_of_nodup {ms : Members} (h : ms.keys.Nodup) : ms.collect = ms :=
  @foldl_put_eq_append [] ms h

end Members

end Json

/-! ## Labels -/

namespace BaseKind

theorem mem_table (b : BaseKind) : (b, b.label) ∈ table := by
  cases b <;> decide

@[simp]
theorem label_inj {a b : BaseKind} : a.label = b.label ↔ a = b := by
  refine ⟨fun h => ?_, congrArg label⟩
  have hlabels : (table.map Prod.snd).Nodup := by decide +kernel
  exact congrArg Prod.fst (List.inj_on_of_nodup_map hlabels a.mem_table b.mem_table h)

end BaseKind

@[simp]
theorem Modifiers.label_inj {a b : Modifiers} : a.label = b.label ↔ a = b := by
  obtain ⟨l, c, t, u⟩ := a
  obtain ⟨l', c', t', u'⟩ := b
  revert l c t u l' c' t' u'
  decide +kernel

@[simp]
theorem Severity.label_inj {a b : Severity} : a.label = b.label ↔ a = b := by
  cases a <;> cases b <;> simp [label]

/-! ## Parts of entities -/

@[simp]
theorem encodeText?_inj {s t : Option String} : encodeText? s = encodeText? t ↔ s = t := by
  cases s <;> cases t <;> simp [encodeText?]

@[simp]
theorem tidy_encodeText? (s : Option String) : (encodeText? s).Tidy := by
  cases s <;> simp [encodeText?]

@[simp]
theorem Kind.encode_inj {k l : Kind} : k.encode = l.encode ↔ k = l := by
  cases k
  cases l
  simp [encode]

@[simp]
theorem Kind.tidy_encode (k : Kind) : k.encode.Tidy :=
  .object (by simp [Members.keys]) (by simp)

@[simp]
theorem TypeValue.encode_inj {v w : TypeValue} : v.encode = w.encode ↔ v = w := by
  cases v
  cases w
  simp [encode]

@[simp]
theorem TypeValue.tidy_encode (v : TypeValue) : v.encode.Tidy :=
  .object (by simp [Members.keys]) (by simp)

@[simp]
theorem CustomType.encode_inj {t u : CustomType} : t.encode = u.encode ↔ t = u := by
  cases t
  cases u
  simp [encode, List.map_inj_right]

@[simp]
theorem CustomType.tidy_encode (t : CustomType) : t.encode.Tidy := by
  have hvalues : (Json.array (t.values.map TypeValue.encode)).Tidy := .array (by simp)
  exact .object (by simp [Members.keys]) (by simp [hvalues])

@[simp]
theorem encodeType?_inj {t u : Option CustomType} : encodeType? t = encodeType? u ↔ t = u := by
  cases t with
  | none => cases u <;> simp [encodeType?, CustomType.encode]
  | some t =>
    cases u with
    | none => simp [encodeType?, CustomType.encode]
    | some u => simp [encodeType?]

@[simp]
theorem tidy_encodeType? (t : Option CustomType) : (encodeType? t).Tidy := by
  cases t <;> simp [encodeType?]

@[simp]
theorem Deprecation.members_inj {d e : Deprecation} : d.members = e.members ↔ d = e := by
  cases d
  cases e
  simp [members]

/-! ## Maps -/

namespace NameMap

variable {α : Type} {f : α → Json} {m n : NameMap α}

theorem encode_inj (hf : ∀ a b, f a = f b ↔ a = b) : m.encode f = n.encode f ↔ m = n := by
  refine ⟨fun h => ext ?_, fun h => h ▸ rfl⟩
  have hentry : ∀ d e : String × α, (d.1, f d.2) = (e.1, f e.2) → d = e := fun d e hde =>
    Prod.ext (Prod.mk.inj hde).1 ((hf _ _).mp (Prod.mk.inj hde).2)
  exact (List.map_inj_right hentry).mp (Json.object.inj h)

/-- A map is written with one member for each entry, under distinct keys. -/
theorem encode_eq_object (f : α → Json) (m : NameMap α) :
    ∃ ms : Members, m.encode f = .object ms ∧ ms.keys = m.names ∧ ms.keys.Nodup ∧
      ms.length = m.size ∧ ms.collect = ms := by
  have hkeys : Members.keys (m.toMembers f) = m.names := map_fst_toMembers f
  have hnodup : (Members.keys (m.toMembers f)).Nodup := hkeys ▸ m.nodup_names
  exact ⟨m.toMembers f, rfl, hkeys, hnodup, List.length_map _, Members.collect_of_nodup hnodup⟩

theorem tidy_encode (hf : ∀ a, (f a).Tidy) (m : NameMap α) : (m.encode f).Tidy := by
  have hkeys : Members.keys (m.toMembers f) = m.names := map_fst_toMembers f
  refine .object (hkeys ▸ m.nodup_names) fun e he => ?_
  obtain ⟨d, -, rfl⟩ := List.mem_map.mp he
  exact hf d.2

end NameMap

/-! ## Entities -/

theorem Property.encode_inj {p q : Property} : p.encode = q.encode ↔ p = q := by
  cases p
  cases q
  simp [encode]

theorem Property.tidy_encode (p : Property) : p.encode.Tidy :=
  .object (by simp [Members.keys, Deprecation.members]) (by simp [Deprecation.members])

theorem Metadata.encode_inj {m n : Metadata} : m.encode = n.encode ↔ m = n := by
  cases m
  cases n
  simp [encode]

theorem Metadata.tidy_encode (m : Metadata) : m.encode.Tidy :=
  .object (by simp [Members.keys, Deprecation.members]) (by simp [Deprecation.members])

theorem Item.encode_inj {i j : Item} : i.encode = j.encode ↔ i = j := by
  cases i
  cases j
  simp [encode, NameMap.encode_inj fun _ _ => Metadata.encode_inj]

theorem Item.tidy_encode (i : Item) : i.encode.Tidy := by
  have hmetadata : (i.metadata.encode Metadata.encode).Tidy :=
    NameMap.tidy_encode Metadata.tidy_encode i.metadata
  exact .object (by simp [Members.keys, Deprecation.members])
    (by simp [Deprecation.members, hmetadata])

theorem Task.encode_inj {t u : Task} : t.encode = u.encode ↔ t = u := by
  cases t
  cases u
  simp [encode]

theorem Task.tidy_encode (t : Task) : t.encode.Tidy :=
  .object (by simp [Members.keys]) (by simp)

theorem Target.encode_inj {t u : Target} : t.encode = u.encode ↔ t = u := by
  cases t
  cases u
  simp [encode]

theorem Target.tidy_encode (t : Target) : t.encode.Tidy :=
  .object (by simp [Members.keys]) (by simp)

/-! ## Models and what is printed of files -/

theorem Model.encode_inj {m n : Model} : m.encode = n.encode ↔ m = n := by
  have hproperties := fun k l : NameMap Property =>
    NameMap.encode_inj (m := k) (n := l) fun _ _ => Property.encode_inj
  have hitems := fun k l : NameMap Item =>
    NameMap.encode_inj (m := k) (n := l) fun _ _ => Item.encode_inj
  have htasks := fun k l : NameMap Task =>
    NameMap.encode_inj (m := k) (n := l) fun _ _ => Task.encode_inj
  have htargets := fun k l : NameMap Target =>
    NameMap.encode_inj (m := k) (n := l) fun _ _ => Target.encode_inj
  cases m
  cases n
  simp [encode, hproperties, hitems, htasks, htargets, List.map_inj_right]

theorem Model.tidy_encode (m : Model) : m.encode.Tidy := by
  have hproperties := NameMap.tidy_encode Property.tidy_encode m.properties
  have hitems := NameMap.tidy_encode Item.tidy_encode m.items
  have htasks := NameMap.tidy_encode Task.tidy_encode m.tasks
  have htargets := NameMap.tidy_encode Target.tidy_encode m.targets
  have himports : (Json.array (m.imports.map .text)).Tidy := .array (by simp)
  exact .object (by simp [Members.keys])
    (by simp [hproperties, hitems, htasks, htargets, himports])

theorem Diagnostic.encode_inj {d e : Diagnostic} : d.encode = e.encode ↔ d = e := by
  cases d
  cases e
  simp [encode, and_comm]

theorem Diagnostics.encode_inj {ds es : Diagnostics} : encode ds = encode es ↔ ds = es := by
  simp [encode, List.map_inj_right, Diagnostic.encode_inj]

theorem Diagnostics.tidy_encode (ds : Diagnostics) : (encode ds).Tidy := by
  refine .array fun v hv => ?_
  obtain ⟨d, -, rfl⟩ := List.mem_map.mp hv
  exact .object (by simp [Members.keys]) (by simp)

namespace Command

theorem dumped_inj {o p : Outcome} : dumped o = dumped p ↔ o = p := by
  cases o
  cases p
  simp [dumped, Model.encode_inj, Diagnostics.encode_inj]

theorem tidy_dumped (o : Outcome) : (dumped o).Tidy :=
  .object (by simp [Members.keys]) (by simp [Model.tidy_encode, Diagnostics.tidy_encode])

/-- The text of a loaded document in the layout that was asked for. -/
def dumpText (compact : Bool) (o : Outcome) : String :=
  if compact then Json.compact (dumped o) else Json.pretty (dumped o)

theorem dumpText_inj {c c' : Bool} {o p : Outcome} :
    dumpText c o = dumpText c' p ↔ c = c' ∧ o = p := by
  have hcompact := Json.compact_inj (tidy_dumped o) (tidy_dumped p)
  have hpretty := Json.pretty_inj (tidy_dumped o) (tidy_dumped p)
  have hne : ∀ o p, Json.compact (dumped o) ≠ Json.pretty (dumped p) := fun _ _ =>
    Json.compact_ne_pretty _ _ _ _
  cases c <;> cases c'
  · simp [dumpText, hpretty, dumped_inj]
  · simp [dumpText, (hne p o).symm]
  · simp [dumpText, hne o p]
  · simp [dumpText, hcompact, dumped_inj]

section Dump

variable {files files' : Files} {input input' : String} {c c' : Bool}

theorem runDump_of_ok {o : Outcome} (h : loadPath files input = .ok o) :
    runDump files input c = { lines := [dumpText c o] } := by
  rw [runDump, h]
  rfl

theorem failure_runDump_of_error {e : LoadError} (h : loadPath files input = .error e) :
    (runDump files input c).failure ≠ none := by
  rw [runDump, h]
  exact Option.some_ne_none _

theorem runDump_eq_iff :
    (runDump files input c = runDump files' input' c' ∧ (runDump files input c).failure = none) ↔
      c = c' ∧ ∃ o, loadPath files input = .ok o ∧ loadPath files' input' = .ok o := by
  constructor
  · rintro ⟨heq, hfailure⟩
    cases ho : loadPath files input with
    | error e => exact absurd hfailure (failure_runDump_of_error ho)
    | ok o =>
      cases hp : loadPath files' input' with
      | error e => exact absurd (heq ▸ hfailure) (failure_runDump_of_error hp)
      | ok p =>
        rw [runDump_of_ok ho, runDump_of_ok hp, Report.mk.injEq, List.singleton_inj,
          dumpText_inj] at heq
        obtain ⟨⟨hc, rfl⟩, -⟩ := heq
        exact ⟨hc, o, rfl, rfl⟩
  · rintro ⟨rfl, o, ho, hp⟩
    rw [runDump_of_ok ho, runDump_of_ok hp]
    exact ⟨rfl, rfl⟩

end Dump

end Command

/-- **Writing loses nothing.** Two models are written as the same document, or as the same text in
either layout, exactly if they are the same: in order and spellings of every map, in all fields of
their entities and in their imports. So two dumps that succeed print the same exactly if they print
the same model with the same diagnostics in the same layout. In a written model no object has a key
twice, and a map is written with one member for each entry, none of which is lost when members are
collected one by one. -/
theorem encoding_lossless :
    (∀ m n : Model, m.encode = n.encode ↔ m = n) ∧
    (∀ m n : Model, Json.compact m.encode = Json.compact n.encode ↔ m = n) ∧
    (∀ m n : Model, Json.pretty m.encode = Json.pretty n.encode ↔ m = n) ∧
    (∀ (files files' : Files) (input input' : String) (c c' : Bool),
      (Command.runDump files input c = Command.runDump files' input' c' ∧
        (Command.runDump files input c).failure = none) ↔
      c = c' ∧ ∃ o, loadPath files input = .ok o ∧ loadPath files' input' = .ok o) ∧
    (∀ m : Model, m.encode.Tidy) ∧
    (∀ {α : Type} (f : α → Json) (m : NameMap α), ∃ ms : Members, m.encode f = .object ms ∧
      ms.keys = m.names ∧ ms.keys.Nodup ∧ ms.length = m.size ∧ ms.collect = ms) := by
  refine ⟨fun _ _ => Model.encode_inj, fun m n => ?_, fun m n => ?_,
    fun _ _ _ _ _ _ => Command.runDump_eq_iff, Model.tidy_encode, NameMap.encode_eq_object⟩
  · exact (Json.compact_inj m.tidy_encode n.tidy_encode).trans Model.encode_inj
  · exact (Json.pretty_inj m.tidy_encode n.tidy_encode).trans Model.encode_inj

end BuildVocabulary
