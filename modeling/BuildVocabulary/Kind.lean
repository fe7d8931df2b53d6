import BuildVocabulary.Text.Case

/-!
# Value kinds

A `Kind` says what the values of a field look like: a base kind and a set of modifiers. The
modifiers say how values are combined, whether only literal text is allowed, and whether the values
come from a custom type.

* `BaseKind.ofToken?` and `Modifiers.ofToken?` read the tokens that a schema may use;
* `Kind.bits` packs a kind into one number, the base in the low byte and a bit for each modifier;
* `BaseKind.ofIndex?_index`: base kinds are numbered from zero;
* `Modifiers.list_ofSeparators`, `Modifiers.commaList_ofSeparators`: what separators stand for.
-/

namespace BuildVocabulary

/-- What a single value looks like. -/
inductive BaseKind where
  | unknown
  | bool
  | int
  | float
  | string
  | char
  | guid
  | url
  | version
  | suffixedVersion
  | lcid
  | culture
  | sdk
  | sdkWithVersion
  | targetName
  | itemName
  | propertyName
  | targetFramework
  | targetFrameworkIdentifier
  | targetFrameworkVersion
  | targetFrameworkProfile
  | runtimeId
  | configuration
  | platform
  | importance
  | hostOs
  | file
  | folder
  | folderWithSlash
  | fileOrFolder
  | extension
  | nuGetId
  | nuGetVersion
  | condition
  | expression
  | customType
  deriving DecidableEq, Repr, Inhabited

namespace BaseKind

/-- Every base kind with its label, in the order of their numbers. -/
def table : List (BaseKind × String) :=
  [(unknown, "unknown"), (bool, "bool"), (int, "int"), (float, "float"), (string, "string"),
    (char, "char"), (guid, "guid"), (url, "url"), (version, "version"),
    (suffixedVersion, "suffixed-version"), (lcid, "lcid"), (culture, "culture"), (sdk, "sdk"),
    (sdkWithVersion, "sdk-with-version"), (targetName, "target-name"), (itemName, "item-name"),
    (propertyName, "property-name"), (targetFramework, "target-framework"),
    (targetFrameworkIdentifier, "target-framework-identifier"),
    (targetFrameworkVersion, "target-framework-version"),
    (targetFrameworkProfile, "target-framework-profile"), (runtimeId, "runtime-id"),
    (configuration, "configuration"), (platform, "platform"), (importance, "importance"),
    (hostOs, "host-os"), (file, "file"), (folder, "folder"),
    (folderWithSlash, "folder-with-slash"), (fileOrFolder, "file-or-folder"),
    (extension, "extension"), (nuGetId, "nu-get-id"), (nuGetVersion, "nu-get-version"),
    (condition, "condition"), (expression, "expression"), (customType, "custom-type")]

def index (b : BaseKind) : Nat := table.findIdx fun e => e.1 = b

def ofIndex? (n : Nat) : Option BaseKind := table[n]?.map Prod.fst

/-- The name of a base kind in output. -/
def label (b : BaseKind) : String := (table.lookup b).getD ""

/-- The tokens for base kinds. The other kinds have no token; values of a custom type are
declared by reference. -/
def tokens : List (String × BaseKind) :=
  [("unknown", unknown), ("bool", bool), ("int", int), ("float", float), ("string", string),
    ("char", char), ("guid", guid), ("url", url), ("version", version), ("lcid", lcid),
    ("culture", culture), ("sdk", sdk), ("tfm", targetFramework), ("rid", runtimeId),
    ("configuration", configuration), ("platform", platform), ("importance", importance),
    ("file", file), ("folder", folder), ("path", fileOrFolder), ("extension", extension),
    ("target", targetName), ("item", itemName), ("property", propertyName), ("nuget", nuGetId)]

/-- The base kind of a token, in any casing. -/
def ofToken? (token : String) : Option BaseKind := tokens.lookup (fold token)

theorem ofIndex?_index (b : BaseKind) : ofIndex? b.index = some b := by
  cases b <;> rfl

end BaseKind

/-- How values are combined and restricted. -/
structure Modifiers where
  list : Bool := false
  commaList : Bool := false
  literal : Bool := false
  customType : Bool := false
  deriving DecidableEq, Repr, Inhabited

namespace Modifiers

def empty : Modifiers := {}

def union (a b : Modifiers) : Modifiers :=
  ⟨a.list || b.list, a.commaList || b.commaList, a.literal || b.literal,
    a.customType || b.customType⟩

/-- The modifiers with their flag names and bits. -/
def flags (m : Modifiers) : List (Bool × String × Nat) :=
  [(m.list, "LIST", 256), (m.commaList, "COMMA_LIST", 512), (m.literal, "LITERAL", 1024),
    (m.customType, "CUSTOM_TYPE", 2048)]

/-- The flags that are set, with their names and bits. -/
def present (m : Modifiers) : List (String × Nat) := (m.flags.filter (·.1)).map Prod.snd

/-- The names of the flags that are set, with a bar between neighbours. -/
def label (m : Modifiers) : String := " | ".intercalate (m.present.map Prod.fst)

/-- The sum of the bits of the flags that are set. -/
def bits (m : Modifiers) : Nat := m.present.foldr (fun e n => e.2 + n) 0

/-- The modifier of a token, in any casing. -/
def ofToken? (token : String) : Option Modifiers :=
  [("list", { list := true }), ("const", { literal := true })].lookup (fold token)

/-- The modifiers that a text of list separators stands for. -/
def ofSeparators (separators : String) : Modifiers :=
  { list := separators.toList.contains ';', commaList := separators.toList.contains ',' }

/-- Values are lists exactly where a semicolon is among the separators. -/
theorem list_ofSeparators (separators : String) :
    (ofSeparators separators).list = decide (';' ∈ separators.toList) := List.contains_eq_mem _ _

/-- Values are comma lists exactly where a comma is among the separators. -/
theorem commaList_ofSeparators (separators : String) :
    (ofSeparators separators).commaList = decide (',' ∈ separators.toList) :=
  List.contains_eq_mem _ _

theorem literal_ofSeparators (separators : String) :
    (ofSeparators separators).literal = false := rfl

theorem customType_ofSeparators (separators : String) :
    (ofSeparators separators).customType = false := rfl

def ofFlag? (name : String) : Option Modifiers :=
  [("LIST", { list := true }), ("COMMA_LIST", { commaList := true }),
    ("LITERAL", { literal := true }), ("CUSTOM_TYPE", { customType := true })].lookup name

end Modifiers

structure Kind where
  base : BaseKind := .unknown
  modifiers : Modifiers := .empty
  deriving DecidableEq, Repr, Inhabited

namespace Kind

/-- No information about values. -/
def unknown : Kind := {}

/-- The kind of a field whose values come from a custom type. -/
def ofCustomType : Kind := ⟨.customType, { customType := true }⟩

def adding (k : Kind) (m : Modifiers) : Kind := { k with modifiers := k.modifiers.union m }

/-- The base number plus the bits of the modifiers. -/
def bits (k : Kind) : Nat := k.base.index + k.modifiers.bits

/-- Whether nothing is known about single values. -/
def isUnknown (k : Kind) : Bool := k.base = .unknown

/-- Whether values may be combined in a list of either form. -/
def allowsLists (k : Kind) : Bool := k.modifiers.list || k.modifiers.commaList

end Kind

end BuildVocabulary
