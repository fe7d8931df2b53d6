import BuildVocabulary.Kind
import BuildVocabulary.Schema.TypeDefinition

/-!
# Type tokens

A type token is a base kind with modifiers, `string-list`, or a reference to a custom type with
modifiers, `@target-os-list`. Names of custom types may contain dashes themselves, so a reference
means the longest registered name that it begins with.

* `longest?`: the longest registered name at the front of some segments;
* `peel`: recognised modifiers at the end, used when no name is registered.
-/

namespace BuildVocabulary

open Json (Location)

/-- A kind, with the custom type that the values come from. -/
structure Resolved where
  kind : Kind := {}
  customType : Option CustomType := none
  deriving DecidableEq, Repr

/-- The modifiers that segments stand for; each segment that is none is reported. -/
def resolveModifiers (here : Location) : List String → Resolve Modifiers
  | [] => pure .empty
  | s :: ss =>
    match Modifiers.ofToken? s with
    | some m => do
      let ms ← resolveModifiers here ss
      pure (m.union ms)
    | none => do
      Resolve.report (.unknownModifier s here)
      resolveModifiers here ss

/-- The type registered under the longest name made of at most `n` leading segments, with the
segments that follow the name. -/
def longest? (registry : Registry) (ss : List String) : Nat → Option (CustomType × List String)
  | 0 => none
  | n + 1 =>
    match registry.find? (joined (ss.take (n + 1))) with
    | some t => some (t, ss.drop (n + 1))
    | none => longest? registry ss n

/-- Takes recognised modifiers off the front of reversed segments, as long as another segment
follows; also gives the segments that are left. -/
def peel : List String → Modifiers × List String
  | s :: t :: ss =>
    match Modifiers.ofToken? s with
    | some m => let (ms, rest) := peel (t :: ss); (m.union ms, rest)
    | none => (.empty, s :: t :: ss)
  | ss => (.empty, ss)

/-- The finding about a reference to a name that is not registered. -/
def missingType (name : String) (here : Location) : Finding :=
  if name.isEmpty then .namelessReference here else .undefinedType name here

/-- The kind that a reference stands for. A reference to no registered type keeps the custom type
kind and is reported. -/
def resolveReference (registry : Registry) (here : Location) (reference : String) :
    Resolve Resolved :=
  let ss := segments reference
  match longest? registry ss ss.length with
  | some (t, rest) => do
    let ms ← resolveModifiers here rest
    pure ⟨Kind.ofCustomType.adding ms, some t⟩
  | none =>
    let (ms, rest) := peel ss.reverse
    .ok ⟨Kind.ofCustomType.adding ms, none⟩ [missingType (joined rest.reverse) here]

/-- The kind that a base token stands for; an unknown one is reported. -/
def resolveBase (here : Location) (token : String) : Resolve BaseKind :=
  match BaseKind.ofToken? token with
  | some b => pure b
  | none => .ok .unknown [.unknownKind token here]

/-- The kind that a token stands for. -/
def resolveToken (registry : Registry) (here : Location) (token : String) : Resolve Resolved :=
  match token.toList with
  | '@' :: reference => resolveReference registry here (String.ofList reference)
  | _ =>
    match segments token with
    | [] => pure {}
    | s :: ss => do
      let base ← resolveBase here s
      let ms ← resolveModifiers here ss
      pure ⟨⟨base, ms⟩, none⟩

end BuildVocabulary
