import BuildVocabulary.Yaml.Node
import BuildVocabulary.Yaml.Token

/-!
# Reading configuration documents

Tokens make up nodes. Inside a flow collection a node is a scalar or a flow collection; elsewhere it
may also be a block collection. `read` reads a text that holds a single document, which may begin
with `---` and end with `...`.
-/

namespace BuildVocabulary.Yaml

namespace Node

/-! ## Flow collections -/

mutual

/-- Reads a scalar or a flow collection. The depth and number of parts are bounded by `fuel`. -/
def ofFlow : (fuel : Nat) → List Token → Option (Node × List Token)
  | 0, _ => none
  | fuel + 1, ts =>
    match ts with
    | .scalar isPlain text :: ts => some (.scalar isPlain text, ts)
    | .openBracket :: ts => flowItems fuel [] ts
    | .openBrace :: ts => flowEntries fuel [] ts
    | _ => none

/-- Reads the items of a sequence, after its opening bracket or a comma. -/
def flowItems : (fuel : Nat) → List Node → List Token → Option (Node × List Token)
  | 0, _, _ => none
  | fuel + 1, items, ts =>
    match ts with
    | .closeBracket :: ts => some (.sequence items.reverse, ts)
    | ts => do
      let (item, ts) ← match ts with
        | .key :: ts => flowPair fuel ts
        | ts => ofFlow fuel ts
      match ts with
      | .comma :: ts => flowItems fuel (item :: items) ts
      | .closeBracket :: ts => some (.sequence (item :: items).reverse, ts)
      | _ => none

/-- Reads an entry that is an item of a sequence, after its question mark or before its key. A
missing key uses up the token in its place. -/
def flowPair : (fuel : Nat) → List Token → Option (Node × List Token)
  | 0, _ => none
  | fuel + 1, ts => do
    let (key, ts) ← match ts with
      | .value :: ts | .comma :: ts | .closeBracket :: ts => some (blank, ts)
      | ts => ofFlow fuel ts
    let (value, ts) ← flowValue fuel ts
    pure (.mapping [(key, value)], ts)

/-- Reads the value of an entry, which may be missing. -/
def flowValue : (fuel : Nat) → List Token → Option (Node × List Token)
  | 0, _ => none
  | fuel + 1, ts =>
    match ts with
    | .value :: .comma :: ts => some (blank, .comma :: ts)
    | .value :: .closeBracket :: ts => some (blank, .closeBracket :: ts)
    | .value :: .closeBrace :: ts => some (blank, .closeBrace :: ts)
    | .value :: ts => ofFlow fuel ts
    | ts => some (blank, ts)

/-- Reads the entries of a mapping, after its opening brace or a comma. -/
def flowEntries : (fuel : Nat) → List (Node × Node) → List Token → Option (Node × List Token)
  | 0, _, _ => none
  | fuel + 1, entries, ts =>
    match ts with
    | .closeBrace :: ts => some (.mapping entries.reverse, ts)
    | ts => do
      let (key, value, ts) ← match ts with
        | .key :: ts => do
          let (key, ts) ← match ts with
            | .value :: ts => some (blank, .value :: ts)
            | .comma :: ts => some (blank, .comma :: ts)
            | .closeBrace :: ts => some (blank, .closeBrace :: ts)
            | ts => ofFlow fuel ts
          let (value, ts) ← flowValue fuel ts
          pure (key, value, ts)
        | ts => do
          let (key, ts) ← ofFlow fuel ts
          pure (key, blank, ts)
      match ts with
      | .comma :: ts => flowEntries fuel ((key, value) :: entries) ts
      | .closeBrace :: ts => some (.mapping ((key, value) :: entries).reverse, ts)
      | _ => none

end

/-! ## Block collections -/

/-- Whether an item of a block sequence is missing before these tokens. A sequence without a start
is part of a mapping, whose next entry may follow. -/
def isItemMissing (hasStart : Bool) : List Token → Bool
  | .item :: _ | .blockEnd :: _ => true
  | .key :: _ | .value :: _ => !hasStart
  | _ => false

/-- Whether a key or value of a block mapping is missing before these tokens. -/
def isPartMissing : List Token → Bool
  | .key :: _ | .value :: _ | .blockEnd :: _ => true
  | _ => false

mutual

/-- Reads a node. In a mapping, a sequence needs no start. -/
def ofBlock : (fuel : Nat) → (inMapping : Bool) → List Token → Option (Node × List Token)
  | 0, _, _ => none
  | fuel + 1, inMapping, ts =>
    match ts with
    | .blockSequence :: ts => blockItems fuel true [] ts
    | .blockMapping :: ts => blockEntries fuel [] ts
    | .item :: ts => if inMapping then blockItems fuel false [] (.item :: ts) else none
    | ts => ofFlow (fuel + 1) ts

/-- Reads the items of a sequence, which ends where an item is missing. Its end is a token if it
has a start. -/
def blockItems : (fuel : Nat) → (hasStart : Bool) → List Node → List Token →
    Option (Node × List Token)
  | 0, _, _, _ => none
  | fuel + 1, hasStart, items, ts =>
    match ts, hasStart with
    | .item :: ts, _ => do
      let (item, ts) ← if isItemMissing hasStart ts then some (blank, ts) else ofBlock fuel false ts
      blockItems fuel hasStart (item :: items) ts
    | .blockEnd :: ts, true => some (.sequence items.reverse, ts)
    | _, true => none
    | ts, false => some (.sequence items.reverse, ts)

def blockEntries : (fuel : Nat) → List (Node × Node) → List Token → Option (Node × List Token)
  | 0, _, _ => none
  | fuel + 1, entries, ts =>
    match ts with
    | .key :: ts => do
      let (key, ts) ← blockPart fuel ts
      let (value, ts) ← match ts with
        | .value :: ts => blockPart fuel ts
        | ts => some (blank, ts)
      blockEntries fuel ((key, value) :: entries) ts
    | .blockEnd :: ts => some (.mapping entries.reverse, ts)
    | _ => none

/-- Reads a key or a value of a mapping, which may be missing. -/
def blockPart : (fuel : Nat) → List Token → Option (Node × List Token)
  | 0, _ => none
  | fuel + 1, ts => if isPartMissing ts then some (blank, ts) else ofBlock fuel true ts

end

/-! ## Documents -/

/-- Whether a document is over before these tokens. -/
def isDocumentOver : List Token → Bool
  | [] | .documentStart :: _ | .documentEnd :: _ => true
  | _ => false

/-- The node of the only document in a list of tokens. -/
def ofTokens? (tokens : List Token) : Option Node := do
  let fuel := 2 * tokens.length + 2
  let (node, rest) ← match tokens with
    | .documentStart :: ts => if isDocumentOver ts then some (blank, ts) else ofBlock fuel false ts
    | ts => ofBlock fuel false ts
  if rest.all (· == .documentEnd) then some node else none

end Node

/-- Whether a character may stand in a text. -/
def isAllowed (c : Char) : Bool :=
  let n := c.toNat
  n == 9 || n == 10 || n == 13 || (32 ≤ n && n ≤ 126) || n == 0x85 ||
    (0xA0 ≤ n && n != 0xFFFE && n != 0xFFFF)

/-- Reads a text that holds a single document. -/
def read (text : String) : Option Node :=
  let cs := text.toList
  if cs.all isAllowed then (tokens? (normalizeBreaks cs)).bind Node.ofTokens? else none

end BuildVocabulary.Yaml
