import Dashboard.Yaml.Token

/-!
# From tokens to nodes

The tokens of a text spell one document: a tree of scalars, sequences and
mappings whose nodes may carry a tag and an anchor, and aliases that stand for
an anchored node.  An anchor is numbered by how many different names were
anchored before it, so a name that is anchored again takes the number that the
next new name will take too; of the nodes with one number the last one counts.
-/

namespace Dashboard.Yaml

/-- The anchor number and the tag of a node. -/
structure Properties where
  anchor : Option Nat := none
  tag : Option String := none
deriving DecidableEq, Repr

/-- A node of a document. -/
inductive Node where
  | alias (anchor : Nat)
  | scalar (properties : Properties) (text : String) (plain : Bool)
  | seq (properties : Properties) (items : List Node)
  | map (properties : Properties) (entries : List (Node × Node))
deriving Inhabited

/-- Tag handles and what they stand for; earlier ones count first. -/
abbrev Handles := List (String × String)

/-- The handles that need no directive. -/
def defaultHandles : Handles :=
  [("!", "!"), ("!!", "tag:yaml.org,2002:")]

/-- Names of anchors and their numbers, latest first, each name once. -/
abbrev Anchors := List (String × Nat)

/-- Anchor a name: its number, and the names after it. -/
def anchorName (name : String) (anchors : Anchors) : Nat × Anchors :=
  (anchors.length, (name, anchors.length) :: anchors.filter (·.1 != name))

/-- What has been read and the tokens that are left. -/
structure Remaining (α : Type) where
  result : α
  anchors : Anchors
  tokens : List Token

namespace Node

/-- A node without content: the empty plain scalar. -/
def empty (p : Properties) : Node :=
  .scalar p "" true

/-- The full tag of a handle and a suffix. -/
def fullTag? (handles : Handles) (handle suffix : String) : Option String :=
  if handle.isEmpty then some suffix
  else (handles.lookup handle).map (· ++ suffix)

/-- Anchor and tag in either order, each at most once. -/
def readProperties? (handles : Handles) (anchors : Anchors) :
    List Token → Option (Remaining Properties)
  | .anchor name :: .tag handle suffix :: ts => do
    let tag ← fullTag? handles handle suffix
    let (n, anchors) := anchorName name anchors
    return ⟨⟨some n, some tag⟩, anchors, ts⟩
  | .anchor name :: ts =>
    let (n, anchors) := anchorName name anchors
    some ⟨⟨some n, none⟩, anchors, ts⟩
  | .tag handle suffix :: .anchor name :: ts => do
    let tag ← fullTag? handles handle suffix
    let (n, anchors) := anchorName name anchors
    return ⟨⟨some n, some tag⟩, anchors, ts⟩
  | .tag handle suffix :: ts => do
    return ⟨⟨none, some (← fullTag? handles handle suffix)⟩, anchors, ts⟩
  | ts => some ⟨{}, anchors, ts⟩

mutual

/-- A node.  A block collection is read only where `block` allows one, and list
items without indentation of their own only where `indentless` does. -/
def read? (handles : Handles) :
    Nat → Bool → Bool → Anchors → List Token → Option (Remaining Node)
  | 0, _, _, _, _ => none
  | _ + 1, _, _, anchors, .alias name :: ts => do
    return ⟨.alias (← anchors.lookup name), anchors, ts⟩
  | steps + 1, block, indentless, anchors, ts => do
    let ⟨p, anchors, ts⟩ ← readProperties? handles anchors ts
    match ts with
    | .scalar text plain :: ts => return ⟨.scalar p text plain, anchors, ts⟩
    | .flowSequenceStart :: ts =>
      let ⟨items, anchors, ts⟩ ← readFlowItems? handles steps true anchors ts
      return ⟨.seq p items, anchors, ts⟩
    | .flowMappingStart :: ts =>
      let ⟨entries, anchors, ts⟩ ← readFlowEntries? handles steps true anchors ts
      return ⟨.map p entries, anchors, ts⟩
    | .blockEntry :: rest =>
      if indentless then
        let ⟨items, anchors, ts⟩ ← readIndentlessItems? handles steps anchors ts
        return ⟨.seq p items, anchors, ts⟩
      else if p = {} then none
      else return ⟨empty p, anchors, .blockEntry :: rest⟩
    | .blockSequenceStart :: rest =>
      if block then
        let ⟨items, anchors, ts⟩ ← readBlockItems? handles steps anchors rest
        return ⟨.seq p items, anchors, ts⟩
      else if p = {} then none
      else return ⟨empty p, anchors, .blockSequenceStart :: rest⟩
    | .blockMappingStart :: rest =>
      if block then
        let ⟨entries, anchors, ts⟩ ← readBlockEntries? handles steps anchors rest
        return ⟨.map p entries, anchors, ts⟩
      else if p = {} then none
      else return ⟨empty p, anchors, .blockMappingStart :: rest⟩
    | ts => if p = {} then none else return ⟨empty p, anchors, ts⟩

/-- The items of an indented block sequence and its end. -/
def readBlockItems? (handles : Handles) :
    Nat → Anchors → List Token → Option (Remaining (List Node))
  | 0, _, _ => none
  | steps + 1, anchors, ts =>
    match ts with
    | .blockEntry :: ts => do
      let ⟨item, anchors, ts⟩ ← match ts with
        | .blockEntry :: _ | .blockEnd :: _ => some ⟨empty {}, anchors, ts⟩
        | _ => read? handles steps true false anchors ts
      let ⟨items, anchors, ts⟩ ← readBlockItems? handles steps anchors ts
      return ⟨item :: items, anchors, ts⟩
    | .blockEnd :: ts => some ⟨[], anchors, ts⟩
    | _ => none

/-- The items of a block sequence that is not indented below its key. -/
def readIndentlessItems? (handles : Handles) :
    Nat → Anchors → List Token → Option (Remaining (List Node))
  | 0, _, _ => none
  | steps + 1, anchors, ts =>
    match ts with
    | .blockEntry :: ts => do
      let ⟨item, anchors, ts⟩ ← match ts with
        | .blockEntry :: _ | .key :: _ | .value :: _ | .blockEnd :: _ =>
          some ⟨empty {}, anchors, ts⟩
        | _ => read? handles steps true false anchors ts
      let ⟨items, anchors, ts⟩ ← readIndentlessItems? handles steps anchors ts
      return ⟨item :: items, anchors, ts⟩
    | _ => some ⟨[], anchors, ts⟩

/-- The entries of a block mapping and its end. -/
def readBlockEntries? (handles : Handles) :
    Nat → Anchors → List Token → Option (Remaining (List (Node × Node)))
  | 0, _, _ => none
  | steps + 1, anchors, ts =>
    match ts with
    | .key :: ts => do
      let ⟨key, anchors, ts⟩ ← match ts with
        | .key :: _ | .value :: _ | .blockEnd :: _ => some ⟨empty {}, anchors, ts⟩
        | _ => read? handles steps true true anchors ts
      let ⟨value, anchors, ts⟩ ← readBlockValue? handles steps anchors ts
      let ⟨entries, anchors, ts⟩ ← readBlockEntries? handles steps anchors ts
      return ⟨(key, value) :: entries, anchors, ts⟩
    | .blockEnd :: ts => some ⟨[], anchors, ts⟩
    | _ => none

/-- The value of an entry of a block mapping, which may be missing. -/
def readBlockValue? (handles : Handles) :
    Nat → Anchors → List Token → Option (Remaining Node)
  | 0, _, _ => none
  | steps + 1, anchors, ts =>
    match ts with
    | .value :: ts =>
      match ts with
      | .key :: _ | .value :: _ | .blockEnd :: _ => some ⟨empty {}, anchors, ts⟩
      | _ => read? handles steps true true anchors ts
    | _ => some ⟨empty {}, anchors, ts⟩

/-- The items between square brackets and the closing one. -/
def readFlowItems? (handles : Handles) :
    Nat → Bool → Anchors → List Token → Option (Remaining (List Node))
  | 0, _, _, _ => none
  | steps + 1, first, anchors, ts =>
    match first, ts with
    | _, .flowSequenceEnd :: ts => some ⟨[], anchors, ts⟩
    | false, .flowEntry :: .flowSequenceEnd :: ts => some ⟨[], anchors, ts⟩
    | false, .flowEntry :: ts => do
      let ⟨item, anchors, ts⟩ ← readFlowItem? handles steps anchors ts
      let ⟨items, anchors, ts⟩ ← readFlowItems? handles steps false anchors ts
      return ⟨item :: items, anchors, ts⟩
    | true, ts => do
      let ⟨item, anchors, ts⟩ ← readFlowItem? handles steps anchors ts
      let ⟨items, anchors, ts⟩ ← readFlowItems? handles steps false anchors ts
      return ⟨item :: items, anchors, ts⟩
    | false, _ => none

/-- One item between square brackets: a node, or a mapping of one entry without
brackets of its own.  A key that is missing there takes the next token with
it. -/
def readFlowItem? (handles : Handles) :
    Nat → Anchors → List Token → Option (Remaining Node)
  | 0, _, _ => none
  | steps + 1, anchors, ts =>
    match ts with
    | .key :: ts => do
      let ⟨key, anchors, ts⟩ ← match ts with
        | .value :: ts | .flowEntry :: ts | .flowSequenceEnd :: ts =>
          some ⟨empty {}, anchors, ts⟩
        | _ => read? handles steps false false anchors ts
      let ⟨value, anchors, ts⟩ ← match ts with
        | .value :: ts =>
          match ts with
          | .flowEntry :: _ | .flowSequenceEnd :: _ => some ⟨empty {}, anchors, ts⟩
          | _ => read? handles steps false false anchors ts
        | _ => some ⟨empty {}, anchors, ts⟩
      return ⟨.map {} [(key, value)], anchors, ts⟩
    | _ => read? handles steps false false anchors ts

/-- The entries between braces and the closing one. -/
def readFlowEntries? (handles : Handles) :
    Nat → Bool → Anchors → List Token → Option (Remaining (List (Node × Node)))
  | 0, _, _, _ => none
  | steps + 1, first, anchors, ts =>
    match first, ts with
    | _, .flowMappingEnd :: ts => some ⟨[], anchors, ts⟩
    | false, .flowEntry :: .flowMappingEnd :: ts => some ⟨[], anchors, ts⟩
    | false, .flowEntry :: ts => do
      let ⟨entry, anchors, ts⟩ ← readFlowEntry? handles steps anchors ts
      let ⟨entries, anchors, ts⟩ ← readFlowEntries? handles steps false anchors ts
      return ⟨entry :: entries, anchors, ts⟩
    | true, ts => do
      let ⟨entry, anchors, ts⟩ ← readFlowEntry? handles steps anchors ts
      let ⟨entries, anchors, ts⟩ ← readFlowEntries? handles steps false anchors ts
      return ⟨entry :: entries, anchors, ts⟩
    | false, _ => none

/-- One entry between braces: a key with a value, or a node alone. -/
def readFlowEntry? (handles : Handles) :
    Nat → Anchors → List Token → Option (Remaining (Node × Node))
  | 0, _, _ => none
  | steps + 1, anchors, ts =>
    match ts with
    | .key :: ts => do
      let ⟨key, anchors, ts⟩ ← match ts with
        | .value :: _ | .flowEntry :: _ | .flowMappingEnd :: _ =>
          some ⟨empty {}, anchors, ts⟩
        | _ => read? handles steps false false anchors ts
      let ⟨value, anchors, ts⟩ ← match ts with
        | .value :: ts =>
          match ts with
          | .flowEntry :: _ | .flowMappingEnd :: _ => some ⟨empty {}, anchors, ts⟩
          | _ => read? handles steps false false anchors ts
        | _ => some ⟨empty {}, anchors, ts⟩
      return ⟨(key, value), anchors, ts⟩
    | _ => do
      let ⟨key, anchors, ts⟩ ← read? handles steps false false anchors ts
      return ⟨(key, empty {}), anchors, ts⟩

end

/-- Directives up to the start of the document: at most one version, of 1.1 or
1.2, and each handle once. -/
def readDirectives? (versioned : Bool) (handles : Handles) :
    List Token → Option (Handles × List Token)
  | .versionDirective major minor :: ts =>
    if versioned || major != 1 || (minor != 1 && minor != 2) then none
    else readDirectives? true handles ts
  | .tagDirective handle tagPrefix :: ts =>
    if (handles.lookup handle).isSome then none
    else readDirectives? versioned (handles ++ [(handle, tagPrefix)]) ts
  | ts => some (handles, ts)

/-- The tokens after a document: marks of its end and the end of the text. -/
def endsStream : List Token → Bool
  | [.streamEnd] => true
  | .documentEnd :: ts => endsStream ts
  | _ => false

/-- The node of a document without mark, or of one with marks and directives;
a text without any document has none. -/
def readDocument? (ts : List Token) : Option (Option Node) := do
  let steps := 4 * ts.length + 4
  let finish (r : Remaining Node) : Option (Option Node) :=
    if endsStream r.tokens then some (some r.result) else none
  match ts with
  | [.streamEnd] => return none
  | .versionDirective _ _ :: _ | .tagDirective _ _ :: _ | .documentStart :: _ =>
    let (handles, ts) ← readDirectives? false [] ts
    match ts with
    | .documentStart :: ts =>
      match ts with
      | .versionDirective _ _ :: _ | .tagDirective _ _ :: _ | .documentStart :: _
      | .documentEnd :: _ | .streamEnd :: _ => finish ⟨empty {}, [], ts⟩
      | _ => finish (← read? (handles ++ defaultHandles) steps true false [] ts)
    | _ => none
  | _ => finish (← read? defaultHandles steps true false [] ts)

end Node

end Dashboard.Yaml
