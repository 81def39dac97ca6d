import Retarget.Document.Plain
import Retarget.Document.Yaml.Token

/-!
# Nodes of YAML

A node is what the tokens of a document say, before names and tags are looked up. `Node.read` reads
one from its tokens; a node that is left out is an empty unquoted scalar. `Node.document?` puts what
an anchor names in the place of the references to it.
-/

namespace Retarget.Yaml

/-- A node as it is written. -/
inductive Node
  | scalar (d : Document)
  | list (items : List Node)
  | map (entries : List (Node × Node))
  | anchored (name : String) (node : Node)
  | tagged (handle suffix : String) (node : Node)
  | reference (name : String)
  deriving Repr, Inhabited

/-- The node that is left out. -/
def Node.empty : Node := .scalar (.plain "")

/-! ## Reading -/

/-- What is left of some tokens after at least one has been read. -/
abbrev After (ts : List Token) := { rest : List Token // rest.length < ts.length }

/-- What is left of some tokens. -/
abbrev Rest (ts : List Token) := { rest : List Token // rest.length ≤ ts.length }

/-- What follows a place where a node may be left out. -/
inductive Follow
  /-- The next item of a list that is further in than what it belongs to. -/
  | item
  /-- The next item of a list, or the next entry of the map around it. -/
  | levelItem
  /-- The next entry of a map. -/
  | entry
  /-- The next item between brackets. -/
  | flowItem
  /-- The value of a key between braces. -/
  | flowKey
  /-- The next entry between braces. -/
  | flowEntry
  deriving DecidableEq, Repr

/-- Whether a token follows a node that is left out. -/
def Follow.admits (f : Follow) (t : Token) : Bool :=
  match t with
  | .item => f == .item || f == .levelItem
  | .key => f == .levelItem || f == .entry
  | .value => f == .levelItem || f == .entry || f == .flowKey
  | .blockEnd => f == .item || f == .levelItem || f == .entry
  | .comma => f == .flowItem || f == .flowKey || f == .flowEntry
  | .closeList => f == .flowItem
  | .closeMap => f == .flowKey || f == .flowEntry
  | _ => false

/-- Where a node stands. -/
inductive Site
  | flow
  /-- An item of a block list, or a whole document. -/
  | block
  /-- A key or a value of a block map, where a list needs no more indentation. -/
  | entry
  deriving DecidableEq, Repr

/-- How many tokens there are that give a node a name and a tag. -/
def propertyCount : List Token → Nat
  | .anchor _ :: .tag _ _ :: _ => 2
  | .tag _ _ :: .anchor _ :: _ => 2
  | .anchor _ :: _ => 1
  | .tag _ _ :: _ => 1
  | _ => 0

theorem propertyCount_le (ts : List Token) : propertyCount ts ≤ ts.length := by
  unfold propertyCount
  split <;> simp

/-- Give a node its name and its tag. -/
def Node.addProperties (properties : List Token) (node : Node) : Node :=
  properties.foldr (fun t node =>
    match t with
    | .anchor name => .anchored name node
    | .tag handle suffix => .tagged handle suffix node
    | _ => node) node

/-- Whether the content of a node starts here. -/
def startsContent (site : Site) : List Token → Bool
  | .scalar _ :: _ | .openList :: _ | .openMap :: _ => true
  | .item :: _ => site == .entry
  | .blockList :: _ | .blockMap :: _ => site != .flow
  | _ => false

mutual

/-- Read a node. -/
def Node.read (site : Site) (ts : List Token) : Option (Node × After ts) :=
  match ts with
  | .reference name :: rest => some (.reference name, ⟨rest, by simp⟩)
  | ts =>
    let content := ts.drop (propertyCount ts)
    have hp := propertyCount_le ts
    have hc : content.length = ts.length - propertyCount ts := List.length_drop
    if h : 0 < propertyCount ts ∧ !startsContent site content then
      some (Node.addProperties (ts.take (propertyCount ts)) .empty, ⟨content, by omega⟩)
    else do
      let (node, ⟨rest, _⟩) ← Node.readContent site content
      return (Node.addProperties (ts.take (propertyCount ts)) node, ⟨rest, by omega⟩)
termination_by (ts.length, 1)
decreasing_by
  have : (ts.drop (propertyCount ts)).length ≤ ts.length := by simp
  exact Prod.Lex.right' _ this Nat.zero_lt_one

/-- Read a node without its name and its tag. -/
def Node.readContent (site : Site) (ts : List Token) : Option (Node × After ts) :=
  match ts with
  | .scalar d :: rest => some (.scalar d, ⟨rest, by simp⟩)
  | .openList :: rest => do
    let (items, ⟨more, _⟩) ← readFlowItems rest
    return (.list items, ⟨more, by simp; omega⟩)
  | .openMap :: rest => do
    let (entries, ⟨more, _⟩) ← readFlowEntries rest
    return (.map entries, ⟨more, by simp; omega⟩)
  | .item :: rest =>
    if site = .entry then do
      let (item, ⟨more, _⟩) ← Node.readOrEmpty .levelItem .block rest
      let (items, ⟨last, _⟩) ← readLevelItems more
      return (.list (item :: items), ⟨last, by simp; omega⟩)
    else none
  | .blockList :: rest =>
    if site = .flow then none
    else do
      let (items, ⟨more, _⟩) ← readItems rest
      return (.list items, ⟨more, by simp; omega⟩)
  | .blockMap :: rest =>
    if site = .flow then none
    else do
      let (entries, ⟨more, _⟩) ← readEntries rest
      return (.map entries, ⟨more, by simp; omega⟩)
  | _ => none
termination_by (ts.length, 0)

/-- Read a node, or nothing where the next token says that it is left out. -/
def Node.readOrEmpty (follow : Follow) (site : Site) (ts : List Token) : Option (Node × Rest ts) :=
  if ts.head?.any follow.admits then some (.empty, ⟨ts, Nat.le_refl _⟩)
  else do
    let (node, ⟨rest, h⟩) ← Node.read site ts
    return (node, ⟨rest, Nat.le_of_lt h⟩)
termination_by (ts.length, 2)

/-- Read a value after its colon; without a colon it is left out. -/
def Node.readValue (follow : Follow) (site : Site) (ts : List Token) : Option (Node × Rest ts) :=
  match ts with
  | .value :: rest => do
    let (node, ⟨more, _⟩) ← Node.readOrEmpty follow site rest
    return (node, ⟨more, by simp; omega⟩)
  | ts => some (.empty, ⟨ts, Nat.le_refl _⟩)
termination_by (ts.length, 3)

/-- Read the items of a block list up to its end. -/
def readItems (ts : List Token) : Option (List Node × After ts) :=
  match ts with
  | .blockEnd :: rest => some ([], ⟨rest, by simp⟩)
  | .item :: rest => do
    let (item, ⟨more, _⟩) ← Node.readOrEmpty .item .block rest
    let (items, ⟨last, _⟩) ← readItems more
    return (item :: items, ⟨last, by simp; omega⟩)
  | _ => none
termination_by (ts.length, 3)

/-- Read the items of a list that is no further in than its key. -/
def readLevelItems (ts : List Token) : Option (List Node × Rest ts) :=
  match ts with
  | .item :: rest => do
    let (item, ⟨more, _⟩) ← Node.readOrEmpty .levelItem .block rest
    let (items, ⟨last, _⟩) ← readLevelItems more
    return (item :: items, ⟨last, by simp; omega⟩)
  | ts => some ([], ⟨ts, Nat.le_refl _⟩)
termination_by (ts.length, 3)

/-- Read the entries of a block map up to its end. -/
def readEntries (ts : List Token) : Option (List (Node × Node) × After ts) :=
  match ts with
  | .blockEnd :: rest => some ([], ⟨rest, by simp⟩)
  | .key :: rest => do
    let (key, ⟨more, _⟩) ← Node.readOrEmpty .entry .entry rest
    let (value, ⟨next, _⟩) ← Node.readValue .entry .entry more
    let (entries, ⟨last, _⟩) ← readEntries next
    return ((key, value) :: entries, ⟨last, by simp; omega⟩)
  | _ => none
termination_by (ts.length, 3)

/-- Read the key of a single entry between brackets. A token that shows that it is left out is
dropped. -/
def readPairKey (ts : List Token) : Option (Node × After ts) :=
  match ts with
  | .value :: rest | .comma :: rest | .closeList :: rest => some (.empty, ⟨rest, by simp⟩)
  | ts => Node.read .flow ts
termination_by (ts.length, 2)

/-- Read the items between brackets from the start of one. -/
def readFlowItems (ts : List Token) : Option (List Node × After ts) :=
  match ts with
  | .closeList :: rest => some ([], ⟨rest, by simp⟩)
  | .key :: rest => do
    let (key, ⟨more, _⟩) ← readPairKey rest
    let (value, ⟨next, _⟩) ← Node.readValue .flowItem .flow more
    let (items, ⟨last, _⟩) ← readFlowItemsAfter next
    return (.map [(key, value)] :: items, ⟨last, by simp; omega⟩)
  | ts => do
    let (item, ⟨next, _⟩) ← Node.read .flow ts
    let (items, ⟨last, _⟩) ← readFlowItemsAfter next
    return (item :: items, ⟨last, by omega⟩)
termination_by (ts.length, 3)

/-- Read the items between brackets after one. -/
def readFlowItemsAfter (ts : List Token) : Option (List Node × After ts) :=
  match ts with
  | .closeList :: rest => some ([], ⟨rest, by simp⟩)
  | .comma :: rest => do
    let (items, ⟨last, _⟩) ← readFlowItems rest
    return (items, ⟨last, by simp; omega⟩)
  | _ => none
termination_by (ts.length, 4)

/-- Read the entries between braces from the start of one. -/
def readFlowEntries (ts : List Token) : Option (List (Node × Node) × After ts) :=
  match ts with
  | .closeMap :: rest => some ([], ⟨rest, by simp⟩)
  | .key :: rest => do
    let (key, ⟨more, _⟩) ← Node.readOrEmpty .flowKey .flow rest
    let (value, ⟨next, _⟩) ← Node.readValue .flowEntry .flow more
    let (entries, ⟨last, _⟩) ← readFlowEntriesAfter next
    return ((key, value) :: entries, ⟨last, by simp; omega⟩)
  | ts => do
    let (key, ⟨next, _⟩) ← Node.read .flow ts
    let (entries, ⟨last, _⟩) ← readFlowEntriesAfter next
    return ((key, .empty) :: entries, ⟨last, by omega⟩)
termination_by (ts.length, 3)

/-- Read the entries between braces after one. -/
def readFlowEntriesAfter (ts : List Token) : Option (List (Node × Node) × After ts) :=
  match ts with
  | .closeMap :: rest => some ([], ⟨rest, by simp⟩)
  | .comma :: rest => do
    let (entries, ⟨last, _⟩) ← readFlowEntries rest
    return (entries, ⟨last, by simp; omega⟩)
  | _ => none
termination_by (ts.length, 4)

end

/-! ## Names and tags -/

/-- What handles of tags stand for. -/
abbrev Handles := List (String × String)

/-- The handles that every document has. -/
def coreHandles : Handles := [("!", "!"), ("!!", Plain.coreTag "")]

/-- A tag in full; none if its handle is unknown. -/
def Handles.expand? (handles : Handles) (handle suffix : String) : Option String :=
  if handle.isEmpty then some suffix
  else ((handles ++ coreHandles).lookup handle).map (· ++ suffix)

/-- Give a document a tag. The tag that says nothing is dropped from a scalar. -/
def withTag (tag : String) (d : Document) : Document :=
  match d with
  | .plain _ | .text _ => if tag == "!" then d else .tagged tag d
  | _ => .tagged tag d

/-- The nodes that have been given a name, last first. A node has no value before its end. -/
abbrev Anchors := List (String × Document)

mutual

/-- The document that a node stands for, and the anchors after it. -/
def Node.document? (handles : Handles) (anchors : Anchors) : Node → Option (Document × Anchors)
  | .scalar d => some (d, anchors)
  | .list items => do
    let (ds, anchors) ← itemDocuments? handles anchors items
    return (.series ds, anchors)
  | .map entries => do
    let (ds, anchors) ← entryDocuments? handles anchors entries
    return (.map ds, anchors)
  | .anchored name node => do
    let (d, inner) ← node.document? handles ((name, .unreadable) :: anchors)
    return (d, inner.set (inner.length - anchors.length - 1) (name, d))
  | .tagged handle suffix node => do
    let tag ← handles.expand? handle suffix
    let (d, anchors) ← node.document? handles anchors
    return (withTag tag d, anchors)
  | .reference name => do return (← anchors.lookup name, anchors)

/-- The documents of the items of a list. -/
def itemDocuments? (handles : Handles) (anchors : Anchors) :
    List Node → Option (List Document × Anchors)
  | [] => some ([], anchors)
  | node :: rest => do
    let (d, anchors) ← node.document? handles anchors
    let (ds, anchors) ← itemDocuments? handles anchors rest
    return (d :: ds, anchors)

/-- The documents of the entries of a map. -/
def entryDocuments? (handles : Handles) (anchors : Anchors) :
    List (Node × Node) → Option (List (Document × Document) × Anchors)
  | [] => some ([], anchors)
  | (key, value) :: rest => do
    let (k, anchors) ← key.document? handles anchors
    let (v, anchors) ← value.document? handles anchors
    let (ds, anchors) ← entryDocuments? handles anchors rest
    return ((k, v) :: ds, anchors)

end

end Retarget.Yaml
