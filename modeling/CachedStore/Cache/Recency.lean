/-!
Items in the order of their last use, in a slab of linked nodes. A slot stays the address of its
item until the item is removed; later items take freed slots first, the last freed one first of all.
Every operation but the listing takes constant time.
-/

namespace CachedStore

/-- A node of the slab. A free node holds no item. -/
structure RecencyNode (α : Type) where
  item : Option α
  newer : Option Nat
  older : Option Nat

structure Recency (α : Type) where
  nodes : Array (RecencyNode α)
  free : List Nat
  front : Option Nat
  back : Option Nat
  length : Nat

namespace Recency

variable {α : Type}

def empty : Recency α := ⟨#[], [], none, none, 0⟩

instance : Inhabited (Recency α) := ⟨empty⟩

def get? (list : Recency α) (slot : Nat) : Option α := list.nodes[slot]?.bind (·.item)

def isLive (list : Recency α) (slot : Nat) : Bool := (list.get? slot).isSome

def linkFront (list : Recency α) (slot : Nat) : Recency α :=
  let nodes := list.nodes.modify slot fun node => { node with newer := none, older := list.front }
  match list.front with
  | some head =>
    { list with
      nodes := nodes.modify head fun node => { node with newer := some slot }
      front := some slot }
  | none => { list with nodes := nodes, front := some slot, back := some slot }

def unlink (list : Recency α) (slot : Nat) : Recency α :=
  match list.nodes[slot]? with
  | none => list
  | some node =>
    let nodes :=
      match node.newer with
      | some newer => list.nodes.modify newer fun other => { other with older := node.older }
      | none => list.nodes
    let nodes :=
      match node.older with
      | some older => nodes.modify older fun other => { other with newer := node.newer }
      | none => nodes
    { list with
      nodes := nodes.modify slot fun other => { other with newer := none, older := none }
      front := if node.newer.isNone then node.older else list.front
      back := if node.older.isNone then node.newer else list.back }

def pushFront (list : Recency α) (item : α) : Nat × Recency α :=
  let node : RecencyNode α := ⟨some item, none, none⟩
  let (slot, list) : Nat × Recency α :=
    match list.free with
    | slot :: free =>
      (slot, { list with nodes := list.nodes.modify slot fun _ => node, free := free })
    | [] => (list.nodes.size, { list with nodes := list.nodes.push node })
  let linked := list.linkFront slot
  (slot, { linked with length := linked.length + 1 })

def moveToFront (list : Recency α) (slot : Nat) : Recency α :=
  if list.front = some slot ∨ list.isLive slot = false then list
  else (list.unlink slot).linkFront slot

def remove (list : Recency α) (slot : Nat) : Option α × Recency α :=
  match list.get? slot with
  | none => (none, list)
  | some item =>
    let unlinked := list.unlink slot
    (some item,
      { unlinked with
        nodes := unlinked.nodes.modify slot fun node => { node with item := none }
        free := slot :: unlinked.free
        length := unlinked.length - 1 })

def popBack (list : Recency α) : Option α × Recency α :=
  match list.back with
  | some slot => list.remove slot
  | none => (none, list)

def peekBack (list : Recency α) : Option α := list.back.bind list.get?

def set (list : Recency α) (slot : Nat) (item : α) : Recency α :=
  if list.isLive slot then
    { list with nodes := list.nodes.modify slot fun node => { node with item := some item } }
  else list

def follow (nodes : Array (RecencyNode α)) : (fuel : Nat) → Option Nat → List (Nat × α)
  | 0, _ => []
  | _, none => []
  | fuel + 1, some slot =>
    match nodes[slot]? with
    | none => []
    | some node =>
      match node.item with
      | none => []
      | some item => (slot, item) :: follow nodes fuel node.older

def entries (list : Recency α) : List (Nat × α) := follow list.nodes list.nodes.size list.front

def toList (list : Recency α) : List α := list.entries.map (·.2)

end Recency

end CachedStore
