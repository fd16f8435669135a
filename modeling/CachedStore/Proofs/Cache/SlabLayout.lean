import Mathlib.Data.List.Infix
import CachedStore.Proofs.Cache.RecencyRefinement

/-!
The slab as it lies in memory. Its links are numbers, and one number, which is no slot, stands for a
link to nowhere. Each access by a number is checked: an operation that reaches beyond the nodes has
no outcome, and neither has a walk that does not end. A recency list laid out in this way is used by
the same operations, and each of them has an outcome.
-/

namespace CachedStore

structure SlabNode (α : Type) where
  item : Option α
  newer : Nat
  older : Nat

structure Slab (α : Type) where
  nodes : Array (SlabNode α)
  free : List Nat
  front : Nat
  back : Nat
  length : Nat

namespace Slab

variable {α : Type}

/-- Changes a node, which has to be there. -/
def change? (slab : Slab α) (slot : Nat) (change : SlabNode α → SlabNode α) : Option (Slab α) :=
  if slot < slab.nodes.size then some { slab with nodes := slab.nodes.modify slot change }
  else none

def get? (slab : Slab α) (slot : Nat) : Option α := slab.nodes[slot]?.bind (·.item)

def set (slab : Slab α) (slot : Nat) (item : α) : Slab α :=
  if (slab.get? slot).isSome then
    { slab with nodes := slab.nodes.modify slot fun node => { node with item := some item } }
  else slab

def next? (slab : Slab α) (cursor : Nat) : Option (α × Nat) := do
  let node ← slab.nodes[cursor]?
  return (← node.item, node.older)

def walk (slab : Slab α) : (steps : Nat) → (cursor : Nat) → Option (List α)
  | 0, _ => none
  | steps + 1, cursor =>
    match slab.next? cursor with
    | none => some []
    | some (item, older) => do return item :: (← walk slab steps older)

section

variable (nil : Nat)

def empty : Slab α := ⟨#[], [], nil, nil, 0⟩

/-- Changes the node at a link. Where the link is none, an end of the list changes instead. -/
def relink? (slab : Slab α) (link : Nat) (change : SlabNode α → SlabNode α)
    (otherwise : Slab α) : Option (Slab α) :=
  if link = nil then some otherwise else slab.change? link change

def linkFront (slab : Slab α) (slot : Nat) : Option (Slab α) := do
  let placed ← slab.change? slot fun node => { node with newer := nil, older := slab.front }
  let linked ←
    placed.relink? nil placed.front (fun node => { node with newer := slot })
      { placed with back := slot }
  return { linked with front := slot }

def unlink (slab : Slab α) (slot : Nat) : Option (Slab α) := do
  let node ← slab.nodes[slot]?
  let skipped ←
    slab.relink? nil node.newer (fun other => { other with older := node.older })
      { slab with front := node.older }
  let closed ←
    skipped.relink? nil node.older (fun other => { other with newer := node.newer })
      { skipped with back := node.newer }
  closed.change? slot fun other => { other with newer := nil, older := nil }

/-- Puts a node into the slot freed last, or behind all nodes. -/
def place? (slab : Slab α) (node : SlabNode α) : Option (Nat × Slab α) :=
  match slab.free with
  | slot :: free => do
    let placed ← slab.change? slot fun _ => node
    return (slot, { placed with free := free })
  | [] => some (slab.nodes.size, { slab with nodes := slab.nodes.push node })

def pushFront (slab : Slab α) (item : α) : Option (Nat × Slab α) := do
  let (slot, placed) ← slab.place? ⟨some item, nil, nil⟩
  let linked ← placed.linkFront nil slot
  return (slot, { linked with length := linked.length + 1 })

def moveToFront (slab : Slab α) (slot : Nat) : Option (Slab α) :=
  if slot = slab.front ∨ slab.get? slot = none then some slab
  else do (← slab.unlink nil slot).linkFront nil slot

def remove (slab : Slab α) (slot : Nat) : Option (Option α × Slab α) :=
  match slab.get? slot with
  | none => some (none, slab)
  | some item => do
    let unlinked ← slab.unlink nil slot
    let emptied ← unlinked.change? slot fun node => { node with item := none }
    return (some item,
      { emptied with free := slot :: emptied.free, length := emptied.length - 1 })

def answer (call : RecencyCall α) (slab : Slab α) : Option (RecencyAnswer α × Slab α) :=
  match call with
  | .pushFront item => (·.map .slot id) <$> slab.pushFront nil item
  | .moveToFront slot => (.done, ·) <$> slab.moveToFront nil slot
  | .remove slot => (·.map .item id) <$> slab.remove nil slot
  | .popBack => (·.map .item id) <$> slab.remove nil slab.back
  | .peekBack => some (.item (slab.get? slab.back), slab)
  | .get slot => some (.item (slab.get? slot), slab)
  | .set slot item => some (.item (slab.get? slot), slab.set slot item)
  -- Every node takes a step, and the end one more. A walk that is longer goes in a circle.
  | .items => (fun items => (.items items, slab)) <$> slab.walk (slab.nodes.size + 1) slab.front
  | .length => some (.count slab.length, slab)
  | .clear => some (.done, empty nil)

def answerEach : List (RecencyCall α) → Slab α → Option (List (RecencyAnswer α) × Slab α)
  | [], slab => some ([], slab)
  | call :: rest, slab => do
    let (first, slab) ← answer nil call slab
    let (others, slab) ← answerEach rest slab
    return (first :: others, slab)

end

end Slab

namespace Recency

variable {α : Type} (nil : Nat)

def layOutNode (node : RecencyNode α) : SlabNode α :=
  ⟨node.item, node.newer.getD nil, node.older.getD nil⟩

def layOut (list : Recency α) : Slab α :=
  ⟨list.nodes.map (layOutNode nil), list.free, list.front.getD nil, list.back.getD nil,
    list.length⟩

open SlotList

variable {nil} {list : Recency α} {entries : List (Nat × α)}

@[simp] theorem get?_layOut (list : Recency α) (slot : Nat) :
    (list.layOut nil).get? slot = list.get? slot := by
  simp only [Slab.get?, layOut, Array.getElem?_map, get?]
  cases list.nodes[slot]? <;> rfl

@[simp] theorem front_layOut (list : Recency α) :
    (list.layOut nil).front = list.front.getD nil := rfl

@[simp] theorem back_layOut (list : Recency α) :
    (list.layOut nil).back = list.back.getD nil := rfl

theorem map_modify {slot : Nat} (change : RecencyNode α → RecencyNode α)
    {changed : SlabNode α → SlabNode α}
    (agree : ∀ node, changed (layOutNode nil node) = layOutNode nil (change node))
    (nodes : Array (RecencyNode α)) :
    (nodes.map (layOutNode nil)).modify slot changed =
      (nodes.modify slot change).map (layOutNode nil) := by
  refine Array.ext_getElem? fun other => ?_
  simp only [Array.getElem?_modify, Array.getElem?_map]
  split
  · cases nodes[other]? <;> simp [agree]
  · rfl

theorem change?_layOut {slot : Nat} (below : slot < list.nodes.size)
    (change : RecencyNode α → RecencyNode α) {changed : SlabNode α → SlabNode α}
    (agree : ∀ node, changed (layOutNode nil node) = layOutNode nil (change node)) :
    (list.layOut nil).change? slot changed =
      some ({ list with nodes := list.nodes.modify slot change }.layOut nil) := by
  simp [Slab.change?, layOut, below, map_modify change agree]

def relink (list : Recency α) (link : Option Nat) (change : RecencyNode α → RecencyNode α)
    (otherwise : Recency α) : Recency α :=
  match link with
  | some slot => { list with nodes := list.nodes.modify slot change }
  | none => otherwise

def LeadsInto (size : Nat) (link : Option Nat) : Prop := ∀ slot, link = some slot → slot < size

theorem size_relink (list : Recency α) (link : Option Nat)
    (change : RecencyNode α → RecencyNode α) {otherwise : Recency α}
    (same : otherwise.nodes = list.nodes) :
    (list.relink link change otherwise).nodes.size = list.nodes.size := by
  cases link with
  | none => exact congrArg Array.size same
  | some slot => simp [relink]

theorem relink?_layOut {link : Option Nat} (inside : LeadsInto list.nodes.size link)
    (fits : list.nodes.size ≤ nil) (change : RecencyNode α → RecencyNode α)
    {changed : SlabNode α → SlabNode α}
    (agree : ∀ node, changed (layOutNode nil node) = layOutNode nil (change node))
    (otherwise : Recency α) :
    (list.layOut nil).relink? nil (link.getD nil) changed (otherwise.layOut nil) =
      some ((list.relink link change otherwise).layOut nil) := by
  cases link with
  | none => simp [Slab.relink?, relink]
  | some slot =>
      have below := inside slot rfl
      have somewhere : slot ≠ nil := by omega
      simp only [Slab.relink?, Option.getD_some, somewhere, ↓reduceIte]
      exact change?_layOut below change agree

theorem linkFront_layOut {slot : Nat} (below : slot < list.nodes.size)
    (front : LeadsInto list.nodes.size list.front) (fits : list.nodes.size ≤ nil) :
    (list.layOut nil).linkFront nil slot = some ((list.linkFront slot).layOut nil) := by
  -- The list takes the steps of the slab, so that each of them is laid out on its own.
  let placed : Recency α :=
    { list with
      nodes := list.nodes.modify slot fun node => { node with newer := none, older := list.front } }
  let linked : Recency α :=
    placed.relink placed.front (fun node => { node with newer := some slot })
      { placed with back := some slot }
  have size : placed.nodes.size = list.nodes.size := Array.size_modify
  have place : (list.layOut nil).change? slot
      (fun node => { node with newer := nil, older := (list.layOut nil).front }) =
        some (placed.layOut nil) := change?_layOut below _ fun _ => rfl
  have link : (placed.layOut nil).relink? nil (placed.layOut nil).front
      (fun node => { node with newer := slot }) { placed.layOut nil with back := slot } =
        some (linked.layOut nil) :=
    relink?_layOut (size.symm ▸ front) (size.symm ▸ fits) _ (fun _ => rfl)
      { placed with back := some slot }
  have whole : list.linkFront slot = { linked with front := some slot } := by
    cases head : list.front <;> simp [linkFront, linked, placed, relink, head]
  simp only [Slab.linkFront, place, link, whole, Option.bind_eq_bind, Option.bind_some]
  rfl

theorem unlink_layOut {slot : Nat} {node : RecencyNode α} (found : list.nodes[slot]? = some node)
    (newer : LeadsInto list.nodes.size node.newer) (older : LeadsInto list.nodes.size node.older)
    (fits : list.nodes.size ≤ nil) :
    (list.layOut nil).unlink nil slot = some ((list.unlink slot).layOut nil) := by
  let skipped : Recency α :=
    list.relink node.newer (fun other => { other with older := node.older })
      { list with front := node.older }
  let closed : Recency α :=
    skipped.relink node.older (fun other => { other with newer := node.newer })
      { skipped with back := node.newer }
  have skippedSize : skipped.nodes.size = list.nodes.size := list.size_relink _ _ rfl
  have closedSize : closed.nodes.size = skipped.nodes.size := skipped.size_relink _ _ rfl
  have below : slot < closed.nodes.size := by
    rw [closedSize, skippedSize]
    exact (Array.getElem?_eq_some_iff.mp found).1
  have read : (list.layOut nil).nodes[slot]? = some (layOutNode nil node) := by
    simp [layOut, found]
  have skip : (list.layOut nil).relink? nil (layOutNode nil node).newer
      (fun other => { other with older := (layOutNode nil node).older })
      { list.layOut nil with front := (layOutNode nil node).older } = some (skipped.layOut nil) :=
    relink?_layOut newer fits _ (fun _ => rfl) { list with front := node.older }
  have close : (skipped.layOut nil).relink? nil (layOutNode nil node).older
      (fun other => { other with newer := (layOutNode nil node).newer })
      { skipped.layOut nil with back := (layOutNode nil node).newer } =
        some (closed.layOut nil) :=
    relink?_layOut (skippedSize.symm ▸ older) (skippedSize.symm ▸ fits) _ (fun _ => rfl)
      { skipped with back := node.newer }
  have whole : list.unlink slot =
      { closed with
        nodes := closed.nodes.modify slot fun other =>
          { other with newer := none, older := none } } := by
    rcases node with ⟨item, _ | newer, _ | older⟩ <;>
      simp [unlink, found, closed, skipped, relink]
  simp only [Slab.unlink, read, skip, close, whole, Option.bind_eq_bind, Option.bind_some]
  exact change?_layOut below _ fun _ => rfl

/-! Links of a list that holds its items -/

theorem Chained.firstSlot_leads (chained : Chained list entries) {part : List (Nat × α)}
    (within : part ⊆ entries) : LeadsInto list.nodes.size (firstSlot part none) :=
  fun _ first => chained.linked.slot_lt (List.map_subset _ within (firstSlot_mem first))

theorem Chained.lastSlot_leads (chained : Chained list entries) {part : List (Nat × α)}
    (within : part ⊆ entries) : LeadsInto list.nodes.size (lastSlot none part) :=
  fun _ last => chained.linked.slot_lt (List.map_subset _ within (lastSlot_mem last))

theorem Chained.front_leads (chained : Chained list entries) :
    LeadsInto list.nodes.size list.front :=
  chained.front ▸ chained.firstSlot_leads (List.Subset.refl _)

theorem Chained.unlink_layOut {before after : List (Nat × α)} {slot : Nat} {item : α}
    (chained : Chained list (before ++ (slot, item) :: after)) (fits : list.nodes.size ≤ nil) :
    (list.layOut nil).unlink nil slot = some ((list.unlink slot).layOut nil) :=
  Recency.unlink_layOut chained.linked.node
    (chained.lastSlot_leads (List.subset_append_left _ _))
    (chained.firstSlot_leads fun _ member => by simp [member]) fits

/-! The operations -/

theorem pushFront_layOut {placed : Recency α} {slot : Nat} {item : α}
    (place : (list.layOut nil).place? ⟨some item, nil, nil⟩ = some (slot, placed.layOut nil))
    (pushed : list.pushFront item =
      (slot, { placed.linkFront slot with length := (placed.linkFront slot).length + 1 }))
    (below : slot < placed.nodes.size) (front : LeadsInto placed.nodes.size placed.front)
    (fits : (list.pushFront item).2.nodes.size ≤ nil) :
    (list.layOut nil).pushFront nil item =
      some ((list.pushFront item).1, (list.pushFront item).2.layOut nil) := by
  rw [pushed, size_linkFront] at fits
  simp only [Slab.pushFront, place, linkFront_layOut below front fits, pushed, Option.bind_eq_bind,
    Option.bind_some]
  rfl

theorem Represents.pushFront_layOut (holds : Represents list entries) (item : α)
    (fits : (list.pushFront item).2.nodes.size ≤ nil) :
    (list.layOut nil).pushFront nil item =
      some ((list.pushFront item).1, (list.pushFront item).2.layOut nil) := by
  have front := holds.front_leads
  cases unused : list.free with
  | nil =>
      let placed : Recency α := { list with nodes := list.nodes.push ⟨some item, none, none⟩ }
      have size : placed.nodes.size = list.nodes.size + 1 := Array.size_push _
      have place : (list.layOut nil).place? ⟨some item, nil, nil⟩ =
          some (list.nodes.size, placed.layOut nil) := by
        simp [Slab.place?, layOut, unused, placed, layOutNode]
      refine Recency.pushFront_layOut place ?_ (by omega) ?_ fits
      · simp only [Recency.pushFront, unused, placed]
      · exact fun slot first => size ▸ Nat.lt_succ_of_lt (front slot first)
  | cons slot rest =>
      let placed : Recency α :=
        { list with nodes := list.nodes.modify slot fun _ => ⟨some item, none, none⟩, free := rest }
      have size : placed.nodes.size = list.nodes.size := Array.size_modify
      have below : slot < list.nodes.size := ((holds.free slot).mp (by simp [unused])).1
      have stack : (list.layOut nil).free = slot :: rest := unused
      have change : (list.layOut nil).change? slot (fun _ => ⟨some item, nil, nil⟩) = _ :=
        change?_layOut below (fun _ => ⟨some item, none, none⟩) fun _ => rfl
      have place : (list.layOut nil).place? ⟨some item, nil, nil⟩ =
          some (slot, placed.layOut nil) := by
        simp only [Slab.place?, stack, change, Option.bind_eq_bind, Option.bind_some]
        rfl
      refine Recency.pushFront_layOut place ?_ (size.symm ▸ below) (size.symm ▸ front) fits
      simp only [Recency.pushFront, unused, placed]

theorem Represents.moveToFront_layOut (holds : Represents list entries) (slot : Nat)
    (fits : list.nodes.size ≤ nil) :
    (list.layOut nil).moveToFront nil slot = some ((list.moveToFront slot).layOut nil) := by
  cases found : list.get? slot with
  | none => simp [Slab.moveToFront, Recency.moveToFront, isLive, found]
  | some item =>
      obtain ⟨before, after, rfl, _⟩ := holds.split found
      have below : slot < list.nodes.size :=
        holds.linked.slot_lt ((mem_slots_middle slot).mpr (Or.inl rfl))
      have first : slot = list.front.getD nil ↔ list.front = some slot := by
        cases list.front with
        | none => simpa using Nat.ne_of_lt (Nat.lt_of_lt_of_le below fits)
        | some other => simp [eq_comm]
      have unlinked := holds.toChained.unlink
      have link : ((list.unlink slot).layOut nil).linkFront nil slot = _ :=
        linkFront_layOut (by simpa using below) unlinked.front_leads (by simpa using fits)
      by_cases head : list.front = some slot
      · simp [Slab.moveToFront, Recency.moveToFront, head]
      · simp [Slab.moveToFront, Recency.moveToFront, first, head, found, isLive,
          holds.toChained.unlink_layOut fits, link]

theorem Represents.remove_layOut (holds : Represents list entries) (slot : Nat)
    (fits : list.nodes.size ≤ nil) :
    (list.layOut nil).remove nil slot =
      some ((list.remove slot).1, (list.remove slot).2.layOut nil) := by
  cases found : list.get? slot with
  | none => simp [Slab.remove, Recency.remove, found]
  | some item =>
      obtain ⟨before, after, rfl, _⟩ := holds.split found
      have below : slot < (list.unlink slot).nodes.size := by
        rw [size_unlink]
        exact holds.linked.slot_lt ((mem_slots_middle slot).mpr (Or.inl rfl))
      have empty : ((list.unlink slot).layOut nil).change? slot
          (fun node => { node with item := none }) = _ :=
        change?_layOut below (fun node => { node with item := none }) fun _ => rfl
      simp only [Slab.remove, Recency.remove, get?_layOut, found,
        holds.toChained.unlink_layOut fits, empty, Option.bind_eq_bind, Option.bind_some]
      rfl

theorem next?_layOut {slot : Nat} {item : α} {newer older : Option Nat}
    (found : list.nodes[slot]? = some ⟨some item, newer, older⟩) :
    (list.layOut nil).next? slot = some (item, older.getD nil) := by
  simp [Slab.next?, layOut, found, layOutNode]

theorem walk_layOut {newer : Option Nat} {part : List (Nat × α)}
    (segment : Segment list.nodes newer part none) (fits : list.nodes.size ≤ nil) {steps : Nat}
    (enough : part.length < steps) :
    (list.layOut nil).walk steps ((firstSlot part none).getD nil) = some (part.map (·.2)) := by
  induction part generalizing newer steps with
  | nil =>
      obtain ⟨steps, rfl⟩ := Nat.exists_eq_add_one.mpr enough
      have nowhere : (list.layOut nil).nodes[nil]? = none := by
        simpa [layOut] using fits
      simp [Slab.walk, Slab.next?, nowhere]
  | cons entry rest ih =>
      obtain ⟨slot, item⟩ := entry
      obtain ⟨steps, rfl⟩ := Nat.exists_eq_add_one.mpr (Nat.zero_lt_of_lt enough)
      have others := ih segment.2 (Nat.lt_of_succ_lt_succ enough)
      rw [firstSlot_cons, Option.getD_some, Slab.walk, next?_layOut segment.1]
      simp [others]

theorem Represents.walk_layOut (holds : Represents list entries) (fits : list.nodes.size ≤ nil) :
    (list.layOut nil).walk ((list.layOut nil).nodes.size + 1) (list.layOut nil).front =
      some list.toList := by
  have size : (list.layOut nil).nodes.size = list.nodes.size := Array.size_map
  have enough : entries.length < list.nodes.size + 1 := Nat.lt_succ_of_le holds.length_le
  rw [size, front_layOut, holds.front, Recency.walk_layOut holds.linked fits enough, toList,
    holds.entries_eq]

theorem empty_layOut : (empty : Recency α).layOut nil = .empty nil := by
  simp [layOut, Slab.empty, empty]

theorem set_layOut (list : Recency α) (slot : Nat) (item : α) :
    (list.layOut nil).set slot item = (list.set slot item).layOut nil := by
  have write : (list.nodes.map (layOutNode nil)).modify slot
      (fun node => { node with item := some item }) = _ :=
    map_modify (fun node => { node with item := some item }) (fun _ => rfl) list.nodes
  cases live : (list.get? slot).isSome with
  | false => simp [Slab.set, Recency.set, isLive, live]
  | true =>
      simp only [Slab.set, Recency.set, isLive, get?_layOut, live, ↓reduceIte]
      simp only [layOut, write]

theorem get?_beyond {slot : Nat} (beyond : list.nodes.size ≤ slot) : list.get? slot = none := by
  simp [get?, beyond]

theorem get?_back (fits : list.nodes.size ≤ nil) :
    list.get? (list.back.getD nil) = list.peekBack := by
  cases back : list.back with
  | none => simp [peekBack, back, get?_beyond fits]
  | some slot => simp [peekBack, back]

theorem remove_back (fits : list.nodes.size ≤ nil) :
    list.remove (list.back.getD nil) = list.popBack := by
  cases back : list.back with
  | none => simp [popBack, back, remove, get?_beyond fits]
  | some slot => simp [popBack, back]

theorem Represents.answer_layOut (holds : Represents list entries) (call : RecencyCall α)
    (before : list.nodes.size ≤ nil) (after : (Recency.answer call list).2.nodes.size ≤ nil) :
    Slab.answer nil call (list.layOut nil) =
      some ((Recency.answer call list).1, (Recency.answer call list).2.layOut nil) := by
  cases call with
  | pushFront item =>
      rw [Slab.answer, holds.pushFront_layOut item after]
      rfl
  | moveToFront slot =>
      rw [Slab.answer, holds.moveToFront_layOut slot before]
      rfl
  | remove slot =>
      rw [Slab.answer, holds.remove_layOut slot before]
      rfl
  | popBack =>
      rw [Slab.answer, back_layOut, holds.remove_layOut _ before, remove_back before]
      rfl
  | peekBack =>
      rw [Slab.answer, back_layOut, get?_layOut, get?_back before]
      rfl
  | get slot =>
      rw [Slab.answer, get?_layOut]
      rfl
  | set slot item =>
      rw [Slab.answer, get?_layOut, set_layOut]
      rfl
  | items =>
      rw [Slab.answer, holds.walk_layOut before]
      rfl
  | length => rfl
  | clear => rw [Slab.answer, ← empty_layOut]; rfl

theorem Represents.answerEach_layOut (holds : Represents list entries)
    (calls : List (RecencyCall α))
    (fits : ∀ earlier, earlier <+: calls →
      (CachedStore.answerEach Recency.answer earlier list).2.nodes.size ≤ nil) :
    Slab.answerEach nil calls (list.layOut nil) =
      some ((CachedStore.answerEach Recency.answer calls list).1,
        (CachedStore.answerEach Recency.answer calls list).2.layOut nil) := by
  induction calls generalizing list entries with
  | nil => rfl
  | cons call rest ih =>
      obtain ⟨_, _, later⟩ := holds.answer call
      have before := fits [] (List.nil_prefix)
      have after := fits [call] (by simp)
      have first := holds.answer_layOut call before after
      have others := ih later fun earlier shorter =>
        fits (call :: earlier) ((List.prefix_cons_inj call).mpr shorter)
      simp only [Slab.answerEach, first, others, Option.bind_eq_bind, Option.bind_some]
      rfl

/--
Whatever calls come, with whatever slots, they are answered as on a list of slots and items, and
the slots stay distinct. While there are no more nodes than the numbers below `nil`, the list laid
out in memory gives the same answers, so that no access leaves the slab and every walk ends.
-/
theorem answerEach_as_list (calls : List (RecencyCall α)) :
    let outcome := answerEach Recency.answer calls .empty
    AnswersEach calls [] outcome.1 outcome.2.entries ∧
      (outcome.2.entries.map (·.1)).Nodup ∧
      ∀ nil, (∀ earlier, earlier <+: calls → (after earlier).nodes.size ≤ nil) →
        Slab.answerEach nil calls (.empty nil) = some (outcome.1, outcome.2.layOut nil) := by
  obtain ⟨answered, holds⟩ := empty_represents.answerEach calls
  refine ⟨answered, holds.distinct, fun nil fits => ?_⟩
  rw [← empty_layOut]
  exact empty_represents.answerEach_layOut calls fits

/-- Slots that are live, freed, never allocated, and the greatest word, which is the `nil` here. -/
def strayCalls : List (RecencyCall Nat) :=
  [.pushFront 10, .pushFront 11, .moveToFront 0, .remove 1, .remove 1, .get 1, .moveToFront 7,
    .set 7 12, .moveToFront (2 ^ 64 - 1), .remove (2 ^ 64 - 1), .pushFront 13, .set 1 14, .items,
    .popBack, .popBack, .popBack, .peekBack, .moveToFront (2 ^ 64 - 1), .length]

theorem answerEach_as_list_stray :
    (∀ earlier, earlier <+: strayCalls → (after earlier).nodes.size ≤ 2 ^ 64 - 1) ∧
    Slab.answerEach (2 ^ 64 - 1) strayCalls (.empty (2 ^ 64 - 1)) =
      some ((answerEach Recency.answer strayCalls .empty).1,
        (answerEach Recency.answer strayCalls .empty).2.layOut (2 ^ 64 - 1)) ∧
    (answerEach Recency.answer strayCalls .empty).1 =
      [.slot 0, .slot 1, .done, .item (some 11), .item none, .item none, .done, .item none, .done,
        .item none, .slot 1, .item (some 13), .items [14, 10], .item (some 10), .item (some 14),
        .item none, .item none, .done, .count 0] := by
  have small : ∀ earlier ∈ strayCalls.inits, (after earlier).nodes.size ≤ 2 ^ 64 - 1 := by
    decide +kernel
  have fits : ∀ earlier, earlier <+: strayCalls → (after earlier).nodes.size ≤ 2 ^ 64 - 1 :=
    fun earlier part => small earlier ((List.mem_inits _ _).mpr part)
  exact ⟨fits, (answerEach_as_list strayCalls).2.2 _ fits, by decide +kernel⟩

end Recency

end CachedStore
