import Mathlib.Data.List.Nodup
import Mathlib.Data.List.Perm.Subperm
import CachedStore.Cache.Recency

/-!
What a recency list stands for: a list of slots and items, front first. The nodes form a chain of
links in both directions, the free list holds exactly the slots that are not in the chain, and every
operation on the slab is the operation of the same name on the list of slots and items.
-/

namespace CachedStore

namespace Recency

variable {α : Type}

def firstSlot (entries : List (Nat × α)) (older : Option Nat) : Option Nat :=
  (entries.head?.map (·.1)).or older

def lastSlot : Option Nat → List (Nat × α) → Option Nat
  | newer, [] => newer
  | _, entry :: rest => lastSlot (some entry.1) rest

/-- The nodes of a part of the chain are linked in its order, behind `newer` and before `older`. -/
def Segment (nodes : Array (RecencyNode α)) : Option Nat → List (Nat × α) → Option Nat → Prop
  | _, [], _ => True
  | newer, (slot, item) :: rest, older =>
      nodes[slot]? = some ⟨some item, newer, firstSlot rest older⟩ ∧
        Segment nodes (some slot) rest older

@[simp] theorem firstSlot_nil (older : Option Nat) :
    firstSlot ([] : List (Nat × α)) older = older := rfl

@[simp] theorem firstSlot_cons (entry : Nat × α) (rest : List (Nat × α)) (older : Option Nat) :
    firstSlot (entry :: rest) older = some entry.1 := rfl

theorem firstSlot_append (before after : List (Nat × α)) (older : Option Nat) :
    firstSlot (before ++ after) older = firstSlot before (firstSlot after older) := by
  cases before <;> rfl

theorem lastSlot_append (newer : Option Nat) (before after : List (Nat × α)) :
    lastSlot newer (before ++ after) = lastSlot (lastSlot newer before) after := by
  induction before generalizing newer with
  | nil => rfl
  | cons entry rest ih => exact ih (some entry.1)

theorem segment_append (nodes : Array (RecencyNode α)) (newer older : Option Nat)
    (before after : List (Nat × α)) :
    Segment nodes newer (before ++ after) older ↔
      Segment nodes newer before (firstSlot after older) ∧
        Segment nodes (lastSlot newer before) after older := by
  induction before generalizing newer with
  | nil => simp [Segment, lastSlot]
  | cons entry rest ih =>
      simp only [List.cons_append, Segment, lastSlot, firstSlot_append, ih, and_assoc]

theorem Segment.congr {nodes others : Array (RecencyNode α)} {newer older : Option Nat}
    {entries : List (Nat × α)} (segment : Segment nodes newer entries older)
    (same : ∀ slot ∈ entries.map (·.1), others[slot]? = nodes[slot]?) :
    Segment others newer entries older := by
  induction entries generalizing newer with
  | nil => trivial
  | cons entry rest ih =>
      refine ⟨?_, ih segment.2 fun slot member => same slot (by simp_all)⟩
      rw [same entry.1 (by simp)]
      exact segment.1

theorem Segment.modify_absent {nodes : Array (RecencyNode α)} {newer older : Option Nat}
    {entries : List (Nat × α)} (segment : Segment nodes newer entries older) {slot : Nat}
    (absent : slot ∉ entries.map (·.1)) (change : RecencyNode α → RecencyNode α) :
    Segment (nodes.modify slot change) newer entries older := by
  refine segment.congr fun other member => ?_
  have different : slot ≠ other := fun same => absent (same ▸ member)
  simp [Array.getElem?_modify, different]

theorem Segment.relinkFirst {nodes : Array (RecencyNode α)} {newer older : Option Nat}
    {slot : Nat} {item : α} {rest : List (Nat × α)}
    (segment : Segment nodes newer ((slot, item) :: rest) older)
    (absent : slot ∉ rest.map (·.1)) (other : Option Nat) :
    Segment (nodes.modify slot fun node => { node with newer := other }) other
      ((slot, item) :: rest) older := by
  refine ⟨?_, segment.2.modify_absent absent _⟩
  simp [Array.getElem?_modify, segment.1]

theorem Segment.relinkLast {nodes : Array (RecencyNode α)} {newer older : Option Nat}
    {before : List (Nat × α)} {slot : Nat} {item : α}
    (segment : Segment nodes newer (before ++ [(slot, item)]) older)
    (absent : slot ∉ before.map (·.1)) (other : Option Nat) :
    Segment (nodes.modify slot fun node => { node with older := other }) newer
      (before ++ [(slot, item)]) other := by
  rw [segment_append] at segment ⊢
  refine ⟨segment.1.modify_absent absent _, ?_, trivial⟩
  simp [Array.getElem?_modify, segment.2.1]

theorem Segment.node {nodes : Array (RecencyNode α)} {newer older : Option Nat}
    {before after : List (Nat × α)} {slot : Nat} {item : α}
    (segment : Segment nodes newer (before ++ (slot, item) :: after) older) :
    nodes[slot]? = some ⟨some item, lastSlot newer before, firstSlot after older⟩ :=
  ((segment_append _ _ _ _ _).mp segment).2.1

theorem Segment.slot_lt {nodes : Array (RecencyNode α)} {newer older : Option Nat}
    {entries : List (Nat × α)} (segment : Segment nodes newer entries older) {slot : Nat}
    (member : slot ∈ entries.map (·.1)) : slot < nodes.size := by
  obtain ⟨entry, belongs, same⟩ := List.mem_map.mp member
  obtain ⟨before, after, split⟩ := List.append_of_mem belongs
  subst split same
  exact (Array.getElem?_eq_some_iff.mp segment.node).1

theorem follow_segment {nodes : Array (RecencyNode α)} {newer : Option Nat}
    {entries : List (Nat × α)} (segment : Segment nodes newer entries none) {fuel : Nat}
    (enough : entries.length ≤ fuel) : follow nodes fuel (firstSlot entries none) = entries := by
  induction entries generalizing newer fuel with
  | nil => cases fuel <;> rfl
  | cons entry rest ih =>
      cases fuel with
      | zero => simp at enough
      | succ fuel =>
          have tail := ih segment.2 (by simpa using enough)
          obtain ⟨slot, item⟩ := entry
          simp only [firstSlot_cons, follow, segment.1, tail]

structure Chained (list : Recency α) (entries : List (Nat × α)) : Prop where
  linked : Segment list.nodes none entries none
  front : list.front = firstSlot entries none
  back : list.back = lastSlot none entries
  distinct : (entries.map (·.1)).Nodup

/-- The list stands for these slots and items, and every other slot is free. -/
structure Represents (list : Recency α) (entries : List (Nat × α)) : Prop
    extends Chained list entries where
  length : list.length = entries.length
  dead : ∀ slot, slot ∉ entries.map (·.1) → list.get? slot = none
  free : ∀ slot, slot ∈ list.free ↔ slot < list.nodes.size ∧ slot ∉ entries.map (·.1)
  freeOnce : list.free.Nodup

/-! Changes of links -/

def linkOlder (nodes : Array (RecencyNode α)) (slot other : Option Nat) :
    Array (RecencyNode α) :=
  match slot with
  | some slot => nodes.modify slot fun node => { node with older := other }
  | none => nodes

def linkNewer (nodes : Array (RecencyNode α)) (slot other : Option Nat) :
    Array (RecencyNode α) :=
  match slot with
  | some slot => nodes.modify slot fun node => { node with newer := other }
  | none => nodes

theorem unlink_nodes {list : Recency α} {slot : Nat} {node : RecencyNode α}
    (found : list.nodes[slot]? = some node) :
    (list.unlink slot).nodes =
      (linkNewer (linkOlder list.nodes node.newer node.older) node.older node.newer).modify slot
        fun other => { other with newer := none, older := none } := by
  rw [unlink, found]
  rfl

theorem linkFront_nodes (list : Recency α) (slot : Nat) :
    (list.linkFront slot).nodes =
      linkNewer
        (list.nodes.modify slot fun node => { node with newer := none, older := list.front })
        list.front (some slot) := by
  unfold linkFront
  cases list.front <;> rfl

theorem lastSlot_mem {entries : List (Nat × α)} {slot : Nat}
    (last : lastSlot none entries = some slot) : slot ∈ entries.map (·.1) := by
  rcases List.eq_nil_or_concat entries with empty | ⟨before, entry, rfl⟩
  · simp [empty, lastSlot] at last
  · simp only [List.concat_eq_append, lastSlot_append, lastSlot, Option.some.injEq] at last
    simp [last]

theorem firstSlot_mem {entries : List (Nat × α)} {slot : Nat}
    (first : firstSlot entries none = some slot) : slot ∈ entries.map (·.1) := by
  cases entries with
  | nil => simp at first
  | cons entry rest => simp_all

theorem Segment.linkOlder_absent {nodes : Array (RecencyNode α)} {newer older : Option Nat}
    {entries : List (Nat × α)} (segment : Segment nodes newer entries older)
    {slot : Option Nat} (absent : ∀ found, slot = some found → found ∉ entries.map (·.1))
    (other : Option Nat) : Segment (linkOlder nodes slot other) newer entries older := by
  cases slot with
  | none => exact segment
  | some slot => exact segment.modify_absent (absent slot rfl) _

theorem Segment.linkNewer_absent {nodes : Array (RecencyNode α)} {newer older : Option Nat}
    {entries : List (Nat × α)} (segment : Segment nodes newer entries older)
    {slot : Option Nat} (absent : ∀ found, slot = some found → found ∉ entries.map (·.1))
    (other : Option Nat) : Segment (linkNewer nodes slot other) newer entries older := by
  cases slot with
  | none => exact segment
  | some slot => exact segment.modify_absent (absent slot rfl) _

theorem Segment.linkOlder_last {nodes : Array (RecencyNode α)} {older : Option Nat}
    {entries : List (Nat × α)} (segment : Segment nodes none entries older)
    (distinct : (entries.map (·.1)).Nodup) (other : Option Nat) :
    Segment (linkOlder nodes (lastSlot none entries) other) none entries other := by
  rcases List.eq_nil_or_concat entries with rfl | ⟨before, ⟨slot, item⟩, rfl⟩
  · trivial
  · rw [List.concat_eq_append] at segment distinct ⊢
    simp only [lastSlot_append, lastSlot, linkOlder]
    refine segment.relinkLast ?_ other
    rw [List.map_append, List.map_singleton] at distinct
    exact fun member => List.disjoint_of_nodup_append distinct member (by simp)

theorem Segment.linkNewer_first {nodes : Array (RecencyNode α)} {newer : Option Nat}
    {entries : List (Nat × α)} (segment : Segment nodes newer entries none)
    (distinct : (entries.map (·.1)).Nodup) (other : Option Nat) :
    Segment (linkNewer nodes (firstSlot entries none) other) other entries none := by
  cases entries with
  | nil => trivial
  | cons entry rest => exact segment.relinkFirst (List.nodup_cons.mp distinct).1 other

theorem lastSlot_cons_isNone (newer : Option Nat) (entry : Nat × α) (rest : List (Nat × α)) :
    (lastSlot newer (entry :: rest)).isNone = false := by
  induction rest generalizing newer entry with
  | nil => rfl
  | cons next rest ih => exact ih (some entry.1) next

theorem Chained.once {list : Recency α} {before after : List (Nat × α)} {slot : Nat} {item : α}
    (chained : Chained list (before ++ (slot, item) :: after)) :
    slot ∉ before.map (·.1) ∧ slot ∉ after.map (·.1) := by
  have distinct := chained.distinct
  rw [List.map_append, List.map_cons, List.nodup_middle, List.nodup_cons, List.mem_append,
    not_or] at distinct
  exact distinct.1

theorem mem_slots_middle {before after : List (Nat × α)} {slot : Nat} {item : α} (other : Nat) :
    other ∈ (before ++ (slot, item) :: after).map (·.1) ↔
      other = slot ∨ other ∈ (before ++ after).map (·.1) := by
  simp only [List.map_cons, List.map_append, List.mem_cons, List.mem_append]
  tauto

theorem Chained.unlink {list : Recency α} {before after : List (Nat × α)} {slot : Nat} {item : α}
    (chained : Chained list (before ++ (slot, item) :: after)) :
    Chained (list.unlink slot) (before ++ after) := by
  have found := chained.linked.node
  have ⟨slotBefore, slotAfter⟩ := chained.once
  have distinct := chained.distinct
  rw [List.map_append, List.map_cons, List.nodup_append] at distinct
  obtain ⟨beforeOnce, restOnce, apart⟩ := distinct
  have afterOnce := (List.nodup_cons.mp restOnce).2
  obtain ⟨linkedBefore, _, linkedAfter⟩ := (segment_append _ _ _ _ _).mp chained.linked
  constructor
  · rw [unlink_nodes found, segment_append]
    constructor
    · refine Segment.modify_absent (Segment.linkNewer_absent ?_ ?_ _) slotBefore _
      · exact linkedBefore.linkOlder_last beforeOnce _
      · intro other first member
        exact apart _ member _ (List.mem_cons_of_mem _ (firstSlot_mem first)) rfl
    · have untouched : ∀ other, lastSlot none before = some other → other ∉ after.map (·.1) :=
        fun _ last member =>
          apart _ (lastSlot_mem last) _ (List.mem_cons_of_mem _ member) rfl
      have relinked :=
        (linkedAfter.linkOlder_absent untouched (firstSlot after none)).linkNewer_first
        afterOnce (lastSlot none before)
      exact relinked.modify_absent slotAfter _
  · cases before with
    | nil => simp [Recency.unlink, found, lastSlot]
    | cons entry rest =>
        simp [Recency.unlink, found, lastSlot_cons_isNone, chained.front]
  · cases after with
    | nil => simp [Recency.unlink, found]
    | cons entry rest =>
        simp [Recency.unlink, found, chained.back, lastSlot_append, lastSlot]
  · refine List.Nodup.sublist (List.Sublist.map _ ?_) chained.distinct
    exact List.Sublist.append_left (List.sublist_cons_self _ _) _

theorem Chained.linkFront {list : Recency α} {entries : List (Nat × α)} {slot : Nat}
    {node : RecencyNode α} {item : α} (chained : Chained list entries)
    (absent : slot ∉ entries.map (·.1)) (found : list.nodes[slot]? = some node)
    (holds : node.item = some item) :
    Chained (list.linkFront slot) ((slot, item) :: entries) := by
  constructor
  · rw [linkFront_nodes, chained.front]
    constructor
    · have different : ∀ other, firstSlot entries none = some other → other ≠ slot :=
        fun other first same => absent (same ▸ firstSlot_mem first)
      cases first : firstSlot entries none with
      | none => simp [linkNewer, found, holds, Array.getElem?_modify]
      | some head => simp [linkNewer, found, holds, Array.getElem?_modify, different head first]
    · exact (chained.linked.modify_absent absent _).linkNewer_first chained.distinct _
  · cases front : list.front <;> simp [Recency.linkFront, front]
  · have front := chained.front
    cases entries with
    | nil => simp_all [Recency.linkFront, lastSlot]
    | cons entry rest => simp_all [Recency.linkFront, lastSlot, chained.back]
  · exact List.nodup_cons.mpr ⟨absent, chained.distinct⟩

/-! What the operations on links leave alone -/

@[simp] theorem size_linkOlder (nodes : Array (RecencyNode α)) (slot other : Option Nat) :
    (linkOlder nodes slot other).size = nodes.size := by
  cases slot <;> simp [linkOlder]

@[simp] theorem size_linkNewer (nodes : Array (RecencyNode α)) (slot other : Option Nat) :
    (linkNewer nodes slot other).size = nodes.size := by
  cases slot <;> simp [linkNewer]

theorem item_modify (nodes : Array (RecencyNode α)) (slot other : Nat)
    (change : RecencyNode α → RecencyNode α) (keeps : ∀ node, (change node).item = node.item) :
    ((nodes.modify slot change)[other]?).bind (·.item) = (nodes[other]?).bind (·.item) := by
  rw [Array.getElem?_modify]
  split
  · cases nodes[other]? <;> simp [keeps]
  · rfl

theorem item_linkOlder (nodes : Array (RecencyNode α)) (slot target : Option Nat) (other : Nat) :
    ((linkOlder nodes slot target)[other]?).bind (·.item) = (nodes[other]?).bind (·.item) := by
  cases slot with
  | none => rfl
  | some slot => exact item_modify _ _ _ _ fun _ => rfl

theorem item_linkNewer (nodes : Array (RecencyNode α)) (slot target : Option Nat) (other : Nat) :
    ((linkNewer nodes slot target)[other]?).bind (·.item) = (nodes[other]?).bind (·.item) := by
  cases slot with
  | none => rfl
  | some slot => exact item_modify _ _ _ _ fun _ => rfl

@[simp] theorem get?_unlink (list : Recency α) (slot other : Nat) :
    (list.unlink slot).get? other = list.get? other := by
  cases found : list.nodes[slot]? with
  | none => simp [unlink, found]
  | some node =>
      unfold get?
      rw [unlink_nodes found, item_modify, item_linkNewer, item_linkOlder]
      exact fun _ => rfl

@[simp] theorem get?_linkFront (list : Recency α) (slot other : Nat) :
    (list.linkFront slot).get? other = list.get? other := by
  unfold get?
  rw [linkFront_nodes, item_linkNewer, item_modify]
  exact fun _ => rfl

@[simp] theorem size_unlink (list : Recency α) (slot : Nat) :
    (list.unlink slot).nodes.size = list.nodes.size := by
  cases found : list.nodes[slot]? with
  | none => simp [unlink, found]
  | some node => simp [unlink_nodes found]

@[simp] theorem size_linkFront (list : Recency α) (slot : Nat) :
    (list.linkFront slot).nodes.size = list.nodes.size := by
  simp [linkFront_nodes]

@[simp] theorem free_unlink (list : Recency α) (slot : Nat) :
    (list.unlink slot).free = list.free := by
  unfold unlink
  split <;> rfl

@[simp] theorem length_unlink (list : Recency α) (slot : Nat) :
    (list.unlink slot).length = list.length := by
  unfold unlink
  split <;> rfl

@[simp] theorem free_linkFront (list : Recency α) (slot : Nat) :
    (list.linkFront slot).free = list.free := by
  unfold linkFront
  split <;> rfl

@[simp] theorem length_linkFront (list : Recency α) (slot : Nat) :
    (list.linkFront slot).length = list.length := by
  unfold linkFront
  split <;> rfl

/-! What a list holds -/

theorem Represents.get?_eq {list : Recency α} {before after : List (Nat × α)} {slot : Nat}
    {item : α} (holds : Represents list (before ++ (slot, item) :: after)) :
    list.get? slot = some item := by
  simp [get?, holds.linked.node]

theorem Represents.get?_eq_some {list : Recency α} {entries : List (Nat × α)}
    (holds : Represents list entries) {slot : Nat} {item : α} :
    list.get? slot = some item ↔ (slot, item) ∈ entries := by
  constructor
  · intro found
    have live : slot ∈ entries.map (·.1) := by
      refine Classical.byContradiction fun absent => ?_
      simp [holds.dead slot absent] at found
    obtain ⟨⟨other, kept⟩, member, rfl⟩ := List.mem_map.mp live
    obtain ⟨before, after, split⟩ := List.append_of_mem member
    subst split
    rw [holds.get?_eq] at found
    simp_all
  · intro member
    obtain ⟨before, after, rfl⟩ := List.append_of_mem member
    exact holds.get?_eq

theorem Represents.length_le {list : Recency α} {entries : List (Nat × α)}
    (holds : Represents list entries) : entries.length ≤ list.nodes.size := by
  have within : entries.map (·.1) ⊆ List.range list.nodes.size := by
    intro slot member
    exact List.mem_range.mpr (holds.linked.slot_lt member)
  simpa using (holds.distinct.subperm within).length_le

theorem Represents.entries_eq {list : Recency α} {entries : List (Nat × α)}
    (holds : Represents list entries) : list.entries = entries := by
  rw [Recency.entries, holds.front]
  exact follow_segment holds.linked holds.length_le

/-! The operations -/

theorem empty_represents : Represents (empty : Recency α) [] where
  linked := trivial
  front := rfl
  back := rfl
  distinct := List.nodup_nil
  length := rfl
  dead := fun _ _ => rfl
  free := by simp [empty]
  freeOnce := List.nodup_nil

theorem Represents.absent_of_mem_free {list : Recency α} {entries : List (Nat × α)}
    (holds : Represents list entries) {slot : Nat} (unused : slot ∈ list.free) :
    slot ∉ entries.map (·.1) := ((holds.free slot).mp unused).2

theorem Represents.moveToFront {list : Recency α} {before after : List (Nat × α)} {slot : Nat}
    {item : α} (holds : Represents list (before ++ (slot, item) :: after)) :
    Represents (list.moveToFront slot) ((slot, item) :: (before ++ after)) := by
  have live : list.isLive slot = true := by simp [isLive, holds.get?_eq]
  have slots : ∀ other, other ∈ ((slot, item) :: (before ++ after)).map (·.1) ↔
      other ∈ (before ++ (slot, item) :: after).map (·.1) := by
    intro other
    rw [mem_slots_middle, List.map_cons, List.mem_cons]
  unfold Recency.moveToFront
  by_cases head : list.front = some slot
  · cases before with
    | nil => simpa [head] using holds
    | cons entry rest =>
        have same : entry.1 = slot := by simpa [holds.front] using head
        have distinct := holds.distinct
        simp [same] at distinct
  · simp only [head, live, Bool.true_eq_false, or_self, ↓reduceIte]
    have absent : slot ∉ (before ++ after).map (·.1) := by
      rw [List.map_append, List.mem_append, not_or]
      exact holds.once
    have found : ∃ node, (list.unlink slot).nodes[slot]? = some node ∧ node.item = some item := by
      have item := (get?_unlink list slot slot).trans holds.get?_eq
      simpa [Recency.get?, Option.bind_eq_some_iff] using item
    obtain ⟨node, found, itemOf⟩ := found
    exact {
      toChained := holds.toChained.unlink.linkFront absent found itemOf
      length := by simp [holds.length]; omega
      dead := fun other dead => by
        simpa using holds.dead other fun member => dead ((slots other).mpr member)
      free := fun other => by simp only [free_linkFront, free_unlink, size_linkFront, size_unlink,
        holds.free, slots]
      freeOnce := by simpa using holds.freeOnce }

theorem Chained.linkNew {list : Recency α} {entries : List (Nat × α)} {slot : Nat} {item : α}
    (chained : Chained list entries) (absent : slot ∉ entries.map (·.1))
    (found : list.nodes[slot]? = some ⟨some item, none, none⟩)
    (length : list.length = entries.length)
    (dead : ∀ other, other ≠ slot → other ∉ entries.map (·.1) → list.get? other = none)
    (free : ∀ other, other ∈ list.free ↔
      other < list.nodes.size ∧ other ≠ slot ∧ other ∉ entries.map (·.1))
    (freeOnce : list.free.Nodup) :
    Represents { list.linkFront slot with length := (list.linkFront slot).length + 1 }
      ((slot, item) :: entries) := by
  have linked := chained.linkFront absent found rfl
  exact {
    linked := linked.linked
    front := linked.front
    back := linked.back
    distinct := linked.distinct
    length := by simp [length]
    dead := fun other outside => by
      rw [List.map_cons, List.mem_cons, not_or] at outside
      exact (get?_linkFront list slot other).trans (dead other outside.1 outside.2)
    free := fun other => by simp [free]
    freeOnce := by simpa using freeOnce }

theorem Represents.pushFront {list : Recency α} {entries : List (Nat × α)}
    (holds : Represents list entries) (item : α) :
    (list.pushFront item).1 ∉ entries.map (·.1) ∧
      Represents (list.pushFront item).2 (((list.pushFront item).1, item) :: entries) := by
  cases unused : list.free with
  | nil =>
      have absent : list.nodes.size ∉ entries.map (·.1) := fun member =>
        Nat.lt_irrefl _ (holds.linked.slot_lt member)
      simp only [Recency.pushFront, unused]
      refine ⟨absent, Chained.linkNew ⟨?_, holds.front, holds.back, holds.distinct⟩ absent ?_
        holds.length ?_ ?_ List.nodup_nil⟩
      · refine holds.linked.congr fun slot member => ?_
        have different : slot ≠ list.nodes.size := fun same => absent (same ▸ member)
        simp [Array.getElem?_push, different]
      · simp
      · intro other different outside
        have dead := holds.dead other outside
        simpa [get?, Array.getElem?_push, different] using dead
      · intro other
        have used := holds.free other
        simp only [unused, List.not_mem_nil, false_iff, not_and, Decidable.not_not] at used
        simp only [List.not_mem_nil, Array.size_push, false_iff, not_and, Decidable.not_not]
        exact fun below different => used (by omega)
  | cons slot rest =>
      have member : slot ∈ list.free := by simp [unused]
      have absent := holds.absent_of_mem_free member
      have below := ((holds.free slot).mp member).1
      have once := holds.freeOnce
      rw [unused] at once
      simp only [Recency.pushFront, unused]
      refine ⟨absent, Chained.linkNew ⟨?_, holds.front, holds.back, holds.distinct⟩ absent ?_
        holds.length ?_ ?_ (List.nodup_cons.mp once).2⟩
      · exact holds.linked.modify_absent absent fun _ => ⟨some item, none, none⟩
      · simp [Array.getElem?_modify, Array.getElem?_eq_getElem below]
      · intro other different outside
        have dead := holds.dead other outside
        simpa [get?, Array.getElem?_modify, Ne.symm different] using dead
      · intro other
        have used := holds.free other
        have notAgain := (List.nodup_cons.mp once).1
        simp only [unused, List.mem_cons] at used
        simp only [Array.size_modify]
        constructor
        · intro unusedOther
          have info := used.mp (Or.inr unusedOther)
          exact ⟨info.1, fun same => notAgain (same ▸ unusedOther), info.2⟩
        · rintro ⟨small, different, outside⟩
          exact (used.mpr ⟨small, outside⟩).resolve_left different

theorem Represents.remove {list : Recency α} {before after : List (Nat × α)} {slot : Nat} {item : α}
    (holds : Represents list (before ++ (slot, item) :: after)) :
    (list.remove slot).1 = some item ∧ Represents (list.remove slot).2 (before ++ after) := by
  have chained := holds.toChained.unlink
  have below : slot < list.nodes.size :=
    holds.linked.slot_lt ((mem_slots_middle slot).mpr (Or.inl rfl))
  have absent : slot ∉ (before ++ after).map (·.1) := by
    rw [List.map_append, List.mem_append, not_or]
    exact holds.once
  simp only [Recency.remove, holds.get?_eq, true_and]
  exact {
    linked := chained.linked.modify_absent absent fun node => { node with item := none }
    front := chained.front
    back := chained.back
    distinct := chained.distinct
    length := by simp [holds.length]
    dead := fun other outside => by
      by_cases same : slot = other
      · subst same
        cases found : (list.unlink slot).nodes[slot]? <;>
          simp [get?, Array.getElem?_modify, found]
      · have dead := holds.dead other fun member =>
          outside (((mem_slots_middle other).mp member).resolve_left (Ne.symm same))
        rw [← get?_unlink list slot other] at dead
        simpa [get?, Array.getElem?_modify, same] using dead
    free := fun other => by
      simp only [free_unlink, List.mem_cons, holds.free, mem_slots_middle, Array.size_modify,
        size_unlink, not_or]
      by_cases same : other = slot
      · subst same
        exact ⟨fun _ => ⟨below, absent⟩, fun _ => Or.inl rfl⟩
      · simp [same]
    freeOnce := by
      simp only [free_unlink, List.nodup_cons]
      exact ⟨fun unused => holds.absent_of_mem_free unused
        ((mem_slots_middle slot).mpr (Or.inl rfl)), holds.freeOnce⟩ }

theorem Represents.popBack {list : Recency α} {before : List (Nat × α)} {slot : Nat} {item : α}
    (holds : Represents list (before ++ [(slot, item)])) :
    (list.popBack).1 = some item ∧ Represents (list.popBack).2 before := by
  have back : list.back = some slot := by simp [holds.back, lastSlot_append, lastSlot]
  simp only [Recency.popBack, back]
  simpa using holds.remove

theorem Represents.set {list : Recency α} {before after : List (Nat × α)} {slot : Nat} {item : α}
    (holds : Represents list (before ++ (slot, item) :: after)) (value : α) :
    Represents (list.set slot value) (before ++ (slot, value) :: after) := by
  have live : list.isLive slot = true := by simp [isLive, holds.get?_eq]
  have same : (before ++ (slot, value) :: after).map (·.1) =
      (before ++ (slot, item) :: after).map (·.1) := by simp
  obtain ⟨linkedBefore, found, linkedAfter⟩ := (segment_append _ _ _ _ _).mp holds.linked
  simp only [Recency.set, live, ↓reduceIte]
  exact {
    linked := by
      change Segment (list.nodes.modify slot fun node => { node with item := some value }) none
        (before ++ (slot, value) :: after) none
      rw [segment_append]
      refine ⟨linkedBefore.modify_absent holds.once.1 _, ?_,
        linkedAfter.modify_absent holds.once.2 _⟩
      simp [Array.getElem?_modify, found]
    front := by simpa [firstSlot_append] using holds.front
    back := by simpa [lastSlot_append, lastSlot] using holds.back
    distinct := same ▸ holds.distinct
    length := by simp [holds.length]
    dead := fun other outside => by
      rw [same] at outside
      have different : slot ≠ other := fun equal => outside (by simp [← equal])
      simpa [get?, Array.getElem?_modify, different] using holds.dead other outside
    free := fun other => by
      rw [same]
      simpa using holds.free other
    freeOnce := holds.freeOnce }

end Recency

end CachedStore
