import Mathlib.Data.Set.Insert
import CachedStore.Proofs.Activity.Interference
import CachedStore.Proofs.Cache.Contents
import CachedStore.Proofs.Repository.Tracking
import CachedStore.Repository.Writes

/-!
A repository at one instant, as one of the operations under way sees it, and what every step keeps:
each live cached read is tracked under the identity that it holds now, and either is what the store
would answer or is one that a write is yet to drop.
-/

namespace CachedStore

/-- What a write is yet to drop: the cached reads of a record and of all lists, or every one. -/
inductive Debt where
  | record (id : Option RecordId)
  | all

def Debt.Affects {ρ : Type} [Record ρ] (debt : Debt) (cached : Cached ρ) : Prop :=
  match debt with
  | record id => cached.recordId? = none ∨ cached.recordId? = id
  | all => True

/-- What rows may be stored, and which cached reads agree with them. -/
structure Meaning (ρ : Type) where
  Sound : Rows → Prop
  Fits : Rows → Key → Cached ρ → Prop

namespace Meaning

variable {ρ : Type} [Record ρ]

/-- A change of the rows leaves a debt for the cached reads that do not agree with it. -/
def Permits (meaning : Meaning ρ) (rows changed : Rows) (debt : Debt) : Prop :=
  meaning.Sound changed ∧ ∀ key cached, meaning.Fits rows key cached →
    meaning.Fits changed key cached ∨ debt.Affects cached

/-- Every write to the rows keeps them sound, and the debt of its record is enough for it. -/
structure Lawful (meaning : Meaning ρ) : Prop where
  empty : meaning.Sound .empty
  create : ∀ {rows changed moment id} {record stamped : ρ}, meaning.Sound rows →
    Repository.stampNew record moment = .ok (id, stamped) → rows.create stamped = .ok changed →
    meaning.Permits rows changed (.record (some id))
  update : ∀ {rows changed} {record : ρ}, meaning.Sound rows → rows.update record = .ok changed →
    meaning.Permits rows changed (.record (Record.id? record))
  delete : ∀ {rows changed} {record : ρ}, meaning.Sound rows → rows.delete record = .ok changed →
    meaning.Permits rows changed (.record (Record.id? record))

end Meaning

structure Snapshot (ρ : Type) where
  state : RepositoryState ρ
  now : Instant
  count : Nat
  /-- How many there had been before the last step of the operation. -/
  previous : Nat
  /-- What the other operations are yet to drop. -/
  others : Set Debt
  own : Option Debt

namespace Snapshot

variable {ρ : Type} [Record ρ]

def Owes (snapshot : Snapshot ρ) (debt : Debt) : Prop :=
  debt ∈ snapshot.others ∨ snapshot.own = some debt

/-- A cached read agrees with the store, or some operation is yet to drop it. -/
def Explains (meaning : Meaning ρ) (snapshot : Snapshot ρ) (key : Key) (cached : Cached ρ) : Prop :=
  meaning.Fits snapshot.state.store.rows key cached ∨
    ∃ debt, snapshot.Owes debt ∧ debt.Affects cached

structure Consistent (meaning : Meaning ρ) (snapshot : Snapshot ρ) : Prop where
  cache : snapshot.state.cache.Sound
  tracked : ∀ key cached, snapshot.state.cache.live? snapshot.now key = some cached →
    snapshot.state.index.Tracks key cached.recordId?
  epoch : snapshot.state.index.epoch = UInt64.ofNat snapshot.count
  rows : meaning.Sound snapshot.state.store.rows
  explained : ∀ key cached, snapshot.state.cache.live? snapshot.now key = some cached →
    snapshot.Explains meaning key cached

def Carries (meaning : Meaning ρ) (before after : Snapshot ρ) : Prop :=
  before.count = after.count → ∀ key cached,
    before.Explains meaning key cached → after.Explains meaning key cached

structure Later (meaning : Meaning ρ) (before after : Snapshot ρ) : Prop where
  now : before.now ≤ after.now
  count : before.count ≤ after.count
  own : before.own = after.own
  carries : Carries meaning before after

/--
What one step of an operation may do. It may leave cached reads to drop only after a change of the
rows, and only until it invalidates.
-/
structure Step (meaning : Meaning ρ) (before : Snapshot ρ) (moment : Moment)
    (after : Snapshot ρ) : Prop where
  now : after.now = moment.instant
  others : after.others = before.others
  previous : after.previous = before.count
  count : after.count =
    before.count + if after.state.index.epoch = before.state.index.epoch then 0 else 1
  owing : after.own ≠ none → after.state.index.epoch = before.state.index.epoch ∧
    (after.state.store.rows ≠ before.state.store.rows ∨ before.own ≠ none)
  carries : Carries meaning before after

variable {meaning : Meaning ρ} {before after : Snapshot ρ}

theorem Explains.mono {key : Key} {cached : Cached ρ}
    (explained : before.Explains meaning key cached)
    (rows : after.state.store.rows = before.state.store.rows)
    (owes : ∀ debt, before.Owes debt → after.Owes debt) : after.Explains meaning key cached := by
  rcases explained with fits | ⟨debt, owed, affects⟩
  · exact Or.inl (rows.symm ▸ fits)
  · exact Or.inr ⟨debt, owes debt owed, affects⟩

theorem Consistent.congr (consistent : before.Consistent meaning)
    (state : after.state = before.state) (now : after.now = before.now)
    (count : after.count = before.count) (owes : ∀ debt, before.Owes debt → after.Owes debt) :
    after.Consistent meaning := by
  refine ⟨?_, ?_, ?_, ?_, ?_⟩
  · exact state.symm ▸ consistent.cache
  · rw [state, now]
    exact consistent.tracked
  · rw [state, count]
    exact consistent.epoch
  · exact state.symm ▸ consistent.rows
  · rw [state, now]
    intro key cached alive
    have rows : after.state.store.rows = before.state.store.rows := by rw [state]
    exact (consistent.explained key cached alive).mono rows owes

end Snapshot

abbrev World {ρ : Type} [Record ρ] (meaning : Meaning ρ) : Type :=
  { snapshot : Snapshot ρ // snapshot.Consistent meaning }

/-- A repository by an instant, with no operation on it under way. -/
def Repository.AtRest {ρ : Type} [Record ρ] (meaning : Meaning ρ) (present : Instant)
    (state : RepositoryState ρ) : Prop :=
  ∃ world : World meaning, world.1.state = state ∧ world.1.now ≤ present ∧
    world.1.own = none ∧ world.1.others = ∅

/-! Time -/

theorem Repository.AtRest.mono {ρ : Type} [Record ρ] {meaning : Meaning ρ}
    {present later : Instant} {state : RepositoryState ρ} (rest : AtRest meaning present state)
    (order : present ≤ later) : AtRest meaning later state := by
  obtain ⟨world, reached, before, free, alone⟩ := rest
  exact ⟨world, reached, Instant.le_trans before order, free, alone⟩

theorem ReadCache.live?_earlier {α : Type} {cache : ReadCache α} {now after : Instant} {key : Key}
    {value : α} (order : now ≤ after) (live : cache.live? after key = some value) :
    cache.live? now key = some value := by
  unfold ReadCache.live? at live ⊢
  obtain ⟨entry, stored, alive⟩ := Option.bind_eq_some_iff.mp live
  exact Option.bind_eq_some_iff.mpr ⟨entry, stored, Entry.live?_earlier order alive⟩

end CachedStore
