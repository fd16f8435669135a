import CachedStore.Proofs.Activity.Pool
import CachedStore.Proofs.Record.Lawful
import CachedStore.Proofs.Repository.Alone

/-!
Operations that share the rows of a store which does not fail, each of them in reach of its
deadline. Caches do not matter here: what an operation does to the others shows in the rows.
-/

namespace CachedStore

/-- How those at several positions share rows, by what is seen of them. -/
structure Sharing (V : Type) where
  rows : V → Rows
  admits : Moment → Prop
  moves : Nat → V → Moment → V → Prop
  stays : ∀ position view moment, moves position view moment view

namespace Sharing

structure Seen {V : Type} (sharing : Sharing V) (ρ : Type) where
  state : RepositoryState ρ
  view : V
  calm : state.store.faults = []
  shows : sharing.rows view = state.store.rows

variable {V ρ α β δ : Type} (sharing : Sharing V)

def protocol (ρ : Type) : Protocol (RepositoryState ρ) (sharing.Seen ρ) where
  state := Seen.state
  admits := sharing.admits
  step position before moment after := sharing.moves position before.view moment after.view
  idle position world moment := sharing.stays position world.view moment

def Later (position : Nat) : V → V → Prop :=
  Relation.ReflTransGen fun before after => ∃ other moment, other ≠ position ∧
    sharing.admits moment ∧ sharing.moves other before moment after

def Safe (position : Nat) (cut : V → Prop) (activity : Activity (RepositoryState ρ) α)
    (post : α → V → Prop) (view : V) : Prop :=
  ∀ world : sharing.Seen ρ, world.view = view →
    Activity.Safe ((sharing.protocol ρ).rules position) (fun world => cut world.view) activity
      (fun result after => post result after.view) world

variable {sharing} {position : Nat} {cut : V → Prop} {view : V}

theorem later_view {before after : sharing.Seen ρ}
    (later : ((sharing.protocol ρ).rules position).later before after) :
    sharing.Later position before.view after.view := by
  have later : Relation.ReflTransGen ((sharing.protocol ρ).Other position) before after := later
  exact later.lift Seen.view fun _ _ other => other

theorem later_of_view {before after : sharing.Seen ρ} {moment : Moment}
    (admitted : sharing.admits moment) (same : after.view = before.view) :
    ((sharing.protocol ρ).rules position).later before after := by
  refine .single ⟨position + 1, moment, Nat.succ_ne_self position, admitted, ?_⟩
  change sharing.moves (position + 1) before.view moment after.view
  rw [same]
  exact sharing.stays _ _ _

theorem safe_done {result : α} {post : α → V → Prop} (holds : post result view) :
    sharing.Safe position cut (.done result : Activity (RepositoryState ρ) α) post view := by
  rintro world rfl
  exact holds

theorem Safe.mono {activity : Activity (RepositoryState ρ) α} {post wider : α → V → Prop}
    {weaker : V → Prop} (safe : sharing.Safe position cut activity post view)
    (cuts : ∀ left, cut left → weaker left)
    (posts : ∀ result met, post result met → wider result met) :
    sharing.Safe position weaker activity wider view :=
  fun world same => (safe world same).mono (fun _ => cuts _) fun _ _ => posts _ _

theorem Safe.bind {activity : Activity (RepositoryState ρ) α}
    {next : α → Activity (RepositoryState ρ) β} {post : β → V → Prop}
    (safe : sharing.Safe position cut activity
      (fun result met => sharing.Safe position cut (next result) post met) view) :
    sharing.Safe position cut (activity.bind next) post view := by
  intro world same
  exact Activity.Safe.bind ((safe world same).mono (fun _ holds => holds)
    fun result met goesOn => goesOn met rfl)

theorem safe_act {effect : Moment → RepositoryState ρ → β × RepositoryState ρ}
    {next : β → Activity (RepositoryState ρ) α} {post : α → V → Prop}
    (cuts : ∀ now, sharing.Later position view now → cut now)
    (store : ∀ moment state, (effect moment state).2.store = state.store)
    (goesOn : ∀ moment state now, sharing.admits moment → sharing.Later position view now →
      sharing.Safe position cut (next (effect moment state).1) post now) :
    sharing.Safe position cut (.act effect next) post view := by
  rintro world rfl now reached
  have later := later_view reached
  refine ⟨cuts _ later, fun moment admitted => ?_⟩
  let after : sharing.Seen ρ := ⟨(effect moment now.state).2, now.view,
    by rw [store]; exact now.calm, by rw [store]; exact now.shows⟩
  refine ⟨after, sharing.stays position now.view moment, rfl, ?_⟩
  exact goesOn moment now.state now.view admitted later after rfl

section Calls

variable {post : Except Failure α → V → Prop}

theorem safe_call (call : StoreCall) {operation : Rows → Except Failure (α × Rows)}
    (cuts : ∀ now, sharing.Later position view now → cut now)
    (performs : ∀ now moment, sharing.Later position view now → sharing.admits moment →
      ∃ after, sharing.moves position now moment after ∧
        sharing.rows after =
          ((operation (sharing.rows now)).toOption.map (·.2)).getD (sharing.rows now) ∧
        post ((operation (sharing.rows now)).map (·.1)) after) :
    sharing.Safe position cut
      (Repository.onStore (MemoryStore.call call operation) : Activity (RepositoryState ρ) _)
      post view := by
  rintro world rfl
  refine Repository.call_safe_of call operation (fun now reached => cuts _ (later_view reached))
    ?_ ?_
  · intro now moment _ admitted
    let after : sharing.Seen ρ := ⟨{ now.state with store := now.state.store.begin call },
      now.view, now.calm, now.shows⟩
    exact ⟨after, sharing.stays position now.view moment, later_of_view admitted rfl, rfl⟩
  · intro now moment reached admitted
    obtain ⟨view, moved, rows, holds⟩ := performs now.view moment (later_view reached) admitted
    rw [now.shows] at rows holds
    change ∃ after : sharing.Seen ρ, sharing.moves position now.view moment after.view ∧
      after.state = { now.state with store := (now.state.store.perform operation).2 } ∧
      post (now.state.store.perform operation).1 after.view
    cases given : operation now.state.store.rows with
    | error failure =>
        rw [MemoryStore.perform_error now.calm given]
        rw [given] at rows holds
        exact ⟨⟨now.state, view, now.calm, rows⟩, moved, rfl, holds⟩
    | ok result =>
        rw [MemoryStore.perform_ok now.calm given]
        rw [given] at rows holds
        let store : MemoryStore ρ := { now.state.store with rows := result.2 }
        exact ⟨⟨{ now.state with store := store }, view, now.calm, rows⟩, moved, rfl, holds⟩

theorem safe_readCall (call : StoreCall) {read : Rows → Except Failure α}
    (cuts : ∀ now, sharing.Later position view now → cut now)
    (answers : ∀ now moment, sharing.Later position view now → sharing.admits moment →
      ∃ after, sharing.moves position now moment after ∧ sharing.rows after = sharing.rows now ∧
        post (read (sharing.rows now)) after) :
    sharing.Safe position cut
      (Repository.onStore (MemoryStore.readCall call read) : Activity (RepositoryState ρ) _)
      post view := by
  refine safe_call call cuts fun now moment reached admitted => ?_
  obtain ⟨after, moved, rows, answered⟩ := answers now moment reached admitted
  refine ⟨after, moved, ?_, ?_⟩
  · rw [rows]
    cases read (sharing.rows now) <;> rfl
  · change post (((read (sharing.rows now)).map fun answer => (answer, sharing.rows now)).map
      (·.1)) after
    generalize read (sharing.rows now) = outcome at answered ⊢
    cases outcome with
    | error failure => exact answered
    | ok value => exact answered

theorem safe_writeCall {post : Except Failure Unit → V → Prop} (call : StoreCall)
    {change : Rows → Except Failure Rows}
    (cuts : ∀ now, sharing.Later position view now → cut now)
    (fails : ∀ now failure, sharing.Later position view now →
      change (sharing.rows now) = .error failure → post (.error failure) now)
    (changes : ∀ now moment rows, sharing.Later position view now → sharing.admits moment →
      change (sharing.rows now) = .ok rows →
      ∃ after, sharing.moves position now moment after ∧ sharing.rows after = rows ∧
        post (.ok ()) after) :
    sharing.Safe position cut
      (Repository.onStore (MemoryStore.writeCall call change) : Activity (RepositoryState ρ) _)
      post view := by
  refine safe_call call cuts fun now moment reached admitted => ?_
  cases given : change (sharing.rows now) with
  | error failure =>
      exact ⟨now, sharing.stays position now moment, rfl, fails now failure reached given⟩
  | ok rows => exact changes now moment rows reached admitted given

theorem safe_deadline [Record ρ] {repository : Repository} (operation : String)
    {call : Activity (RepositoryState ρ) (Except Failure α)}
    (cuts : ∀ now, sharing.Later position view now → cut now)
    (inner : ∀ now, sharing.Later position view now →
      sharing.Safe position cut call post now) :
    sharing.Safe position cut (repository.deadline operation call) post view := by
  rintro world rfl
  refine Repository.deadline_safe_of operation (fun now reached => cuts _ (later_view reached)) ?_
  intro now reached
  exact (inner now.view (later_view reached) now rfl).mono (fun left holds => ⟨holds, False.elim⟩)
    fun _ _ holds => holds

end Calls

/-! Operations -/

section Operations

variable [Record ρ] {repository : Repository}

theorem safe_uncached (stored : repository.hasStore = true) (operation : String) (call : StoreCall)
    {read : Rows → Except Failure α} {post : Except Failure α → V → Prop}
    (cuts : ∀ now, sharing.Later position view now → cut now)
    (answers : ∀ now moment, sharing.Later position view now → sharing.admits moment →
      ∃ after, sharing.moves position now moment after ∧ sharing.rows after = sharing.rows now ∧
        post (read (sharing.rows now)) after) :
    sharing.Safe position cut
      (repository.uncached operation (MemoryStore.readCall call read) :
        Activity (RepositoryState ρ) _) post view := by
  rw [Repository.uncached, if_pos stored]
  refine safe_deadline operation cuts fun now reached => ?_
  exact safe_readCall call (fun last onward => cuts last (reached.trans onward))
    fun last moment onward => answers last moment (reached.trans onward)

theorem safe_write {post : Written ρ → V → Prop} (operation : String) (id : Option RecordId)
    (record : ρ) (call : StoreCall) {change : Rows → Except Failure Rows}
    (cuts : ∀ now, sharing.Later position view now → cut now)
    (fails : ∀ now failure, sharing.Later position view now →
      change (sharing.rows now) = .error failure → post ⟨.error failure, record⟩ now)
    (changes : ∀ now moment rows, sharing.Later position view now → sharing.admits moment →
      change (sharing.rows now) = .ok rows →
      ∃ after, sharing.moves position now moment after ∧ sharing.rows after = rows ∧
        ∀ last, sharing.Later position after last → cut last ∧ post ⟨.ok (), record⟩ last) :
    sharing.Safe position cut
      (repository.write operation .strict id record (MemoryStore.writeCall call change))
      post view := by
  refine Safe.bind (safe_deadline operation cuts fun now reached => ?_)
  refine safe_writeCall call (fun last onward => cuts last (reached.trans onward)) ?_ ?_
  · intro last failure onward failed
    exact safe_done (fails last failure (reached.trans onward) failed)
  · intro last moment rows onward admitted changed
    obtain ⟨after, moved, shows, goesOn⟩ :=
      changes last moment rows (reached.trans onward) admitted changed
    refine ⟨after, moved, shows, ?_⟩
    refine safe_act (fun final more => (goesOn final more).1)
      (fun moment state => Repository.store_invalidateRecord repository id moment state) ?_
    exact fun _ _ final _ more => safe_done (goesOn final more).2

end Operations

theorem stands_enter {position : Nat} (early : Nat → V → Prop) (cut : Nat → β → V → Prop)
    (post : Nat → β → α → V → Prop) {rest : Activity (RepositoryState ρ) β}
    {next : β → Activity (RepositoryState ρ) α} {world : sharing.Seen ρ}
    (safe : sharing.Safe position (early position) rest
      (fun given met =>
        sharing.Safe position (cut position given) (next given) (post position given) met)
      world.view) :
    (Staged.enter next rest).Stands (sharing.protocol ρ)
      (fun position world => early position world.view)
      (fun position given world => cut position given world.view)
      (fun position given result world => post position given result world.view) position world :=
  Staged.stands_enter ((safe world rfl).mono (fun _ holds => holds)
    fun _ met goesOn => goesOn met rfl)

end Sharing

/-! How many steps the operations take -/

namespace Repository

variable {ρ α : Type}

theorem ends_call (call : StoreCall) (operation : Rows → Except Failure (α × Rows)) :
    (onStore (MemoryStore.call call operation) :
      Activity (RepositoryState ρ) (Except Failure α)).EndsWithin 3 := by
  refine Activity.EndsWithin.onPart ⟨2, by omega, fun latency => ?_⟩
  cases latency with
  | none => exact ⟨0, by omega, fun _ => trivial⟩
  | some span => exact ⟨1, by omega, 0, by omega, fun _ => trivial⟩

variable [Record ρ] {repository : Repository}

theorem ends_deadline (operation : String) {call : Activity (RepositoryState ρ) (Except Failure α)}
    {steps : Nat} (ends : call.EndsWithin steps) (positive : 0 < steps) :
    (repository.deadline operation call).EndsWithin steps :=
  ⟨steps, 0, positive, Nat.le_refl _, ends, fun _ => trivial⟩

theorem ends_uncached (stored : repository.hasStore = true) (operation : String)
    (call : StoreCall) (read : Rows → Except Failure α) :
    (repository.uncached operation (MemoryStore.readCall call read) :
      Activity (RepositoryState ρ) (Except Failure α)).EndsWithin 3 := by
  rw [uncached, if_pos stored]
  exact ends_deadline operation (ends_call call _) (by omega)

omit [Record ρ] in
theorem ends_finishWrite (policy : DuplicatePolicy) (id : Option RecordId) (record : ρ)
    (outcome : Except Failure Unit) :
    (repository.finishWrite policy id record outcome).EndsWithin 1 := by
  unfold finishWrite
  cases settle policy outcome with
  | error failure => trivial
  | ok done => exact ⟨0, by omega, fun _ => trivial⟩

theorem ends_write (operation : String) (policy : DuplicatePolicy) (id : Option RecordId)
    (record : ρ) (call : StoreCall) (change : Rows → Except Failure Rows) :
    (repository.write operation policy id record
      (MemoryStore.writeCall call change)).EndsWithin 4 :=
  (ends_deadline operation (ends_call call _) (by omega)).bind fun _ => ends_finishWrite ..

end Repository

end CachedStore
