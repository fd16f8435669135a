import CachedStore.Proofs.Activity.Undisturbed
import CachedStore.Proofs.Repository.Operation
import CachedStore.Proofs.Repository.StoreUse

/-!
Operations of a repository one after the other, while the clock goes on. However slow or faulty the
store is, between two of them nothing is owed to the cache.
-/

namespace CachedStore

namespace MemoryStore

variable {ρ α : Type} {kept : Rows → Prop}

theorem keeps_call_rows (call : StoreCall) {operation : Rows → Except Failure (α × Rows)}
    (keeps : ∀ rows answer changed, kept rows → operation rows = .ok (answer, changed) →
      kept changed) :
    (MemoryStore.call call operation).Keeps fun store : MemoryStore ρ => kept store.rows := by
  have performs : ∀ store : MemoryStore ρ, kept store.rows →
      kept (store.perform operation).2.rows := by
    intro store holds
    rcases store.perform_cases operation with ⟨failure, after, performed, rows⟩ |
      ⟨answer, changed, given, performed⟩
    · rw [performed]
      exact rows.symm ▸ holds
    · rw [performed]
      exact keeps _ answer changed holds given
  refine ⟨fun _ _ holds => holds, fun latency => ?_⟩
  cases latency with
  | none => exact ⟨fun _ => performs, fun _ => trivial⟩
  | some latency => exact ⟨fun _ => performs, fun _ => trivial⟩

theorem keeps_readCall_rows (call : StoreCall) (read : Rows → Except Failure α) :
    (readCall call read).Keeps fun store : MemoryStore ρ => kept store.rows := by
  refine keeps_call_rows call fun rows answer changed holds given => ?_
  cases found : read rows with
  | error failure => simp [found, Except.map] at given
  | ok value =>
      obtain ⟨_, rfl⟩ : value = answer ∧ rows = changed := by simpa [found, Except.map] using given
      exact holds

theorem keeps_readCall (call : StoreCall) (read : Rows → Except Failure α) (rows : Rows) :
    (readCall call read).Keeps fun store : MemoryStore ρ => store.rows = rows :=
  @keeps_readCall_rows ρ α (· = rows) call read

end MemoryStore

namespace KeyIndex

theorem epoch_remember (index : KeyIndex) (epoch : UInt64) (key : Key) (id : Option RecordId) :
    (index.remember epoch key id).2.epoch = index.epoch := by
  unfold remember
  split
  · rfl
  · cases id <;> rfl

end KeyIndex

namespace Repository

open Snapshot World

variable {ρ : Type} [Record ρ] {meaning : Meaning ρ} {α δ : Type} {repository : Repository}
  {clock : Nat → Moment} {step : Nat} {state : RepositoryState ρ}

theorem epoch_keep (repository : Repository) (key : Key) (cached : Cached ρ) (lifetime : Duration)
    (epoch : UInt64) (moment : Moment) (state : RepositoryState ρ) :
    (repository.keep key cached lifetime epoch moment state).2.index.epoch =
      state.index.epoch := by
  cases tracking : repository.invalidation with
  | disabled => simp only [keep, tracking]
  | byIdentity =>
      have same := state.index.epoch_remember epoch key cached.recordId?
      simp only [keep, tracking, remember]
      generalize state.index.remember epoch key cached.recordId? = outcome at same ⊢
      obtain ⟨_ | _, index⟩ := outcome
      · exact same
      · exact (KeyIndex.epoch_pruneOver index _ _).trans same

theorem keeps_epoch_fetch (shape : Shape ρ δ) (key : Key) (lifetime : Duration)
    (load : Activity (MemoryStore ρ) (Except Failure δ)) (epoch : UInt64) :
    (repository.fetch shape key lifetime (onStore load)).Keeps
      fun state => state.index.epoch = epoch :=
  keeps_fetch (fun _ _ same => same) (.of_onPart load fun _ _ _ same => same)
    fun cached since moment state same =>
      (epoch_keep repository key cached lifetime since moment state).trans same

/-! Alone from a repository at rest to the next -/

/-- No operation but the one that runs owes anything. -/
def Alone (clock : Nat → Moment) (step : Nat) (world : World meaning) : Prop :=
  world.1.now ≤ (clock step).instant ∧ world.1.others = ∅

section Runs

variable (order : ∀ step, (clock step).instant ≤ (clock (step + 1)).instant)

include order

theorem Alone.goes {world after : World meaning} (here : Alone clock step world)
    (took : Step meaning world.1 (clock step) after.1) : Alone clock (step + 1) after :=
  ⟨took.now ▸ order step, took.others.trans here.2⟩

theorem course_alone : Activity.Course (rules meaning fun _ => True) clock (fun _ => True)
    (Alone clock) where
  admits here := ⟨here.1, trivial⟩
  holds _ := trivial
  limits := trivial
  goes here took _ := here.goes order took

theorem course_unchanged (epoch : UInt64) (since : Nat) :
    Activity.Course (rules meaning fun count => count < since + 2 ^ 64) clock
      (fun state => state.index.epoch = epoch)
      (fun step world => Alone clock step world ∧ world.1.state.index.epoch = epoch ∧
        world.1.count = since) where
  admits := fun ⟨here, _, count⟩ => ⟨here.1, by rw [count]; omega⟩
  holds := fun ⟨_, same, _⟩ => same
  limits := trivial
  goes := fun {_ world after} ⟨here, same, count⟩ took still => by
    have still : after.1.state.index.epoch = epoch := still
    have counted := took.count
    rw [still, same, if_pos rfl] at counted
    exact ⟨here.goes order took, still, counted.trans count⟩

end Runs

def Settles (meaning : Meaning ρ) (activity : Activity (RepositoryState ρ) α) : Prop :=
  ∀ (clock : Nat → Moment) (step : Nat) (state : RepositoryState ρ),
    (∀ step, (clock step).instant ≤ (clock (step + 1)).instant) →
    AtRest meaning (clock step).instant state →
    AtRest meaning (clock (activity.runOn clock step state).2.2).instant
      (activity.runOn clock step state).2.1

theorem settles_done (result : α) : Settles meaning (.done result) :=
  fun _ _ _ _ rest => rest

theorem Settles.bind {β : Type} {activity : Activity (RepositoryState ρ) α}
    {next : α → Activity (RepositoryState ρ) β} (settles : Settles meaning activity)
    (goesOn : ∀ result, Settles meaning (next result)) : Settles meaning (activity.bind next) := by
  intro clock step state order rest
  rw [Activity.runOn_bind]
  exact goesOn _ clock _ _ order (settles clock step state order rest)

theorem settles_of_safe {activity : Activity (RepositoryState ρ) α}
    (safe : ∀ world : World meaning, world.1.own = none →
      Activity.Safe (rules meaning fun _ => True) (fun _ => True) activity
        (fun _ after => after.1.own = none) world) :
    Settles meaning activity := by
  intro clock step state order rest
  obtain ⟨world, rfl, before, free, alone⟩ := rest
  obtain ⟨after, there, reached, ended⟩ := (safe world free).runOn (course_alone order)
    (.of_forall (fun _ => trivial) activity) ⟨before, alone⟩ rfl
  exact ⟨after, reached, there.1, ended, there.2⟩

theorem settles_of_starts {β : Type}
    {effect : Moment → RepositoryState ρ → β × RepositoryState ρ}
    {next : β → Activity (RepositoryState ρ) α} {post : Nat → α → World meaning → Prop}
    (starts : Starts meaning (fun since count => count < since + 2 ^ 64) (.act effect next) post)
    (ends : ∀ since result after, post since result after → after.1.own = none)
    (keeps : ∀ epoch, (Activity.act effect next).Keeps fun state => state.index.epoch = epoch) :
    Settles meaning (.act effect next) := by
  intro clock step state order rest
  obtain ⟨world, rfl, before, free, alone⟩ := rest
  obtain ⟨middle, took, reached, safe⟩ := starts world (clock step) 0 free before
  have reached : middle.1.state = (effect (clock step) world.1.state).2 := reached
  have still : middle.1.state.index.epoch = world.1.state.index.epoch := by
    rw [reached]
    exact (keeps _).1 (clock step) world.1.state rfl
  have counted := took.count
  rw [still, if_pos rfl] at counted
  have goesOn : (next (effect (clock step) world.1.state).1).runOn clock (step + 1)
      middle.1.state = (Activity.act effect next).runOn clock step world.1.state := by
    rw [reached]
    rfl
  obtain ⟨after, ⟨there, _⟩, arrived, ended⟩ := safe.runOn
    (course_unchanged order world.1.state.index.epoch world.1.count)
    ((keeps _).2 _) ⟨Alone.goes order ⟨before, alone⟩ took, still, counted⟩
    (goesOn.trans Prod.mk.eta.symm)
  exact ⟨after, arrived, there.1, ends _ _ _ ended, there.2⟩

theorem settles_fetch (tracking : repository.invalidation = .byIdentity) {shape : Shape ρ δ}
    {key : Key} {lifetime : Duration} {load : Activity (MemoryStore ρ) (Except Failure δ)}
    (loads : Loads meaning key shape.wrap (onStore load)) :
    Settles meaning (repository.fetch shape key lifetime (onStore load)) :=
  settles_of_starts (fetch_starts tracking shape key lifetime loads) (fun _ _ _ ended => ended.1)
    (keeps_epoch_fetch shape key lifetime load)

theorem settles_cachedRead (tracking : repository.invalidation = .byIdentity) {shape : Shape ρ δ}
    {key : Key} {load : Activity (MemoryStore ρ) (Except Failure δ)}
    (loads : Loads meaning key shape.wrap (onStore load)) :
    Settles meaning (repository.cachedRead shape key load) := by
  unfold cachedRead
  split
  · exact (settles_fetch tracking loads).bind fun _ => settles_done _
  · exact settles_done _

theorem settles_operation [LawfulRecord ρ] (lawful : meaning.Lawful)
    (tracking : repository.invalidation = .byIdentity) {operation : Operation ρ}
    (allowed : operation.Allowed meaning) : Settles meaning (operation.activity repository) := by
  have unread : ∀ operation : Operation ρ, operation.readKey? = none →
      Settles meaning (operation.activity repository) := by
    intro operation reads
    refine settles_of_safe fun world free => ?_
    exact (operation.safe lawful tracking reads free).mono (fun _ holds => holds)
      fun _ _ ended => ended.free
  cases operation with
  | fetchOne key lifetime load =>
      refine Settles.bind (settles_fetch tracking ?_) fun _ => settles_done _
      exact allowed
  | fetchMany key lifetime load =>
      refine Settles.bind (settles_fetch tracking ?_) fun _ => settles_done _
      exact allowed
  | readByKey key id =>
      refine Settles.bind (settles_cachedRead tracking ?_) fun _ => settles_done _
      exact allowed
  | findOne key filter =>
      refine Settles.bind (settles_cachedRead tracking ?_) fun _ => settles_done _
      exact allowed
  | find key query =>
      refine Settles.bind (settles_cachedRead tracking ?_) fun _ => settles_done _
      exact allowed
  | _ => exact unread _ rfl

theorem leaving_safe {admits : Nat → Prop} {cut : World meaning → Prop}
    {post : α → World meaning → Prop} {world : World meaning} {call : Activity (MemoryStore ρ) α}
    (keeps : ∀ rows, call.Keeps fun store => store.rows = rows)
    (cuts : ∀ now : World meaning, Later meaning world.1 now.1 → cut now)
    (posts : ∀ (result : α) (now : World meaning), Later meaning world.1 now.1 →
      post result now) :
    Activity.Safe (rules meaning admits) cut (onStore call) post world := by
  have sound : call.Keeps fun store => meaning.Sound store.rows := .of_part keeps
  have fits : ∀ key cached, call.Keeps fun store => meaning.Fits store.rows key cached := by
    intro key cached
    have any : ∀ holds : Rows → Prop, call.Keeps fun store => holds store.rows :=
      fun _ => .of_part keeps
    exact any fun rows => meaning.Fits rows key cached
  exact onStore_safe call sound fits cuts posts

theorem settles_uncached (operation : String) (call : StoreCall) (read : Rows → Except Failure α) :
    Settles meaning (repository.uncached operation (MemoryStore.readCall call read)) := by
  unfold uncached
  split
  · refine settles_of_safe fun world free => ?_
    refine deadline_safe operation (fun now reached => ⟨trivial, reached.own.symm.trans free⟩) ?_
    intro now reached
    have own := reached.own.symm.trans free
    exact leaving_safe (MemoryStore.keeps_readCall call read)
      (fun last onward => ⟨trivial, onward.own.symm.trans own⟩)
      fun _ last onward => onward.own.symm.trans own
  · exact settles_done _

end Repository

/-! Histories -/

/-- What may happen to a repository: operations, and a fault that awaits the store's next call. -/
inductive Deed (ρ : Type) : Type 1 where
  | operate (operation : Operation ρ)
  | findMatches (filter : Filter)
  | findByKeyWithFields (id : RecordId) (columns : List String)
  | existsLike (record : ρ)
  | failNext (failure : Failure)

namespace Deed

open Repository

variable {ρ : Type} [Record ρ] {meaning : Meaning ρ} {repository : Repository}

def activity (repository : Repository) : Deed ρ → Activity (RepositoryState ρ) Unit
  | operate operation => (operation.activity repository).bind fun _ => .done ()
  | findMatches filter =>
    (repository.findMatches filter : Activity (RepositoryState ρ) _).bind fun _ => .done ()
  | findByKeyWithFields id columns =>
    (repository.findByKeyWithFields id columns : Activity (RepositoryState ρ) _).bind fun _ =>
      .done ()
  | existsLike record => (repository.existsLike record).bind fun _ => .done ()
  | failNext failure => onStore (.step fun _ store => ((), store.failNext failure))

def Allowed (meaning : Meaning ρ) : Deed ρ → Prop
  | operate operation => operation.Allowed meaning
  | _ => True

theorem settles [LawfulRecord ρ] (lawful : meaning.Lawful)
    (tracking : repository.invalidation = .byIdentity) {deed : Deed ρ}
    (allowed : deed.Allowed meaning) : Settles meaning (deed.activity repository) := by
  cases deed with
  | operate operation =>
      exact (settles_operation lawful tracking allowed).bind fun _ => settles_done _
  | findMatches filter => exact (settles_uncached _ _ _).bind fun _ => settles_done _
  | findByKeyWithFields id columns =>
      refine Settles.bind ((settles_uncached _ _ _).bind fun found => ?_) fun _ => settles_done _
      rcases found with failure | ⟨_ | ⟨record, rest⟩⟩
      · exact settles_done _
      · exact settles_done _
      · exact settles_done _
  | existsLike record =>
      refine Settles.bind ((settles_uncached _ _ _).bind fun found => ?_) fun _ => settles_done _
      cases found with
      | error failure => exact settles_done _
      | ok found => exact settles_done _
  | failNext failure =>
      refine settles_of_safe fun world free => leaving_safe ?_ (fun _ _ => trivial) ?_
      · exact fun rows => ⟨fun _ _ same => same, fun _ => trivial⟩
      · exact fun _ now reached => reached.own.symm.trans free

end Deed

namespace Repository

variable {ρ : Type} [Record ρ] {meaning : Meaning ρ} {repository : Repository}

/-- One deed after the other. The number of the next moment comes with the state that they leave. -/
def runDeeds (repository : Repository) (clock : Nat → Moment) :
    List (Deed ρ) → Nat → RepositoryState ρ → RepositoryState ρ × Nat
  | [], step, state => (state, step)
  | deed :: rest, step, state =>
    let (_, state, step) := (deed.activity repository).runOn clock step state
    repository.runDeeds clock rest step state

/-- Whatever was done to a repository, it is at rest again. -/
theorem AtRest.runDeeds [LawfulRecord ρ] (lawful : meaning.Lawful)
    (tracking : repository.invalidation = .byIdentity) {clock : Nat → Moment}
    (order : ∀ step, (clock step).instant ≤ (clock (step + 1)).instant) {deeds : List (Deed ρ)}
    (allowed : ∀ deed ∈ deeds, deed.Allowed meaning) {step : Nat} {state : RepositoryState ρ}
    (rest : AtRest meaning (clock step).instant state) :
    AtRest meaning (clock (repository.runDeeds clock deeds step state).2).instant
      (repository.runDeeds clock deeds step state).1 := by
  induction deeds generalizing step state with
  | nil => exact rest
  | cons deed others ih =>
      have settles := deed.settles lawful tracking (allowed deed List.mem_cons_self)
      exact ih (fun other member => allowed other (.tail _ member))
        (settles clock step state order rest)

end Repository

end CachedStore
