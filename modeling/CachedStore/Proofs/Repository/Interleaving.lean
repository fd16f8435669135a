import Mathlib.Logic.Function.Basic
import CachedStore.Proofs.Repository.Operation

/-!
Operations of one repository that run at the same time, in any order of their steps, and what every
such run keeps.
-/

namespace CachedStore

structure Job (ρ : Type) : Type 1 where
  operation : Operation ρ
  rest : Activity (RepositoryState ρ) (Outcome ρ)
  /-- How many invalidations there had been before its first step. -/
  since : Option Nat
  /-- Whether it changed the rows and has not invalidated since. -/
  owing : Prop

/-- A repository with the operations that were started on it. -/
structure Interleaving (ρ : Type) : Type 1 where
  state : RepositoryState ρ
  jobs : List (Job ρ)
  now : Instant
  count : Nat

inductive Event (ρ : Type) : Type 1 where
  | start (operation : Operation ρ)
  /-- The next step of an operation, or the end of the limit of the number `late`. -/
  | step (position : Nat) (moment : Moment) (late : Nat)

namespace Interleaving

variable {ρ : Type} [Record ρ]

def perform (repository : Repository) (system : Interleaving ρ) : Event ρ → Interleaving ρ
  | .start operation =>
    { system with
      jobs := system.jobs ++ [⟨operation, operation.activity repository, none, False⟩] }
  | .step position moment late =>
    match system.jobs[position]? with
    | none => system
    | some job =>
      let (rest, state) := job.rest.advance moment late system.state
      { state := state
        jobs := system.jobs.set position
          { job with
            rest := rest
            since := some (job.since.getD system.count)
            owing := state.index.epoch = system.state.index.epoch ∧
              (state.store.rows ≠ system.state.store.rows ∨ job.owing) }
        now := moment.instant
        count := system.count + if state.index.epoch = system.state.index.epoch then 0 else 1 }

/-- The clock does not run backwards, and no read takes too long to tell the epochs apart. -/
def Allows (system : Interleaving ρ) : Event ρ → Prop
  | .start _ => True
  | .step position moment _ => system.now ≤ moment.instant ∧
    ∀ job since, system.jobs[position]? = some job → job.since = some since →
      job.operation.Admits since system.count

def Orderly (repository : Repository) : Interleaving ρ → List (Event ρ) → Prop
  | _, [] => True
  | system, event :: rest =>
    system.Allows event ∧ Orderly repository (system.perform repository event) rest

def run (repository : Repository) (system : Interleaving ρ) (events : List (Event ρ)) :
    Interleaving ρ := events.foldl (perform repository) system

/-- The repository as one of its operations sees it, if each owes as told. -/
def view (system : Interleaving ρ) (owns : Nat → Option Debt) (position : Nat) : Snapshot ρ where
  state := system.state
  now := system.now
  count := system.count
  previous := system.count
  others := { debt | ∃ other, other ≠ position ∧ owns other = some debt }
  own := owns position

omit [Record ρ] in
theorem owes_view (system : Interleaving ρ) (owns : Nat → Option Debt) (position : Nat)
    (debt : Debt) : (system.view owns position).Owes debt ↔ ∃ other, owns other = some debt := by
  constructor
  · rintro (⟨other, _, owes⟩ | own)
    · exact ⟨other, owes⟩
    · exact ⟨position, own⟩
  · rintro ⟨other, owes⟩
    by_cases same : other = position
    · exact Or.inr (same ▸ owes)
    · exact Or.inl ⟨other, same, owes⟩

structure JobOrdered (meaning : Meaning ρ) (repository : Repository) (world : World meaning)
    (job : Job ρ) : Prop where
  done : job.rest.isDone = true → world.1.own = none
  owing : world.1.own ≠ none → job.owing
  fresh : job.since = none →
    world.1.own = none ∧ job.rest = job.operation.activity repository
  underway : ∀ since, job.since = some since → since ≤ world.1.count ∧
    (job.rest.isDone = false →
      Activity.Safe (World.rules meaning (job.operation.Admits since)) (fun _ => True) job.rest
        (job.operation.Ends since) world)
  allowed : job.operation.Allowed meaning

structure OrderedBy (meaning : Meaning ρ) (repository : Repository) (system : Interleaving ρ)
    (worlds : Nat → World meaning) : Prop where
  views : ∀ position,
    (worlds position).1 = system.view (fun other => (worlds other).1.own) position
  beyond : ∀ position, system.jobs[position]? = none → (worlds position).1.own = none
  jobs : ∀ position job, system.jobs[position]? = some job →
    JobOrdered meaning repository (worlds position) job

def Ordered (meaning : Meaning ρ) (repository : Repository) (system : Interleaving ρ) : Prop :=
  ∃ worlds, OrderedBy meaning repository system worlds

variable {meaning : Meaning ρ} {repository : Repository} {system : Interleaving ρ}

omit [Record ρ] in
theorem owes_view_update (system : Interleaving ρ) (owns : Nat → Option Debt) (position : Nat)
    (own : Option Debt) (other : Nat) (debt : Debt) :
    (system.view (Function.update owns position own) other).Owes debt ↔
      (∃ another, another ≠ position ∧ owns another = some debt) ∨ own = some debt := by
  rw [owes_view]
  constructor
  · rintro ⟨another, owed⟩
    by_cases same : another = position
    · subst same
      exact Or.inr (by simpa using owed)
    · exact Or.inl ⟨another, same, by simpa [same] using owed⟩
  · rintro (⟨another, different, owed⟩ | owed)
    · exact ⟨another, by simpa [different] using owed⟩
    · exact ⟨position, by simpa using owed⟩

theorem OrderedBy.shows {worlds : Nat → World meaning}
    (ordered : OrderedBy meaning repository system worlds) (position : Nat) :
    (worlds position).1.state = system.state ∧ (worlds position).1.now = system.now ∧
      (worlds position).1.count = system.count := by
  rw [ordered.views position]
  exact ⟨rfl, rfl, rfl⟩

theorem OrderedBy.views_after {worlds : Nat → World meaning}
    (ordered : OrderedBy meaning repository system worlds) {position : Nat} {moment : Moment}
    {after : World meaning} (step : Snapshot.Step meaning (worlds position).1 moment after.1)
    {stepped : Interleaving ρ} (state : stepped.state = after.1.state)
    (now : stepped.now = moment.instant) (count : stepped.count = after.1.count)
    (order : system.now ≤ moment.instant) :
    ∃ fresh : Nat → World meaning,
      (∀ other, (fresh other).1 = stepped.view (fun another => (fresh another).1.own) other) ∧
      (fresh position).1.own = after.1.own ∧
      Snapshot.Later meaning after.1 (fresh position).1 ∧
      ∀ other, other ≠ position → Snapshot.Later meaning (worlds other).1 (fresh other).1 := by
  let owns := Function.update (fun other => (worlds other).1.own) position after.1.own
  -- Only the debt of the job that took the step may be new, so all see the debts that it sees.
  have owes : ∀ other debt, after.1.Owes debt → (stepped.view owns other).Owes debt := by
    intro other debt owed
    rw [owes_view_update]
    rw [Snapshot.Owes, step.others, ordered.views position] at owed
    exact owed
  have sameState : ∀ other, (stepped.view owns other).state = after.1.state := fun _ => state
  have explains : ∀ other key cached, after.1.Explains meaning key cached →
      (stepped.view owns other).Explains meaning key cached := by
    intro other key cached explained
    exact explained.mono (by rw [sameState]) (owes other)
  have consistent : ∀ other, (stepped.view owns other).Consistent meaning := by
    intro other
    exact after.2.congr (sameState other) (now.trans step.now.symm) count (owes other)
  refine ⟨fun other => ⟨stepped.view owns other, consistent other⟩, fun other => rfl, ?_, ?_, ?_⟩
  · simp [owns, view]
  · refine ⟨?_, Nat.le_of_eq count.symm, by simp [owns, view], ?_⟩
    · rw [step.now]
      exact Nat.le_of_eq (congrArg Instant.nanoseconds now.symm)
    · exact fun _ key cached explained => explains position key cached explained
  · intro other different
    obtain ⟨_, nowHere, countHere⟩ := ordered.shows other
    obtain ⟨_, _, countThere⟩ := ordered.shows position
    have counted := step.count
    refine ⟨?_, ?_, by simp [owns, view, different], ?_⟩
    · rw [nowHere]
      change system.now ≤ stepped.now
      exact now.symm ▸ order
    · change (worlds other).1.count ≤ stepped.count
      omega
    · intro same key cached explained
      refine explains other key cached (step.carries ?_ key cached ?_)
      · have shown : (worlds other).1.count = stepped.count := same
        omega
      · rw [ordered.views other] at explained
        rw [ordered.views position]
        exact explained.mono rfl fun debt owed => (owes_view ..).mpr ((owes_view ..).mp owed)

theorem OrderedBy.step {worlds : Nat → World meaning}
    (ordered : OrderedBy meaning repository system worlds) {position : Nat} {job : Job ρ}
    (found : system.jobs[position]? = some job) {moment : Moment}
    (order : system.now ≤ moment.instant) {after : World meaning}
    (step : Snapshot.Step meaning (worlds position).1 moment after.1)
    {stepped : Interleaving ρ} {moved : Job ρ} (state : stepped.state = after.1.state)
    (now : stepped.now = moment.instant) (count : stepped.count = after.1.count)
    (jobs : stepped.jobs = system.jobs.set position moved)
    (stands : ∀ world : World meaning, world.1.own = after.1.own →
      Snapshot.Later meaning after.1 world.1 → JobOrdered meaning repository world moved) :
    Ordered meaning repository stepped := by
  obtain ⟨fresh, views, own, here, others⟩ := ordered.views_after step state now count order
  have inside : position < system.jobs.length := (List.getElem?_eq_some_iff.mp found).1
  refine ⟨fresh, views, ?_, ?_⟩
  · intro other outside
    rw [jobs, List.getElem?_set] at outside
    by_cases same : position = other
    · simp [same ▸ inside, same] at outside
    · rw [if_neg same] at outside
      exact (others other (Ne.symm same)).own.symm.trans (ordered.beyond other outside)
  · intro other another belongs
    rw [jobs, List.getElem?_set] at belongs
    by_cases same : position = other
    · subst same
      obtain rfl : moved = another := by simpa [inside] using belongs
      exact stands (fresh position) own here
    · rw [if_neg same] at belongs
      have stood := ordered.jobs other another belongs
      have later := others other (Ne.symm same)
      refine ⟨?_, ?_, ?_, ?_, stood.allowed⟩
      · exact fun finished => later.own.symm.trans (stood.done finished)
      · exact fun owes => stood.owing fun free => owes (later.own.symm.trans free)
      · intro unstarted
        obtain ⟨free, whole⟩ := stood.fresh unstarted
        exact ⟨later.own.symm.trans free, whole⟩
      · intro since started
        obtain ⟨before, safe⟩ := stood.underway since started
        exact ⟨Nat.le_trans before later.count, fun still => (safe still).later still later⟩

theorem OrderedBy.advance [LawfulRecord ρ] (lawful : meaning.Lawful)
    (tracking : repository.invalidation = .byIdentity) {worlds : Nat → World meaning}
    (ordered : OrderedBy meaning repository system worlds) {position : Nat} {job : Job ρ}
    (found : system.jobs[position]? = some job) (still : job.rest.isDone = false)
    {moment : Moment} {late : Nat} (allows : system.Allows (.step position moment late)) :
    ∃ after : World meaning, Snapshot.Step meaning (worlds position).1 moment after.1 ∧
      after.1.state = (job.rest.advance moment late system.state).2 ∧
      Activity.Safe
        (World.rules meaning (job.operation.Admits (job.since.getD system.count)))
        (fun _ => True) (job.rest.advance moment late system.state).1
        (job.operation.Ends (job.since.getD system.count)) after := by
  have stood := ordered.jobs position job found
  obtain ⟨state, now, count⟩ := ordered.shows position
  have order : (worlds position).1.now ≤ moment.instant := now ▸ allows.1
  cases started : job.since with
  | none =>
      obtain ⟨free, whole⟩ := stood.fresh started
      have starts := job.operation.starts lawful tracking stood.allowed (whole ▸ still)
      obtain ⟨after, step, reached, safe⟩ := starts (worlds position) moment late free order
      rw [← whole, state] at reached safe
      rw [count] at safe
      exact ⟨after, step, reached, safe⟩
  | some since =>
      obtain ⟨_, safe⟩ := stood.underway since started
      have admitted : job.operation.Admits since (worlds position).1.count :=
        count ▸ allows.2 job since found started
      obtain ⟨after, step, reached, rest⟩ := (safe still).advance still
        (Snapshot.Later.refl (worlds position).1) ⟨order, admitted⟩ late fun _ => trivial
      have reached : after.1.state =
          (job.rest.advance moment late (worlds position).1.state).2 := reached
      have rest : Activity.Safe (World.rules meaning (job.operation.Admits since)) (fun _ => True)
          (job.rest.advance moment late (worlds position).1.state).1
          (job.operation.Ends since) after := rest
      rw [state] at reached rest
      exact ⟨after, step, reached, rest⟩

theorem perform_step {position : Nat} {job : Job ρ} {moment : Moment} {late : Nat}
    (found : system.jobs[position]? = some job) :
    system.perform repository (.step position moment late) =
      { state := (job.rest.advance moment late system.state).2
        jobs := system.jobs.set position
          { job with
            rest := (job.rest.advance moment late system.state).1
            since := some (job.since.getD system.count)
            owing :=
              (job.rest.advance moment late system.state).2.index.epoch =
                system.state.index.epoch ∧
              ((job.rest.advance moment late system.state).2.store.rows ≠
                system.state.store.rows ∨ job.owing) }
        now := moment.instant
        count := system.count +
          if (job.rest.advance moment late system.state).2.index.epoch =
            system.state.index.epoch then 0 else 1 } := by
  simp only [perform, found]

theorem JobOrdered.since_le {world : World meaning} {job : Job ρ}
    (stands : JobOrdered meaning repository world job) :
    job.since.getD world.1.count ≤ world.1.count := by
  cases started : job.since with
  | none => exact Nat.le_refl _
  | some since => exact (stands.underway since started).1

theorem OrderedBy.start {worlds : Nat → World meaning}
    (ordered : OrderedBy meaning repository system worlds) {operation : Operation ρ}
    (allowed : operation.Allowed meaning) :
    Ordered meaning repository (system.perform repository (.start operation)) := by
  refine ⟨worlds, ordered.views, ?_, ?_⟩
  · intro position outside
    refine ordered.beyond position ?_
    simp only [perform, List.getElem?_eq_none_iff, List.length_append] at outside ⊢
    omega
  · intro position job belongs
    have belongs : (system.jobs ++
      [⟨operation, operation.activity repository, none, False⟩])[position]? = some job := belongs
    rw [List.getElem?_append] at belongs
    split at belongs
    · exact ordered.jobs position job belongs
    · rename_i outside
      have free := ordered.beyond position (List.getElem?_eq_none_iff.mpr (by omega))
      obtain rfl := List.mem_singleton.mp (List.mem_of_getElem? belongs)
      exact ⟨fun _ => free, fun owes => absurd free owes, fun _ => ⟨free, rfl⟩,
        fun since impossible => by simp at impossible, allowed⟩

theorem OrderedBy.stay {worlds : Nat → World meaning}
    (ordered : OrderedBy meaning repository system worlds) {position : Nat} {job : Job ρ}
    (found : system.jobs[position]? = some job) (finished : job.rest.isDone = true)
    {moment : Moment} {late : Nat} (allows : system.Allows (.step position moment late)) :
    Ordered meaning repository (system.perform repository (.step position moment late)) := by
  have stood := ordered.jobs position job found
  obtain ⟨state, now, count⟩ := ordered.shows position
  have since := count ▸ stood.since_le
  obtain ⟨result, same⟩ := Activity.eq_done finished
  have stays : job.rest.advance moment late system.state = (job.rest, system.state) := by
    rw [same]
    rfl
  obtain ⟨after, step, later, reached⟩ := (worlds position).idle_step (now ▸ allows.1)
  have own := later.own.symm.trans (stood.done finished)
  rw [perform_step found]
  refine ordered.step found allows.1 step (by rw [stays, reached, state]) rfl ?_ rfl ?_
  · rw [step.count, stays, count, reached, state]
  · intro world same later
    have free := same.trans own
    refine ⟨fun _ => free, fun owes => absurd free owes, fun impossible => by
      simp at impossible, fun first started => ?_, stood.allowed⟩
    obtain rfl := Option.some.inj started
    refine ⟨?_, fun still => by simp [stays, finished] at still⟩
    have counted := step.count
    have onward := later.count
    omega

theorem OrderedBy.goOn [LawfulRecord ρ] (lawful : meaning.Lawful)
    (tracking : repository.invalidation = .byIdentity) {worlds : Nat → World meaning}
    (ordered : OrderedBy meaning repository system worlds) {position : Nat} {job : Job ρ}
    (found : system.jobs[position]? = some job) (still : job.rest.isDone = false)
    {moment : Moment} {late : Nat} (allows : system.Allows (.step position moment late)) :
    Ordered meaning repository (system.perform repository (.step position moment late)) := by
  have stood := ordered.jobs position job found
  obtain ⟨state, now, count⟩ := ordered.shows position
  have since := count ▸ stood.since_le
  obtain ⟨after, step, reached, safe⟩ := ordered.advance lawful tracking found still allows
  rw [perform_step found]
  refine ordered.step found allows.1 step reached.symm rfl ?_ rfl ?_
  · rw [step.count, count, reached, state]
  · intro world same later
    refine ⟨fun ended => ?_, fun owes => ?_, fun impossible => by simp at impossible,
      fun first started => ?_, stood.allowed⟩
    · obtain ⟨outcome, last⟩ := Activity.eq_done ended
      have last : (job.rest.advance moment late system.state).1 = .done outcome := last
      rw [last] at safe
      have ends : job.operation.Ends (job.since.getD system.count) outcome after := safe
      exact same.trans ends.free
    · obtain ⟨epoch, changed⟩ := step.owing (same ▸ owes)
      rw [reached, state] at epoch changed
      exact ⟨epoch, changed.imp id stood.owing⟩
    · obtain rfl := Option.some.inj started
      refine ⟨?_, fun goesOn => safe.later goesOn later⟩
      have counted := step.count
      have onward := later.count
      omega

theorem perform_ordered [LawfulRecord ρ] (lawful : meaning.Lawful)
    (tracking : repository.invalidation = .byIdentity)
    (ordered : Ordered meaning repository system) {event : Event ρ}
    (allows : system.Allows event)
    (allowed : ∀ operation, event = .start operation → operation.Allowed meaning) :
    Ordered meaning repository (system.perform repository event) := by
  obtain ⟨worlds, ordered⟩ := ordered
  cases event with
  | start operation => exact ordered.start (allowed operation rfl)
  | step position moment late =>
      cases found : system.jobs[position]? with
      | none =>
          have unchanged : system.perform repository (.step position moment late) = system := by
            simp only [perform, found]
          exact unchanged.symm ▸ ⟨worlds, ordered⟩
      | some job =>
          cases still : job.rest.isDone with
          | true => exact ordered.stay found still allows
          | false => exact ordered.goOn lawful tracking found still allows

/-! Runs -/

def fresh (state : RepositoryState ρ) (now : Instant) : Interleaving ρ := ⟨state, [], now, 0⟩

theorem fresh_ordered {capacity : UInt64} {shards : Option UInt64} {cache : ReadCache (Cached ρ)}
    {store : MemoryStore ρ} {state : RepositoryState ρ}
    (created : ReadCache.create capacity shards = .ok cache)
    (built : repository.build (some cache) store = .ok state) (sound : meaning.Sound store.rows)
    (now : Instant) : Ordered meaning repository (fresh state now) := by
  have consistent : ∀ position,
      ((fresh state now).view (fun _ => none) position).Consistent meaning :=
    fun position => .of_built created built sound rfl
  refine ⟨fun position => ⟨_, consistent position⟩, ⟨fun _ => rfl, fun _ _ => rfl, ?_⟩⟩
  intro position job found
  simp [fresh] at found

theorem run_append (system : Interleaving ρ) (first second : List (Event ρ)) :
    system.run repository (first ++ second) =
      (system.run repository first).run repository second := List.foldl_append

theorem orderly_append {first second : List (Event ρ)} :
    Orderly repository system (first ++ second) ↔
      Orderly repository system first ∧
        Orderly repository (system.run repository first) second := by
  induction first generalizing system with
  | nil => simp [Orderly, run]
  | cons event rest ih =>
      rw [List.cons_append, Orderly, Orderly, ih, and_assoc]
      rfl

/-- Whatever the order of the steps, every job stands well. -/
theorem run_ordered [LawfulRecord ρ] (lawful : meaning.Lawful)
    (tracking : repository.invalidation = .byIdentity) {events : List (Event ρ)}
    (ordered : Ordered meaning repository system) (orderly : Orderly repository system events)
    (allowed : ∀ operation, .start operation ∈ events → operation.Allowed meaning) :
    Ordered meaning repository (system.run repository events) := by
  induction events generalizing system with
  | nil => exact ordered
  | cons event rest ih =>
      refine ih ?_ orderly.2 fun operation member => allowed operation (.tail _ member)
      refine perform_ordered lawful tracking ordered orderly.1 ?_
      exact fun operation same => allowed operation (same ▸ .head _)

theorem count_perform (repository : Repository) (system : Interleaving ρ) (event : Event ρ) :
    system.count ≤ (system.perform repository event).count ∧
      (system.perform repository event).count ≤ system.count + 1 := by
  cases event with
  | start operation => exact ⟨Nat.le_refl _, Nat.le_succ _⟩
  | step position moment late =>
      cases found : system.jobs[position]? with
      | none => simp [perform, found]
      | some job =>
          rw [perform_step found]
          split <;> simp

theorem now_perform (repository : Repository) {system : Interleaving ρ} {event : Event ρ}
    {bound : Instant} (before : system.now ≤ bound)
    (bounded : ∀ position moment late,
      event = .step position moment late → moment.instant ≤ bound) :
    (system.perform repository event).now ≤ bound := by
  cases event with
  | start operation => exact before
  | step position moment late =>
      cases found : system.jobs[position]? with
      | none => simpa only [perform, found] using before
      | some job =>
          rw [perform_step found]
          exact bounded position moment late rfl

theorem count_run (repository : Repository) (system : Interleaving ρ) (events : List (Event ρ)) :
    system.count ≤ (system.run repository events).count := by
  induction events generalizing system with
  | nil => exact Nat.le_refl _
  | cons event rest ih =>
      exact Nat.le_trans (count_perform repository system event).1 (ih _)

def instants (events : List (Event ρ)) : List Instant :=
  events.filterMap fun
    | .start _ => none
    | .step _ moment _ => some moment.instant

theorem orderly_of_instants (repository : Repository) {system : Interleaving ρ}
    {events : List (Event ρ)} (clock : (system.now :: instants events).Pairwise (· ≤ ·))
    (few : system.count + events.length ≤ 2 ^ 64) : Orderly repository system events := by
  induction events generalizing system with
  | nil => trivial
  | cons event rest ih =>
      have counted := (count_perform repository system event).2
      rw [List.length_cons] at few
      obtain ⟨first, others⟩ := List.pairwise_cons.mp clock
      cases event with
      | start operation => exact ⟨trivial, ih clock (by omega)⟩
      | step position moment late =>
          have order : system.now ≤ moment.instant := first _ (List.mem_cons_self ..)
          refine ⟨⟨order, fun job since _ _ _ => by omega⟩, ih ?_ (by omega)⟩
          refine List.pairwise_cons.mpr ⟨fun later member => ?_, (List.pairwise_cons.mp others).2⟩
          refine now_perform repository (Instant.le_trans order ?_) fun _ _ _ same => ?_
          · exact (List.pairwise_cons.mp others).1 later member
          · cases same
            exact (List.pairwise_cons.mp others).1 later member

theorem since_perform (repository : Repository) {position since : Nat} {job : Job ρ}
    (found : system.jobs[position]? = some job) (started : job.since = some since)
    (event : Event ρ) :
    ∃ later, (system.perform repository event).jobs[position]? = some later ∧
      later.since = some since := by
  cases event with
  | start operation =>
      refine ⟨job, ?_, started⟩
      exact List.getElem?_append_left (List.getElem?_eq_some_iff.mp found).1 ▸ found
  | step other moment late =>
      cases present : system.jobs[other]? with
      | none => exact ⟨job, by simpa [perform, present] using found, started⟩
      | some moved =>
          rw [perform_step present]
          by_cases same : other = position
          · subst same
            obtain rfl : moved = job := Option.some.inj (present.symm.trans found)
            have inside := (List.getElem?_eq_some_iff.mp found).1
            exact ⟨_, List.getElem?_set_self inside, by simp [started]⟩
          · exact ⟨job, by simp [same, found], started⟩

theorem since_run (repository : Repository) {position since : Nat} {job : Job ρ}
    (found : system.jobs[position]? = some job) (started : job.since = some since)
    (events : List (Event ρ)) :
    ∃ later, (system.run repository events).jobs[position]? = some later ∧
      later.since = some since := by
  induction events generalizing system job with
  | nil => exact ⟨job, found, started⟩
  | cons event rest ih =>
      obtain ⟨next, present, same⟩ := since_perform repository found started event
      exact ih present same

theorem Ordered.sound (ordered : Ordered meaning repository system) :
    system.state.cache.Sound := by
  obtain ⟨worlds, ordered⟩ := ordered
  have sound := (worlds 0).2.cache
  rw [ordered.views 0] at sound
  exact sound

theorem Ordered.since_le (ordered : Ordered meaning repository system) {position since : Nat}
    {job : Job ρ} (found : system.jobs[position]? = some job)
    (started : job.since = some since) : since ≤ system.count := by
  obtain ⟨worlds, ordered⟩ := ordered
  have before := ((ordered.jobs position job found).underway since started).1
  rw [ordered.views position] at before
  exact before

structure Finishes (system : Interleaving ρ) (position : Nat) (moment : Moment) (late : Nat)
    (job : Job ρ) (outcome : Outcome ρ) : Prop where
  found : system.jobs[position]? = some job
  underway : job.rest.isDone = false
  last : (job.rest.advance moment late system.state).1 = .done outcome

/-- Right after its last step an operation leaves things as it says. -/
theorem Ordered.finish [LawfulRecord ρ] (lawful : meaning.Lawful)
    (tracking : repository.invalidation = .byIdentity)
    (ordered : Ordered meaning repository system) {position : Nat} {moment : Moment} {late : Nat}
    {job : Job ρ} {outcome : Outcome ρ} (allows : system.Allows (.step position moment late))
    (finishes : system.Finishes position moment late job outcome) :
    ∃ after : World meaning,
      after.1.state = (system.perform repository (.step position moment late)).state ∧
      after.1.now = moment.instant ∧ after.1.previous = system.count ∧
      after.1.count = (system.perform repository (.step position moment late)).count ∧
      job.operation.Ends (job.since.getD system.count) outcome after := by
  obtain ⟨worlds, ordered⟩ := ordered
  obtain ⟨after, step, state, safe⟩ :=
    ordered.advance lawful tracking finishes.found finishes.underway allows
  have shown := ordered.views position
  have before : (worlds position).1.state = system.state := by rw [shown]; rfl
  have count : (worlds position).1.count = system.count := by rw [shown]; rfl
  rw [finishes.last] at safe
  rw [perform_step finishes.found]
  refine ⟨after, state, step.now, step.previous.trans count, ?_, safe⟩
  rw [step.count, count, before, state]

end Interleaving

end CachedStore
