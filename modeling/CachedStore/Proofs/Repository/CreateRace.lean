import CachedStore.Proofs.Repository.Sharing
import CachedStore.Proofs.Store.FaithfulRows

/-!
Callers that race to create the record of one name unless there is one. The store takes the first
that comes: whoever looks the name up later is given that record, but a caller who had looked before
and found nothing has its own create refused.
-/

namespace CachedStore

/-- Who holds a name: nobody, a record that was there before, or one that a caller stored. -/
inductive Tenure (ρ : Type) where
  | vacant
  | old (record : ρ)
  | new (caller : Nat) (record : ρ)

def Tenure.record? {ρ : Type} : Tenure ρ → Option ρ
  | vacant => none
  | old record => some record
  | new _ record => some record

structure Race (ρ : Type) where
  rows : Rows
  tenure : Tenure ρ

namespace Race

variable {ρ : Type} [Record ρ] [FaithfulRecord ρ] {before : Rows} {name : String} {callers : Nat}

/-- Who holds the name has its row, which is live. As long as nobody does, nothing changes. -/
structure Tenable (before : Rows) (name : String) (callers : Nat) (race : Race ρ) : Prop where
  named : race.rows.Named
  faithful : race.rows.Faithful ρ
  vacant : race.tenure = .vacant → race.rows = before ∧
    ∀ (id : RecordId) (row : Row), before[id]? = some row → row.get "name" ≠ .string name
  held : ∀ record, race.tenure.record? = some record → NamedRecord.name record = name ∧
    Record.isDeleted record = false ∧ ∃ id, race.rows.Holds id record
  caller : ∀ caller record, race.tenure = .new caller record → caller < callers

def sharing (ρ : Type) [Record ρ] [FaithfulRecord ρ] (before : Rows) (name : String)
    (callers : Nat) : Sharing { race : Race ρ // race.Tenable before name callers } where
  rows race := race.1.rows
  admits moment := moment.time.IsValid ∧ moment.freshId.isEmpty = false ∧
    before[moment.freshId]? = none
  moves position race _ after := after.1.tenure = race.1.tenure ∨
    race.1.tenure = .vacant ∧ ∃ record, after.1.tenure = .new position record
  stays _ _ _ := Or.inl rfl

variable {position : Nat} {race after : { race : Race ρ // race.Tenable before name callers }}

theorem tenure_later (later : (sharing ρ before name callers).Later position race after) :
    after.1.tenure = race.1.tenure ∨
      race.1.tenure = .vacant ∧ ∃ other record, other ≠ position ∧
        after.1.tenure = .new other record := by
  induction later with
  | refl => exact Or.inl rfl
  | @tail middle last _ other ih =>
      obtain ⟨other, moment, different, _, moved⟩ := other
      have moved : last.1.tenure = middle.1.tenure ∨
        middle.1.tenure = .vacant ∧ ∃ record, last.1.tenure = .new other record := moved
      rcases moved with same | ⟨free, record, taken⟩
      · rw [same]
        exact ih
      · rcases ih with same | ⟨_, another, record, _, held⟩
        · exact Or.inr ⟨same.symm.trans free, other, record, different, taken⟩
        · rw [held] at free
          cases free

/-! What the name gives -/

theorem Tenable.findOne_held {race : Race ρ} (tenable : race.Tenable before name callers)
    {record stored : ρ} (same : NamedRecord.name record = name)
    (held : race.tenure.record? = some stored) :
    race.rows.findOne Record.blank (Record.naturalKey record) = .ok stored := by
  obtain ⟨own, live, id, holds⟩ := tenable.held stored held
  have found := holds.findOne_name tenable.named
  rw [live, own] at found
  rw [NamedRecord.naturalKey_eq, same]
  exact found

theorem Tenable.findOne_vacant {race : Race ρ} (tenable : race.Tenable before name callers)
    {record : ρ} (same : NamedRecord.name record = name) (free : race.tenure = .vacant) :
    ∃ failure, race.rows.findOne (Record.blank : ρ) (Record.naturalKey record) =
      .error failure ∧ failure.isNotFound = true := by
  obtain ⟨rows, unnamed⟩ := tenable.vacant free
  refine ⟨Record.noMatch ρ (.equals "name" (.string name)), ?_, rfl⟩
  rw [NamedRecord.naturalKey_eq, same]
  exact tenable.named.findOne_unnamed _ fun id row stored => unnamed id row (rows ▸ stored)

theorem Tenable.create {race : Race ρ} (tenable : race.Tenable before name callers) {stamped : ρ}
    {id : RecordId} (same : NamedRecord.name stamped = name)
    (required : Rows.requireId stamped = .ok id) (new : before[id]? = none)
    (live : Record.isDeleted stamped = false)
    (valid : (FaithfulRecord.metadata stamped).IsValid) (inside : position < callers) :
    (race.tenure = .vacant ∧ ∃ rows, race.rows.create stamped = .ok rows ∧
      Tenable before name callers ⟨rows, .new position stamped⟩) ∨
    (race.tenure ≠ .vacant ∧ ∃ failure, race.rows.create stamped = .error failure ∧
      failure.isDuplicate = true) := by
  obtain ⟨row, shown⟩ := FaithfulRecord.toRow_ok stamped
  rcases Rows.create_cases required shown with ⟨missing, free, created⟩ | refused
  · -- Whoever holds the name has another row, which would have taken it.
    have vacant : race.tenure = .vacant := by
      by_contra occupied
      obtain ⟨stored, held⟩ : ∃ stored, race.tenure.record? = some stored := by
        cases tenure : race.tenure with
        | vacant => exact absurd tenure occupied
        | old stored => exact ⟨stored, rfl⟩
        | new caller stored => exact ⟨stored, rfl⟩
      obtain ⟨own, _, other, holds⟩ := tenable.held stored held
      obtain ⟨another, present, written⟩ := holds.stored
      have different : other ≠ id := by
        rintro rfl
        rw [missing] at present
        cases present
      have rejected := Rows.rejected_of_not_taken free
        (by rw [NamedRecord.naturalKey_eq]; rfl) present different
      rw [NamedRecord.naturalKey_eq, same] at rejected
      have accepted := (tenable.named.accepts_name_iff present).mpr
        (own ▸ NamedRecord.toRow_name written)
      rw [rejected] at accepted
      cases accepted
    obtain ⟨holds, faithful⟩ :=
      tenable.faithful.create valid created (Rows.id?_of_requireId required)
    refine Or.inl ⟨vacant, _, created, tenable.named.create created, faithful, ?_, ?_, ?_⟩
    · exact fun impossible => by cases impossible
    · intro record held
      obtain rfl := Option.some.inj held
      exact ⟨same, live, id, holds⟩
    · intro caller record taken
      obtain ⟨rfl, _⟩ := Tenure.new.inj taken
      exact inside
  · obtain ⟨failure, fails, duplicate, taken⟩ := refused
    refine Or.inr ⟨fun vacant => ?_, failure, fails, duplicate⟩
    obtain ⟨rows, unnamed⟩ := tenable.vacant vacant
    have taken := taken (rows ▸ new)
    obtain ⟨_, other, another, _, present, accepted⟩ := Rows.keyIsTaken_iff.mp taken
    rw [NamedRecord.naturalKey_eq, same] at accepted
    exact unnamed other another (rows ▸ present)
      ((tenable.named.accepts_name_iff present).mp accepted)

/-! The steps of a caller -/

def Unclaimed (position : Nat) (race : Race ρ) : Prop :=
  ∀ record, race.tenure ≠ .new position record

def Found (position : Nat) (given : Except Failure ρ) (race : Race ρ) : Prop :=
  race.Unclaimed position ∧
    match given with
    | .ok existing => race.tenure.record? = some existing
    | .error failure => failure.isNotFound = true ∧ ∀ record, race.tenure ≠ .old record

def Decided (position : Nat) (given : Except Failure ρ) (written : Written ρ) (race : Race ρ) :
    Prop :=
  match given with
  | .ok existing =>
    written = ⟨.ok (), existing⟩ ∧ race.tenure.record? = some existing ∧ race.Unclaimed position
  | .error _ => (written.outcome = .ok () ∧ race.tenure = .new position written.record) ∨
    ∃ failure other record, written.outcome = .error failure ∧ failure.isDuplicate = true ∧
      other ≠ position ∧ race.tenure = .new other record

theorem Unclaimed.later (unclaimed : race.1.Unclaimed position)
    (later : (sharing ρ before name callers).Later position race after) :
    after.1.Unclaimed position := by
  intro record taken
  rcases tenure_later later with same | ⟨_, other, another, different, held⟩
  · exact unclaimed record (same.symm.trans taken)
  · exact different (Tenure.new.inj (held.symm.trans taken)).1

theorem record?_later {record : ρ} (held : race.1.tenure.record? = some record)
    (later : (sharing ρ before name callers).Later position race after) :
    after.1.tenure.record? = some record := by
  rcases tenure_later later with same | ⟨free, _⟩
  · rw [same]
    exact held
  · rw [free] at held
    cases held

theorem new_later {caller : Nat} {record : ρ} (held : race.1.tenure = .new caller record)
    (later : (sharing ρ before name callers).Later position race after) :
    after.1.tenure = .new caller record := by
  rcases tenure_later later with same | ⟨free, _⟩
  · exact same.trans held
  · rw [free] at held
    cases held

theorem old_later (recent : ∀ record, race.1.tenure ≠ .old record)
    (later : (sharing ρ before name callers).Later position race after) (record : ρ) :
    after.1.tenure ≠ .old record := by
  intro old
  rcases tenure_later later with same | ⟨_, other, another, _, held⟩
  · exact recent record (same.symm.trans old)
  · rw [held] at old
    cases old

theorem Decided.later {given : Except Failure ρ} {written : Written ρ}
    (ends : race.1.Decided position given written)
    (later : (sharing ρ before name callers).Later position race after) :
    after.1.Decided position given written := by
  cases given with
  | ok existing =>
      obtain ⟨same, held, unclaimed⟩ := ends
      exact ⟨same, record?_later held later, unclaimed.later later⟩
  | error failure =>
      rcases ends with ⟨succeeded, held⟩ | ⟨failure, other, record, failed, duplicate, different,
        held⟩
      · exact Or.inl ⟨succeeded, new_later held later⟩
      · exact Or.inr ⟨failure, other, record, failed, duplicate, different, new_later held later⟩

omit [Record ρ] [FaithfulRecord ρ] in
theorem Decided.outcome {position : Nat} {given : Except Failure ρ} {written : Written ρ}
    {race : Race ρ} (ends : race.Decided position given written) :
    ∃ record, race.tenure.record? = some record ∧
      ((written.outcome = .ok () ∧ written.record = record) ∨
        ∃ failure, written.outcome = .error failure ∧ failure.isDuplicate = true) := by
  cases given with
  | ok existing =>
      obtain ⟨rfl, held, _⟩ := ends
      exact ⟨existing, held, Or.inl ⟨rfl, rfl⟩⟩
  | error failure =>
      rcases ends with ⟨succeeded, held⟩ | ⟨failure, other, record, failed, duplicate, _, held⟩
      · exact ⟨written.record, congrArg Tenure.record? held, Or.inl ⟨succeeded, rfl⟩⟩
      · exact ⟨record, congrArg Tenure.record? held, Or.inr ⟨failure, failed, duplicate⟩⟩

section Steps

variable {repository : Repository} {record : ρ}

theorem safe_lookup (stored : repository.hasStore = true)
    (same : NamedRecord.name record = name) (unclaimed : race.1.Unclaimed position) :
    (sharing ρ before name callers).Safe position (fun _ => True)
      (repository.uncached "create_if_not"
        (MemoryStore.findOne (Record.blank : ρ) (Record.naturalKey record)))
      (fun given met => met.1.Found position given) race := by
  refine Sharing.safe_uncached stored "create_if_not" .findOne (fun _ _ => trivial) ?_
  intro now moment later _
  refine ⟨now, Or.inl rfl, rfl, unclaimed.later later, ?_⟩
  change match now.1.rows.findOne (Record.blank : ρ) (Record.naturalKey record) with
    | .ok existing => now.1.tenure.record? = some existing
    | .error failure => failure.isNotFound = true ∧ ∀ record, now.1.tenure ≠ .old record
  cases held : now.1.tenure with
  | vacant =>
      obtain ⟨failure, failed, missing⟩ := now.2.findOne_vacant same held
      rw [failed]
      exact ⟨missing, fun _ impossible => by cases impossible⟩
  | old existing =>
      rw [now.2.findOne_held same (congrArg Tenure.record? held)]
      rfl
  | new caller existing =>
      rw [now.2.findOne_held same (congrArg Tenure.record? held)]
      rfl

theorem safe_create (stored : repository.hasStore = true) (same : NamedRecord.name record = name)
    (unnamed : Record.givenId? record = none) (live : Record.deletedAt? record = none)
    (valid : (FaithfulRecord.metadata record).IsValid) (inside : position < callers)
    (recent : ∀ record, race.1.tenure ≠ .old record) (unclaimed : race.1.Unclaimed position)
    (failure : Failure) :
    (sharing ρ before name callers).Safe position (fun _ => True) (repository.create record)
      (fun written met => met.1.Decided position (.error failure) written) race := by
  rw [Repository.create, Repository.createWith, Repository.needingStore, if_pos stored]
  refine Sharing.safe_act (fun _ _ => trivial) (fun _ _ => rfl) ?_
  intro moment _ now admitted later
  obtain ⟨proper, nonempty, new⟩ := admitted
  obtain ⟨id, stamped, stamps, own, keeps, metadata⟩ := Repository.stampNew_ok record moment
  have fresh : id = moment.freshId := Repository.id_of_stampNew unnamed stamps
  have required : Rows.requireId stamped = .ok id := by
    refine Rows.requireId_eq_ok.mpr (Option.filter_eq_some_iff.mpr ⟨own, ?_⟩)
    rw [fresh, nonempty]
    rfl
  have alive : Record.isDeleted stamped = false := by
    rw [Record.isDeleted, FaithfulRecord.deletedAt?_eq, metadata]
    rw [FaithfulRecord.deletedAt?_eq] at live
    simp only [live, Option.isSome_none]
  have whole : (FaithfulRecord.metadata stamped).IsValid := metadata ▸ valid.created proper
  simp only [stamps]
  refine Sharing.safe_write "create" (some id) stamped .create (fun _ _ => trivial) ?_ ?_
  · intro last refusal onward failed
    have failed : last.1.rows.create stamped = .error refusal := failed
    have reached := later.trans onward
    rcases last.2.create (keeps.trans same) required (fresh ▸ new) alive whole inside with
      ⟨_, rows, created, _⟩ | ⟨occupied, duplicate, refused, is⟩
    · rw [created] at failed
      cases failed
    · rw [refused] at failed
      obtain rfl := Except.error.inj failed
      cases held : last.1.tenure with
      | vacant => exact absurd held occupied
      | old record => exact absurd held (old_later recent reached record)
      | new other record =>
          refine Or.inr ⟨duplicate, other, record, rfl, is, ?_, held⟩
          rintro rfl
          exact unclaimed.later reached record held
  · intro last lastMoment rows onward _ changed
    rcases last.2.create (keeps.trans same) required (fresh ▸ new) alive whole inside with
      ⟨vacant, createdNow, created, tenable⟩ | ⟨_, duplicate, refused, _⟩
    · obtain rfl := Except.ok.inj (created.symm.trans changed)
      refine ⟨⟨_, tenable⟩, Or.inr ⟨vacant, stamped, rfl⟩, rfl, fun final more => ?_⟩
      exact ⟨trivial, Or.inl ⟨rfl, new_later rfl more⟩⟩
    · have changed : last.1.rows.create stamped = .ok rows := changed
      rw [refused] at changed
      cases changed

end Steps

end Race

/-! Runs -/

namespace Repository

variable {ρ : Type} [Record ρ]

def afterLookup (repository : Repository) (record : ρ) :
    Except Failure ρ → Activity (RepositoryState ρ) (Written ρ)
  | .ok existing => .done ⟨.ok (), existing⟩
  | .error failure =>
    if failure.isNotFound then repository.create record else .done ⟨.error failure, record⟩

def callers (repository : Repository) (state : RepositoryState ρ) (records : List ρ) :
    Pool (RepositoryState ρ) (Staged (RepositoryState ρ) (Except Failure ρ) (Written ρ)) :=
  ⟨state, records.map fun record => Staged.enter (repository.afterLookup record)
    (repository.uncached "create_if_not"
      (MemoryStore.findOne (Record.blank : ρ) (Record.naturalKey record)))⟩

theorem run_callers {repository : Repository} (stored : repository.hasStore = true)
    (state : RepositoryState ρ) (records : List ρ) (turns : List (Nat × Moment)) :
    ((repository.callers state records).run Staged.advance turns).map Staged.activity =
      Pool.run (fun moment rest => rest.advance moment 0)
        ⟨state, records.map repository.createIfAbsent⟩ turns := by
  refine Staged.run_enter (fun record _ => ?_) state turns
  rw [createIfAbsent, needingStore, if_pos stored]
  rfl

theorem ends_afterLookup {repository : Repository} (stored : repository.hasStore = true)
    (record : ρ) (found : Except Failure ρ) :
    (repository.afterLookup record found).EndsWithin 5 := by
  cases found with
  | ok existing => trivial
  | error failure =>
      by_cases missing : failure.isNotFound
      · simp only [afterLookup, missing, ↓reduceIte]
        rw [create, createWith, needingStore, if_pos stored]
        refine ⟨4, by omega, fun stamped => ?_⟩
        cases stamped with
        | error failure => trivial
        | ok result => exact ends_write ..
      · simp only [afterLookup, missing, Bool.false_eq_true, ↓reduceIte]
        trivial

theorem ended_callers {repository : Repository} (stored : repository.hasStore = true)
    (state : RepositoryState ρ) {records : List ρ} {turns : List (Nat × Moment)}
    (enough : ∀ position < records.length, 8 ≤ (turns.map (·.1)).count position) :
    ∀ thread ∈ ((repository.callers state records).run Staged.advance turns).threads,
      thread.result?.isSome = true :=
  Pool.ended_of_enter state
    (fun record _ => (ends_uncached stored "create_if_not" .findOne _).bind
      (ends_afterLookup stored record)) enough

def Missed (pool : Pool (RepositoryState ρ)
    (Staged (RepositoryState ρ) (Except Failure ρ) (Written ρ))) (position : Nat) : Prop :=
  ∃ thread failure, pool.threads[position]? = some thread ∧
    thread.given? = some (.error failure)

variable [FaithfulRecord ρ] {repository : Repository} {state : RepositoryState ρ}
  {records : List ρ} {name : String}

/-- A record that its caller has given the name, but neither an identity nor a time of deletion. -/
structure Joins (name : String) (record : ρ) : Prop where
  name : NamedRecord.name record = name
  unnamed : Record.givenId? record = none
  live : Record.deletedAt? record = none
  valid : (FaithfulRecord.metadata record).IsValid

theorem tenable_start (named : state.store.rows.Named) (faithful : state.store.rows.Faithful ρ)
    (undeleted : ∀ id (record : ρ), state.store.rows.Holds id record →
      NamedRecord.name record = name → Record.isDeleted record = false) (count : Nat) :
    ∃ tenure : Tenure ρ, Race.Tenable state.store.rows name count ⟨state.store.rows, tenure⟩ ∧
      ∀ caller record, tenure ≠ .new caller record := by
  by_cases taken : ∃ (id : RecordId) (record : ρ), state.store.rows.Holds id record ∧
      NamedRecord.name record = name
  · obtain ⟨id, record, holds, own⟩ := taken
    refine ⟨.old record, ⟨named, faithful, fun impossible => (by cases impossible), ?_,
      fun _ _ impossible => by cases impossible⟩, fun _ _ impossible => by cases impossible⟩
    intro other held
    obtain rfl := Option.some.inj held
    exact ⟨own, undeleted id record holds own, id, holds⟩
  · refine ⟨.vacant, ⟨named, faithful, fun _ => ⟨rfl, fun id row stored shows => ?_⟩,
      fun _ impossible => (by cases impossible), fun _ _ impossible => by cases impossible⟩,
      fun _ _ impossible => by cases impossible⟩
    obtain ⟨record, holds⟩ := faithful id row stored
    obtain ⟨other, present, shown⟩ := holds.stored
    obtain rfl := Option.some.inj (stored.symm.trans present)
    have own : row.get "name" = .string (NamedRecord.name record) := NamedRecord.toRow_name shown
    exact taken ⟨id, record, holds, Json.string.inj (own.symm.trans shows)⟩

/-- The callers end as the tenure of the name tells. -/
def EndAs (pool : Pool (RepositoryState ρ)
    (Staged (RepositoryState ρ) (Except Failure ρ) (Written ρ))) (tenure : Tenure ρ) : Prop :=
  ∀ position thread written, pool.threads[position]? = some thread →
    thread.result? = some written → ∃ given, thread.given? = some given ∧
      Race.Decided position given written ⟨pool.state.store.rows, tenure⟩

theorem run_callers_ends (stored : repository.hasStore = true) (calm : state.store.faults = [])
    (named : state.store.rows.Named) (faithful : state.store.rows.Faithful ρ)
    (undeleted : ∀ id (record : ρ), state.store.rows.Holds id record →
      NamedRecord.name record = name → Record.isDeleted record = false)
    (joins : ∀ record ∈ records, Joins name record) {turns : List (Nat × Moment)}
    (admitted : ∀ turn ∈ turns, turn.2.time.IsValid ∧ turn.2.freshId.isEmpty = false ∧
      state.store.rows[turn.2.freshId]? = none) :
    ∃ tenure : Tenure ρ,
      Race.Tenable state.store.rows name records.length
        ⟨((repository.callers state records).run Staged.advance turns).state.store.rows, tenure⟩ ∧
      EndAs ((repository.callers state records).run Staged.advance turns) tenure := by
  obtain ⟨tenure, tenable, unclaimed⟩ := tenable_start named faithful undeleted records.length
  let sharing := Race.sharing ρ state.store.rows name records.length
  let world : sharing.Seen ρ := ⟨state, ⟨_, tenable⟩, calm, rfl⟩
  have lasts : Lasting (sharing.protocol ρ)
      fun position given written (world : sharing.Seen ρ) =>
        world.view.1.Decided position given written := by
    intro position given written before after other ends
    exact ends.later (Sharing.later_view (.single other))
  have stands : (repository.callers state records).Stands (sharing.protocol ρ)
      (fun _ _ => True) (fun _ _ _ => True)
      (fun position given written world => world.view.1.Decided position given written) world := by
    refine ⟨rfl, fun position thread found => ?_⟩
    obtain ⟨record, present, rfl⟩ := by
      simpa only [callers, List.getElem?_map, Option.map_eq_some_iff] using found
    obtain ⟨same, unnamed, live, valid⟩ := joins record (List.mem_of_getElem? present)
    have inside := (List.getElem?_eq_some_iff.mp present).1
    have free : world.view.1.Unclaimed position := unclaimed position
    refine Sharing.stands_enter (fun _ _ => True) (fun _ _ _ => True)
      (fun position given written race => race.1.Decided position given written)
      ((Race.safe_lookup stored same free).mono
      (fun _ holds => holds) fun given met tells => ?_)
    cases given with
    | ok existing => exact Sharing.safe_done ⟨rfl, tells.2, tells.1⟩
    | error failure =>
        simp only [afterLookup, tells.2.1, ↓reduceIte]
        exact Race.safe_create stored same unnamed live valid inside tells.2.2 tells.1 failure
  obtain ⟨after, stood⟩ := stands.run lasts admitted
  have rows : after.view.1.rows =
      ((repository.callers state records).run Staged.advance turns).state.store.rows := by
    rw [← stood.state]
    exact after.shows
  refine ⟨after.view.1.tenure, rows ▸ after.view.2, fun position thread written found ended => ?_⟩
  rw [← rows]
  exact stood.of_result found ended

section EndAs

omit [Record ρ] [FaithfulRecord ρ]

variable {tenure : Tenure ρ}
  {pool : Pool (RepositoryState ρ) (Staged (RepositoryState ρ) (Except Failure ρ) (Written ρ))}

theorem EndAs.new_of_missed (ends : EndAs pool tenure)
    (ended : ∀ thread ∈ pool.threads, thread.result?.isSome = true)
    (succeeded : ∀ thread ∈ pool.threads, ∀ written, thread.result? = some written →
      written.outcome = .ok ()) {position : Nat} (missed : Missed pool position) :
    ∃ record, tenure = .new position record := by
  obtain ⟨thread, failure, found, gave⟩ := missed
  have member := List.mem_of_getElem? found
  obtain ⟨written, result⟩ := Option.isSome_iff_exists.mp (ended thread member)
  obtain ⟨given, gives, ends⟩ := ends position thread written found result
  obtain rfl := Option.some.inj (gave.symm.trans gives)
  rcases ends with ⟨_, taken⟩ | ⟨failure, _, _, failed, _⟩
  · exact ⟨_, taken⟩
  · have success := succeeded thread member written result
    rw [failed] at success
    cases success

theorem EndAs.missed_of_new (ends : EndAs pool tenure)
    (ended : ∀ thread ∈ pool.threads, thread.result?.isSome = true) {position : Nat} {record : ρ}
    (inside : position < pool.threads.length) (taken : tenure = .new position record) :
    Missed pool position := by
  have found := List.getElem?_eq_getElem inside
  obtain ⟨written, result⟩ :=
    Option.isSome_iff_exists.mp (ended _ (List.mem_of_getElem? found))
  obtain ⟨given, gave, ends⟩ := ends position _ written found result
  cases given with
  | ok existing => exact absurd taken (ends.2.2 record)
  | error failure => exact ⟨_, failure, found, gave⟩

theorem EndAs.succeeded_iff (ends : EndAs pool tenure)
    (ended : ∀ thread ∈ pool.threads, thread.result?.isSome = true)
    (bounded : ∀ caller record, tenure = .new caller record → caller < pool.threads.length) :
    (∀ thread ∈ pool.threads, ∀ written, thread.result? = some written →
        written.outcome = .ok ()) ↔
      ∀ first second, Missed pool first → Missed pool second → first = second := by
  constructor
  · intro succeeded first second missed other
    obtain ⟨_, mine⟩ := ends.new_of_missed ended succeeded missed
    obtain ⟨_, theirs⟩ := ends.new_of_missed ended succeeded other
    exact (Tenure.new.inj (mine.symm.trans theirs)).1
  · intro once thread member written result
    obtain ⟨position, found⟩ := List.getElem?_of_mem member
    obtain ⟨given, gave, ending⟩ := ends position thread written found result
    cases given with
    | ok existing =>
        obtain ⟨rfl, _⟩ := ending
        rfl
    | error failure =>
        rcases ending with ⟨success, _⟩ | ⟨_, other, record, _, _, different, taken⟩
        · exact success
        · -- Who holds the name has missed it too, or it would not have stored its record.
          have theirs := ends.missed_of_new ended (bounded other record taken) taken
          exact absurd (once other position theirs ⟨thread, failure, found, gave⟩) different

theorem EndAs.held (ends : EndAs pool tenure)
    (ended : ∀ thread ∈ pool.threads, thread.result?.isSome = true)
    (inside : 0 < pool.threads.length) : ∃ record, tenure.record? = some record := by
  have found := List.getElem?_eq_getElem inside
  obtain ⟨written, result⟩ :=
    Option.isSome_iff_exists.mp (ended _ (List.mem_of_getElem? found))
  obtain ⟨given, _, ending⟩ := ends 0 _ written found result
  obtain ⟨record, held, _⟩ := ending.outcome
  exact ⟨record, held⟩

end EndAs

/--
The turns are those of the calls. After eight turns each, all have returned and one row has the
name. Whoever succeeded holds its record, and whoever did not was told of a duplicate. All have
succeeded if and only if no more than one of them had looked the name up in vain.
-/
theorem createIfAbsent_race {turns : List (Nat × Moment)}
    {pool : Pool (RepositoryState ρ) (Staged (RepositoryState ρ) (Except Failure ρ) (Written ρ))}
    (stored : repository.hasStore = true) (calm : state.store.faults = [])
    (named : state.store.rows.Named) (faithful : state.store.rows.Faithful ρ)
    (undeleted : ∀ id (record : ρ), state.store.rows.Holds id record →
      NamedRecord.name record = name → Record.isDeleted record = false)
    (joins : ∀ record ∈ records, Joins name record) (nonempty : records ≠ [])
    (admitted : ∀ turn ∈ turns, turn.2.time.IsValid ∧ turn.2.freshId.isEmpty = false ∧
      state.store.rows[turn.2.freshId]? = none)
    (enough : ∀ position < records.length, 8 ≤ (turns.map (·.1)).count position)
    (ran : (repository.callers state records).run Staged.advance turns = pool) :
    (∀ thread ∈ pool.threads, thread.result?.isSome = true) ∧
    pool.map Staged.activity = Pool.run (fun moment rest => rest.advance moment 0)
      ⟨state, records.map repository.createIfAbsent⟩ turns ∧
    ∃ id row record, pool.state.store.rows.Holds id record ∧
      pool.state.store.rows[id]? = some row ∧ Record.isDeleted record = false ∧
      pool.state.store.rows.matching (.equals "name" (.string name)) = [row] ∧
      (∀ thread ∈ pool.threads, ∀ written, thread.result? = some written →
        (written.outcome = .ok () ∧ written.record = record) ∨
          ∃ failure, written.outcome = .error failure ∧ failure.isDuplicate = true) ∧
      ((∀ thread ∈ pool.threads, ∀ written, thread.result? = some written →
          written.outcome = .ok ()) ↔
        ∀ first second, Missed pool first → Missed pool second → first = second) := by
  obtain ⟨tenure, tenable, ends⟩ :=
    run_callers_ends stored calm named faithful undeleted joins admitted
  have ended := ended_callers stored state enough
  rw [ran] at tenable ends ended
  have length : pool.threads.length = records.length := by
    rw [← ran, Pool.length_run, callers, List.length_map]
  obtain ⟨record, held⟩ := ends.held ended (length ▸ List.length_pos_iff.mpr nonempty)
  obtain ⟨own, live, id, holds⟩ := tenable.held record held
  obtain ⟨row, present, shown⟩ := holds.stored
  refine ⟨ended, ran ▸ run_callers stored state records turns, id, row, record, holds, present,
    live, ?_, ?_, ?_⟩
  · exact tenable.named.matching_name present (own ▸ NamedRecord.toRow_name shown)
  · intro thread member written result
    obtain ⟨position, found⟩ := List.getElem?_of_mem member
    obtain ⟨given, _, ending⟩ := ends position thread written found result
    obtain ⟨other, same, outcome⟩ := ending.outcome
    obtain rfl := Option.some.inj (held.symm.trans same)
    exact outcome
  · exact ends.succeeded_iff ended fun caller mine taken =>
      length ▸ tenable.caller caller mine taken

def noAccounts : RepositoryState Account :=
  ⟨.single ⟨8, .empty, .empty, .zero⟩, .empty, .create none⟩

def callersMoment (caller : Nat) : Moment :=
  ⟨⟨0⟩, ⟨2024, 1, 1, 0, 0, 0, 0⟩, ⟨if caller = 0 then "a" else "b"⟩⟩

theorem createIfAbsent_race_inTurn :
    ∃ (id : RecordId) (row : Row) (record : Account)
      (pool : Pool (RepositoryState Account)
        (Staged (RepositoryState Account) (Except Failure Account) (Written Account))),
      (standard.callers noAccounts [.named "ada", .named "ada"]).run Staged.advance
        (Pool.rounds callersMoment [(0, 8), (1, 8)]) = pool ∧
      pool.state.store.rows.Holds id record ∧
      pool.state.store.rows.matching (.equals "name" (.string "ada")) = [row] ∧
      ((∀ thread ∈ pool.threads, ∀ written, thread.result? = some written →
          written.outcome = .ok ()) ↔
        ∀ first second, Missed pool first → Missed pool second → first = second) := by
  have joins : ∀ record ∈ [Account.named "ada", .named "ada"], Joins "ada" record := by
    intro record member
    obtain rfl : record = .named "ada" := by simpa using member
    exact ⟨rfl, rfl, rfl, Metadata.isValid_none⟩
  have admitted : ∀ turn ∈ Pool.rounds callersMoment [(0, 8), (1, 8)], turn.2.time.IsValid ∧
      turn.2.freshId.isEmpty = false ∧ noAccounts.store.rows[turn.2.freshId]? = none := by
    decide +kernel
  let pool := (standard.callers noAccounts [.named "ada", .named "ada"]).run Staged.advance
    (Pool.rounds callersMoment [(0, 8), (1, 8)])
  have enough : ∀ position < 2,
      8 ≤ ((Pool.rounds callersMoment [(0, 8), (1, 8)]).map (·.1)).count position := by
    decide
  have ran : (standard.callers noAccounts [.named "ada", .named "ada"]).run Staged.advance
    (Pool.rounds callersMoment [(0, 8), (1, 8)]) = pool := rfl
  have undeleted : ∀ id (record : Account), noAccounts.store.rows.Holds id record →
      NamedRecord.name record = "ada" → Record.isDeleted record = false := by
    intro id record holds
    obtain ⟨row, stored, _⟩ := holds.stored
    simp [noAccounts, MemoryStore.create] at stored
  obtain ⟨_, _, id, row, record, holds, _, _, single, _, once⟩ := createIfAbsent_race rfl rfl
    Rows.named_empty Rows.faithful_empty undeleted joins (by simp) admitted enough ran
  exact ⟨id, row, record, pool, ran, holds, single, once⟩

/-- If both look the name up before either stores its record, then one is told of a duplicate. -/
theorem createIfAbsent_race_lost :
    ∃ (written : Written Account) (failure : Failure),
      ((standard.callers noAccounts [.named "ada", .named "ada"]).run Staged.advance
        (Pool.rounds callersMoment [(0, 2), (1, 2), (0, 4), (1, 3)])).result? 1 = some written ∧
      written.outcome = .error failure ∧ failure.isDuplicate = true :=
  ⟨_, _, rfl, rfl, rfl⟩

end Repository

end CachedStore
