import CachedStore.Proofs.Repository.Creation
import CachedStore.Proofs.Store.Requests

/-!
A conditional create that runs alone: it gives the live record of the name, is told of a duplicate
for a deleted one or for an identity that is taken, and else adds the record. Whenever it succeeds,
the record exists from then on, so that another conditional create of it changes nothing.
-/

namespace CachedStore

namespace Rows

variable {ρ : Type} [Record ρ] [FaithfulRecord ρ] {rows : Rows}

def KeepsName (rows : Rows) (name : String) (deleted : Bool) (record : ρ) : Prop :=
  ∃ id, rows.Holds id record ∧ NamedRecord.name record = name ∧ Record.isDeleted record = deleted

theorem WellFormed.of_name (kept : rows.WellFormed ρ) {id : RecordId} {row : Row} {name : String}
    (stored : rows[id]? = some row) (shows : row.get "name" = .string name) :
    ∃ held : ρ, rows.Holds id held ∧ NamedRecord.name held = name := by
  obtain ⟨held, holds⟩ := kept.faithful id row stored
  obtain ⟨other, present, shown⟩ := holds.stored
  obtain rfl := Option.some.inj (stored.symm.trans present)
  exact ⟨held, holds, Json.string.inj ((NamedRecord.toRow_name shown).symm.trans shows)⟩

theorem WellFormed.findOne_live (kept : rows.WellFormed ρ) {record held : ρ}
    (keeps : rows.KeepsName (NamedRecord.name record) false held) :
    rows.findOne Record.blank (Record.naturalKey record) = .ok held := by
  obtain ⟨id, holds, name, live⟩ := keeps
  rw [NamedRecord.naturalKey_eq, ← name, holds.findOne_name kept.named, live]
  rfl

theorem WellFormed.findOne_missed (kept : rows.WellFormed ρ) {record : ρ}
    (missed : ∀ held : ρ, ¬rows.KeepsName (NamedRecord.name record) false held) :
    rows.findOne (Record.blank : ρ) (Record.naturalKey record) =
      .error (Record.noMatch ρ (Record.naturalKey record)) := by
  rw [NamedRecord.naturalKey_eq]
  by_cases shown : ∃ (id : RecordId) (row : Row), rows[id]? = some row ∧
      row.get "name" = .string (NamedRecord.name record)
  · obtain ⟨id, row, stored, shows⟩ := shown
    obtain ⟨held, holds, name⟩ := kept.of_name stored shows
    have deleted : Record.isDeleted held = true := by
      by_contra live
      exact missed held ⟨id, holds, name, by simpa using live⟩
    rw [← name, holds.findOne_name kept.named, deleted]
    rfl
  · exact kept.named.findOne_unnamed _ fun id row stored shows => shown ⟨id, row, stored, shows⟩

end Rows

namespace Repository

variable {ρ : Type} [Record ρ] {repository : Repository} {clock : Nat → Moment} {step : Nat}
  {state : RepositoryState ρ} {record held : ρ}

/-! The look-up of the name, and what follows it -/

theorem runOn_createIfAbsent_found (stored : repository.hasStore = true)
    (calm : state.store.faults = []) (timely : repository.Timely state.store)
    (found : state.store.rows.findOne Record.blank (Record.naturalKey record) = .ok held) :
    (repository.createIfAbsent record).runOn clock step state =
      (⟨.ok (), held⟩, { state with store := state.store.begin .findOne }, step + 2) := by
  have looked := runOn_uncached clock step stored calm timely "create_if_not" .findOne fun rows =>
    rows.findOne (Record.blank : ρ) (Record.naturalKey record)
  rw [found] at looked
  rw [createIfAbsent, needingStore, if_pos stored]
  exact Activity.runOn_bind_of looked _

theorem runOn_createIfAbsent_missed (stored : repository.hasStore = true)
    (calm : state.store.faults = []) (timely : repository.Timely state.store) {failure : Failure}
    (missed : state.store.rows.findOne (Record.blank : ρ) (Record.naturalKey record) =
      .error failure) (missing : failure.isNotFound = true) :
    (repository.createIfAbsent record).runOn clock step state =
      (repository.create record).runOn clock (step + 2)
        { state with store := state.store.begin .findOne } := by
  have looked := runOn_uncached clock step stored calm timely "create_if_not" .findOne fun rows =>
    rows.findOne (Record.blank : ρ) (Record.naturalKey record)
  rw [missed] at looked
  rw [createIfAbsent, needingStore, if_pos stored]
  refine (Activity.runOn_bind_of looked _).trans ?_
  simp only [missing, ↓reduceIte]

theorem runOn_existsLike_found (stored : repository.hasStore = true)
    (calm : state.store.faults = []) (timely : repository.Timely state.store)
    (found : state.store.rows.findOne Record.blank (Record.naturalKey record) = .ok held) :
    ((repository.existsLike record).runOn clock step state).1 = .ok true := by
  have looked := runOn_uncached clock step stored calm timely "exists" .findOne fun rows =>
    rows.findOne (Record.blank : ρ) (Record.naturalKey record)
  rw [found] at looked
  rw [existsLike]
  exact congrArg Prod.fst (Activity.runOn_bind_of looked _)

theorem deadline_createIfAbsent (record : ρ) (clock : Nat → Moment) (step : Nat)
    (stored : repository.hasStore = true) (late : Late repository.queryTimeout state.store) :
    ((repository.createIfAbsent record).runOn clock step state).1.outcome =
      .error (deadlineExceeded ρ "create_if_not" repository.queryTimeout) := by
  rw [createIfAbsent, needingStore, if_pos stored, Activity.runOn_bind, MemoryStore.findOne,
    MemoryStore.readCall, runOn_uncached_late stored late]
  rfl

section Outcomes

variable [FaithfulRecord ρ]

/-! The create of a record that collides with no row -/

def Stamped (record : ρ) (moment : Moment) (id : RecordId) (stamped : ρ) : Prop :=
  ∃ given, ((Record.givenId? record = some id ∧ given = record) ∨
      (Record.givenId? record = none ∧ id = moment.freshId ∧
        Record.withId record id = .ok given)) ∧
    stamped = Record.touchCreated given moment.time

omit [FaithfulRecord ρ] in
theorem stamped_of_stampNew {moment : Moment} {id : RecordId} {stamped : ρ}
    (stamps : stampNew record moment = .ok (id, stamped)) : Stamped record moment id stamped := by
  simp only [stampNew, Record.ensureId] at stamps
  cases given : Record.givenId? record with
  | some known =>
      simp only [given, Except.map, Except.ok.injEq, Prod.mk.injEq] at stamps
      obtain ⟨rfl, rfl⟩ := stamps
      exact ⟨record, Or.inl ⟨given, rfl⟩, rfl⟩
  | none =>
      cases made : Record.withId record moment.freshId with
      | error failure => simp [given, made, Except.map] at stamps
      | ok named =>
          simp only [given, made, Except.map, Except.ok.injEq, Prod.mk.injEq] at stamps
          obtain ⟨rfl, rfl⟩ := stamps
          exact ⟨named, Or.inr ⟨given, rfl, made⟩, rfl⟩

theorem runOn_create_adds (stored : repository.hasStore = true) (calm : state.store.faults = [])
    (timely : repository.Timely state.store) (named : state.store.rows.Named)
    (fresh : (clock step).freshId.isEmpty = false)
    (new : state.store.rows[(clock step).freshId]? = none)
    (free : ¬Collides state.store.rows record) :
    ∃ (id : RecordId) (stamped : ρ) (row : Row) (after : RepositoryState ρ) (next : Nat),
      stampNew record (clock step) = .ok (id, stamped) ∧ Record.toRow stamped = .ok row ∧
      state.store.rows[id]? = none ∧
      state.store.rows.create stamped = .ok (state.store.rows.insert id row) ∧
      (repository.create record).runOn clock step state = (⟨.ok (), stamped⟩, after, next) ∧
      after.store =
        { state.store.begin .create with rows := state.store.rows.insert id row } := by
  obtain ⟨id, stamped, stamps, _, name, _⟩ := stampNew_ok record (clock step)
  have required := Rows.requireId_eq_ok.mpr (givenId?_of_stampNew fresh stamps)
  obtain ⟨row, shown⟩ := FaithfulRecord.toRow_ok stamped
  obtain ⟨after, next, ran, store⟩ := runOn_createWith stored calm timely .strict stamps
  have outcomes : (state.store.rows[id]? = none ∧ _ ∧ _) ∨ _ := Rows.create_cases required shown
  rcases outcomes with ⟨missing, _, created⟩ | ⟨failure, refused, duplicate, _⟩
  · rw [created] at ran store
    exact ⟨id, stamped, row, after, next, stamps, shown, missing, created, ran, store⟩
  · have taken := (named.create_duplicate_iff required shown).mp ⟨failure, refused, duplicate⟩
    rw [name] at taken
    exact absurd ((collides_iff_of_stampNew new stamps).mpr taken) free

theorem collides_iff_of_missed {rows : Rows} (kept : rows.WellFormed ρ)
    (missed : ∀ held : ρ, ¬rows.KeepsName (NamedRecord.name record) false held) :
    Collides rows record ↔ (∃ held : ρ, rows.KeepsName (NamedRecord.name record) true held) ∨
      ∃ id, Record.givenId? record = some id ∧ rows.contains id = true := by
  constructor
  · rintro (taken | ⟨other, row, _, stored, shows⟩)
    · exact Or.inr taken
    · obtain ⟨held, holds, name⟩ := kept.of_name stored shows
      refine Or.inl ⟨held, other, holds, name, ?_⟩
      by_contra live
      exact missed held ⟨other, holds, name, by simpa using live⟩
  · rintro (⟨held, other, holds, name, _⟩ | taken)
    · obtain ⟨row, stored, shown⟩ := holds.stored
      by_cases own : Record.givenId? record = some other
      · refine Or.inl ⟨other, own, ?_⟩
        rw [Std.TreeMap.contains_eq_isSome_getElem?, stored]
        rfl
      · exact Or.inr ⟨other, row, own, stored, name ▸ NamedRecord.toRow_name shown⟩
    · exact Or.inl taken

/-! What a conditional create does -/

/-- What a conditional create gives and leaves, as the rows of its name and its identity tell. -/
structure CreatesIfAbsent (record : ρ) (moment : Moment) (before after : MemoryStore ρ)
    (written : Written ρ) : Prop where
  found : ∀ held : ρ, before.rows.KeepsName (NamedRecord.name record) false held →
    written = ⟨.ok (), held⟩ ∧ after = before.begin .findOne
  refused : (∀ held : ρ, ¬before.rows.KeepsName (NamedRecord.name record) false held) →
    ((∃ held : ρ, before.rows.KeepsName (NamedRecord.name record) true held) ∨
      ∃ id, Record.givenId? record = some id ∧ before.rows.contains id = true) →
    TellsDuplicate written.outcome ∧ after.rows = before.rows
  added : (∀ (deleted : Bool) (held : ρ),
      ¬before.rows.KeepsName (NamedRecord.name record) deleted held) →
    (∀ id, Record.givenId? record = some id → before.rows.contains id = false) →
    written.outcome = .ok () ∧ ∃ (id : RecordId) (row : Row),
      Stamped record moment id written.record ∧ Record.toRow written.record = .ok row ∧
      before.rows[id]? = none ∧ after.rows = before.rows.insert id row

/-- A record of the name exists, and stays the one that a conditional create gives. -/
structure Exists (repository : Repository) (record : ρ) (state : RepositoryState ρ) (held : ρ) :
    Prop where
  told : ∀ (clock : Nat → Moment) (step : Nat),
    ((repository.existsLike record).runOn clock step state).1 = .ok true
  single : ∃ row, Record.toRow held = .ok row ∧
    state.store.rows.matching (.equals "name" (.string (NamedRecord.name record))) = [row]
  again : ∀ (clock : Nat → Moment) (step : Nat),
    ∃ next, (repository.createIfAbsent record).runOn clock step state =
      (⟨.ok (), held⟩, { state with store := state.store.begin .findOne }, next)

theorem exists_of_keepsName (stored : repository.hasStore = true)
    (calm : state.store.faults = []) (timely : repository.Timely state.store)
    (kept : state.store.rows.WellFormed ρ)
    (keeps : state.store.rows.KeepsName (NamedRecord.name record) false held) :
    Exists repository record state held where
  told _ _ := runOn_existsLike_found stored calm timely (kept.findOne_live keeps)
  single := by
    obtain ⟨id, holds, name, _⟩ := keeps
    obtain ⟨row, present, shown⟩ := holds.stored
    exact ⟨row, shown, kept.named.matching_name present (name ▸ NamedRecord.toRow_name shown)⟩
  again _ step :=
    ⟨step + 2, runOn_createIfAbsent_found stored calm timely (kept.findOne_live keeps)⟩

/-- What a conditional create does, and that the record exists once it succeeded. -/
structure Concludes (repository : Repository) (record : ρ) (moment : Moment)
    (before : RepositoryState ρ) (ended : Written ρ × RepositoryState ρ × Nat) : Prop where
  creates : CreatesIfAbsent record moment before.store ended.2.1.store ended.1
  lasts : ended.1.outcome = .ok () → Exists repository record ended.2.1 ended.1.record

section Alone

variable (stored : repository.hasStore = true) (calm : state.store.faults = [])
  (timely : repository.Timely state.store) (kept : state.store.rows.WellFormed ρ)

include stored calm timely kept

theorem createIfAbsent_of_live (moment : Moment)
    (keeps : state.store.rows.KeepsName (NamedRecord.name record) false held) :
    Concludes repository record moment state
      ((repository.createIfAbsent record).runOn clock step state) := by
  have found := kept.findOne_live keeps
  rw [runOn_createIfAbsent_found stored calm timely found]
  refine ⟨⟨?_, ?_, ?_⟩, fun _ => exists_of_keepsName stored calm timely kept keeps⟩
  · intro other keepsOther
    obtain rfl := Except.ok.inj (found.symm.trans (kept.findOne_live keepsOther))
    exact ⟨rfl, rfl⟩
  · exact fun missed => absurd keeps (missed held)
  · exact fun unknown => absurd keeps (unknown false held)

variable (missed : ∀ other : ρ, ¬state.store.rows.KeepsName (NamedRecord.name record) false other)
  (fresh : (clock (step + 2)).freshId.isEmpty = false)
  (new : state.store.rows[(clock (step + 2)).freshId]? = none)

include missed fresh new

theorem createIfAbsent_of_collision (collides : Collides state.store.rows record) :
    Concludes repository record (clock (step + 2)) state
      ((repository.createIfAbsent record).runOn clock step state) := by
  let begun : RepositoryState ρ := { state with store := state.store.begin .findOne }
  have quiet : begun.store.faults = [] := calm
  have soon : repository.Timely begun.store := timely
  rw [runOn_createIfAbsent_missed stored calm timely (kept.findOne_missed missed) rfl]
  have duplicate : TellsDuplicate
      ((repository.create record).runOn clock (step + 2) begun).1.outcome :=
    (tellsDuplicate_create_iff record stored quiet soon kept.named fresh new).mpr collides
  have rows : ((repository.create record).runOn clock (step + 2) begun).2.1.store.rows =
      state.store.rows := rows_of_collision stored quiet kept.named fresh new collides
  refine ⟨⟨fun other keeps => absurd keeps (missed other), fun _ _ => ⟨duplicate, rows⟩, ?_⟩, ?_⟩
  · intro unknown untaken
    rcases (collides_iff_of_missed kept missed).mp collides with ⟨other, keeps⟩ | ⟨id, own, taken⟩
    · exact absurd keeps (unknown true other)
    · rw [untaken id own] at taken
      cases taken
  · intro success
    obtain ⟨failure, told, _⟩ := duplicate
    rw [success] at told
    cases told

theorem createIfAbsent_of_free (undeleted : Record.isDeleted record = false)
    (proper : (FaithfulRecord.metadata record).IsValid)
    (timed : (clock (step + 2)).time.IsValid) (free : ¬Collides state.store.rows record) :
    Concludes repository record (clock (step + 2)) state
      ((repository.createIfAbsent record).runOn clock step state) := by
  let begun : RepositoryState ρ := { state with store := state.store.begin .findOne }
  have quiet : begun.store.faults = [] := calm
  have soon : repository.Timely begun.store := timely
  obtain ⟨id, stamped, row, after, next, stamps, shown, missing, created, ran, store⟩ :=
    runOn_create_adds stored quiet soon kept.named fresh new free
  rw [runOn_createIfAbsent_missed stored calm timely (kept.findOne_missed missed) rfl, ran]
  have rows : after.store.rows = state.store.rows.insert id row := congrArg MemoryStore.rows store
  refine ⟨⟨fun other keeps => absurd keeps (missed other), ?_, fun _ _ => ?_⟩, fun _ => ?_⟩
  · exact fun _ collides => absurd ((collides_iff_of_missed kept missed).mpr collides) free
  · exact ⟨rfl, id, row, stamped_of_stampNew stamps, shown, missing, rows⟩
  · obtain ⟨_, _, same, own, name, metadata⟩ := stampNew_ok record (clock (step + 2))
    obtain ⟨rfl, rfl⟩ := Prod.mk.inj (Except.ok.inj (stamps.symm.trans same))
    have valid : (FaithfulRecord.metadata stamped).IsValid := metadata ▸ proper.created timed
    have live : Record.isDeleted stamped = false := by
      rw [Record.isDeleted_eq, metadata, ← undeleted, Record.isDeleted_eq]
    refine exists_of_keepsName stored (congrArg MemoryStore.faults store |>.trans calm) ?_ ?_ ?_
    · exact fun latency given => timely latency
        ((congrArg MemoryStore.latency store).symm.trans given)
    · exact rows ▸ kept.create valid created
    · exact ⟨id, rows ▸ Rows.holds_insert valid own shown, name, live⟩

end Alone

/--
A conditional create on any reachable store without pending failures, run alone. If the store
answers in time, it does what is told above: it gives the live record of the name, or is told of a
duplicate, or adds the record. If the store is late, it fails with the deadline and changes no row.
Once it succeeded, the record exists, and another conditional create gives it again.
-/
theorem createIfAbsent_concludes {requests : List (StoreRequest ρ)} {serving : Nat → Moment}
    {latency : Option Duration} {served : Nat} {before after : RepositoryState ρ}
    {written : Written ρ} {next : Nat} (valid : ∀ request ∈ requests, request.IsValid)
    (reached : MemoryStore.serve serving requests 0 (.create latency) = (before.store, served))
    (calm : before.store.faults = []) (stored : repository.hasStore = true)
    (undeleted : Record.isDeleted record = false)
    (proper : (FaithfulRecord.metadata record).IsValid)
    (generates : ∀ later, (clock later).time.IsValid ∧ (clock later).freshId.isEmpty = false ∧
      before.store.rows[(clock later).freshId]? = none)
    (ran : (repository.createIfAbsent record).runOn clock step before = (written, after, next)) :
    (¬Late repository.queryTimeout before.store →
      CreatesIfAbsent record (clock (step + 2)) before.store after.store written) ∧
    (Late repository.queryTimeout before.store →
      written.outcome = .error (deadlineExceeded ρ "create_if_not" repository.queryTimeout) ∧
      after.store.rows = before.store.rows) ∧
    (written.outcome = .ok () → Exists repository record after written.record) := by
  have kept := StoreRequest.wellFormed_served valid reached
  by_cases late : Late repository.queryTimeout before.store
  · have failed := deadline_createIfAbsent record clock step stored late
    have fails : Fails ((repository.createIfAbsent record).runOn clock step before).1.outcome := by
      rw [failed]
      exact Option.some_ne_none _
    have spared := (spares_createIfAbsent record clock step before fails).rows
    rw [ran] at failed spared
    refine ⟨fun timely => absurd late timely, fun _ => ⟨failed, spared⟩, fun success => ?_⟩
    rw [success] at failed
    cases failed
  · have timely := soon_of_not_late late
    obtain ⟨timed, fresh, new⟩ := generates (step + 2)
    -- The name has a live record, or else the new record collides with a row, or it is free.
    have concludes : Concludes repository record (clock (step + 2)) before
        ((repository.createIfAbsent record).runOn clock step before) := by
      by_cases live : ∃ held : ρ,
          before.store.rows.KeepsName (NamedRecord.name record) false held
      · obtain ⟨held, keeps⟩ := live
        exact createIfAbsent_of_live stored calm timely kept _ keeps
      · have missed := not_exists.mp live
        by_cases collides : Collides before.store.rows record
        · exact createIfAbsent_of_collision stored calm timely kept missed fresh new collides
        · exact createIfAbsent_of_free stored calm timely kept missed fresh new undeleted proper
            timed collides
    rw [ran] at concludes
    exact ⟨fun _ => concludes.creates, fun impossible => absurd impossible late, concludes.lasts⟩

end Outcomes

def renamed : MemoryStore Account × Nat :=
  MemoryStore.serve MemoryStore.ticks MemoryStore.renames 0 (.create none)

def afterRenames : RepositoryState Account :=
  ⟨.single ⟨8, .empty, .empty, .zero⟩, .empty, renamed.1⟩

theorem createIfAbsent_concludes_renames :
    ∃ (written : Written Account) (after : RepositoryState Account) (next : Nat),
      (standard.createIfAbsent (.named "bob")).runOn afternoon 0 afterRenames =
        (written, after, next) ∧
      written.outcome = .ok () ∧
      CreatesIfAbsent (.named "bob") (afternoon 2) afterRenames.store after.store written ∧
      Exists standard (.named "bob") after written.record := by
  let ended := (standard.createIfAbsent (.named "bob")).runOn afternoon 0 afterRenames
  have reached : MemoryStore.serve MemoryStore.ticks MemoryStore.renames 0 (.create none) =
      (afterRenames.store, renamed.2) := Prod.mk.eta.symm
  have calm : afterRenames.store.faults = [] := by decide +kernel
  have unused : afterRenames.store.rows[(⟨"b"⟩ : RecordId)]? = none :=
    Option.isNone_iff_eq_none.mp (by decide +kernel)
  have proper : Timestamp.IsValid ⟨2024, 1, 1, 15, 0, 0, 0⟩ := by decide
  have timely : ¬Late standard.queryTimeout afterRenames.store := by
    rintro ⟨span, same, _⟩
    have prompt : afterRenames.store.latency = none := by decide +kernel
    rw [prompt] at same
    cases same
  have generates : ∀ later, (afternoon later).time.IsValid ∧
      (afternoon later).freshId.isEmpty = false ∧
      afterRenames.store.rows[(afternoon later).freshId]? = none :=
    fun _ => ⟨proper, rfl, unused⟩
  have ran : ended = (ended.1, ended.2.1, ended.2.2) := Prod.mk.eta.symm
  have success : ended.1.outcome = .ok () := by decide +kernel
  obtain ⟨creates, _, lasts⟩ := createIfAbsent_concludes MemoryStore.valid_renames reached calm
    rfl rfl Metadata.isValid_none generates ran
  exact ⟨ended.1, ended.2.1, ended.2.2, ran, success, creates timely, lasts success⟩

end Repository

end CachedStore
