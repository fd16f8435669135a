import CachedStore.Proofs.Repository.Sharing
import CachedStore.Proofs.Service.Edits

/-!
Edits of one document side by side. As long as each one that succeeds takes the place of the
version that it had loaded, they do what they do one after the other, in some order. One that takes
the place of another version undoes what was changed in between.
-/

namespace CachedStore

namespace Service

open Repository

/-- An edit that has taken effect: whose it is, what was asked, and what it answers. -/
structure Entry where
  position : Nat
  errand : Errand
  response : HttpResponse

def answerErrands (repository : Repository) (instants : Nat → Instant) :
    List Errand → (step : Nat) → State → List HttpResponse × State × Nat
  | [], step, state => ([], state, step)
  | errand :: rest, step, state =>
    let (response, state, step) := errand.run repository instants step state
    let (responses, after) := answerErrands repository instants rest step state
    (response :: responses, after)

theorem answerErrands_concat (repository : Repository) (instants : Nat → Instant)
    (errands : List Errand) (errand : Errand) (step : Nat) (state : State) :
    answerErrands repository instants (errands ++ [errand]) step state =
      let (responses, middle, next) := answerErrands repository instants errands step state
      let (response, after) := errand.run repository instants next middle
      (responses ++ [response], after) := by
  induction errands generalizing step state with
  | nil => rfl
  | cons first rest ih =>
      simp only [List.cons_append, answerErrands, ih]

/-- The entries lead from the first rows to the last, one after the other. -/
inductive Serial (id : RecordId) (edits : List Edit) (base : Rows) : List Entry → Rows → Prop where
  | nil : Serial id edits base [] base
  | snoc {entries : List Entry} {rows changed : Rows} {entry : Entry} {edit : Edit}
      (ordered : Serial id edits base entries rows)
      (listed : edits[entry.position]? = some edit)
      (called : entry.errand.call = edit.call id) (proper : entry.errand.time.IsValid)
      (new : ∀ earlier ∈ entries, earlier.position ≠ entry.position)
      (serves : edit.serve id entry.errand.time rows = (entry.response, changed)) :
      Serial id edits base (entries ++ [entry]) changed

namespace Serial

variable {id : RecordId} {edits : List Edit} {base rows : Rows} {entries : List Entry}

theorem nodup (ordered : Serial id edits base entries rows) :
    (entries.map Entry.position).Nodup := by
  induction ordered with
  | nil => exact List.nodup_nil
  | @snoc entries _ _ entry _ _ _ _ _ new _ ih =>
      rw [List.map_append, List.map_singleton]
      refine List.nodup_append.mpr ⟨ih, List.nodup_singleton _, ?_⟩
      intro position member other single
      obtain ⟨earlier, listed, rfl⟩ := List.mem_map.mp member
      rw [List.mem_singleton.mp single]
      exact new earlier listed

theorem listed (ordered : Serial id edits base entries rows) {entry : Entry}
    (member : entry ∈ entries) :
    ∃ edit, edits[entry.position]? = some edit ∧ entry.errand.call = edit.call id := by
  induction ordered with
  | nil => cases member
  | snoc _ listed called _ _ _ ih =>
      rcases List.mem_append.mp member with earlier | last
      · exact ih earlier
      · obtain rfl := List.mem_singleton.mp last
        exact ⟨_, listed, called⟩

theorem position_lt (ordered : Serial id edits base entries rows) {entry : Entry}
    (member : entry ∈ entries) : entry.position < edits.length := by
  obtain ⟨edit, listed, _⟩ := ordered.listed member
  exact (List.getElem?_eq_some_iff.mp listed).1

theorem sound (ordered : Serial id edits base entries rows) (named : base.Named)
    (faithful : base.Faithful Document) : Edit.Amends id base rows := by
  induction ordered with
  | nil => exact .refl id named faithful
  | @snoc _ _ _ _ edit _ _ _ proper _ serves ih =>
      have amends := ih.serve edit proper
      rw [serves] at amends
      exact amends

theorem answers {repository : Repository} {state : State}
    (ordered : Serial id edits state.store.rows entries rows)
    (reliable : Edit.Reliable repository state) (stored : repository.hasStore = true)
    (named : state.store.rows.Named) (faithful : state.store.rows.Faithful Document)
    (valid : ∀ edit ∈ edits, edit.Valid) (instants : Nat → Instant) (step : Nat) :
    ∃ (after : State) (next : Nat),
      answerErrands repository instants (entries.map Entry.errand) step state =
        (entries.map Entry.response, after, next) ∧
      after.store.rows = rows ∧ Edit.Reliable repository after := by
  induction ordered with
  | nil => exact ⟨state, step, rfl, rfl, reliable⟩
  | @snoc entries rows changed entry edit ordered listed called proper new serves ih =>
      obtain ⟨middle, between, ran, rfl, relies⟩ := ih
      have sound := ordered.sound named faithful
      have still : ∀ step, (entry.errand.clock instants step).time = entry.errand.time :=
        fun _ => rfl
      obtain ⟨after, next, answered, left, goesOn⟩ := Edit.runOn_call relies stored sound.named
        sound.faithful (valid edit (List.mem_of_getElem? listed)) id still between
      rw [serves] at answered left
      refine ⟨after, next, ?_, left, goesOn⟩
      rw [List.map_append, List.map_singleton, answerErrands_concat, ran]
      simp only [Errand.run, called, answered, List.map_append, List.map_singleton]

end Serial

/--
What is seen of the edits of a document: the rows, the entries so far, and who stored a change over
another version than the one it had loaded.
-/
structure Ledger where
  rows : Rows
  entries : List Entry
  overtaken : Option (Nat × Document)

namespace Ledger

variable {id : RecordId} {edits : List Edit} {base : Rows} {position : Nat}

/-- As long as no version was lost, the entries tell how the rows came about. -/
structure Truthful (id : RecordId) (edits : List Edit) (base : Rows) (ledger : Ledger) : Prop where
  amends : Edit.Amends id base ledger.rows
  ordered : ledger.overtaken = none → Serial id edits base ledger.entries ledger.rows

def Pending (position : Nat) (ledger : Ledger) : Prop :=
  ∀ entry ∈ ledger.entries, entry.position ≠ position

def Logged (position : Nat) (response : HttpResponse) (ledger : Ledger) : Prop :=
  ∃ entry ∈ ledger.entries, entry.position = position ∧ entry.response = response

def Blameless (position : Nat) (ledger : Ledger) : Prop :=
  ∀ loaded, ledger.overtaken ≠ some (position, loaded)

structure Moves (id : RecordId) (position : Nat) (before after : Ledger) : Prop where
  entries : ∃ added, after.entries = before.entries ++ added ∧
    ∀ entry ∈ added, entry.position = position
  overtaken : after.overtaken = before.overtaken ∨
    before.Pending position ∧ ∃ loaded, after.overtaken = some (position, loaded) ∧
      before.rows.readByKey Record.blank id ≠ .ok loaded

def sharing (id : RecordId) (edits : List Edit) (base : Rows) :
    Sharing { ledger : Ledger // ledger.Truthful id edits base } where
  rows ledger := ledger.1.rows
  admits moment := moment.time.IsValid
  moves position before _ after := Moves id position before.1 after.1
  stays _ _ _ := ⟨⟨[], (List.append_nil _).symm, fun _ none => (by cases none)⟩, Or.inl rfl⟩

structure PreservesFor (position : Nat) (before after : Ledger) : Prop where
  entries : ∀ entry ∈ before.entries, entry ∈ after.entries
  pending : before.Pending position → after.Pending position
  overtaken : ∀ loaded, after.overtaken = some (position, loaded) →
    before.overtaken = some (position, loaded)

variable {ledger after : { ledger : Ledger // ledger.Truthful id edits base }}

theorem preservesFor_of_later (later : (sharing id edits base).Later position ledger after) :
    PreservesFor position ledger.1 after.1 := by
  induction later with
  | refl => exact ⟨fun _ member => member, fun pending => pending, fun _ same => same⟩
  | @tail middle last _ other ih =>
      obtain ⟨other, _, different, _, moved⟩ := other
      have moved : Moves id other middle.1 last.1 := moved
      obtain ⟨added, entries, own⟩ := moved.entries
      refine ⟨fun entry member => ?_, fun pending entry member => ?_, fun loaded lost => ?_⟩
      · rw [entries]
        exact List.mem_append_left _ (ih.entries entry member)
      · rw [entries] at member
        rcases List.mem_append.mp member with earlier | new
        · exact ih.pending pending entry earlier
        · rw [own entry new]
          exact different
      · rcases moved.overtaken with same | ⟨_, version, theirs, _⟩
        · exact ih.overtaken loaded (same.symm.trans lost)
        · obtain ⟨rfl, _⟩ := Prod.mk.inj (Option.some.inj (theirs.symm.trans lost))
          exact absurd rfl different

theorem Blameless.later (blameless : ledger.1.Blameless position)
    (later : (sharing id edits base).Later position ledger after) :
    after.1.Blameless position :=
  fun loaded lost => blameless loaded ((preservesFor_of_later later).overtaken loaded lost)

theorem Logged.later {response : HttpResponse} (logged : ledger.1.Logged position response)
    (later : (sharing id edits base).Later position ledger after) :
    after.1.Logged position response := by
  obtain ⟨entry, member, own, answers⟩ := logged
  exact ⟨entry, (preservesFor_of_later later).entries entry member, own, answers⟩

/-- The entry of an edit is made; if it lost a version, that is the one which it had loaded. -/
structure Recorded (position : Nat) (given : Except Failure EditAttempt) (response : HttpResponse)
    (ledger : Ledger) : Prop where
  logged : ledger.Logged position response
  lost : ∀ loaded, ledger.overtaken = some (position, loaded) →
    ∃ stamped, given = .ok ⟨loaded, stamped, .ok ()⟩

theorem Recorded.later {given : Except Failure EditAttempt} {response : HttpResponse}
    (settled : ledger.1.Recorded position given response)
    (later : (sharing id edits base).Later position ledger after) :
    after.1.Recorded position given response :=
  ⟨settled.logged.later later,
    fun loaded lost => settled.lost loaded ((preservesFor_of_later later).overtaken loaded lost)⟩

theorem Recorded.of_blameless {response : HttpResponse} {ledger : Ledger}
    (logged : ledger.Logged position response) (blameless : ledger.Blameless position)
    (given : Except Failure EditAttempt) : ledger.Recorded position given response :=
  ⟨logged, fun loaded lost => absurd lost (blameless loaded)⟩

/-! The steps of an edit -/

def record (ledger : Ledger) (entry : Entry) (changed : Rows)
    (overtaken : Option (Nat × Document)) : Ledger :=
  ⟨changed, ledger.entries ++ [entry], overtaken⟩

theorem entries_record {ledger : Ledger} {entry : Entry} {changed : Rows}
    {overtaken : Option (Nat × Document)} (own : entry.position = position) :
    ∃ added, (ledger.record entry changed overtaken).entries = ledger.entries ++ added ∧
      ∀ entry ∈ added, entry.position = position :=
  ⟨[entry], rfl, fun other member => by rw [List.mem_singleton.mp member, own]⟩

theorem logged_record (ledger : Ledger) (entry : Entry) (changed : Rows)
    (overtaken : Option (Nat × Document)) :
    (ledger.record entry changed overtaken).Logged entry.position entry.response :=
  ⟨entry, List.mem_append_right _ List.mem_cons_self, rfl, rfl⟩

theorem Truthful.record {ledger : Ledger} (truthful : ledger.Truthful id edits base) (entry : Entry)
    {edit : Edit} (listed : edits[entry.position]? = some edit)
    (called : entry.errand.call = edit.call id) (proper : entry.errand.time.IsValid)
    (pending : ledger.Pending entry.position) {changed : Rows}
    (serves : edit.serve id entry.errand.time ledger.rows = (entry.response, changed)) :
    (ledger.record entry changed ledger.overtaken).Truthful id edits base where
  amends := by
    have amends := truthful.amends.serve edit proper
    rw [serves] at amends
    exact amends
  ordered noMore := .snoc (truthful.ordered noMore) listed called proper pending serves

section Steps

variable {repository : Repository} {edit : Edit} {document : Document}

def entry (id : RecordId) (position : Nat) (edit : Edit) (moment : Moment)
    (response : HttpResponse) : Entry :=
  ⟨position, ⟨edit.call id, moment.time, moment.freshId⟩, response⟩

theorem enters {moment : Moment} (now : Moment) {response : HttpResponse} {changed : Rows}
    (listed : edits[position]? = some edit) (proper : moment.time.IsValid)
    (pending : ledger.1.Pending position)
    (serves : edit.serve id moment.time ledger.1.rows = (response, changed)) :
    ∃ after : { ledger : Ledger // ledger.Truthful id edits base },
      (sharing id edits base).moves position ledger now after ∧
      (sharing id edits base).rows after = changed ∧ after.1.Logged position response ∧
      after.1.overtaken = ledger.1.overtaken :=
  ⟨⟨_, ledger.2.record (entry id position edit moment response) listed rfl proper pending
      serves⟩,
    ⟨entries_record rfl, Or.inl rfl⟩, rfl, logged_record _ _ _ _, rfl⟩

def Loaded (id : RecordId) (base : Rows) (position : Nat) (edit : Edit) :
    Except Failure Document → Ledger → Prop
  | .error failure, ledger => ledger.Logged position (ofFailure failure)
  | .ok document, ledger =>
    Record.id? document = some id ∧ (FaithfulRecord.metadata document).IsValid ∧
      ((ledger.Pending position ∧
          ∀ time failure, base.update (edit.stamp document time) ≠ .error failure) ∨
        ∃ failure, ledger.Logged position (ofFailure failure) ∧
          ∀ time, base.update (edit.stamp document time) = .error failure)

theorem safe_load (stored : repository.hasStore = true) (listed : edits[position]? = some edit)
    (pending : ledger.1.Pending position) (blameless : ledger.1.Blameless position) :
    (sharing id edits base).Safe position (fun met => met.1.Blameless position)
      (load repository id)
      (fun loaded met => met.1.Blameless position ∧ met.1.Loaded id base position edit loaded)
      ledger := by
  refine Sharing.Safe.bind (Sharing.safe_uncached stored "find_matches" .find
    (fun now later => blameless.later later) fun now moment later proper => ?_)
  have waits := (preservesFor_of_later later).pending pending
  have clean := blameless.later later
  have amends := now.2.amends
  have found : ((sharing id edits base).rows now).find ([] : List Document)
      { Query.all with filter := .byId id } =
        .ok (now.1.rows.readByKey Record.blank id).toOption.toList :=
    amends.faithful.find_byId amends.named id
  rw [found]
  cases read : now.1.rows.readByKey (Record.blank : Document) id with
  | error failure =>
      obtain ⟨after, moved, rows, logged, same⟩ :=
        enters moment listed proper waits (Edit.serve_of_error read)
      refine ⟨after, moved, rows, Sharing.safe_done ⟨fun loaded lost => ?_, logged⟩⟩
      exact clean loaded (same.symm.trans lost)
  | ok document =>
      have holds := (amends.faithful.of_readByKey read).1
      by_cases refuses : ∃ time failure, base.update (edit.stamp document time) = .error failure
      · obtain ⟨time, failure, refused⟩ := refuses
        have always := Edit.update_eq_error (.refl id base) holds.own refused
        have serves := Edit.serve_of_ok edit moment.time read
        rw [Edit.update_eq_error amends.alike holds.own refused moment.time] at serves
        obtain ⟨after, moved, rows, logged, same⟩ := enters moment listed proper waits serves
        refine ⟨after, moved, rows, Sharing.safe_done ⟨fun loaded lost => ?_, holds.own,
          holds.valid, Or.inr ⟨failure, logged, always⟩⟩⟩
        exact clean loaded (same.symm.trans lost)
      · refine ⟨now, (sharing id edits base).stays position now moment, rfl,
          Sharing.safe_done ⟨clean, holds.own, holds.valid, Or.inl ⟨waits, ?_⟩⟩⟩
        exact fun time failure refused => refuses ⟨time, failure, refused⟩

theorem replaces {moment : Moment} (now : Moment) {changed : Rows}
    (listed : edits[position]? = some edit) (proper : moment.time.IsValid)
    (pending : ledger.1.Pending position) (blameless : ledger.1.Blameless position)
    (own : Record.id? document = some id) (valid : (FaithfulRecord.metadata document).IsValid)
    (updated : ledger.1.rows.update (edit.stamp document moment.time) = .ok changed) :
    ∃ after : { ledger : Ledger // ledger.Truthful id edits base },
      (sharing id edits base).moves position ledger now after ∧
      (sharing id edits base).rows after = changed ∧
      after.1.Recorded position (.ok ⟨document, edit.stamp document moment.time, .ok ()⟩)
        (edit.reply id (edit.stamp document moment.time)) := by
  by_cases current : ledger.1.rows.readByKey (Record.blank : Document) id = .ok document
  · have serves := Edit.serve_of_ok edit moment.time current
    rw [updated] at serves
    obtain ⟨after, moved, rows, logged, same⟩ :=
      enters now listed proper pending serves
    refine ⟨after, moved, rows, .of_blameless logged (fun loaded lost => ?_) _⟩
    exact blameless loaded (same.symm.trans lost)
  · let entry := entry id position edit moment
      (edit.reply id (edit.stamp document moment.time))
    let after := ledger.1.record entry changed (some (position, document))
    have truthful : after.Truthful id edits base :=
      ⟨ledger.2.amends.update proper own valid updated, fun noMore => by cases noMore⟩
    refine ⟨⟨after, truthful⟩, ⟨entries_record rfl, Or.inr ⟨pending, document, rfl, current⟩⟩, rfl,
      logged_record _ entry _ _, fun loaded lost => ?_⟩
    obtain ⟨_, rfl⟩ := Prod.mk.inj (Option.some.inj lost)
    exact ⟨_, rfl⟩

theorem safe_stamping {cut : { ledger : Ledger // ledger.Truthful id edits base } → Prop}
    (cuts : ∀ now, (sharing id edits base).Later position ledger now → cut now) :
    (sharing id edits base).Safe position cut (edit.stamping document)
      (fun given met => ∃ moment : Moment, moment.time.IsValid ∧
        given = .ok (edit.stamp document moment.time) ∧
        (sharing id edits base).Later position ledger met) ledger := by
  cases edit with
  | update request =>
      exact Sharing.safe_act cuts (fun _ _ => rfl) fun moment _ _ admitted later =>
        Sharing.safe_done ⟨moment, admitted, rfl, later⟩
  | softDelete =>
      exact Sharing.safe_act cuts (fun _ _ => rfl) fun moment _ _ admitted later =>
        Sharing.safe_done ⟨moment, admitted, rfl, later⟩

theorem safe_replace (listed : edits[position]? = some edit)
    (blameless : ledger.1.Blameless position)
    (loaded : ledger.1.Loaded id base position edit (.ok document)) :
    (sharing id edits base).Safe position (fun met => met.1.Blameless position)
      (edit.replace repository document)
      (fun given met => met.1.Recorded position given (edit.answer id given)) ledger := by
  have cuts : ∀ now, (sharing id edits base).Later position ledger now →
      now.1.Blameless position := fun now later => blameless.later later
  refine Sharing.Safe.bind ((safe_stamping cuts).mono (fun _ holds => holds) ?_)
  rintro _ met ⟨moment, proper, rfl, later⟩
  refine Sharing.Safe.bind (Sharing.safe_deadline edit.operation
    (fun now onward => cuts now (later.trans onward)) fun now onward => ?_)
  obtain ⟨own, valid, told⟩ := loaded
  refine Sharing.safe_writeCall .update
    (fun last more => cuts last (later.trans (onward.trans more))) ?_ ?_
  · intro last failure more refused
    have reached := later.trans (onward.trans more)
    have alike := last.2.amends.alike
    rcases told with ⟨_, accepted⟩ | ⟨known, logged, refuses⟩
    · exact absurd (Edit.update_eq_error alike.symm own refused moment.time) (accepted _ _)
    · have again := Edit.update_eq_error alike own (refuses moment.time) moment.time
      obtain rfl := Except.error.inj (again.symm.trans refused)
      exact Sharing.safe_done (.of_blameless (logged.later reached) (cuts last reached) _)
  · intro last present rows more _ changed
    have reached := later.trans (onward.trans more)
    have alike := last.2.amends.alike
    rcases told with ⟨pending, _⟩ | ⟨known, _, refuses⟩
    · obtain ⟨after, moved, shown, settled⟩ := replaces present listed proper
        ((preservesFor_of_later reached).pending pending) (cuts last reached) own valid changed
      exact ⟨after, moved, shown, Sharing.safe_done settled⟩
    · have again := Edit.update_eq_error alike own (refuses moment.time) moment.time
      cases again.symm.trans changed

theorem safe_attempt (ledger : { ledger : Ledger // ledger.Truthful id edits base })
    (stored : repository.hasStore = true) (listed : edits[position]? = some edit)
    (pending : ledger.1.Pending position) (blameless : ledger.1.Blameless position) :
    (sharing id edits base).Safe position (fun met => met.1.Blameless position)
      (edit.attempt repository id)
      (fun given met => met.1.Recorded position given (edit.answer id given)) ledger := by
  refine Sharing.Safe.bind ((safe_load stored listed pending blameless).mono
    (fun _ holds => holds) ?_)
  rintro (failure | document) met ⟨blameless, loaded⟩
  · exact Sharing.safe_done (.of_blameless loaded blameless _)
  · exact safe_replace listed blameless loaded

theorem safe_finish {given : Except Failure EditAttempt}
    (settled : ledger.1.Recorded position given (edit.answer id given)) :
    (sharing id edits base).Safe position
      (fun met => ∃ response, met.1.Recorded position given response)
      (edit.finish repository id given)
      (fun response met => met.1.Recorded position given response) ledger := by
  rcases given with failure | ⟨loaded, stamped, failure | done⟩
  · exact Sharing.safe_done settled
  · exact Sharing.safe_done settled
  · refine Sharing.safe_act (fun now later => ⟨_, settled.later later⟩)
      (fun moment state => Repository.store_invalidateRecord repository _ moment state) ?_
    exact fun _ _ _ _ later => Sharing.safe_done (settled.later later)

end Steps

end Ledger

/-! How many steps an edit takes -/

namespace Edit

variable {repository : Repository}

theorem ends_load (stored : repository.hasStore = true) (id : RecordId) :
    (load repository id).EndsWithin 3 := by
  change Activity.EndsWithin _ (3 + 0)
  refine (ends_uncached stored "find_matches" .find _).bind fun found => ?_
  rcases found with failure | ⟨⟩ | _ <;> trivial

theorem ends_replace (edit : Edit) (document : Document) :
    (edit.replace repository document).EndsWithin 4 := by
  have stamping : (edit.stamping document).EndsWithin 1 := by
    cases edit <;> exact ⟨0, by omega, fun _ => trivial⟩
  change Activity.EndsWithin _ (1 + 3)
  refine stamping.bind fun stamped => ?_
  cases stamped with
  | error failure => trivial
  | ok stamped =>
      change Activity.EndsWithin _ (3 + 0)
      exact (ends_deadline edit.operation (ends_call .update _) (by omega)).bind fun _ => trivial

theorem ends_attempt (stored : repository.hasStore = true) (edit : Edit) (id : RecordId) :
    (edit.attempt repository id).EndsWithin 7 := by
  change Activity.EndsWithin _ (3 + 4)
  refine (ends_load stored id).bind fun loaded => ?_
  cases loaded with
  | error failure => trivial
  | ok document => exact ends_replace edit document

theorem ends_finish (edit : Edit) (id : RecordId) (given : Except Failure EditAttempt) :
    (edit.finish repository id given).EndsWithin 1 := by
  cases given with
  | error failure => trivial
  | ok attempt =>
      change Activity.EndsWithin _ (1 + 0)
      exact (ends_finishWrite .strict _ _ attempt.outcome).bind fun _ => trivial

end Edit

/-! Edits side by side -/

def editors (repository : Repository) (id : RecordId) (state : State) (edits : List Edit) :
    Pool State (Staged State (Except Failure EditAttempt) HttpResponse) :=
  ⟨state, edits.map fun edit =>
    Staged.enter (edit.finish repository id) (edit.attempt repository id)⟩

theorem run_editors {repository : Repository} (stored : repository.hasStore = true)
    (id : RecordId) (state : State) {edits : List Edit} (valid : ∀ edit ∈ edits, edit.Valid)
    (turns : List (Nat × Moment)) :
    ((editors repository id state edits).run Staged.advance turns).map Staged.activity =
      Pool.run (fun moment rest => rest.advance moment 0)
        ⟨state, edits.map fun edit => (edit.call id).activity repository⟩ turns :=
  Staged.run_enter (fun edit member => Edit.call_eq_attempt stored (valid edit member)) state turns

theorem ended_editors {repository : Repository} (stored : repository.hasStore = true)
    (id : RecordId) (state : State) {edits : List Edit} {turns : List (Nat × Moment)}
    (enough : ∀ position < edits.length, 8 ≤ (turns.map (·.1)).count position) :
    ∀ thread ∈ ((editors repository id state edits).run Staged.advance turns).threads,
      thread.result?.isSome = true :=
  Pool.ended_of_enter state
    (fun edit _ => (Edit.ends_attempt stored edit id).bind (edit.ends_finish id)) enough

/-- Whether an update that succeeded in this turn took the place of the version it had loaded. -/
def isCurrent (id : RecordId) (before after : Pool State
    (Staged State (Except Failure EditAttempt) HttpResponse)) (position : Nat) : Bool :=
  match before.given? position, after.given? position with
  | none, some (.ok ⟨loaded, _, .ok ()⟩) =>
    before.state.store.rows.readByKey Record.blank id = .ok loaded
  | _, _ => true

def isUndisturbed (id : RecordId) :
    Pool State (Staged State (Except Failure EditAttempt) HttpResponse) → List (Nat × Moment) → Bool
  | _, [] => true
  | pool, turn :: rest =>
    isCurrent id pool (pool.turn Staged.advance turn) turn.1 &&
      isUndisturbed id (pool.turn Staged.advance turn) rest

section Run

variable {id : RecordId} {edits : List Edit} {base : Rows}
  {pool : Pool State (Staged State (Except Failure EditAttempt) HttpResponse)}
  {world : (Ledger.sharing id edits base).Seen Document}

def Stand (pool : Pool State (Staged State (Except Failure EditAttempt) HttpResponse))
    (world : (Ledger.sharing id edits base).Seen Document) : Prop :=
  pool.Stands ((Ledger.sharing id edits base).protocol Document)
    (fun position world => world.view.1.Blameless position)
    (fun position given world => ∃ response, world.view.1.Recorded position given response)
    (fun position given response world => world.view.1.Recorded position given response) world

theorem lasting_recorded : Lasting ((Ledger.sharing id edits base).protocol Document)
    fun position given response world => world.view.1.Recorded position given response :=
  fun _ _ _ _ _ other settled => settled.later (Sharing.later_view (.single other))

theorem Stand.recorded (stand : Stand pool world) {position : Nat}
    {thread : Staged State (Except Failure EditAttempt) HttpResponse}
    {given : Except Failure EditAttempt} (found : pool.threads[position]? = some thread)
    (gave : thread.given? = some given) :
    ∃ response, world.view.1.Recorded position given response := by
  rcases Pool.Stands.of_second stand found gave with settled | settled
  · exact settled
  · exact settled

theorem Stand.current_of_lost {turn : Nat × Moment} (stand : Stand pool world)
    {after : (Ledger.sharing id edits base).Seen Document}
    (stood : Stand (pool.turn Staged.advance turn) after)
    {thread : Staged State (Except Failure EditAttempt) HttpResponse}
    (found : pool.threads[turn.1]? = some thread) {loaded : Document}
    (pending : world.view.1.Pending turn.1)
    (lost : after.view.1.overtaken = some (turn.1, loaded))
    (current : isCurrent id pool (pool.turn Staged.advance turn) turn.1 = true) :
    world.view.1.rows.readByKey Record.blank id = .ok loaded := by
  have moves := Pool.getElem?_turn Staged.advance found
  have before : pool.given? turn.1 = thread.given? := by rw [Pool.given?, found]; rfl
  have gives : (pool.turn Staged.advance turn).given? turn.1 =
      (thread.advance turn.2 pool.state).1.given? := by
    rw [Pool.given?, moves]
    rfl
  cases given : (thread.advance turn.2 pool.state).1.given? with
  | none => exact absurd lost (Pool.Stands.of_first stood moves given loaded)
  | some outcome =>
      obtain ⟨response, settled⟩ := stood.recorded moves given
      obtain ⟨stamped, rfl⟩ := settled.lost loaded lost
      -- If its first part was over before, then it had an entry, and was not pending.
      cases earlier : thread.given? with
      | none =>
          rw [isCurrent, before.trans earlier, gives.trans given] at current
          have rows : world.view.1.rows = pool.state.store.rows := by
            rw [← Pool.Stands.state stand]
            exact world.shows
          rw [rows]
          exact of_decide_eq_true current
      | some known =>
          obtain ⟨_, settled⟩ := stand.recorded found earlier
          obtain ⟨entry, member, own, _⟩ := settled.logged
          exact absurd own (pending entry member)

theorem Stand.turn (stand : Stand pool world) {turn : Nat × Moment} (proper : turn.2.time.IsValid)
    (kept : world.view.1.overtaken = none)
    (current : isCurrent id pool (pool.turn Staged.advance turn) turn.1 = true) :
    ∃ after : (Ledger.sharing id edits base).Seen Document,
      Stand (pool.turn Staged.advance turn) after ∧ after.view.1.overtaken = none := by
  cases found : pool.threads[turn.1]? with
  | none =>
      rw [Pool.turn_of_missing Staged.advance found]
      exact ⟨world, stand, kept⟩
  | some thread =>
      obtain ⟨after, moved, stood⟩ := Pool.Stands.turn lasting_recorded stand proper
      refine ⟨after, stood, ?_⟩
      have moved : Ledger.Moves id turn.1 world.view.1 after.view.1 := moved
      rcases moved.overtaken with same | ⟨pending, loaded, lost, other⟩
      · exact same.trans kept
      · exact absurd (stand.current_of_lost stood found pending lost current) other

theorem Stand.run (stand : Stand pool world) {turns : List (Nat × Moment)}
    (proper : ∀ turn ∈ turns, turn.2.time.IsValid) (kept : world.view.1.overtaken = none)
    (undisturbed : isUndisturbed id pool turns = true) :
    ∃ after : (Ledger.sharing id edits base).Seen Document,
      Stand (pool.run Staged.advance turns) after ∧ after.view.1.overtaken = none := by
  induction turns generalizing pool world with
  | nil => exact ⟨world, stand, kept⟩
  | cons turn rest ih =>
      obtain ⟨current, onward⟩ := (Bool.and_eq_true _ _).mp undisturbed
      obtain ⟨after, stood, still⟩ := stand.turn (proper turn List.mem_cons_self) kept current
      exact ih stood (fun other member => proper other (.tail _ member)) still onward

theorem Stand.logged (stand : Stand pool world) (ended : ∀ thread ∈ pool.threads,
    thread.result?.isSome = true) {position : Nat} (inside : position < pool.threads.length) :
    ∃ entry ∈ world.view.1.entries, entry.position = position ∧
      pool.result? position = some entry.response := by
  have found := List.getElem?_eq_getElem inside
  obtain ⟨response, result⟩ :=
    Option.isSome_iff_exists.mp (ended _ (List.mem_of_getElem? found))
  obtain ⟨given, _, settled⟩ := Pool.Stands.of_result stand found result
  obtain ⟨entry, member, own, rfl⟩ := settled.logged
  refine ⟨entry, member, own, ?_⟩
  rw [Pool.result?, found]
  exact result

theorem Stand.entries_perm (stand : Stand pool world)
    (ended : ∀ thread ∈ pool.threads, thread.result?.isSome = true)
    (count : pool.threads.length = edits.length)
    (ordered : Serial id edits base world.view.1.entries world.view.1.rows) :
    (world.view.1.entries.map Entry.position).Perm (List.range edits.length) := by
  refine (List.perm_ext_iff_of_nodup ordered.nodup List.nodup_range).mpr fun position => ?_
  rw [List.mem_range, List.mem_map]
  constructor
  · rintro ⟨entry, member, rfl⟩
    exact ordered.position_lt member
  · intro inside
    obtain ⟨entry, member, own, _⟩ := stand.logged ended (count ▸ inside)
    exact ⟨entry, member, own⟩

theorem stand_editors {repository : Repository} {state : State}
    (stored : repository.hasStore = true) (calm : state.store.faults = [])
    (truthful : Ledger.Truthful id edits state.store.rows ⟨state.store.rows, [], none⟩) :
    Stand (editors repository id state edits)
      (⟨state, ⟨_, truthful⟩, calm, rfl⟩ :
        (Ledger.sharing id edits state.store.rows).Seen Document) := by
  refine ⟨rfl, fun position thread found => ?_⟩
  obtain ⟨edit, listed, rfl⟩ := by
    simpa only [editors, List.getElem?_map, Option.map_eq_some_iff] using found
  have safe := Ledger.safe_attempt ⟨_, truthful⟩ stored listed
    (fun _ none => by cases none) (fun _ impossible => by cases impossible)
  let Seen := { ledger : Ledger // ledger.Truthful id edits state.store.rows }
  exact Sharing.stands_enter (fun position (seen : Seen) => seen.1.Blameless position)
    (fun position given (seen : Seen) => ∃ response, seen.1.Recorded position given response)
    (fun position given response (seen : Seen) => seen.1.Recorded position given response)
    (safe.mono (fun _ holds => holds) fun _ _ settled => Ledger.safe_finish settled)

end Run

/--
The turns are those of the calls. After eight turns each, all have answered. If each one that
succeeded took the place of the version that it had loaded, then there is an order in which they
answer the same and leave the same rows, one after the other.
-/
theorem edits_serializable {repository : Repository} {state : State} {id : RecordId}
    {edits : List Edit} {turns : List (Nat × Moment)}
    {pool : Pool State (Staged State (Except Failure EditAttempt) HttpResponse)}
    (stored : repository.hasStore = true) (reliable : Edit.Reliable repository state)
    (named : state.store.rows.Named) (faithful : state.store.rows.Faithful Document)
    (valid : ∀ edit ∈ edits, edit.Valid) (proper : ∀ turn ∈ turns, turn.2.time.IsValid)
    (enough : ∀ position < edits.length, 8 ≤ (turns.map (·.1)).count position)
    (undisturbed : isUndisturbed id (editors repository id state edits) turns = true)
    (ran : (editors repository id state edits).run Staged.advance turns = pool)
    (instants : Nat → Instant) (step : Nat) :
    (∀ thread ∈ pool.threads, thread.result?.isSome = true) ∧
    pool.map Staged.activity = Pool.run (fun moment rest => rest.advance moment 0)
      ⟨state, edits.map fun edit => (edit.call id).activity repository⟩ turns ∧
    ∃ entries : List Entry,
      (entries.map Entry.position).Perm (List.range edits.length) ∧
      (∀ entry ∈ entries, pool.result? entry.position = some entry.response ∧
        ∃ edit, edits[entry.position]? = some edit ∧ entry.errand.call = edit.call id) ∧
      ∃ (after : State) (next : Nat),
        answerErrands repository instants (entries.map Entry.errand) step state =
          (entries.map Entry.response, after, next) ∧
        after.store.rows = pool.state.store.rows := by
  have truthful : Ledger.Truthful id edits state.store.rows ⟨state.store.rows, [], none⟩ :=
    ⟨.refl id named faithful, fun _ => .nil⟩
  have stand := stand_editors stored reliable.calm truthful
  obtain ⟨last, stood, kept⟩ := stand.run proper rfl undisturbed
  have ended := ended_editors stored id state enough
  rw [ran] at stood ended
  have ordered := last.view.2.ordered kept
  have count : pool.threads.length = edits.length := by
    rw [← ran, Pool.length_run, editors, List.length_map]
  have rows : last.view.1.rows = pool.state.store.rows := by
    rw [← Pool.Stands.state stood]
    exact last.shows
  refine ⟨ended, ran ▸ run_editors stored id state valid turns, last.view.1.entries,
    stood.entries_perm ended count ordered,
    fun entry member => ⟨?_, ordered.listed member⟩, ?_⟩
  · obtain ⟨other, listed, same, result⟩ :=
      stood.logged ended (count ▸ ordered.position_lt member)
    obtain rfl := List.inj_on_of_nodup_map ordered.nodup listed member same
    exact result
  · obtain ⟨after, next, answered, left, _⟩ :=
      ordered.answers reliable stored named faithful valid instants step
    exact ⟨after, next, answered, left.trans rows⟩

def draft : Document := ⟨some ⟨"a"⟩, "x", "1", .none⟩

def draftRows : Rows := ((Rows.create .empty draft).toOption).getD .empty

def draftState : State :=
  ⟨.single ⟨8, .empty, .empty, .zero⟩, .empty, ⟨draftRows, .zero, [], none⟩⟩

def editorsMoment (position : Nat) : Moment :=
  ⟨⟨0⟩, ⟨2024, 1, 2, 0, 0, position, 0⟩, ⟨"b"⟩⟩

def contentOf (id : RecordId) (state : State) : Option String :=
  state.store.rows[id]?.bind fun row => (row.get "content").text?

def revise : Edit := .update ⟨none, some "2"⟩

def rename : Edit := .update ⟨some "y", none⟩

theorem edits_serializable_overlapping :
    ∃ (pool : Pool State (Staged State (Except Failure EditAttempt) HttpResponse))
      (entries : List Entry) (after : State) (next : Nat),
      (editors Repository.standard ⟨"a"⟩ draftState [revise, .softDelete]).run Staged.advance
        (Pool.rounds editorsMoment [(0, 5), (1, 6), (0, 3), (1, 2)]) = pool ∧
      (entries.map Entry.position).Perm (List.range 2) ∧
      answerErrands Repository.standard Instant.mk (entries.map Entry.errand) 0 draftState =
        (entries.map Entry.response, after, next) ∧
      after.store.rows = pool.state.store.rows := by
  let turns := Pool.rounds editorsMoment [(0, 5), (1, 6), (0, 3), (1, 2)]
  let pool := (editors Repository.standard ⟨"a"⟩ draftState [revise, .softDelete]).run
    Staged.advance turns
  have created : Rows.create .empty draft = .ok draftRows := rfl
  have named : draftState.store.rows.Named := Rows.named_empty.create created
  have faithful : draftState.store.rows.Faithful Document :=
    (Rows.faithful_empty.create Metadata.isValid_none created rfl).2
  have reliable : Edit.Reliable Repository.standard draftState :=
    ⟨rfl, fun latency impossible => by cases impossible⟩
  have valid : ∀ edit ∈ [revise, .softDelete], edit.Valid := by
    intro edit member
    rcases List.mem_cons.mp member with rfl | last
    · rfl
    · obtain rfl := List.mem_singleton.mp last
      trivial
  have proper : ∀ turn ∈ turns, turn.2.time.IsValid := by decide +kernel
  have undisturbed : isUndisturbed ⟨"a"⟩
      (editors Repository.standard ⟨"a"⟩ draftState [revise, .softDelete]) turns = true := by
    decide +kernel
  have enough : ∀ position < 2, 8 ≤ (turns.map (·.1)).count position := by decide
  have ran : (editors Repository.standard ⟨"a"⟩ draftState [revise, .softDelete]).run
    Staged.advance turns = pool := rfl
  obtain ⟨_, _, entries, order, _, after, next, answered, left⟩ := edits_serializable rfl reliable
    named faithful valid proper enough undisturbed ran Instant.mk 0
  exact ⟨pool, entries, after, next, ran, order, answered, left⟩

/--
If both load the document before either stores it, then both succeed, but what the first one wrote
is gone. It stays in either order of the two, one after the other.
-/
theorem edits_lose_update :
    ∃ (pool : Pool State (Staged State (Except Failure EditAttempt) HttpResponse))
      (first second : HttpResponse),
      (editors Repository.standard ⟨"a"⟩ draftState [revise, rename]).run Staged.advance
        (Pool.rounds editorsMoment [(0, 2), (1, 2), (0, 4), (1, 4)]) = pool ∧
      pool.result? 0 = some first ∧ first.status = 200 ∧
      pool.result? 1 = some second ∧ second.status = 200 ∧
      contentOf ⟨"a"⟩ pool.state = some "1" ∧
      ∀ order ∈ [[revise, rename], [rename, revise]],
        contentOf ⟨"a"⟩ (answerErrands Repository.standard Instant.mk
          (order.map fun edit => ⟨edit.call ⟨"a"⟩, (editorsMoment 0).time, ⟨"b"⟩⟩) 0
          draftState).2.1 = some "2" := by
  refine ⟨_, _, _, rfl, rfl, rfl, rfl, rfl, ?_, ?_⟩
  · decide +kernel
  · decide +kernel

end Service

end CachedStore
