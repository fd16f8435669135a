import CachedStore.Activity.Task

/-!
Concurrent activities under way, and how they go on from turn to turn. The parts of a group all go
on in every turn, in their order. Of a crowd only those parts go on that were woken, in the order in
which they were. When everything pauses, the clock moves on to the next tick at which a timer goes
off.
-/

namespace CachedStore

/-- Activities under way. The parts of a crowd are numbered, and due in the order of `due`. -/
inductive Progress (σ : Type) (α : Type) : Type 1 where
  | finished (result : α)
  | task (task : Task σ α)
  | waiting (timer : Timer) (part : Progress σ α)
  | group (parts : List (Progress σ α)) (gather : List α → α)
  | crowd (due resting : List (Nat × Progress σ α)) (gather : List α → α)

structure Alarm where
  tick : Nat
  order : Nat
  place : Place
deriving DecidableEq, Repr

namespace Alarm

def ofTimer? (place : Place) : Timer → Option Alarm
  | .unset _ => none
  | .set tick order => some ⟨tick, order, place⟩

end Alarm

/-- How far a lap over the due parts of a crowd has come since a part last finished. -/
structure Lap where
  unfinished : Nat
  paused : Nat
  restless : Nat
deriving DecidableEq, Repr

namespace Lap

/-- A lap ends early once every part has paused in it, or two parts ask for another turn. -/
def isOver (lap : Lap) : Bool := lap.paused == lap.unfinished || 2 ≤ lap.restless

def finish (lap : Lap) : Lap := ⟨lap.unfinished - 1, 0, 0⟩

def pause (lap : Lap) (restless : Bool) : Lap :=
  ⟨lap.unfinished, lap.paused + 1, lap.restless + restless.toNat⟩

end Lap

namespace Progress

variable {σ α : Type}

def result? : Progress σ α → Option α
  | finished result => some result
  | _ => none

def ofTask : Task σ α → Progress σ α
  | .finished result => finished result
  | running => task running

def ofGroup (parts : List (Progress σ α)) (gather : List α → α) : Progress σ α :=
  match parts.mapM result? with
  | some results => finished (gather results)
  | none => group parts gather

def ofCrowd (due resting : List (Nat × Progress σ α)) (gather : List α → α) : Progress σ α :=
  let parts := ((due ++ resting).mergeSort fun one other => one.1 ≤ other.1).map (·.2)
  match parts.mapM result? with
  | some results => finished (gather results)
  | none => crowd due resting gather

/--
How activities at a place go on in a turn. The second part of the answer tells whether they ask for
another turn at the same tick.
-/
abbrev Resumption (σ α : Type) : Type 1 :=
  Place → Progress σ α → Turn → σ → Progress σ α × Bool × Turn × σ

def resumeAll (resume : Resumption σ α) (place : Place) (position : Nat) :
    List (Progress σ α) → Turn → σ → List (Progress σ α) × Bool × Turn × σ
  | [], turn, state => ([], false, turn, state)
  | part :: rest, turn, state =>
    let (part, again, turn, state) := resume (place ++ [position]) part turn state
    let (rest, others, turn, state) := resumeAll resume place (position + 1) rest turn state
    (part :: rest, again || others, turn, state)

/--
Lets the due parts of a crowd go on in their order, up to the end of the lap. A part that asks for
another turn becomes due once more. `looks` bounds how often parts go on.
-/
def resumeDue (resume : Resumption σ α) (place : Place) :
    (looks : Nat) → Lap → (due resting : List (Nat × Progress σ α)) → (again : Bool) → Turn → σ →
      (List (Nat × Progress σ α) × List (Nat × Progress σ α)) × Bool × Turn × σ
  | looks + 1, lap, (position, part) :: due, resting, again, turn, state =>
    let (part, restless, turn, state) := resume (place ++ [position]) part turn state
    if part.result?.isSome then
      resumeDue resume place looks lap.finish due ((position, part) :: resting) again turn state
    else
      let (due, resting) :=
        if restless then (due ++ [(position, part)], resting)
        else (due, (position, part) :: resting)
      if (lap.pause restless).isOver then ((due, resting), true, turn, state)
      else
        resumeDue resume place looks (lap.pause restless) due resting (again || restless)
          turn state
  | _, _, due, resting, again, turn, state => ((due, resting), again, turn, state)

def resume (supply : Nat → Moment) : (depth : Nat) → Resumption σ α
  | 0, _, progress, turn, state => (progress, false, turn, state)
  | depth + 1, place, progress, turn, state =>
    match progress with
    | finished result => (finished result, false, turn, state)
    | task running =>
      let (running, turn, state) := running.resume supply place turn state
      (ofTask running, false, turn, state)
    | waiting timer part =>
      match turn.check place timer with
      | (none, turn) => resume supply depth place part turn state
      | (some timer, turn) => (waiting timer part, false, turn, state)
    | group parts gather =>
      let (parts, again, turn, state) :=
        resumeAll (resume supply depth) place 0 parts turn state
      (ofGroup parts gather, again, turn, state)
    | crowd due resting gather =>
      let unfinished := due.length + (resting.filter (·.2.result?.isNone)).length
      let ((due, resting), again, turn, state) :=
        resumeDue (resume supply depth) place ((unfinished + 1) * (unfinished + 1))
          ⟨unfinished, 0, 0⟩ due resting false turn state
      (ofCrowd due resting gather, again, turn, state)

/-- Wakes a place: on the way to it, each part of a crowd becomes due if it is not. -/
def wake : Place → Progress σ α → Progress σ α
  | position :: place, group parts gather => group (parts.modify position (wake place)) gather
  | position :: place, crowd due resting gather =>
    let rouse := fun (entry : Nat × Progress σ α) =>
      if entry.1 = position then (entry.1, wake place entry.2) else entry
    let (woken, resting) := resting.partition (·.1 == position)
    crowd ((due ++ woken).map rouse) resting gather
  | _, part => part

mutual

def alarms (place : Place) : Progress σ α → List Alarm
  | finished _ => []
  | task running => running.timers.filterMap (Alarm.ofTimer? place)
  | waiting timer _ => (Alarm.ofTimer? place timer).toList
  | group parts _ => alarmsOfAll place 0 parts
  | crowd due resting _ => alarmsOfCrowd place due ++ alarmsOfCrowd place resting

def alarmsOfAll (place : Place) (position : Nat) : List (Progress σ α) → List Alarm
  | [] => []
  | part :: rest =>
    part.alarms (place ++ [position]) ++ alarmsOfAll place (position + 1) rest

def alarmsOfCrowd (place : Place) : List (Nat × Progress σ α) → List Alarm
  | [] => []
  | (position, part) :: rest => part.alarms (place ++ [position]) ++ alarmsOfCrowd place rest

end

def wakeAll (places : List Place) (progress : Progress σ α) : Progress σ α :=
  places.foldl (fun progress place => progress.wake place) progress

/--
Goes on from turn to turn until all is finished; `turns` bounds how many there are. The clock moves
only if nothing asks for another turn at its tick.
-/
def run (supply : Nat → Moment) (depth : Nat) :
    (turns : Nat) → Progress σ α → Turn → σ → Option α × Turn × σ
  | 0, _, turn, state => (none, turn.next, state)
  | turns + 1, progress, turn, state =>
    let (progress, again, turn, state) := resume supply depth [] progress turn state
    match progress.result? with
    | some result => (some result, turn, state)
    | none =>
      if again || !turn.yielded.isEmpty then
        (progress.wakeAll turn.yielded).run supply depth turns turn.next state
      else
        let alarms := progress.alarms []
        match (alarms.map (·.tick)).min? with
        | none => (none, turn.next, state)
        | some tick =>
          let ringing :=
            (alarms.filter (·.tick == tick)).mergeSort fun one other => one.order ≤ other.order
          (progress.wakeAll (ringing.map (·.place))).run supply depth turns
            { turn.next with now := tick } state

end Progress

end CachedStore
