import CachedStore.Activity.Turn

/-!
Tasks: activities under way, and how far one goes on in a turn.
-/

namespace CachedStore

inductive Task (σ : Type) : Type → Type 1 where
  | ahead {α : Type} (activity : Activity σ α) : Task σ α
  | finished {α : Type} (result : α) : Task σ α
  | paused {α : Type} (timer : Timer) (next : Activity σ α) : Task σ α
  | limited {α β : Type} (limit : Timer) (late : β) (inner : Task σ β)
      (next : β → Activity σ α) : Task σ α

namespace Task

variable {σ α β : Type}

/--
Goes on behind a limit: with the result of the activity under it, or with `late` once the limit is
reached. The result counts first.
-/
def passLimit (place : Place) (before : Nat) (limit : Timer) (late : β) (next : β → Activity σ α)
    (goOn : β → Turn → σ → Task σ α × Turn × σ) : Task σ β → Turn → σ → Task σ α × Turn × σ
  | finished result, turn, state => goOn result turn state
  | inner, turn, state =>
    match turn.checkLimit place before limit with
    | (none, turn) => goOn late turn state
    | (some limit, turn) => (limited limit late inner next, turn, state)

end Task

namespace Activity

variable {σ α : Type}

def start (supply : Nat → Moment) (place : Place) :
    {α : Type} → Activity σ α → Turn → σ → Task σ α × Turn × σ
  | _, done result, turn, state => (.finished result, turn, state)
  | _, act effect next, turn, state =>
    let (answer, state) := effect (supply turn.moments) state
    (next answer).start supply place { turn with moments := turn.moments + 1 } state
  | _, pause ticks next, turn, state =>
    match turn.check place (.unset ticks) with
    | (none, turn) => next.start supply place turn state
    | (some timer, turn) => (.paused timer next, turn, state)
  | _, within ticks late inner next, turn, state =>
    let (inner, later, state) := inner.start supply place turn state
    inner.passLimit place turn.credit (.unset ticks) late next
      (fun result => (next result).start supply place) later state

end Activity

namespace Task

variable {σ α : Type}

def resume (supply : Nat → Moment) (place : Place) :
    {α : Type} → Task σ α → Turn → σ → Task σ α × Turn × σ
  | _, ahead activity, turn, state => activity.start supply place turn state
  | _, finished result, turn, state => (finished result, turn, state)
  | _, paused timer next, turn, state =>
    match turn.check place timer with
    | (none, turn) => next.start supply place turn state
    | (some timer, turn) => (paused timer next, turn, state)
  | _, limited limit late inner next, turn, state =>
    let (inner, later, state) := inner.resume supply place turn state
    inner.passLimit place turn.credit limit late next
      (fun result => (next result).start supply place) later state

def timers : {α : Type} → Task σ α → List Timer
  | _, ahead _ => []
  | _, finished _ => []
  | _, paused timer _ => [timer]
  | _, limited limit _ inner _ => inner.timers ++ [limit]

end Task

end CachedStore
