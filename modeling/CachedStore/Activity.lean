import CachedStore.Record.Identity
import CachedStore.Time.Duration
import CachedStore.Time.Timestamp

/-!
Activities: operations on a shared state that proceed in steps and may pause between them. A step is
atomic; while an activity pauses, others may run. Pauses are counted in the ticks of a virtual clock
that moves only when everything pauses.
-/

namespace CachedStore

/-- What the outside offers to a step: two clocks, and an identity that was never used before. -/
structure Moment where
  instant : Instant
  time : Timestamp
  freshId : RecordId

inductive Activity (σ : Type) : Type → Type 1 where
  | done {α : Type} (result : α) : Activity σ α
  | act {α β : Type} (effect : Moment → σ → β × σ) (next : β → Activity σ α) : Activity σ α
  | pause {α : Type} (ticks : Nat) (next : Activity σ α) : Activity σ α
  | within {α β : Type} (ticks : Nat) (late : β) (inner : Activity σ β)
      (next : β → Activity σ α) : Activity σ α

namespace Activity

variable {σ τ α β : Type}

def bind : Activity σ α → (α → Activity σ β) → Activity σ β
  | done result, next => next result
  | act effect rest, next => act effect fun answer => (rest answer).bind next
  | pause ticks rest, next => pause ticks (rest.bind next)
  | within ticks late inner rest, next =>
    within ticks late inner fun result => (rest result).bind next

instance : Monad (Activity σ) where
  pure := done
  bind := bind

def step (effect : Moment → σ → α × σ) : Activity σ α := act effect done

def wait (span : Duration) : Activity σ Unit := pause span.pauseTicks (done ())

def limited (span : Duration) (late : α) (activity : Activity σ α) : Activity σ α :=
  within span.ticks late activity done

def onPart (get : τ → σ) (set : σ → τ → τ) : {α : Type} → Activity σ α → Activity τ α
  | _, done result => done result
  | _, act effect next =>
    act
      (fun moment whole =>
        let (answer, part) := effect moment (get whole)
        (answer, set part whole))
      fun answer => (next answer).onPart get set
  | _, pause ticks next => pause ticks (next.onPart get set)
  | _, within ticks late inner next =>
    within ticks late (inner.onPart get set) fun result => (next result).onPart get set

/--
Runs alone for at most `left` ticks, and tells with the result how many of them are left. A pause
that ends with the last tick is over.
-/
def runFor (moment : Moment) :
    {α : Type} → (left : Nat) → Activity σ α → σ → Option (α × Nat) × σ
  | _, left, done result, state => (some (result, left), state)
  | _, left, act effect next, state =>
    let (answer, state) := effect moment state
    (next answer).runFor moment left state
  | _, left, pause ticks next, state =>
    if ticks ≤ left then next.runFor moment (left - ticks) state else (none, state)
  | _, left, within ticks late inner next, state =>
    match inner.runFor moment (min ticks left) state with
    | (some (result, rest), state) =>
      (next result).runFor moment (left - (min ticks left - rest)) state
    | (none, state) =>
      if ticks ≤ left then (next late).runFor moment (left - ticks) state else (none, state)

def run (moment : Moment) : Activity σ α → σ → α × σ
  | done result, state => (result, state)
  | act effect next, state =>
    let (answer, state) := effect moment state
    (next answer).run moment state
  | pause _ next, state => next.run moment state
  | within ticks late inner next, state =>
    match inner.runFor moment ticks state with
    | (some (result, _), state) => (next result).run moment state
    | (none, state) => (next late).run moment state

end Activity

end CachedStore
