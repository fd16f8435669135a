import CachedStore.Activity

/-!
Turns: how activities that run concurrently take part in one thread. In a turn they go on one after
the other, each up to its next pause. Only so many pauses may end in a turn; what would go on
beyond that yields, and does so in the next turn, at the same tick.
-/

namespace CachedStore

abbrev Place := List Nat

/-- The end of a pause. Of the timers of one tick, those that were set first go off first. -/
inductive Timer where
  | unset (ticks : Nat)
  | set (tick order : Nat)
deriving DecidableEq, Repr

structure Turn where
  now : Nat
  /-- How many more pauses may end in this turn. -/
  credit : Nat
  timers : Nat
  moments : Nat
  /-- The places that wait for the next turn, the latest first. -/
  yielded : List Place
deriving DecidableEq, Repr

namespace Turn

def quota : Nat := 128

def first : Turn := ⟨0, quota, 0, 0, []⟩

def next (turn : Turn) : Turn := { turn with credit := quota, yielded := [] }

/-- What is left of a pause: nothing if it is over, and else its timer, which is set by then. -/
def look (turn : Turn) : Timer → Option Timer × Turn
  | .unset ticks =>
    if ticks = 0 then (none, turn)
    else (some (.set (turn.now + ticks) turn.timers), { turn with timers := turn.timers + 1 })
  | .set tick order => (if tick ≤ turn.now then none else some (.set tick order), turn)

def check (turn : Turn) (place : Place) (timer : Timer) : Option Timer × Turn :=
  if turn.credit = 0 then (some timer, { turn with yielded := place :: turn.yielded })
  else
    match turn.look timer with
    | (none, turn) => (none, { turn with credit := turn.credit - 1 })
    | (some timer, turn) => (some timer, turn)

/--
Looks at the timer of a limit, after the activity under the limit went on with `before` to its
credit. If that used up the credit the look is free.
-/
def checkLimit (turn : Turn) (place : Place) (before : Nat) (timer : Timer) :
    Option Timer × Turn :=
  if before ≠ 0 ∧ turn.credit = 0 then turn.look timer else turn.check place timer

end Turn

end CachedStore
