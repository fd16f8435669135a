import CachedStore.Activity.Progress

/-!
Plans: activities that are to run concurrently, and plans among them. Up to thirty parts form a
group; more of them form a crowd.
-/

namespace CachedStore

/--
What to run: one activity, or several plans concurrently, each at once or after a pause. A pause of
no ticks takes the credit of a turn like any other.
-/
inductive Plan (σ : Type) (α : Type) : Type 1 where
  | one (activity : Activity σ α)
  | all (parts : List (Option Nat × Plan σ α)) (gather : List α → α)

namespace Plan

variable {σ α : Type}

/-- More parts than this form a crowd. -/
def smallGroup : Nat := 30

mutual

def begin : Plan σ α → Progress σ α
  | one activity => .task (.ahead activity)
  | all parts gather =>
    let parts := beginAll parts
    if parts.length ≤ smallGroup then .group parts gather
    else .crowd (parts.mapIdx fun position part => (position, part)) [] gather

def beginAll : List (Option Nat × Plan σ α) → List (Progress σ α)
  | [] => []
  | (none, plan) :: rest => plan.begin :: beginAll rest
  | (some ticks, plan) :: rest => .waiting (.unset ticks) plan.begin :: beginAll rest

end

mutual

def size : Plan σ α → Nat
  | one _ => 1
  | all parts _ => sizeOfAll parts + 1

def sizeOfAll : List (Option Nat × Plan σ α) → Nat
  | [] => 0
  | (_, plan) :: rest => plan.size + sizeOfAll rest

end

mutual

def depth : Plan σ α → Nat
  | one _ => 1
  | all parts _ => depthOfAll parts + 1

def depthOfAll : List (Option Nat × Plan σ α) → Nat
  | [] => 0
  | (_, plan) :: rest => max (plan.depth + 1) (depthOfAll rest)

end

def mostTurns : Nat := 64

def run (supply : Nat → Moment) (plan : Plan σ α) (turn : Turn) (state : σ) :
    Option α × Turn × σ :=
  plan.begin.run supply plan.depth (mostTurns * (plan.size + 1)) turn state

end Plan

end CachedStore
