/-!
# Guarded walks

Declarations come from user code, so following them from name to name may
loop, meet the same name on several paths, or go on for absurdly long.  A
guard accompanies one such walk.  It admits every name at most once, it bounds
the length of the current path, and it bounds the number of attempts.

Every admitted key has to be left again.  Leaving shortens the path; the key
itself stays visited until the guard is reset.
-/

namespace LuaTyping

/-- Limits of one guarded walk. -/
structure Limits where
  /-- The longest path the walk may follow. -/
  maxDepth : UInt32
  /-- The number of attempts the walk may make. -/
  maxIterations : UInt32
  deriving DecidableEq, Repr

namespace Limits

/-- The limits of a supertype search unless a configuration says otherwise. -/
def supertypeSearch : Limits where
  maxDepth := 100
  maxIterations := 100000

/-- Limits as diagnostics show them. -/
def describe (limits : Limits) : String :=
  "max_depth: " ++ Nat.repr limits.maxDepth.toNat ++
    ", max_iterations: " ++ Nat.repr limits.maxIterations.toNat

end Limits

/-- A preset of limits for guarded walks. -/
inductive Profile where
  /-- The usual limits of a supertype search. -/
  | supertypeSearch
  /-- Limits that were configured. -/
  | custom (maxDepth maxIterations : UInt32)
  deriving DecidableEq, Repr

namespace Profile

/-- The longest path that a walk under a profile may follow. -/
def maxDepth : Profile → UInt32
  | .supertypeSearch => Limits.supertypeSearch.maxDepth
  | .custom maxDepth _ => maxDepth

/-- The number of attempts that a walk under a profile may make. -/
def maxIterations : Profile → UInt32
  | .supertypeSearch => Limits.supertypeSearch.maxIterations
  | .custom _ maxIterations => maxIterations

/-- The limits of a walk under a profile. -/
def limits (profile : Profile) : Limits where
  maxDepth := profile.maxDepth
  maxIterations := profile.maxIterations

/-- A profile as diagnostics show it. -/
def describe : Profile → String
  | .supertypeSearch => "SupertypeSearch"
  | .custom maxDepth maxIterations =>
      "Custom \x7b " ++ Limits.describe ⟨maxDepth, maxIterations⟩ ++ " \x7d"

end Profile

/-- The answer to an attempt to enter a key. -/
inductive Verdict where
  | entered
  /-- The key was entered earlier in this walk. -/
  | revisited
  | depthExceeded
  | iterationExceeded
  deriving DecidableEq, Repr

namespace Verdict

/-- Whether an attempt was denied because of a limit. -/
def isExceeded : Verdict → Bool
  | .depthExceeded | .iterationExceeded => true
  | _ => false

/-- Label of a verdict in diagnostics. -/
def label : Verdict → String
  | .entered => "Entered"
  | .revisited => "Revisited"
  | .depthExceeded => "DepthExceeded"
  | .iterationExceeded => "IterationExceeded"

end Verdict

/-- How entering and leaving can fail to pair up. -/
inductive GuardError where
  /-- A key was left on an empty path, or without ever having been entered. -/
  | unmatchedLeave
  /-- The walk ended while keys were still entered. -/
  | stillEntered (count : Nat)
  deriving DecidableEq, Repr

namespace GuardError

/-- The report of a pairing error. -/
def message : GuardError → String
  | .unmatchedLeave => "RecursionGuard::leave without a matching enter"
  | .stillEntered count =>
      "RecursionGuard dropped with " ++ Nat.repr count ++
        " keys still entered"

end GuardError

/-- The keys seen during one walk, with the length of the current path and the
number of attempts so far. -/
structure Guard (κ : Type) where
  limits : Limits
  /-- The keys entered since the last reset, latest first. -/
  visited : List κ
  /-- Length of the current path. -/
  depth : Nat
  /-- Number of attempts since the last reset, denied ones included. -/
  iterations : Nat
  /-- Whether a limit was hit since the last reset. -/
  exceeded : Bool
  deriving Repr

namespace Guard

variable {κ : Type}

/-- The attempt counter is a 32-bit word that stops at its largest value. -/
def maxCount : Nat := UInt32.size - 1

/-- A guard at the start of a walk. -/
def start (limits : Limits) : Guard κ where
  limits
  visited := []
  depth := 0
  iterations := 0
  exceeded := false

/-- Forget the walk and keep the limits. -/
def reset (guard : Guard κ) : Guard κ :=
  start guard.limits

/-- Count one more attempt. -/
def count (guard : Guard κ) : Guard κ :=
  { guard with iterations := min (guard.iterations + 1) maxCount }

/-- End the walk, which must have left every key that it entered. -/
def finish (guard : Guard κ) : Except GuardError Unit :=
  if guard.depth = 0 then .ok () else .error (.stillEntered guard.depth)

variable [DecidableEq κ]

/-- Whether a key was entered since the last reset. -/
def hasVisited (guard : Guard κ) (key : κ) : Bool :=
  key ∈ guard.visited

/-- Attempt to enter a key.  Every attempt is counted; the attempt limit is
tested before anything else, and a visited key is recognised even at the
depth limit. -/
def enter (guard : Guard κ) (key : κ) : Verdict × Guard κ :=
  let counted := guard.count
  if counted.limits.maxIterations.toNat < counted.iterations then
    (.iterationExceeded, { counted with exceeded := true })
  else if counted.hasVisited key then
    (.revisited, counted)
  else if counted.limits.maxDepth.toNat ≤ counted.depth then
    (.depthExceeded, { counted with exceeded := true })
  else
    (.entered,
      { counted with
        visited := key :: counted.visited
        depth := counted.depth + 1 })

/-- Leave a key that was entered. -/
def leave (guard : Guard κ) (key : κ) : Except GuardError (Guard κ) :=
  if 0 < guard.depth ∧ guard.hasVisited key then
    .ok { guard with depth := guard.depth - 1 }
  else
    .error .unmatchedLeave

end Guard

end LuaTyping
