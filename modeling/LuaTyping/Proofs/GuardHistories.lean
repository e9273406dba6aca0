import LuaTyping.Proofs.LimitReports
import Mathlib.Data.List.DropRight
import Mathlib.Data.List.Nodup

/-!
# Histories of a guard

A guard is asked to enter keys, to leave keys and to start over, in any order.
Four pieces of state change with every answer, and each answer changes them in
its own way.  Keys need not be left in the order of the path, and a key that
cannot be left changes nothing.

What the guard knows can be read off the events since its last reset.  The
verdicts of the attempts, denied ones included, give the counter and the flag,
and by their number the attempts beyond the limit.  The keys entered and left
give the visited keys and the length of the path.  Both accounts are kept by
every call, and so by every series of calls.
-/

namespace LuaTyping

namespace Guard

/-- What a guard can be asked to do. -/
inductive Call (κ : Type) where
  | enter (key : κ)
  | leave (key : κ)
  | reset
  deriving DecidableEq, Repr

/-- What came of a call. -/
inductive Event (κ : Type) where
  | attempted (key : κ) (verdict : Verdict)
  | left (key : κ)
  /-- The key could not be left. -/
  | refused (key : κ) (error : GuardError)
  | reset
  deriving DecidableEq, Repr

namespace Event

variable {κ : Type}

/-- The verdict, if the event is an attempt. -/
def verdict? : Event κ → Option Verdict
  | .attempted _ verdict => some verdict
  | .left _ | .refused _ _ | .reset => none

/-- The key that was entered, if one was. -/
def entered? : Event κ → Option κ
  | .attempted key .entered => some key
  | .attempted _ _ | .left _ | .refused _ _ | .reset => none

/-- Whether a key was left. -/
def isLeft : Event κ → Bool
  | .left _ => true
  | .attempted _ _ | .refused _ _ | .reset => false

/-- Whether the guard was reset. -/
def isReset : Event κ → Bool
  | .reset => true
  | .attempted _ _ | .left _ | .refused _ _ => false

/-- The verdicts of the attempts, in order. -/
def verdicts (events : List (Event κ)) : List Verdict :=
  events.filterMap verdict?

/-- The keys that were entered, in order. -/
def entered (events : List (Event κ)) : List κ :=
  events.filterMap entered?

/-- How many times a key was left. -/
def departures (events : List (Event κ)) : Nat :=
  events.countP isLeft

/-- The events since the last reset. -/
def sinceReset (events : List (Event κ)) : List (Event κ) :=
  events.rtakeWhile fun event => !event.isReset

theorem verdicts_append (firsts seconds : List (Event κ)) :
    verdicts (firsts ++ seconds) = verdicts firsts ++ verdicts seconds :=
  List.filterMap_append

@[simp]
theorem verdicts_concat (events : List (Event κ)) (event : Event κ) :
    verdicts (events ++ [event]) =
      verdicts events ++ event.verdict?.toList := by
  rw [verdicts_append]
  cases event <;> rfl

@[simp]
theorem entered_concat (events : List (Event κ)) (event : Event κ) :
    entered (events ++ [event]) = entered events ++ event.entered?.toList := by
  unfold entered
  rw [List.filterMap_append, List.filterMap_cons]
  cases event.entered? <;> rfl

@[simp]
theorem departures_concat (events : List (Event κ)) (event : Event κ) :
    departures (events ++ [event]) =
      departures events + if event.isLeft then 1 else 0 := by
  unfold departures
  rw [List.countP_append, List.countP_singleton]

theorem sinceReset_append {events later : List (Event κ)}
    (noReset : ∀ event ∈ later, event.isReset = false) :
    sinceReset (events ++ later) = sinceReset events ++ later := by
  have kept : ∀ event ∈ later.reverse, (!event.isReset) = true := by
    intro event eventMem
    rw [noReset event (List.mem_reverse.mp eventMem), Bool.not_false]
  unfold sinceReset List.rtakeWhile
  rw [List.reverse_append, List.takeWhile_append_of_pos kept,
    List.reverse_append, List.reverse_reverse]

@[simp]
theorem sinceReset_concat_reset (events : List (Event κ)) :
    sinceReset (events ++ [.reset]) = [] :=
  List.rtakeWhile_concat_neg _ _ _ Bool.false_ne_true

end Event

variable {κ : Type} {guard : Guard κ}

/-- The account of the attempts.  Their verdicts give the counter and the
flag, and an attempt is beyond the limit exactly if its number is, as far as
the counter can count. -/
structure Tallies (guard : Guard κ) (verdicts : List Verdict) : Prop where
  iterations : guard.iterations = min verdicts.length maxCount
  exceeded : guard.exceeded = verdicts.any Verdict.isExceeded
  spent : ∀ position verdict, verdicts[position]? = some verdict →
    (verdict = .iterationExceeded ↔
      guard.limits.maxIterations.toNat < min (position + 1) maxCount)

/-- The account of the path.  The keys entered are the visited ones, each of
them once, and the path is as long as there are more of them than
departures. -/
structure Traces (guard : Guard κ) (entered : List κ) (departures : Nat) :
    Prop where
  visited : guard.visited = entered.reverse
  nodup : guard.visited.Nodup
  depth : guard.depth + departures = entered.length
  room : guard.depth ≤ guard.limits.maxDepth.toNat

/-- A guard whose state is what the events since its last reset make it. -/
structure Reflects (guard : Guard κ) (recent : List (Event κ)) : Prop where
  tallies : guard.Tallies (Event.verdicts recent)
  traces : guard.Traces (Event.entered recent) (Event.departures recent)

theorem reflects_start (limits : Limits) :
    (start limits : Guard κ).Reflects [] where
  tallies := ⟨rfl, rfl, by simp [Event.verdicts]⟩
  traces := ⟨rfl, List.nodup_nil, rfl, Nat.zero_le _⟩

section Keys

variable {entered : List κ} {departures : Nat}
  (traces : guard.Traces entered departures)

include traces

theorem Traces.mem_visited_iff {key : κ} :
    key ∈ guard.visited ↔ key ∈ entered := by
  rw [traces.visited, List.mem_reverse]

theorem Traces.length_visited : guard.visited.length = entered.length := by
  rw [traces.visited, List.length_reverse]

theorem Traces.nodup_entered : entered.Nodup := by
  rw [← List.nodup_reverse, ← traces.visited]
  exact traces.nodup

end Keys

section Attempts

variable {verdicts : List Verdict} (tallies : guard.Tallies verdicts)

include tallies

theorem Tallies.count_iterations :
    guard.count.iterations = min (verdicts.length + 1) maxCount := by
  have counted := tallies.iterations
  change min (guard.iterations + 1) maxCount = _
  omega

/-- What the limit allows is not denied on account of it. -/
theorem Tallies.ne_iterationExceeded {verdict : Verdict}
    (early : verdict ∈ verdicts.take guard.limits.maxIterations.toNat) :
    verdict ≠ .iterationExceeded := by
  obtain ⟨position, found⟩ := List.getElem?_of_mem early
  rw [List.getElem?_take] at found
  split at found
  · rename_i allowed
    rw [ne_eq, tallies.spent position verdict found]
    omega
  · contradiction

/-- A limit that the counter can exceed is enforced on all further attempts. -/
theorem Tallies.eq_iterationExceeded
    (bounded : guard.limits.maxIterations.toNat < maxCount)
    {verdict : Verdict}
    (late : verdict ∈ verdicts.drop guard.limits.maxIterations.toNat) :
    verdict = .iterationExceeded := by
  obtain ⟨position, found⟩ := List.getElem?_of_mem late
  rw [List.getElem?_drop] at found
  rw [tallies.spent _ verdict found]
  omega

theorem Tallies.countP_ne_iterationExceeded
    (bounded : guard.limits.maxIterations.toNat < maxCount) :
    verdicts.countP (· ≠ .iterationExceeded) =
      min verdicts.length guard.limits.maxIterations.toNat := by
  have early : (verdicts.take guard.limits.maxIterations.toNat).countP
        (· ≠ .iterationExceeded) =
      (verdicts.take guard.limits.maxIterations.toNat).length := by
    rw [List.countP_eq_length]
    intro verdict verdictMem
    exact decide_eq_true (tallies.ne_iterationExceeded verdictMem)
  have late : (verdicts.drop guard.limits.maxIterations.toNat).countP
      (· ≠ .iterationExceeded) = 0 := by
    rw [List.countP_eq_zero]
    intro verdict verdictMem
    simp [tallies.eq_iterationExceeded bounded verdictMem]
  calc verdicts.countP (· ≠ .iterationExceeded)
      = (verdicts.take guard.limits.maxIterations.toNat ++
          verdicts.drop guard.limits.maxIterations.toNat).countP
            (· ≠ .iterationExceeded) := by rw [List.take_append_drop]
    _ = (verdicts.take guard.limits.maxIterations.toNat).length := by
        rw [List.countP_append, early, late, Nat.add_zero]
    _ = min verdicts.length guard.limits.maxIterations.toNat := by
        rw [List.length_take, Nat.min_comm]

/-- The counter never gets beyond a limit at which it stops. -/
theorem Tallies.iterationExceeded_not_mem
    (unbounded : guard.limits.maxIterations.toNat = maxCount) :
    .iterationExceeded ∉ verdicts := by
  intro denied
  obtain ⟨position, found⟩ := List.getElem?_of_mem denied
  have beyond := (tallies.spent position _ found).mp rfl
  omega

end Attempts

variable [DecidableEq κ]

@[simp]
theorem enter_limits (guard : Guard κ) (key : κ) :
    (guard.enter key).2.limits = guard.limits := by
  have attempt := guard.attempt_enter key
  generalize guard.enter key = outcome at attempt
  cases attempt <;> rfl

/-- Every attempt is counted, whatever its verdict. -/
@[simp]
theorem enter_iterations (guard : Guard κ) (key : κ) :
    (guard.enter key).2.iterations = guard.count.iterations := by
  have attempt := guard.attempt_enter key
  generalize guard.enter key = outcome at attempt
  cases attempt <;> rfl

/-- The counter alone decides whether an attempt is beyond the limit. -/
theorem enter_eq_iterationExceeded_iff (guard : Guard κ) (key : κ) :
    (guard.enter key).1 = .iterationExceeded ↔
      guard.limits.maxIterations.toNat < guard.count.iterations := by
  have attempt := guard.attempt_enter key
  generalize guard.enter key = outcome at attempt
  cases attempt with
  | entered budget | revisited budget | depthExceeded budget =>
      simpa using budget
  | iterationExceeded spent => simpa using spent

theorem Tallies.enter {verdicts : List Verdict}
    (tallies : guard.Tallies verdicts) (key : κ) :
    (guard.enter key).2.Tallies (verdicts ++ [(guard.enter key).1]) where
  iterations := by simp [tallies.count_iterations]
  exceeded := by simp [tallies.exceeded]
  spent position verdict found := by
    rw [enter_limits]
    by_cases earlier : position < verdicts.length
    · rw [List.getElem?_append_left earlier] at found
      exact tallies.spent position verdict found
    · rw [List.getElem?_append_right (Nat.le_of_not_lt earlier),
        List.getElem?_singleton] at found
      split at found
      · rename_i last
        have latest : position = verdicts.length := by omega
        rw [Option.some.injEq] at found
        rw [← found, enter_eq_iterationExceeded_iff,
          tallies.count_iterations, latest]
      · contradiction

theorem Traces.enter {entered : List κ} {departures : Nat}
    (traces : guard.Traces entered departures) (key : κ) :
    (guard.enter key).2.Traces
      (entered ++
        (Event.attempted key (guard.enter key).1).entered?.toList)
      departures := by
  have attempt := guard.attempt_enter key
  generalize guard.enter key = outcome at attempt
  cases attempt with
  | entered budget fresh room =>
      change (guard.visit key).Traces (entered ++ [key]) departures
      have depth := traces.depth
      constructor
      · change key :: guard.visited = _
        rw [traces.visited, List.reverse_append]
        rfl
      · exact List.nodup_cons.mpr ⟨fresh, traces.nodup⟩
      · change guard.depth + 1 + departures = _
        rw [List.length_append, List.length_singleton]
        omega
      · exact room
  | revisited | depthExceeded | iterationExceeded =>
      change Traces _ (entered ++ []) departures
      rw [List.append_nil]
      exact ⟨traces.visited, traces.nodup, traces.depth, traces.room⟩

/-- Carry out a call.  If a key cannot be left, the guard stays as it is. -/
def call (guard : Guard κ) : Call κ → Event κ × Guard κ
  | .enter key => (.attempted key (guard.enter key).1, (guard.enter key).2)
  | .leave key =>
      match guard.leave key with
      | .ok outside => (.left key, outside)
      | .error error => (.refused key error, guard)
  | .reset => (.reset, guard.reset)

/-- Carry out a series of calls: its events, and the guard afterwards. -/
def play (guard : Guard κ) : List (Call κ) → List (Event κ) × Guard κ
  | [] => ([], guard)
  | call :: calls =>
      let rest := (guard.call call).2.play calls
      ((guard.call call).1 :: rest.1, rest.2)

/-- What leaving a key can lead to. -/
inductive Departure (guard : Guard κ) (key : κ) : Event κ × Guard κ → Prop
  | left (onPath : 0 < guard.depth) (known : key ∈ guard.visited) :
      Departure guard key
        (.left key, { guard with depth := guard.depth - 1 })
  | refused (reason : guard.depth = 0 ∨ key ∉ guard.visited) :
      Departure guard key (.refused key .unmatchedLeave, guard)

theorem departure_call (guard : Guard κ) (key : κ) :
    Departure guard key (guard.call (.leave key)) := by
  unfold call leave hasVisited
  by_cases matched : 0 < guard.depth ∧ key ∈ guard.visited
  · simpa [matched] using Departure.left matched.1 matched.2
  · have reason : guard.depth = 0 ∨ key ∉ guard.visited := by
      by_contra onPath
      exact matched (by simpa [Nat.pos_iff_ne_zero] using onPath)
    simpa [matched] using Departure.refused reason

theorem Traces.refused_iff {entered : List κ} {departures : Nat}
    (traces : guard.Traces entered departures) (key : κ) :
    guard.call (.leave key) = (.refused key .unmatchedLeave, guard) ↔
      guard.depth = 0 ∨ key ∉ entered := by
  rw [← traces.mem_visited_iff]
  have departure := guard.departure_call key
  generalize guard.call (.leave key) = outcome at departure
  cases departure with
  | left onPath known => simp [known, Nat.ne_of_gt onPath]
  | refused reason => simpa using reason

@[simp]
theorem call_limits (guard : Guard κ) (call : Call κ) :
    (guard.call call).2.limits = guard.limits := by
  cases call with
  | enter key => exact guard.enter_limits key
  | leave key =>
      have departure := guard.departure_call key
      generalize guard.call (.leave key) = outcome at departure
      cases departure <;> rfl
  | reset => rfl

@[simp]
theorem play_limits (guard : Guard κ) (calls : List (Call κ)) :
    (guard.play calls).2.limits = guard.limits := by
  induction calls generalizing guard with
  | nil => rfl
  | cons call calls ih => exact (ih _).trans (guard.call_limits call)

theorem call_isReset (guard : Guard κ) {call : Call κ}
    (keeps : call ≠ .reset) :
    (guard.call call).1.isReset = false := by
  cases call with
  | enter key => rfl
  | leave key =>
      have departure := guard.departure_call key
      generalize guard.call (.leave key) = outcome at departure
      cases departure <;> rfl
  | reset => contradiction

theorem isReset_of_mem_play {calls : List (Call κ)}
    (keep : .reset ∉ calls) :
    ∀ event ∈ (guard.play calls).1, event.isReset = false := by
  induction calls generalizing guard with
  | nil => simp [play]
  | cons call calls ih =>
      rw [List.mem_cons, not_or] at keep
      exact List.forall_mem_cons.mpr
        ⟨guard.call_isReset (Ne.symm keep.1), ih keep.2⟩

theorem Reflects.enter {recent : List (Event κ)}
    (reflects : guard.Reflects recent) (key : κ) :
    (guard.enter key).2.Reflects
      (recent ++ [.attempted key (guard.enter key).1]) where
  tallies := by simpa [Event.verdict?] using reflects.tallies.enter key
  traces := by simpa [Event.isLeft] using reflects.traces.enter key

theorem Reflects.leave {recent : List (Event κ)}
    (reflects : guard.Reflects recent) (key : κ) :
    (guard.call (.leave key)).2.Reflects
      (recent ++ [(guard.call (.leave key)).1]) := by
  have tallies := reflects.tallies
  have traces := reflects.traces
  have departure := guard.departure_call key
  generalize guard.call (.leave key) = outcome at departure
  cases departure with
  | left onPath known =>
      constructor
      · rw [Event.verdicts_concat, Event.verdict?, Option.toList_none,
          List.append_nil]
        exact ⟨tallies.iterations, tallies.exceeded, tallies.spent⟩
      · rw [Event.entered_concat, Event.entered?, Option.toList_none,
          List.append_nil, Event.departures_concat, Event.isLeft, if_pos rfl]
        have depth := traces.depth
        refine ⟨traces.visited, traces.nodup, ?_, ?_⟩
        · change guard.depth - 1 + (_ + 1) = _
          omega
        · exact (Nat.sub_le _ _).trans traces.room
  | refused reason =>
      constructor
      · simpa [Event.verdict?] using tallies
      · simpa [Event.entered?, Event.isLeft] using traces

theorem Reflects.call {events : List (Event κ)}
    (reflects : guard.Reflects (Event.sinceReset events)) (call : Call κ) :
    (guard.call call).2.Reflects
      (Event.sinceReset (events ++ [(guard.call call).1])) := by
  by_cases restart : call = .reset
  · subst restart
    change guard.reset.Reflects (Event.sinceReset (events ++ [.reset]))
    rw [Event.sinceReset_concat_reset]
    exact reflects_start guard.limits
  · have noReset := guard.call_isReset restart
    rw [Event.sinceReset_append (by simpa using noReset)]
    cases call with
    | enter key => exact reflects.enter key
    | leave key => exact reflects.leave key
    | reset => contradiction

theorem Reflects.play {events : List (Event κ)}
    (reflects : guard.Reflects (Event.sinceReset events))
    (calls : List (Call κ)) :
    (guard.play calls).2.Reflects
      (Event.sinceReset (events ++ (guard.play calls).1)) := by
  -- The events before the calls are carried along: they count until a reset.
  induction calls generalizing guard events with
  | nil => simpa [Guard.play] using reflects
  | cons call calls ih =>
      have rest := ih (reflects.call call)
      rw [List.append_assoc] at rest
      exact rest

/-- Once the attempts are used up, all further ones are denied until the guard
is reset, however many keys are left in between. -/
theorem Reflects.play_denied {events : List (Event κ)}
    (reflects : guard.Reflects (Event.sinceReset events))
    (bounded : guard.limits.maxIterations.toNat < maxCount)
    (used : guard.limits.maxIterations.toNat ≤
      (Event.verdicts (Event.sinceReset events)).length)
    {later : List (Call κ)} (keep : .reset ∉ later) :
    ∀ verdict ∈ Event.verdicts (guard.play later).1,
      verdict = .iterationExceeded := by
  intro verdict verdictMem
  have tallies := (reflects.play later).tallies
  rw [Event.sinceReset_append (isReset_of_mem_play keep),
    Event.verdicts_append] at tallies
  apply tallies.eq_iterationExceeded
  · simpa using bounded
  · rw [play_limits, List.drop_append_of_le_length used]
    exact List.mem_append_right _ verdictMem

/-- After any calls the state of a guard is what the events since the last
reset make it.  The visited keys are the entered ones, none of which was
entered twice.  The path is as long as there are more of them than departures,
and within its limit.  A key that is not visited cannot be left, nor any key on
an empty path, and trying changes nothing.  All attempts are counted, up to the
largest value of the counter, and the flag tells whether one of them was
denied.  A limit below that value lets as many attempts pass as it says and
denies all others until the next reset; beyond a limit at that value no attempt
can go. -/
theorem play_accounts (limits : Limits) (calls : List (Call κ)) :
    let outcome := (start limits : Guard κ).play calls
    let guard := outcome.2
    let recent := Event.sinceReset outcome.1
    let entered := Event.entered recent
    let verdicts := Event.verdicts recent
    let budget := limits.maxIterations.toNat
    ((∀ key, guard.hasVisited key = true ↔ key ∈ entered) ∧
        entered.Nodup ∧ guard.visited.length = entered.length) ∧
      (guard.depth + Event.departures recent = entered.length ∧
        guard.depth ≤ limits.maxDepth.toNat ∧
        guard.depth ≤ guard.visited.length ∧ guard.depth < UInt32.size) ∧
      (∀ key, guard.call (.leave key) =
          (.refused key .unmatchedLeave, guard) ↔
        guard.depth = 0 ∨ key ∉ entered) ∧
      guard.iterations = min verdicts.length (UInt32.size - 1) ∧
      (guard.exceeded = true ↔ ∃ verdict ∈ verdicts,
        verdict = .depthExceeded ∨ verdict = .iterationExceeded) ∧
      (budget < UInt32.size - 1 →
        verdicts.countP (· ≠ .iterationExceeded) =
            min verdicts.length budget ∧
          (verdicts.countP (· ≠ .iterationExceeded) = budget →
            ∀ later, .reset ∉ later →
              ∀ verdict ∈ Event.verdicts (guard.play later).1,
                verdict = .iterationExceeded)) ∧
      (budget = UInt32.size - 1 → .iterationExceeded ∉ verdicts) := by
  intro outcome guard recent entered verdicts budget
  have started : (start limits : Guard κ).Reflects (Event.sinceReset []) :=
    reflects_start limits
  have reflects : guard.Reflects recent := started.play calls
  have tallies : guard.Tallies verdicts := reflects.tallies
  have traces : guard.Traces entered (Event.departures recent) :=
    reflects.traces
  have limitsEq : guard.limits = limits := play_limits _ calls
  have visitedCount := traces.length_visited
  have depth := traces.depth
  have room : guard.depth ≤ limits.maxDepth.toNat := limitsEq ▸ traces.room
  refine ⟨⟨?_, traces.nodup_entered, visitedCount⟩, ⟨depth, room, ?_, ?_⟩,
    traces.refused_iff, tallies.iterations, ?_, ?_, ?_⟩
  · intro key
    rw [hasVisited, decide_eq_true_eq, traces.mem_visited_iff]
  · omega
  · exact room.trans_lt limits.maxDepth.toNat_lt_size
  · rw [tallies.exceeded, List.any_eq_true]
    simp only [Verdict.isExceeded_iff]
  · intro bounded
    have enforced : guard.limits.maxIterations.toNat < maxCount := by
      rw [limitsEq]
      exact bounded
    have allowed := tallies.countP_ne_iterationExceeded enforced
    rw [limitsEq] at allowed
    refine ⟨allowed, fun full later keep => ?_⟩
    apply Reflects.play_denied reflects enforced _ keep
    rw [limitsEq]
    change budget ≤ verdicts.length
    omega
  · intro unbounded
    apply tallies.iterationExceeded_not_mem
    rw [limitsEq]
    exact unbounded

/-- The second key is denied at full depth and entered when there is room
again; leaving it before changes nothing. -/
example :
    ((start ⟨1, 4⟩ : Guard Nat).play
      [.enter 1, .leave 2, .enter 2, .leave 1, .enter 1, .enter 2, .enter 3,
        .reset, .enter 3]).1 =
      [.attempted 1 .entered, .refused 2 .unmatchedLeave,
        .attempted 2 .depthExceeded, .left 1, .attempted 1 .revisited,
        .attempted 2 .entered, .attempted 3 .iterationExceeded, .reset,
        .attempted 3 .entered] := by
  decide

end Guard

end LuaTyping
