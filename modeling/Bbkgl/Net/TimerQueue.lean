import Mathlib.Data.Prod.Lex
import Mathlib.Logic.Function.Basic
import Bbkgl.CS.OrderedSet
import Bbkgl.CS.Transition

/-!
# TimerQueue

The timer queue of one loop, its one-shot timerfd and the clock of the kernel,
in microseconds. `step` takes the calls that the loop's thread makes one at a
time: `AddTimerInLoop`, and `HandleRead` as its start, the callbacks one by one,
and `Reset`. Time passes between any two of them. `Timestamp::now()` is an input,
so it may disagree with the clock of the timerfd.

A Timer object is an address, and `timer` says what is stored there.
-/

set_option autoImplicit false

namespace Bbkgl

open CS CS.Transition

/-- Microseconds since the epoch. -/
abbrev Timestamp := ℤ

namespace Timestamp

/-- The method `valid`. -/
def valid (t : Timestamp) : Bool := 0 < t

/-- What `invalid` returns. -/
def invalid : Timestamp := 0

/-- The constant `kMicroSecondsPerSecond`. -/
def microSecondsPerSecond : ℤ := 1000 * 1000

/-- The interval, a `double` in the source, is a whole number of microseconds. -/
def addTime (t : Timestamp) (interval : ℕ) : Timestamp := t + interval

end Timestamp

/-- The members of a timer, the callback aside. -/
structure Timer where
  expiration : Timestamp
  interval : ℕ
  /-- `interval > 0.0`, which a fraction of a microsecond satisfies too -/
  repeats : Bool
  deriving DecidableEq, Repr

/-- The method `Restart`. -/
def Timer.restart (t : Timer) (now : Timestamp) : Timer :=
  { t with expiration := if t.repeats then now.addTime t.interval else .invalid }

/-- A `struct timespec`. -/
structure Timespec where
  sec : ℤ
  nsec : ℤ
  deriving DecidableEq, Repr

/-- The function `HowMuchTimeFormNow`: the time until `when`, at least 100 microseconds. -/
def howMuchTimeFormNow (when now : Timestamp) : Timespec :=
  let microseconds := if when - now < 100 then 100 else when - now
  { sec := microseconds.tdiv Timestamp.microSecondsPerSecond
    nsec := microseconds.tmod Timestamp.microSecondsPerSecond * 1000 }

/-- `timerfd_settime` with a relative time: the deadline it sets. -/
def Timespec.deadline (ts : Timespec) (clock : ℤ) : ℤ :=
  clock + ts.sec * Timestamp.microSecondsPerSecond + ts.nsec.tdiv 1000

theorem deadline_howMuchTimeFormNow (when now clock : ℤ) :
    (howMuchTimeFormNow when now).deadline clock = clock + max 100 (when - now) := by
  have hpos : 0 ≤ max 100 (when - now) := Int.le_trans (by decide) (Int.le_max_left _ _)
  have hmicro : (if when - now < 100 then 100 else when - now) = max 100 (when - now) := by
    split <;> omega
  rw [howMuchTimeFormNow, Timespec.deadline]
  simp only [hmicro, Timestamp.microSecondsPerSecond]
  rw [Int.mul_tdiv_cancel _ (by decide), Int.tdiv_eq_ediv_of_nonneg hpos,
    Int.tmod_eq_emod_of_nonneg hpos]
  omega

/-- With one clock for both, 100 microseconds from now is the earliest deadline. -/
theorem deadline_howMuchTimeFormNow_self (when clock : ℤ) :
    (howMuchTimeFormNow when clock).deadline clock = max when (clock + 100) := by
  rw [deadline_howMuchTimeFormNow]
  omega

namespace TimerQueue

/-- The address of a Timer object. -/
abbrev Ptr := ℕ

/-- `std::pair<Timestamp, std::shared_ptr<Timer>>` with its lexicographic order. -/
abbrev Entry := ℤ ×ₗ Ptr

namespace Entry

/-- The pair of an expiration and a pointer. -/
def mk (when : Timestamp) (p : Ptr) : Entry := toLex (when, p)

/-- The expiration in an entry. -/
def when (e : Entry) : Timestamp := (ofLex e).1

/-- The pointer in an entry. -/
def ptr (e : Entry) : Ptr := (ofLex e).2

end Entry

/-- Whether `HandleRead` is under way. -/
inductive Phase
  | idle
  /-- inside `HandleRead`, with the callbacks of `rest` still to be run -/
  | handling (now : Timestamp) (expired rest : List Entry)
  deriving DecidableEq

/-- `timerfd` is the deadline for which the timerfd is armed; it stays, and the
descriptor is readable from then on, until it is read or set again. `reported`:
a `Poll` has returned the descriptor and `HandleRead` is still to be called.
`lastArm` is history: the clock at the last `timerfd_settime`. -/
structure State where
  timers : OrderedSet Entry
  timer : Ptr → Timer
  timerfd : Option ℤ
  clock : ℤ
  reported : Bool
  phase : Phase
  lastArm : ℤ

/-- A queue without timers, whose timerfd has not been set. -/
def State.init (clock : ℤ) : State where
  timers := .empty
  timer := fun _ => ⟨.invalid, 0, false⟩
  timerfd := none
  clock := clock
  reported := false
  phase := .idle
  lastArm := clock

/-- `wall` is what `Timestamp::now()` returns. -/
inductive Action
  | tick (d : ℕ)
  | poll
  | addTimerInLoop (p : Ptr) (t : Timer) (wall : Timestamp)
  | handleRead (wall : Timestamp)
  | run
  | reset (wall : Timestamp)
  deriving DecidableEq, Repr

variable {s : State}

/-- The timerfd has expired. -/
def readable (s : State) : Bool := s.timerfd.any (· ≤ s.clock)

/-- The expired entries that `HandleRead` holds. -/
def expired (s : State) : List Entry :=
  match s.phase with
  | .idle => []
  | .handling _ expired _ => expired

/-- The addresses of the Timer objects that the queue keeps alive. -/
def live (s : State) : List Ptr := (s.timers.toList ++ expired s).map Entry.ptr

/-- A successful read disarms; a read before the deadline fails with `EAGAIN`. -/
def readTimerfd (s : State) : State :=
  if readable s then { s with timerfd := none } else s

/-- The function `ResetTimerfd`, which sets the timerfd relative to the clock. -/
def resetTimerfd (s : State) (expiration wall : Timestamp) : State :=
  { s with
    timerfd := some ((howMuchTimeFormNow expiration wall).deadline s.clock)
    lastArm := s.clock }

/-- The test for `EarliestChanged`. -/
def earliestChanged (timers : OrderedSet Entry) (when : Timestamp) : Bool :=
  match timers.first? with
  | none => true
  | some e => when < e.when

/-- `none` where the source reads `timers_.begin()->second` of an empty set. -/
def getExpired (timers : OrderedSet Entry) (now : Timestamp) :
    Option (List Entry × OrderedSet Entry) :=
  timers.first?.map fun e =>
    let sentry := Entry.mk now e.ptr
    (timers.below sentry, timers.eraseBelow sentry)

/-- The loop of `Reset`: restart and insert the expired timers that repeat. -/
def reinsert (now : Timestamp) : List Entry → State → State
  | [], s => s
  | e :: es, s =>
    if (s.timer e.ptr).repeats then
      let t := (s.timer e.ptr).restart now
      reinsert now es
        { s with
          timer := Function.update s.timer e.ptr t
          timers := s.timers.insert (Entry.mk t.expiration e.ptr) }
    else reinsert now es s

/-- The end of `Reset`: the next expiration, if there is one and it is valid. -/
def rearm (s : State) (wall : Timestamp) : State :=
  let nextExpire := (s.timers.first?.map fun e => (s.timer e.ptr).expiration).getD .invalid
  if nextExpire.valid then resetTimerfd s nextExpire wall else s

/-- When an action can be taken; an address is not given to two timers at once. -/
def guard (s : State) : Action → Bool
  | .tick _ => true
  | .poll => s.phase = .idle && !s.reported && readable s
  | .addTimerInLoop p _ _ => p ∉ live s
  | .handleRead _ => s.phase = .idle && s.reported
  | .run => match s.phase with
    | .idle => false
    | .handling _ _ rest => !rest.isEmpty
  | .reset _ => match s.phase with
    | .idle => false
    | .handling _ _ rest => rest.isEmpty

/-- The method `AddTimerInLoop`. -/
def addTimerInLoop (s : State) (p : Ptr) (t : Timer) (wall : Timestamp) : State :=
  let s' := { s with
    timer := Function.update s.timer p t
    timers := s.timers.insert (Entry.mk t.expiration p) }
  if earliestChanged s.timers t.expiration then resetTimerfd s' t.expiration wall else s'

/-- Where `getExpired` has no value the call counts as one that expires nothing. -/
def handleRead (s : State) (now : Timestamp) : State :=
  let s' := { readTimerfd s with reported := false }
  match getExpired s.timers now with
  | none => { s' with phase := .handling now [] [] }
  | some (expired, timers) => { s' with timers := timers, phase := .handling now expired expired }

/-- What an action does. -/
def effect (s : State) : Action → State
  | .tick d => { s with clock := s.clock + d }
  | .poll => { s with reported := true }
  | .addTimerInLoop p t wall => addTimerInLoop s p t wall
  | .handleRead wall => handleRead s wall
  | .run => match s.phase with
    | .idle => s
    | .handling now expired rest => { s with phase := .handling now expired rest.tail }
  | .reset wall => match s.phase with
    | .idle => s
    | .handling now expired _ => { rearm (reinsert now expired s) wall with phase := .idle }

/-- One step of the queue or of the clock. -/
def step : State → Action → Option State := guarded guard effect

/-! ### What the parts of `HandleRead` leave alone -/

theorem readTimerfd_frame : (readTimerfd s).timers = s.timers ∧ (readTimerfd s).timer = s.timer ∧
    (readTimerfd s).clock = s.clock := by
  rw [readTimerfd]
  split <;> exact ⟨rfl, rfl, rfl⟩

/-- The re-insertion changes the set and the timers only. -/
theorem reinsert_frame (now : Timestamp) (es : List Entry) :
    (reinsert now es s).timerfd = s.timerfd ∧ (reinsert now es s).reported = s.reported ∧
      (reinsert now es s).clock = s.clock ∧ (reinsert now es s).lastArm = s.lastArm := by
  induction es generalizing s with
  | nil => exact ⟨rfl, rfl, rfl, rfl⟩
  | cons e es ih =>
    rw [reinsert]
    split
    · exact ih
    · exact ih

/-- Arming changes the descriptor only. -/
theorem rearm_frame (wall : Timestamp) :
    (rearm s wall).timers = s.timers ∧ (rearm s wall).timer = s.timer ∧
      (rearm s wall).reported = s.reported ∧ (rearm s wall).clock = s.clock := by
  simp only [rearm]
  split <;> exact ⟨rfl, rfl, rfl, rfl⟩

theorem addTimerInLoop_frame (p : Ptr) (t : Timer) (wall : Timestamp) :
    (addTimerInLoop s p t wall).timers = s.timers.insert (Entry.mk t.expiration p) ∧
      (addTimerInLoop s p t wall).timer = Function.update s.timer p t ∧
      (addTimerInLoop s p t wall).phase = s.phase ∧
      (addTimerInLoop s p t wall).reported = s.reported ∧
      (addTimerInLoop s p t wall).clock = s.clock := by
  rw [addTimerInLoop]
  split <;> exact ⟨rfl, rfl, rfl, rfl, rfl⟩

end TimerQueue
end Bbkgl
