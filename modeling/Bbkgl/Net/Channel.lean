import Mathlib.Data.Nat.Notation
import Mathlib.Logic.Basic

/-!
# Channel

The interest of one descriptor, and what `HandleEvent` makes of the events that
the kernel reports. The callbacks themselves belong to the owner of the channel.
-/

set_option autoImplicit false

namespace Bbkgl

/-- A set of `POLL*` bits. -/
abbrev EventMask := BitVec 32

/-- The bit `POLLIN`. -/
def pollIn : EventMask := 0x0001#32

/-- The bit `POLLPRI`. -/
def pollPri : EventMask := 0x0002#32

/-- The bit `POLLOUT`. -/
def pollOut : EventMask := 0x0004#32

/-- The bit `POLLERR`. -/
def pollErr : EventMask := 0x0008#32

/-- The bit `POLLHUP`. -/
def pollHup : EventMask := 0x0010#32

/-- The bit `POLLNVAL`. -/
def pollNval : EventMask := 0x0020#32

/-- The bit `POLLRDHUP`. -/
def pollRdHup : EventMask := 0x2000#32

/-- `a & b`, as a condition. -/
def EventMask.meets (a b : EventMask) : Bool := a &&& b != 0#32

/-- The members that are read by the pollers: the descriptor, its interest, the mark of the
poller, and whether `HandleEvent` is under way. -/
structure Channel where
  fd : ℕ
  events : EventMask
  /-- -1 at first, afterwards as the poller sets it -/
  index : Int
  eventHandling : Bool
  deriving DecidableEq, Repr

namespace Channel

/-- The constant `k_none_event`. -/
def noneEvent : EventMask := 0#32

/-- The constant `k_read_event`. -/
def readEvent : EventMask := pollIn ||| pollPri

/-- The constant `k_write_event`. -/
def writeEvent : EventMask := pollOut

/-- The constructor. -/
def new (fd : ℕ) : Channel := ⟨fd, noneEvent, -1, false⟩

/-! The changes of `events_`, each of them to be followed by `Update()`. -/

/-- The bits of `k_read_event` are set. -/
def enableReading (ch : Channel) : Channel := { ch with events := ch.events ||| readEvent }

/-- The bits of `k_write_event` are set. -/
def enableWriting (ch : Channel) : Channel := { ch with events := ch.events ||| writeEvent }

/-- The bits of `k_write_event` are cleared. -/
def disableWriting (ch : Channel) : Channel := { ch with events := ch.events &&& ~~~writeEvent }

/-- No bit is left. -/
def disableAll (ch : Channel) : Channel := { ch with events := noneEvent }

/-- The channel is subscribed to nothing. -/
def isNoneEvent (ch : Channel) : Bool := ch.events = noneEvent

/-- The channel is subscribed to `k_write_event`. -/
def isWriting (ch : Channel) : Bool := ch.events.meets writeEvent

/-- The channel is subscribed to `k_read_event`. -/
def isReading (ch : Channel) : Bool := ch.events.meets readEvent

/-- The four callbacks of a channel. -/
inductive Callback
  | close
  | error
  | read
  | write
  deriving DecidableEq, Repr

/-- The callbacks that `HandleEvent` makes for `revents_`, in their order. -/
def handleEvent (revents : EventMask) : List Callback :=
  (if revents.meets pollHup && !revents.meets pollIn then [.close] else []) ++
  (if revents.meets (pollErr ||| pollNval) then [.error] else []) ++
  (if revents.meets (pollIn ||| pollPri ||| pollRdHup) then [.read] else []) ++
  (if revents.meets pollOut then [.write] else [])

variable {ch : Channel} {a b m : EventMask}

/-- An event mask meets `m` if a part of it does. -/
theorem meets_or : (a ||| b).meets m = (a.meets m || b.meets m) := by
  have h : (a ||| b) &&& m = 0#32 ↔ a &&& m = 0#32 ∧ b &&& m = 0#32 := by
    rw [BitVec.and_or_distrib_right]
    exact BitVec.or_eq_zero_iff
  rw [Bool.eq_iff_iff]
  simp only [EventMask.meets, bne_iff_ne, ne_eq, Bool.or_eq_true, h]
  exact not_and_or

theorem meets_and : (a &&& b).meets m = a.meets (b &&& m) := by
  rw [EventMask.meets, EventMask.meets, BitVec.and_assoc]

/-- The empty mask meets nothing. -/
theorem noneEvent_meets : noneEvent.meets m = false := by
  rw [EventMask.meets, noneEvent, BitVec.zero_and, bne_self_eq_false]

@[simp] theorem isReading_enableReading : ch.enableReading.isReading = true := by
  rw [isReading, enableReading, meets_or, show readEvent.meets readEvent = true by decide,
    Bool.or_true]

@[simp] theorem isWriting_enableReading : ch.enableReading.isWriting = ch.isWriting := by
  rw [isWriting, enableReading, meets_or, show readEvent.meets writeEvent = false by decide,
    Bool.or_false, isWriting]

@[simp] theorem isReading_enableWriting : ch.enableWriting.isReading = ch.isReading := by
  rw [isReading, enableWriting, meets_or, show writeEvent.meets readEvent = false by decide,
    Bool.or_false, isReading]

@[simp] theorem isWriting_enableWriting : ch.enableWriting.isWriting = true := by
  rw [isWriting, enableWriting, meets_or, show writeEvent.meets writeEvent = true by decide,
    Bool.or_true]

@[simp] theorem isReading_disableWriting : ch.disableWriting.isReading = ch.isReading := by
  rw [isReading, disableWriting, meets_and, show ~~~writeEvent &&& readEvent = readEvent by decide,
    isReading]

@[simp] theorem isWriting_disableWriting : ch.disableWriting.isWriting = false := by
  rw [isWriting, disableWriting, meets_and, show ~~~writeEvent &&& writeEvent = 0#32 by decide,
    EventMask.meets, BitVec.and_zero, bne_self_eq_false]

@[simp] theorem isReading_disableAll : ch.disableAll.isReading = false := by
  exact noneEvent_meets

@[simp] theorem isWriting_disableAll : ch.disableAll.isWriting = false := by
  exact noneEvent_meets

end Channel
end Bbkgl
