import Mathlib.Data.Int.Notation
import Mathlib.Logic.Function.Basic
import Bbkgl.CS.Fallible
import Bbkgl.CS.SwapRemove
import Bbkgl.Net.Channel

/-!
# Poller

The poller over `::poll`: an array of `pollfd`s beside the map from descriptors to
channels. The place of a channel's slot is in its index, and a slot whose
descriptor is negative, `-fd-1` for `fd`, is one that `::poll` ignores. `P` is the
type of the channels' addresses.
-/

set_option autoImplicit false

namespace Bbkgl

open CS.Fallible CS.SwapRemove

/-- `short` fields are 16 bits wide, `events_` and `revents_` of a channel are `int`s. -/
structure PollFd where
  fd : ℤ
  events : BitVec 16
  revents : BitVec 16
  deriving DecidableEq, Repr

/-- The descriptor that the slot is for, watched or not. -/
def PollFd.decoded (pfd : PollFd) : ℤ := if pfd.fd < 0 then -pfd.fd - 1 else pfd.fd

/-- The array for `::poll`, and the channels by descriptor. -/
structure Poller (P : Type*) where
  pollfds : List PollFd
  channels : ℤ → Option P

namespace Poller

/-- The assertions of the methods. -/
inductive Assertion
  /-- a new channel: `channels_.find(fd) == channels_.end()` -/
  | updateNew
  /-- `channels_.find(fd) != channels_.end()` and `channels_[fd] == channel` in `UpdateChannel` -/
  | updateKnown
  /-- `0 <= idx && idx < pollfds_.size()` in `UpdateChannel` -/
  | updateIndex
  /-- `pfd.fd == fd || pfd.fd == -fd-1` in `UpdateChannel` -/
  | updateFd
  /-- the same two about `channels_` in `RemoveChannel` -/
  | removeKnown
  /-- `channel->IsNoneEvent()` in `RemoveChannel` -/
  | removeNoneEvent
  /-- the same about `idx` in `RemoveChannel` -/
  | removeIndex
  /-- `pfd.fd == -fd-1 && pfd.events == channel->GetEvents()` in `RemoveChannel` -/
  | removeSlot
  /-- the two about `channels_` in `FillActiveChannels` -/
  | fillActive
  deriving DecidableEq, Repr

/-- What ends a method before its end. -/
inductive Fault
  | assertion (a : Assertion)
  /-- `channels_[channel_at_end]` is a null pointer in `RemoveChannel` -/
  | nullChannel
  deriving DecidableEq, Repr

universe v

variable {P : Type v}

/-- A poller without channels. -/
def empty : Poller P := ⟨[], fun _ => none⟩

/-- An assertion of the source: the call goes on only if `c` holds. -/
def assert (c : Bool) (a : Assertion) : Except Fault PUnit.{v + 1} := check c (.assertion a)

/-- `static_cast<short>` -/
def toShort (events : EventMask) : BitVec 16 := events.setWidth 16

/-- A `short` as an `int`. -/
def ofShort (events : BitVec 16) : EventMask := events.signExtend 32

/-- The slot of a known channel after an update. An empty interest hides the descriptor. -/
def updated (pfd : PollFd) (ch : Channel) : PollFd where
  fd := if ch.isNoneEvent then -ch.fd - 1 else pfd.fd
  events := toShort ch.events
  revents := 0

variable [DecidableEq P]

/-- A new channel gets a slot at the end of the array; for a known one its slot is written again.
-/
def updateChannel (po : Poller P) (p : P) (ch : Channel) : Except Fault (Poller P × Channel) := do
  if ch.index < 0 then
    assert (po.channels ch.fd = none) .updateNew
    let pfd : PollFd := ⟨ch.fd, toShort ch.events, 0⟩
    let pollfds := po.pollfds ++ [pfd]
    return (⟨pollfds, Function.update po.channels pfd.fd (some p)⟩,
      { ch with index := (pollfds.length : ℤ) - 1 })
  else
    assert (po.channels ch.fd = some p) .updateKnown
    match po.pollfds[ch.index.toNat]? with
    | none => .error (.assertion .updateIndex)
    | some pfd =>
      assert (pfd.fd = ch.fd ∨ pfd.fd = -ch.fd - 1) .updateFd
      return ({ po with pollfds := po.pollfds.set ch.index.toNat (updated pfd ch) }, ch)

/-- The second component is the channel whose index is set, and the new index.
The index of the channel that is removed stays. -/
def removeChannel (po : Poller P) (p : P) (ch : Channel) :
    Except Fault (Poller P × Option (P × ℤ)) := do
  assert (po.channels ch.fd = some p) .removeKnown
  assert ch.isNoneEvent .removeNoneEvent
  assert (0 ≤ ch.index ∧ ch.index < po.pollfds.length) .removeIndex
  let idx := ch.index.toNat
  match po.pollfds[idx]? with
  | none => .error (.assertion .removeIndex)
  | some pfd =>
    assert (pfd.fd = -ch.fd - 1 ∧ ofShort pfd.events = ch.events) .removeSlot
    let channels := Function.update po.channels ch.fd none
    if idx = po.pollfds.length - 1 then return (⟨po.pollfds.dropLast, channels⟩, none)
    else
      let channelAtEnd := (po.pollfds.getLastD pfd).decoded
      let pollfds := (swap po.pollfds idx (po.pollfds.length - 1)).dropLast
      match channels channelAtEnd with
      | none => .error .nullChannel
      | some q => return (⟨pollfds, channels⟩, some (q, ch.index))

/-- What `::poll` writes to a slot; `ready` says what each descriptor has to report. -/
def report (ready : ℕ → BitVec 16) (pfd : PollFd) : PollFd :=
  { pfd with revents := if 0 ≤ pfd.fd then ready pfd.fd.toNat else 0 }

/-- The channels that are entered into `active_channels`, with their `revents_`.
`revents` is a signed number here, and `SetEvents` is given `events`. -/
def fillActiveChannels (po : Poller P) (fd : P → ℕ) :
    List PollFd → Except Fault (List (P × EventMask))
  | [] => pure []
  | pfd :: pfds =>
    if 0 < pfd.revents.toInt then
      match po.channels pfd.fd with
      | none => .error (.assertion .fillActive)
      | some p => do
        assert (fd p = pfd.fd) .fillActive
        let activeChannels ← po.fillActiveChannels fd pfds
        return (p, ofShort pfd.events) :: activeChannels
    else po.fillActiveChannels fd pfds

/-- `Poll`, with an answer of `::poll` that is not an error. -/
def poll (po : Poller P) (fd : P → ℕ) (ready : ℕ → BitVec 16) :
    Except Fault (Poller P × List (P × EventMask)) := do
  let po' : Poller P := { po with pollfds := po.pollfds.map (report ready) }
  if 0 < po'.pollfds.countP (fun pfd => pfd.revents != 0) then
    let activeChannels ← po'.fillActiveChannels fd po'.pollfds
    return (po', activeChannels)
  else return (po', [])

/-! ### What the two operations can do -/

variable {po po' : Poller P} {p : P} {ch ch' : Channel} {moved : Option (P × ℤ)}

/-- What an `UpdateChannel` that returns has done, by the index of the channel. -/
theorem updateChannel_cases (h : po.updateChannel p ch = .ok (po', ch')) :
    (ch.index < 0 ∧ po.channels ch.fd = none ∧ ch' = { ch with index := po.pollfds.length } ∧
      po' = ⟨po.pollfds ++ [⟨ch.fd, toShort ch.events, 0⟩],
        Function.update po.channels ch.fd (some p)⟩) ∨
    (0 ≤ ch.index ∧ po.channels ch.fd = some p ∧ ch' = ch ∧
      ∃ pfd, po.pollfds[ch.index.toNat]? = some pfd ∧
        (pfd.fd = ch.fd ∨ pfd.fd = -ch.fd - 1) ∧
        po' = { po with pollfds := po.pollfds.set ch.index.toNat (updated pfd ch) }) := by
  rw [updateChannel] at h
  by_cases hnew : ch.index < 0
  · rw [if_pos hnew, assert, check_bind_eq_ok_iff] at h
    obtain ⟨hfree, h⟩ := h
    obtain ⟨rfl, rfl⟩ := Prod.mk.inj (Except.ok.inj h)
    refine Or.inl ⟨hnew, of_decide_eq_true hfree, ?_, rfl⟩
    simp
  · rw [if_neg hnew, assert, check_bind_eq_ok_iff] at h
    obtain ⟨hknown, h⟩ := h
    split at h
    · exact absurd h (by simp)
    · next pfd hpfd =>
      rw [assert, check_bind_eq_ok_iff] at h
      obtain ⟨hslot, h⟩ := h
      obtain ⟨rfl, rfl⟩ := Prod.mk.inj (Except.ok.inj h)
      exact Or.inr ⟨Int.not_lt.mp hnew, of_decide_eq_true hknown, rfl, pfd, hpfd,
        of_decide_eq_true hslot, rfl⟩

/-- What a `RemoveChannel` that returns has done: the last slot comes into the gap. -/
theorem removeChannel_cases (h : po.removeChannel p ch = .ok (po', moved)) :
    (po.channels ch.fd = some p ∧ ch.isNoneEvent = true) ∧
      ∃ (i : ℕ) (pfd : PollFd), ch.index = i ∧ po.pollfds[i]? = some pfd ∧
        pfd.fd = -ch.fd - 1 ∧ ofShort pfd.events = ch.events ∧
        po' = ⟨swapRemove po.pollfds i, Function.update po.channels ch.fd none⟩ ∧
        (i = po.pollfds.length - 1 ∧ moved = none ∨
          i ≠ po.pollfds.length - 1 ∧ ∃ q, moved = some (q, (i : ℤ)) ∧
            po'.channels (po.pollfds.getLastD pfd).decoded = some q) := by
  simp only [removeChannel, assert, check_bind_eq_ok_iff, decide_eq_true_eq] at h
  obtain ⟨hknown, hnone, ⟨hpos, hlt⟩, h⟩ := h
  obtain ⟨i, hi⟩ := Int.eq_ofNat_of_zero_le hpos
  rw [hi, Int.toNat_natCast] at h
  refine ⟨⟨hknown, hnone⟩, ?_⟩
  split at h
  · exact absurd h (by simp)
  · next pfd hpfd =>
    simp only [check_bind_eq_ok_iff, decide_eq_true_eq] at h
    obtain ⟨⟨hfd, hevents⟩, h⟩ := h
    refine ⟨i, pfd, hi, hpfd, hfd, hevents, ?_⟩
    split at h
    · next hlast =>
      obtain ⟨rfl, rfl⟩ := Prod.mk.inj (Except.ok.inj h)
      refine ⟨?_, Or.inl ⟨hlast, rfl⟩⟩
      rw [hlast, swapRemove_last]
      omega
    · next hlast =>
      split at h
      · exact absurd h (by simp)
      · next q hq =>
        obtain ⟨rfl, rfl⟩ := Prod.mk.inj (Except.ok.inj h)
        exact ⟨rfl, Or.inr ⟨hlast, q, rfl, hq⟩⟩

/-- What has been erased is not what is looked for, unless the two slots are for one
descriptor. -/
theorem removeChannel_eq_nullChannel (h : po.removeChannel p ch = .error .nullChannel) :
    ∃ (i : ℕ) (pfd : PollFd), po.pollfds[i]? = some pfd ∧ pfd.fd = -ch.fd - 1 ∧
      i ≠ po.pollfds.length - 1 ∧
      Function.update po.channels ch.fd none (po.pollfds.getLastD pfd).decoded = none := by
  simp only [removeChannel, assert, check_bind_eq_error_iff, reduceCtorEq, and_false,
    false_or] at h
  obtain ⟨-, -, -, h⟩ := h
  split at h
  · exact absurd h (by simp)
  · next pfd hpfd =>
    simp only [check_bind_eq_error_iff, reduceCtorEq, and_false, false_or,
      decide_eq_true_eq] at h
    obtain ⟨⟨hslot, -⟩, h⟩ := h
    split at h
    · exact absurd h (by simp [pure, Except.pure])
    · next hlast =>
      split at h
      · next hend => exact ⟨_, pfd, hpfd, hslot, hlast, hend⟩
      · exact absurd h (by simp [pure, Except.pure])

end Poller
end Bbkgl
