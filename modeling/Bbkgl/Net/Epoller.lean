import Mathlib.Logic.Function.Basic
import Bbkgl.CS.Fallible
import Bbkgl.Net.Channel

/-!
# Epoller

The map from descriptors to channels, beside the epoll instance of the kernel,
which has a map of its own. `P` is the type of the channels' addresses.
-/

set_option autoImplicit false

namespace Bbkgl

open CS.Fallible

/-- The channels by descriptor, and what the kernel has been told about them. -/
structure Epoller (P : Type*) where
  channels : ℕ → Option P
  /-- the epoll instance: the mask and the `data.ptr` of each registered descriptor -/
  kernel : ℕ → Option (EventMask × P)

namespace Epoller

/-- The assertions of the methods. -/
inductive Assertion
  /-- a new channel: `channels_.find(fd) == channels_.end()` -/
  | updateNew
  /-- `channels_.find(fd) != channels_.end()` and `channels_[fd] == channel` in `UpdateChannel` -/
  | updateKnown
  /-- `index == k_added` in `UpdateChannel` -/
  | updateAdded
  /-- the same two about `channels_` in `RemoveChannel` -/
  | removeKnown
  /-- `channel->IsNoneEvent()` in `RemoveChannel` -/
  | removeNoneEvent
  /-- `index == k_added || index == k_deleted` in `RemoveChannel` -/
  | removeIndex
  /-- the two about `channels_` in `FillActiveChannels` -/
  | fillActive
  deriving DecidableEq, Repr

/-- The constant `k_new`: the channel has never been added, or has been removed. -/
def kNew : Int := -1

/-- The constant `k_added`. -/
def kAdded : Int := 1

/-- The constant `k_deleted`: the channel has no interest for the time being. -/
def kDeleted : Int := 2

variable {P : Type*}

/-- An epoll instance without descriptors. -/
def empty : Epoller P := ⟨fun _ => none, fun _ => none⟩

/-- The operations of `epoll_ctl`. -/
inductive Operation
  | add
  | mod
  | del
  deriving DecidableEq, Repr

/-- `epoll_ctl`, which may fail: a failure is printed and otherwise ignored. -/
def update (ep : Epoller P) (operation : Operation) (p : P) (ch : Channel) : Epoller P :=
  match operation, ep.kernel ch.fd with
  | .add, none | .mod, some _ =>
    { ep with kernel := Function.update ep.kernel ch.fd (some (ch.events, p)) }
  | .del, some _ => { ep with kernel := Function.update ep.kernel ch.fd none }
  | .add, some _ | .mod, none | .del, none => ep

@[simp] theorem update_channels {ep : Epoller P} {operation : Operation} {p : P} {ch : Channel} :
    (ep.update operation p ch).channels = ep.channels := by
  unfold update
  split <;> rfl

/-- A record after `epoll_ctl` was there before or is the new one. -/
theorem eq_of_update_record {kernel : ℕ → Option (EventMask × P)} {a fd : ℕ}
    {e e' : EventMask × P} (h : Function.update kernel a (some e) fd = some e') :
    kernel fd = some e' ∨ e' = e ∧ fd = a := by
  rw [Function.update_apply] at h
  split at h
  · next hfd => exact Or.inr ⟨(Option.some_inj.mp h).symm, hfd⟩
  · exact Or.inl h

/-- A record that `epoll_ctl` leaves was there, or is about the channel it is called for. -/
theorem update_record {ep : Epoller P} {operation : Operation} {p : P} {ch : Channel} {fd : ℕ}
    {mask : EventMask} {q : P}
    (h : (ep.update operation p ch).kernel fd = some (mask, q)) :
    ep.kernel fd = some (mask, q) ∨ operation ≠ .del ∧ q = p ∧ fd = ch.fd := by
  have hset {operation : Operation} (hop : operation ≠ .del)
      (h : Function.update ep.kernel ch.fd (some (ch.events, p)) fd = some (mask, q)) :
      ep.kernel fd = some (mask, q) ∨ operation ≠ .del ∧ q = p ∧ fd = ch.fd :=
    (eq_of_update_record h).imp_right fun ⟨he, hfd⟩ => ⟨hop, (Prod.mk.inj he).2, hfd⟩
  unfold update at h
  split at h
  · exact hset (by simp) h
  · exact hset (by simp) h
  · simp only [Function.update_apply] at h
    split at h
    · exact absurd h (by simp)
    · exact Or.inl h
  · exact Or.inl h
  · exact Or.inl h
  · exact Or.inl h

/-- `EPOLL_CTL_DEL` leaves no record. -/
theorem update_del {ep : Epoller P} {p : P} {ch : Channel} :
    (ep.update .del p ch).kernel ch.fd = none := by
  cases h : ep.kernel ch.fd with
  | none => simp [update, h]
  | some e => simp [update, h]

variable [DecidableEq P]

/-- A channel without a kernel record is added, whatever its interest; one that has a record is
modified, or deleted when it has no interest left. -/
def updateChannel (ep : Epoller P) (p : P) (ch : Channel) :
    Except Assertion (Epoller P × Channel) := do
  if ch.index = kNew ∨ ch.index = kDeleted then
    let ep' ←
      if ch.index = kNew then
        if ep.channels ch.fd = none then
          pure { ep with channels := Function.update ep.channels ch.fd (some p) }
        else .error .updateNew
      else if ep.channels ch.fd = some p then pure ep
      else .error .updateKnown
    let ch' := { ch with index := kAdded }
    return (ep'.update .add p ch', ch')
  else
    check (ep.channels ch.fd = some p) .updateKnown
    check (ch.index = kAdded) .updateAdded
    if ch.isNoneEvent then
      return (ep.update .del p ch, { ch with index := kDeleted })
    else
      return (ep.update .mod p ch, ch)

/-- The channel leaves `channels_`, and the kernel if it had a record there. -/
def removeChannel (ep : Epoller P) (p : P) (ch : Channel) :
    Except Assertion (Epoller P × Channel) := do
  check (ep.channels ch.fd = some p) .removeKnown
  check ch.isNoneEvent .removeNoneEvent
  check (ch.index = kAdded ∨ ch.index = kDeleted) .removeIndex
  let ep' := { ep with channels := Function.update ep.channels ch.fd none }
  return (if ch.index = kAdded then ep'.update .del p ch else ep', { ch with index := kNew })

/-- A closed descriptor leaves the epoll instance. -/
def close (ep : Epoller P) (fd : ℕ) : Epoller P :=
  { ep with kernel := Function.update ep.kernel fd none }

/-- What `epoll_wait` may report for a channel: bits of the mask it is
registered with, `POLLERR` and `POLLHUP`, at least one of them. -/
def mayReport (ep : Epoller P) (fd : ℕ) (p : P) (revents : EventMask) : Bool :=
  match ep.kernel fd with
  | none => false
  | some (mask, q) =>
    q = p && revents != 0#32 && (revents &&& ~~~(mask ||| pollErr ||| pollHup)) == 0#32

/-! ### What the two operations can do -/

variable {ep ep' : Epoller P} {p : P} {ch ch' : Channel}

/-- What an `UpdateChannel` that returns has done, by the index of the channel. -/
theorem updateChannel_cases (h : ep.updateChannel p ch = .ok (ep', ch')) :
    (ch.index = kNew ∧ ep.channels ch.fd = none ∧ ch' = { ch with index := kAdded } ∧
      ep' = { ep with channels := Function.update ep.channels ch.fd (some p) }.update .add p ch') ∨
    (ch.index = kDeleted ∧ ep.channels ch.fd = some p ∧ ch' = { ch with index := kAdded } ∧
      ep' = ep.update .add p ch') ∨
    (ch.index = kAdded ∧ ep.channels ch.fd = some p ∧ ch.isNoneEvent = true ∧
      ch' = { ch with index := kDeleted } ∧ ep' = ep.update .del p ch) ∨
    (ch.index = kAdded ∧ ep.channels ch.fd = some p ∧ ch' = ch ∧ ep' = ep.update .mod p ch) := by
  rw [updateChannel] at h
  by_cases hadd : ch.index = kNew ∨ ch.index = kDeleted
  · rw [if_pos hadd] at h
    by_cases hnew : ch.index = kNew
    · simp only [if_pos hnew] at h
      split at h
      · next hfree =>
        obtain ⟨rfl, rfl⟩ := Prod.mk.inj (Except.ok.inj h)
        exact Or.inl ⟨hnew, hfree, rfl, rfl⟩
      · exact absurd h (by simp [bind, Except.bind])
    · have hdeleted : ch.index = kDeleted := hadd.resolve_left hnew
      simp only [if_neg hnew] at h
      split at h
      · next hknown =>
        obtain ⟨rfl, rfl⟩ := Prod.mk.inj (Except.ok.inj h)
        exact Or.inr (Or.inl ⟨hdeleted, hknown, rfl, rfl⟩)
      · exact absurd h (by simp [bind, Except.bind])
  · rw [if_neg hadd, check_bind_eq_ok_iff, check_bind_eq_ok_iff] at h
    obtain ⟨hknown, hadded, h⟩ := h
    have hknown : ep.channels ch.fd = some p := of_decide_eq_true hknown
    have hadded : ch.index = kAdded := of_decide_eq_true hadded
    split at h
    · next hnone =>
      obtain ⟨rfl, rfl⟩ := Prod.mk.inj (Except.ok.inj h)
      exact Or.inr (Or.inr (Or.inl ⟨hadded, hknown, hnone, rfl, rfl⟩))
    · obtain ⟨rfl, rfl⟩ := Prod.mk.inj (Except.ok.inj h)
      exact Or.inr (Or.inr (Or.inr ⟨hadded, hknown, rfl, rfl⟩))

/-- `UpdateChannel` sets the index of the channel and nothing else of it. -/
theorem updateChannel_channel (h : ep.updateChannel p ch = .ok (ep', ch')) :
    ∃ index, ch' = { ch with index := index } := by
  rcases updateChannel_cases h with ⟨-, -, rfl, -⟩ | ⟨-, -, rfl, -⟩ | ⟨-, -, -, rfl, -⟩ |
    ⟨-, -, rfl, -⟩
  · exact ⟨_, rfl⟩
  · exact ⟨_, rfl⟩
  · exact ⟨_, rfl⟩
  · exact ⟨_, rfl⟩

/-- What a `RemoveChannel` that returns has done. -/
theorem removeChannel_cases (h : ep.removeChannel p ch = .ok (ep', ch')) :
    (ep.channels ch.fd = some p ∧ ch.isNoneEvent = true) ∧ ch' = { ch with index := kNew } ∧
      ((ch.index = kAdded ∧ ep' =
        { ep with channels := Function.update ep.channels ch.fd none }.update .del p ch) ∨
      (ch.index = kDeleted ∧ ep' =
        { ep with channels := Function.update ep.channels ch.fd none })) := by
  rw [removeChannel, check_bind_eq_ok_iff, check_bind_eq_ok_iff, check_bind_eq_ok_iff] at h
  obtain ⟨hknown, hnone, hindex, h⟩ := h
  obtain ⟨rfl, rfl⟩ := Prod.mk.inj (Except.ok.inj h)
  refine ⟨⟨of_decide_eq_true hknown, hnone⟩, rfl, ?_⟩
  by_cases hadded : ch.index = kAdded
  · exact Or.inl ⟨hadded, if_pos hadded⟩
  · exact Or.inr ⟨(of_decide_eq_true hindex).resolve_left hadded, if_neg hadded⟩

/-! ### What they leave in `channels_` -/

/-- After `UpdateChannel` the channel has been entered, and no other has. -/
theorem updateChannel_channels (h : ep.updateChannel p ch = .ok (ep', ch')) :
    ch'.index ≠ kNew ∧
      ∀ fd q, ep'.channels fd = some q → ep.channels fd = some q ∨ q = p ∧ fd = ch.fd := by
  have hadded : kAdded ≠ kNew := by decide
  have hdeleted : kDeleted ≠ kNew := by decide
  rcases updateChannel_cases h with ⟨-, -, rfl, rfl⟩ | ⟨-, -, rfl, rfl⟩ | ⟨-, -, -, rfl, rfl⟩ |
    ⟨hindex, -, rfl, rfl⟩
  · refine ⟨hadded, fun fd q hq => ?_⟩
    rw [update_channels] at hq
    simp only [Function.update_apply] at hq
    split at hq
    · next hfd => exact Or.inr ⟨(Option.some_inj.mp hq).symm, hfd⟩
    · exact Or.inl hq
  · exact ⟨hadded, fun fd q hq => Or.inl (update_channels ▸ hq)⟩
  · exact ⟨hdeleted, fun fd q hq => Or.inl (update_channels ▸ hq)⟩
  · exact ⟨hindex ▸ hadded, fun fd q hq => Or.inl (update_channels ▸ hq)⟩

/-- `RemoveChannel` takes one entry out of `channels_`. -/
theorem removeChannel_channels (h : ep.removeChannel p ch = .ok (ep', ch')) :
    ep'.channels = Function.update ep.channels ch.fd none := by
  obtain ⟨-, rfl, ⟨-, rfl⟩ | ⟨-, rfl⟩⟩ := removeChannel_cases h
  · exact update_channels
  · rfl

/-! ### What they leave in the kernel -/

/-- `UpdateChannel` makes a record of its own channel at most, which is then `k_added`. -/
theorem updateChannel_record (h : ep.updateChannel p ch = .ok (ep', ch')) {fd : ℕ}
    {mask : EventMask} {q : P} (hrecord : ep'.kernel fd = some (mask, q)) :
    ep.kernel fd = some (mask, q) ∨ q = p ∧ fd = ch.fd ∧ ch'.index = kAdded := by
  rcases updateChannel_cases h with ⟨-, -, rfl, rfl⟩ | ⟨-, -, rfl, rfl⟩ | ⟨-, -, -, rfl, rfl⟩ |
    ⟨hindex, -, rfl, rfl⟩
  · exact (update_record hrecord).imp_right fun ⟨_, hq, hfd⟩ => ⟨hq, hfd, rfl⟩
  · exact (update_record hrecord).imp_right fun ⟨_, hq, hfd⟩ => ⟨hq, hfd, rfl⟩
  · exact (update_record hrecord).imp_right fun ⟨hdel, _⟩ => absurd rfl hdel
  · exact (update_record hrecord).imp_right fun ⟨_, hq, hfd⟩ => ⟨hq, hfd, hindex⟩

/-- `RemoveChannel` makes no record, and leaves none of a channel that is `k_added`. -/
theorem removeChannel_record (h : ep.removeChannel p ch = .ok (ep', ch')) :
    (∀ {fd e}, ep'.kernel fd = some e → ep.kernel fd = some e) ∧
      (ch.index = kAdded → ep'.kernel ch.fd = none) := by
  obtain ⟨-, rfl, ⟨-, rfl⟩ | ⟨hindex, rfl⟩⟩ := removeChannel_cases h
  · refine ⟨fun hrecord => ?_, fun _ => update_del⟩
    exact (update_record hrecord).resolve_right fun ⟨hdel, _⟩ => hdel rfl
  · exact ⟨id, fun hadded => absurd (hindex.symm.trans hadded) (by decide)⟩

/-- The assertion about a new channel fails only if its descriptor is taken. -/
theorem updateNew_of_updateChannel (h : ep.updateChannel p ch = .error .updateNew) :
    ch.index = kNew ∧ ep.channels ch.fd ≠ none := by
  rw [updateChannel] at h
  by_cases hadd : ch.index = kNew ∨ ch.index = kDeleted
  · rw [if_pos hadd] at h
    by_cases hnew : ch.index = kNew
    · simp only [if_pos hnew] at h
      split at h
      · exact absurd h (by simp [pure, Except.pure, bind, Except.bind])
      · next htaken => exact ⟨hnew, htaken⟩
    · simp only [if_neg hnew] at h
      split at h <;> exact absurd h (by simp [pure, Except.pure, bind, Except.bind])
  · rw [if_neg hadd] at h
    rcases check_bind_eq_error_iff.mp h with ⟨-, h⟩ | ⟨-, h⟩
    · exact absurd h (by simp)
    · rcases check_bind_eq_error_iff.mp h with ⟨-, h⟩ | ⟨-, h⟩
      · exact absurd h (by simp)
      · split at h <;> exact absurd h (by simp [pure, Except.pure])

/-- The assertion about a new channel is in `UpdateChannel` only. -/
theorem removeChannel_ne_updateNew : ep.removeChannel p ch ≠ .error .updateNew := by
  intro h
  rcases check_bind_eq_error_iff.mp h with ⟨-, h⟩ | ⟨-, h⟩
  · exact absurd h (by simp)
  · rcases check_bind_eq_error_iff.mp h with ⟨-, h⟩ | ⟨-, h⟩
    · exact absurd h (by simp)
    · rcases check_bind_eq_error_iff.mp h with ⟨-, h⟩ | ⟨-, h⟩
      · exact absurd h (by simp)
      · exact absurd h (by simp [pure, Except.pure])

end Epoller
end Bbkgl
