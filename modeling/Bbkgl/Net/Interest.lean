import Bbkgl.Net.EpollerUnwatched
import Bbkgl.Net.PollerSlots

/-!
# The interest of channels

What a poller is for: to know, of each channel, whether it is registered and for
which events. Nothing else of a poller is in this model, neither slots nor
indices, and both pollers are measured against it: `channels_` has the channels
that are registered, and `events_` is what each is registered for.
-/

set_option autoImplicit false

namespace Bbkgl

universe u

namespace Channel

/-- What the changes make of no interest, in any order. -/
def subscriptions : List EventMask :=
  [noneEvent, readEvent, writeEvent, readEvent ||| writeEvent]

/-- What a change does to the set of events. -/
def Change.mask : Change → EventMask → EventMask
  | .enableReading, m => m ||| readEvent
  | .enableWriting, m => m ||| writeEvent
  | .disableWriting, m => m &&& ~~~writeEvent
  | .disableAll, _ => noneEvent

variable {change : Change} {m : EventMask}

/-- What a change does to a channel is what it does to a mask. -/
theorem Change.apply_eq_mask (ch : Channel) :
    change.apply ch = { ch with events := change.mask ch.events } := by
  cases change <;> rfl

/-- The masks of the interface go over into each other. -/
theorem mask_mem_subscriptions (h : m ∈ subscriptions) : change.mask m ∈ subscriptions := by
  have hall : subscriptions.all (fun m => change.mask m ∈ subscriptions) = true := by
    cases change <;> decide
  exact of_decide_eq_true (List.all_eq_true.mp hall m h)

/-- No bit of an interest is lost in a `short`. -/
theorem ofShort_toShort (h : m ∈ subscriptions) : Poller.ofShort (Poller.toShort m) = m := by
  have hall : subscriptions.all (fun m => Poller.ofShort (Poller.toShort m) = m) = true := by
    decide
  exact of_decide_eq_true (List.all_eq_true.mp hall m h)

end Channel

/-- The channels that are registered, each with the events it is registered for. -/
abbrev Interest (P : Type*) := P → Option EventMask

variable {P : Type u}

namespace Interest

/-- The events that a channel is subscribed to; none before the first of them. -/
def mask (q : Interest P) (p : P) : EventMask := (q p).getD Channel.noneEvent

/-- Every mask is one that the methods of `Channel` can make. -/
def Possible (q : Interest P) : Prop := ∀ p, q.mask p ∈ Channel.subscriptions

variable [DecidableEq P]

/-- The interest after an action. -/
def after (q : Interest P) : Watch.Action P → Interest P
  | .update change p => Function.update q p (some (change.mask (q.mask p)))
  | .removeChannel p => Function.update q p none

variable {q : Interest P} {a : Watch.Action P} {p : P}

/-- An action is about one channel. -/
theorem after_of_ne (h : p ≠ a.channel) : q.after a p = q p := by
  cases a with
  | update change r => exact Function.update_of_ne h _ _
  | removeChannel r => exact Function.update_of_ne h _ _

theorem possible_after (h : q.Possible) : (q.after a).Possible := by
  intro p
  by_cases hp : p = a.channel
  · rw [hp]
    cases a with
    | update change r =>
      rw [mask, after, Watch.Action.channel, Function.update_self]
      exact Channel.mask_mem_subscriptions (h r)
    | removeChannel r =>
      rw [mask, after, Watch.Action.channel, Function.update_self]
      exact List.mem_cons_self
  · rw [mask, after_of_ne hp]
    exact h p

end Interest

/-- What a poller has in `channels_` and its channels in `events_`, against the model. -/
structure Keeps (fd : P → ℕ) (channels : ℕ → Option P) (channel : P → Channel) (q : Interest P) :
    Prop where
  registered : ∀ p, channels (fd p) = some p ↔ q p ≠ none
  events : ∀ p, (channel p).events = q.mask p

section Keeps

variable [DecidableEq P] {fd : P → ℕ} {channels channels' : ℕ → Option P}
  {channel channel' : P → Channel} {q : Interest P} {a : Watch.Action P} {p : P}

omit [DecidableEq P] in
theorem keeps_init : Keeps fd (fun _ => none) (fun p => .new (fd p)) (fun _ => none) where
  registered p := by simp
  events p := rfl

omit [DecidableEq P] in
/-- A channel that is not registered has no interest. -/
theorem Keeps.registered_of_interest (h : Keeps fd channels channel q)
    (hp : (channel p).isNoneEvent = false) : channels (fd p) = some p := by
  rw [h.registered]
  intro hnone
  rw [Channel.isNoneEvent, h.events, Interest.mask, hnone] at hp
  exact absurd hp (by simp)

/-- An operation on one channel leaves the others as they are. -/
theorem Keeps.after (h : Keeps fd channels channel q)
    (hself : channels' (fd a.channel) = some a.channel ↔ q.after a a.channel ≠ none)
    (hevents : (channel' a.channel).events = (q.after a).mask a.channel)
    (hother : ∀ r, r ≠ a.channel →
      channels' (fd r) = channels (fd r) ∧ (channel' r).events = (channel r).events) :
    Keeps fd channels' channel' (q.after a) := by
  refine ⟨fun r => ?_, fun r => ?_⟩
  · by_cases hr : r = a.channel
    · rw [hr]
      exact hself
    · rw [(hother r hr).1, Interest.after_of_ne hr]
      exact h.registered r
  · by_cases hr : r = a.channel
    · rw [hr]
      exact hevents
    · rw [(hother r hr).2, Interest.mask, Interest.after_of_ne hr]
      exact h.events r

end Keeps

/-! ### Epoller -/

namespace Watch

open Epoller CS.Transition

variable [DecidableEq P] {fd : P → ℕ} {s t : Watch P} {q : Interest P} {as : List (Action P)}
  {a : Action P} {p : P}

/-- A step of the epoller keeps the interest that has been asked for. -/
theorem Agrees.keeps_step (h : Agrees fd s) (ht : Agrees fd t) (hfd : Function.Injective fd)
    (hkeeps : Keeps fd s.poller.channels s.channel q) (hstep : step s a = some t) :
    Keeps fd t.poller.channels t.channel (q.after a) := by
  obtain ⟨ch, c, k, hchannel, -, hchannels, -⟩ := h.step_cases hstep
  obtain ⟨hfree, htaken, -, -⟩ := (ht.standing a.channel).index_iff
  refine hkeeps.after ?_ ?_ fun r hr => ⟨?_, by rw [hchannel, Function.update_of_ne hr]⟩
  · cases a with
    | update change p =>
      rw [Action.channel, Interest.after, Function.update_self]
      refine iff_of_true (htaken.mp ?_) (by simp)
      rw [Action.channel, h.channel_update hstep]
      dsimp only
      split
      · exact Or.inr rfl
      · exact Or.inl rfl
    | removeChannel p =>
      rw [Action.channel, Interest.after, Function.update_self]
      have hnone := hfree.mp (by rw [Action.channel, (h.channel_removeChannel hstep).2])
      rw [Action.channel] at hnone
      rw [hnone]
      exact iff_of_false (by simp) (by simp)
  · cases a with
    | update change p =>
      rw [Action.channel, h.channel_update hstep, Channel.Change.apply_eq_mask, Interest.mask,
        Interest.after, Function.update_self, ← hkeeps.events]
      rfl
    | removeChannel p =>
      obtain ⟨hnone, heq⟩ := h.channel_removeChannel hstep
      rw [Action.channel, heq, Interest.mask, Interest.after, Function.update_self]
      exact of_decide_eq_true hnone
  · rw [hchannels, Function.update_of_ne fun heq => hr (hfd heq)]

/-- A channel is taken out of the epoll instance only if its interest is gone. -/
theorem Agrees.idle_step (h : Agrees fd s) (hstep : step s a = some t)
    (hidle : ∀ p, (s.channel p).index = kDeleted → (s.channel p).isNoneEvent = true) :
    (t.channel p).index = kDeleted → (t.channel p).isNoneEvent = true := by
  by_cases hp : p = a.channel
  · rw [hp]
    cases a with
    | update change p =>
      rw [Action.channel, h.channel_update hstep]
      dsimp only
      split
      · next hdeleted => exact fun _ => hdeleted.2
      · exact fun hadded => absurd hadded (by decide)
    | removeChannel p =>
      rw [Action.channel, (h.channel_removeChannel hstep).2]
      exact fun hnew => absurd (show kNew = kDeleted from hnew) (by decide)
  · obtain ⟨ch, c, k, hchannel, -⟩ := h.step_cases hstep
    rw [hchannel, Function.update_of_ne hp]
    exact hidle p

omit [DecidableEq P] in
/-- What the epoll instance has with events in it is what the model has. -/
theorem Agrees.kernel_iff (h : Agrees fd s)
    (hkeeps : Keeps fd s.poller.channels s.channel q)
    (hidle : ∀ p, (s.channel p).index = kDeleted → (s.channel p).isNoneEvent = true) {n : ℕ}
    {m : EventMask} (hm : m ≠ Channel.noneEvent) :
    s.poller.kernel n = some (m, p) ↔ fd p = n ∧ q.mask p = m := by
  obtain ⟨-, htaken, hadded, hevents⟩ := (h.standing p).index_iff
  constructor
  · intro hkernel
    obtain rfl : fd p = n := by
      by_cases hforeign : ∀ r, fd r ≠ n
      · exact absurd ((h.foreign n hforeign).2.symm.trans hkernel) (by simp)
      · push Not at hforeign
        obtain ⟨r, rfl⟩ := hforeign
        exact h.channels_eq_some ((h.standing r).kernel hkernel)
    have hmask := hkernel.symm.trans (hevents (hadded.mp (by simp [hkernel])))
    rw [← hkeeps.events]
    exact ⟨rfl, (Prod.mk.inj (Option.some_inj.mp hmask)).1.symm⟩
  · rintro ⟨rfl, rfl⟩
    rw [← hkeeps.events] at hm ⊢
    have hinterest : (s.channel p).isNoneEvent = false := decide_eq_false hm
    have hindex := htaken.mpr (hkeeps.registered_of_interest hinterest)
    refine hevents (hindex.resolve_right fun hdeleted => ?_)
    rw [hidle p hdeleted] at hinterest
    exact absurd hinterest (by simp)

end Watch

end Bbkgl
