import Bbkgl.Net.EpollerKernel

/-!
# Channels without interest

A channel whose interest is gone is meant to be out of the epoll instance.
`UpdateChannel` looks at the interest only when the index is `k_added`: a channel
that is new or was taken out before is added whatever its interest is, and so the
second `DisableAll` of a channel registers it again, with an empty mask.
-/

set_option autoImplicit false

namespace Bbkgl

open CS.Transition

variable {P : Type*} [DecidableEq P]

namespace Epoller

variable {ep ep' : Epoller P} {p : P} {ch ch' : Channel}

/-- Only a known channel without interest is marked as deleted. -/
theorem updateChannel_index (h : ep.updateChannel p ch = .ok (ep', ch')) :
    ch' = { ch with index := if ch.index = kAdded ∧ ch.isNoneEvent then kDeleted else kAdded } := by
  by_cases hadded : ch.index = kAdded
  · rcases updateChannel_added hadded h with ⟨hnone, -, rfl⟩ | ⟨hnone, -, rfl⟩
    · rw [if_pos ⟨hadded, hnone⟩]
    · rw [if_neg (by simp [hnone]), ← hadded]
  · rw [if_neg (by simp [hadded])]
    rcases updateChannel_cases h with ⟨-, -, rfl, -⟩ | ⟨-, -, rfl, -⟩ | ⟨hindex, -⟩ | ⟨hindex, -⟩
    · rfl
    · rfl
    · exact absurd hindex hadded
    · exact absurd hindex hadded

end Epoller

namespace Watch

open Epoller

variable {fd : P → ℕ} {s t u : Watch P} {as : List (Action P)} {a : Action P} {p : P}

/-- A channel without interest is not in the epoll instance. -/
def Unwatched (s : Watch P) (p : P) : Prop :=
  (s.channel p).isNoneEvent = true → s.poller.kernel (s.channel p).fd = none

/-- An operation that leaves its channel without interest finds it with index
`k_added`. -/
def quietsAdded (s : Watch P) : Action P → Bool
  | .update change p =>
    !(change.apply (s.channel p)).isNoneEvent || (s.channel p).index = kAdded
  | .removeChannel _ => true

/-- The index and the interest of a channel after an operation on it. -/
theorem Agrees.channel_update (h : Agrees fd s) {change : Channel.Change}
    (hstep : step s (.update change p) = some t) :
    t.channel p =
      { change.apply (s.channel p) with
        index :=
          if (s.channel p).index = kAdded ∧ (change.apply (s.channel p)).isNoneEvent then kDeleted
          else kAdded } := by
  obtain ⟨events, hevents⟩ := change.apply_eq (s.channel p)
  have hindex : (change.apply (s.channel p)).index = (s.channel p).index := by rw [hevents]
  have hfd : (change.apply (s.channel p)).fd = fd p := by rw [hevents, ← h.fd_eq p]
  obtain ⟨poller, ch, c, k, hupdate, -⟩ :=
    (h.standing p).updateChannel hindex (by rw [hfd]) (by rw [hfd])
  obtain ⟨-, rfl⟩ := guarded_eq_some_iff.mp hstep
  simp only [effect, hupdate, Function.update_self]
  rw [updateChannel_index hupdate, hindex]

/-- A channel that is removed has no interest left, and its index is that of a new one. -/
theorem Agrees.channel_removeChannel (h : Agrees fd s)
    (hstep : step s (.removeChannel p) = some t) :
    (s.channel p).isNoneEvent = true ∧ t.channel p = { s.channel p with index := kNew } := by
  obtain ⟨hguard, rfl⟩ := guarded_eq_some_iff.mp hstep
  rw [guard, Bool.and_eq_true, Bool.and_eq_true, decide_eq_true_eq, decide_eq_true_eq] at hguard
  obtain ⟨⟨-, hknown⟩, hquiet⟩ := hguard
  have hfd := h.fd_eq p
  obtain ⟨poller, hremove, -⟩ :=
    (h.standing p).removeChannel (by rw [hfd]) (by rw [hfd]) (hfd ▸ hknown) hquiet
  refine ⟨hquiet, ?_⟩
  simp only [effect, hremove, Function.update_self]

omit [DecidableEq P] in
/-- A channel is out of the epoll instance without interest, or its index says that it is still
in. -/
theorem Agrees.unwatched_iff (h : Agrees fd s) :
    Unwatched s p ↔ ((s.channel p).isNoneEvent = true → (s.channel p).index ≠ kAdded) := by
  obtain ⟨-, -, hkernel, -⟩ := (h.standing p).index_iff
  rw [Unwatched, h.fd_eq p, Ne, ← hkernel, ne_eq, not_not]

/-- After an operation the channel is in the epoll instance without interest
exactly when the operation took the interest away, or found none, and the index
was another than `k_added`. -/
theorem Agrees.unwatched_step_iff (h : Agrees fd s) (ht : Agrees fd t)
    (hstep : step s a = some t) : Unwatched t a.channel ↔ quietsAdded s a = true := by
  have hdeleted : kDeleted ≠ kAdded := by decide
  have hnone {ch : Channel} {i : Int} :
      ({ ch with index := i } : Channel).isNoneEvent = ch.isNoneEvent := rfl
  rw [ht.unwatched_iff]
  cases a with
  | update change p =>
    rw [Action.channel, h.channel_update hstep, quietsAdded, hnone]
    cases (change.apply (s.channel p)).isNoneEvent with
    | false => simp
    | true => by_cases hadded : (s.channel p).index = kAdded <;> simp [hadded, hdeleted]
  | removeChannel p =>
    have hnew : (t.channel p).index = kNew := by rw [(h.channel_removeChannel hstep).2]
    have hadded : kNew ≠ kAdded := by decide
    exact iff_of_true (fun _ => hnew ▸ hadded) rfl

/-- The other channels stay as they are. -/
theorem Agrees.unwatched_of_ne (h : Agrees fd s) (ht : Agrees fd t)
    (hstep : step s a = some t) (hp : p ≠ a.channel) (hs : Unwatched s p) : Unwatched t p := by
  obtain ⟨ch, c, k, hchannel, -⟩ := h.step_cases hstep
  rw [ht.unwatched_iff, hchannel, Function.update_of_ne hp]
  exact h.unwatched_iff.mp hs

theorem unwatched_of_reach (hfd : Function.Injective fd)
    (h : Reach step (fun s a => quietsAdded s a = true) (init fd) as s) (p : P) :
    Unwatched s p := by
  refine h.invariant (I := fun s => ∀ p, Unwatched s p) (fun _ _ => rfl) ?_ p
  intro as s a t hrun hs hquiets hstep q
  have hagrees : Agrees fd s := agrees_of_reach hfd hrun.always
  have hagrees' : Agrees fd t := agrees_of_reach hfd (hrun.always.snoc trivial hstep)
  by_cases hq : q = a.channel
  · rw [hq]
    exact (hagrees.unwatched_step_iff hagrees' hstep).mpr hquiets
  · exact hagrees.unwatched_of_ne hagrees' hstep hq (hs q)

/-- `DisableAll` after `DisableAll` always changes the index: between `k_added`
and `k_deleted`, one way or the other. -/
theorem Agrees.index_disableAll (h : Agrees fd s) (ht : Agrees fd t)
    (hs : step s (.update .disableAll p) = some t)
    (hstep : step t (.update .disableAll p) = some u) :
    ((t.channel p).index = kDeleted ∧ (u.channel p).index = kAdded) ∨
      ((t.channel p).index = kAdded ∧ (u.channel p).index = kDeleted) := by
  have hnone {ch : Channel} : ch.disableAll.isNoneEvent = true := rfl
  have hdeleted : kDeleted ≠ kAdded := by decide
  have hu := congrArg Channel.index (ht.channel_update hstep)
  have ht := congrArg Channel.index (h.channel_update hs)
  simp only [Channel.Change.apply, hnone, and_true] at ht hu
  by_cases hadded : (s.channel p).index = kAdded
  · rw [if_pos hadded] at ht
    rw [if_neg (ht ▸ hdeleted)] at hu
    exact Or.inl ⟨ht, hu⟩
  · rw [if_neg hadded] at ht
    rw [if_pos ht] at hu
    exact Or.inr ⟨ht, hu⟩

/-- In every run in which whatever leaves a channel without interest finds it with
index `k_added`, the channels without interest are out of the epoll instance; any
other such operation puts its channel in; and `DisableAll` is never idempotent. -/
theorem unwatched_iff_quietsAdded (hfd : Function.Injective fd) :
    (∀ {as s}, Reach step (fun s a => quietsAdded s a = true) (init fd) as s →
      ∀ p, Unwatched s p) ∧
    (∀ {as s a t}, Reach step Always (init fd) as s → step s a = some t →
      (Unwatched t a.channel ↔ quietsAdded s a = true)) ∧
    ∀ {as s p t u}, Reach step Always (init fd) as s →
      step s (.update .disableAll p) = some t → step t (.update .disableAll p) = some u →
      (u.channel p).index ≠ (t.channel p).index ∧
        u.poller.kernel (fd p) ≠ t.poller.kernel (fd p) := by
  refine ⟨fun h p => unwatched_of_reach hfd h p, fun h hstep => ?_, fun h hs hstep => ?_⟩
  · exact (agrees_of_reach hfd h).unwatched_step_iff
      (agrees_of_reach hfd (h.snoc trivial hstep)) hstep
  · have ht := h.snoc trivial hs
    have hagrees := agrees_of_reach hfd ht
    have hagrees' := agrees_of_reach hfd (ht.snoc trivial hstep)
    have hne : kDeleted ≠ kAdded := by decide
    obtain ⟨-, -, hkernel, -⟩ := (hagrees.standing _).index_iff
    obtain ⟨-, -, hkernel', -⟩ := (hagrees'.standing _).index_iff
    rcases (agrees_of_reach hfd h).index_disableAll hagrees hs hstep with
      ⟨hdeleted, hadded⟩ | ⟨hadded, hdeleted⟩
    · refine ⟨by rw [hadded, hdeleted]; exact hne.symm, fun heq => ?_⟩
      exact hkernel.not.mpr (hdeleted ▸ hne) (heq ▸ hkernel'.mpr hadded)
    · refine ⟨by rw [hadded, hdeleted]; exact hne, fun heq => ?_⟩
      exact hkernel'.not.mpr (hdeleted ▸ hne) (heq ▸ hkernel.mpr hadded)

/-- Twice disabled, as at every close of a connection, a channel is registered
with an empty mask. -/
theorem watched_of_disabledTwice :
    ¬ ∀ {as : List (Action ℕ)} {s}, Reach step Always (init id) as s → ∀ p, Unwatched s p := by
  intro h
  have hrun : Reach step Always (init (id : ℕ → ℕ))
      [.update .enableReading 7, .update .disableAll 7, .update .disableAll 7] _ :=
    reach_of_run rfl
  have hkernel := h hrun 7 rfl
  exact absurd hkernel (Option.some_ne_none ((Channel.noneEvent, 7) : EventMask × ℕ))

/-- One close that disables its channel once. -/
theorem unwatched_disabledOnce : ∃ s : Watch ℕ,
    Reach step (fun s a => quietsAdded s a = true) (init id)
      [.update .enableReading 7, .update .disableAll 7, .removeChannel 7] s ∧ Unwatched s 7 := by
  have hrun : Reach step (fun s a => quietsAdded s a = true) (init (id : ℕ → ℕ))
      [.update .enableReading 7, .update .disableAll 7, .removeChannel 7] _ := reach_of_runIf rfl
  exact ⟨_, hrun, (unwatched_iff_quietsAdded Function.injective_id).1 hrun 7⟩

end Watch
end Bbkgl
