import Bbkgl.Net.EventLoop

/-!
# No lost wakeup

`QueueInLoop` from another thread writes the eventfd after its push, and from
the loop's own thread only while functors run. The eventfd is drained by a
handler, before the swap of the same iteration. So a functor that is still
queued when the loop is about to block was pushed after the last drain, and its
wakeup is either in the counter or still to be written.
-/

set_option autoImplicit false

namespace Bbkgl
namespace EventLoop

open CS Transition

variable {T F : Type*} {s s' : State T F}

/-- `Poll()` will not block for long: the eventfd is readable, or another
thread is between its push (or its `quit_ = true`) and its `Wakeup()`. -/
def Signalled (s : State T F) : Prop :=
  0 < s.wakeupFd ∨ ∃ t : T, s.calls (.other t) ≠ .idle

/-- The stretch of an iteration from the swap to the next walk over the active
channels. Nothing drains the eventfd there. -/
def Pc.Undrained : Pc → Prop
  | .dispatch _ | .swap => False
  | _ => True

/-- The loop's own thread calls `QueueInLoop` only while `Loop()` is running. -/
def SelfQueuesInLoop (s : State T F) : Action T F → Prop
  | .queueInLoop .loop _ => s.pc ≠ .outside
  | _ => True

instance (s : State T F) (a : Action T F) : Decidable (SelfQueuesInLoop s a) :=
  match a with
  | .queueInLoop .loop _ => inferInstanceAs (Decidable (s.pc ≠ .outside))
  | .queueInLoop (.other _) _ | .enterLoop | .clearQuit | .testQuit | .poll _ | .handleRead
  | .handler | .userReturn | .doPendingFunctors | .swap | .callFunctor | .finishFunctors
  | .runInLoop _ _ | .quit _ | .wakeup _ => .isTrue trivial

/-- Where the threads can be, and that what is pending has been signalled or is about to be. -/
structure WakeupInv (s : State T F) : Prop where
  user : s.inUser = true → s.pc = .functors ∨ ∃ w, s.pc = .dispatch w
  selfCall : s.calls .loop ≠ .idle → s.inUser = true ∨ s.pc = .outside
  selfQueued : s.calls .loop = .queued → s.inUser = true
  flag : s.pc = .swap ∨ s.pc = .functors → s.callPendingFunctors = true
  pending : s.pc.Undrained → s.functors.pending ≠ [] → Signalled s ∨ s.calls .loop = .queued
  quit : s.pc = .poll → s.quitFlag = true → Signalled s

theorem wakeupInv_init : WakeupInv (State.init T F) := by
  constructor <;> simp [State.init, Mailbox.empty]

/-- Outside user code and inside `Loop()`, the loop's thread is not halfway
through a call. -/
theorem WakeupInv.selfIdle (h : WakeupInv s) (huser : s.inUser = false) (hpc : s.pc ≠ .outside) :
    s.calls .loop = .idle := by
  by_contra hcall
  rcases h.selfCall hcall with hu | ho
  · simp [huser] at hu
  · exact hpc ho

/-- At the point where the loop's thread has no call under way, a queued
functor has been signalled by another thread. -/
theorem WakeupInv.signalled (h : WakeupInv s) (hpc : s.pc.Undrained)
    (huser : s.inUser = false) (hpending : s.functors.pending ≠ []) : Signalled s := by
  apply (h.pending hpc hpending).resolve_right
  intro hqueued
  have := h.selfQueued hqueued
  simp [huser] at this

variable [DecidableEq T]

/-- A call in another place of its code changes nothing about the wake-up. -/
theorem Signalled.update {t : Thread T} {c : Call} (h : Signalled s) (hc : c ≠ .idle)
    {u : State T F} (hfd : u.wakeupFd = s.wakeupFd)
    (hcalls : u.calls = Function.update s.calls t c) :
    Signalled u := by
  rcases h with hpos | ⟨x, hx⟩
  · exact Or.inl (hfd ▸ hpos)
  · refine Or.inr ⟨x, ?_⟩
    rw [hcalls]
    by_cases hxt : Thread.other x = t
    · simpa [hxt] using hc
    · simpa [Function.update_of_ne hxt] using hx

/-- A push keeps the invariant, whichever thread makes it. -/
theorem WakeupInv.push {t : Thread T} {cb : F} (h : WakeupInv s)
    (hself : t = .loop → s.inUser = true) : WakeupInv (pushFunctor s t cb) := by
  have hother : t ≠ .loop → Signalled (pushFunctor s t cb) := by
    intro ht
    cases t with
    | loop => exact absurd rfl ht
    | other x => exact Or.inr ⟨x, by simp [pushFunctor]⟩
  constructor
  · exact h.user
  · intro hcall
    by_cases ht : t = .loop
    · exact Or.inl (hself ht)
    · exact h.selfCall (by simpa [pushFunctor, Function.update_of_ne (Ne.symm ht)] using hcall)
  · intro hcall
    by_cases ht : t = .loop
    · exact hself ht
    · exact h.selfQueued (by simpa [pushFunctor, Function.update_of_ne (Ne.symm ht)] using hcall)
  · exact h.flag
  · intro _ _
    by_cases ht : t = .loop
    · exact Or.inr (by simp [pushFunctor, ht])
    · exact Or.inl (hother ht)
  · intro hpc hquit
    exact (h.quit hpc hquit).update (c := .queued) (by simp) rfl rfl

/-- The test at the end of `QueueInLoop` and `Quit`. Another thread always
writes the eventfd; the loop's own thread does when it pushed from a functor. -/
theorem WakeupInv.wakeup (h : WakeupInv s) (t : Thread T) : WakeupInv (effect s (.wakeup t)) := by
  have hsignal : wakes s t = true → Signalled (effect s (.wakeup t)) := by
    intro hw
    exact Or.inl (by simpa [effect, hw] using eventfdWrite_pos s.wakeupFd)
  have hkeep : wakes s t = false → Signalled s → Signalled (effect s (.wakeup t)) := by
    intro hw hs
    have ht : t = .loop := by
      by_contra hne
      simp [wakes, hne] at hw
    rcases hs with hpos | ⟨x, hx⟩
    · exact Or.inl (by simpa [effect, hw] using hpos)
    · exact Or.inr ⟨x, by simpa [effect, ht] using hx⟩
  constructor
  · exact h.user
  · intro hne
    have htl : Thread.loop ≠ t := fun e => hne (by simp [effect, e])
    exact h.selfCall (by simpa [effect, Function.update_of_ne htl] using hne)
  · intro hq
    have htl : Thread.loop ≠ t := fun e => by simp [effect, e] at hq
    exact h.selfQueued (by simpa [effect, Function.update_of_ne htl] using hq)
  · exact h.flag
  · intro hpc hpending
    cases hw : wakes s t with
    | true => exact Or.inl (hsignal hw)
    | false =>
      have ht : t = .loop := by
        by_contra hne
        simp [wakes, hne] at hw
      refine Or.inl (hkeep hw ((h.pending hpc hpending).resolve_right fun hq => ?_))
      have hflag : s.callPendingFunctors = true := by
        rcases h.user (h.selfQueued hq) with hf | ⟨w, hd⟩
        · exact h.flag (Or.inr hf)
        · simp [effect, hd, Pc.Undrained] at hpc
      simp [wakes, ht, hq, hflag] at hw
  · intro hpc hquit
    cases hw : wakes s t with
    | true => exact hsignal hw
    | false => exact hkeep hw (h.quit hpc hquit)

/-- The step lemma of `WakeupInv`. -/
theorem wakeupInv_step {a : Action T F} (h : WakeupInv s) (hok : SelfQueuesInLoop s a)
    (hstep : step s a = some s') : WakeupInv s' := by
  obtain ⟨hg, rfl⟩ := guarded_eq_some_iff.mp hstep
  cases a with
  | enterLoop =>
    simp only [guard, Bool.and_eq_true, atPc_iff, beq_iff_eq, Bool.not_eq_true'] at hg
    obtain ⟨⟨⟨hpc, huser⟩, hidle⟩, -⟩ := hg
    exact { h with
      user := fun hu => absurd hu (by simp [effect, huser])
      selfCall := fun hc => absurd hidle hc
      flag := by simp [effect]
      pending := fun _ => h.pending (by simp [hpc, Pc.Undrained])
      quit := by simp [effect] }
  | clearQuit =>
    obtain ⟨hpc, huser⟩ := atPc_iff.mp hg
    exact { h with
      user := fun hu => absurd hu (by simp [effect, huser])
      selfCall := fun hc => absurd (h.selfIdle huser (by simp [hpc])) hc
      flag := by simp [effect]
      pending := fun _ => h.pending (by simp [hpc, Pc.Undrained])
      quit := by simp [effect] }
  | testQuit =>
    -- `quit_` is false on the way into `Poll`, and what is pending was signalled
    -- before: the loop's own thread owes nothing here
    obtain ⟨hpc, huser⟩ := atPc_iff.mp hg
    have hidle := h.selfIdle huser (by simp [hpc])
    have hpending := h.signalled (by simp [hpc, Pc.Undrained]) huser
    cases hquit : s.quitFlag with
    | true =>
      constructor <;> simp_all [effect, Signalled, Pc.Undrained]
    | false =>
      constructor <;> simp_all [effect, Signalled, Pc.Undrained]
  | poll wakeup =>
    -- from the walk on the eventfd may be drained, so nothing is promised until the swap
    simp only [guard, Bool.and_eq_true, atPc_iff] at hg
    obtain ⟨⟨hpc, huser⟩, -⟩ := hg
    exact { h with
      user := fun hu => absurd hu (by simp [effect, huser])
      selfCall := fun hc => absurd (h.selfIdle huser (by simp [hpc])) hc
      flag := by simp [effect]
      pending := by simp [effect, Pc.Undrained]
      quit := by simp [effect] }
  | handleRead =>
    obtain ⟨hpc, huser⟩ := atPc_iff.mp hg
    exact { h with
      user := fun hu => absurd hu (by simp [effect, huser])
      selfCall := fun hc => absurd (h.selfIdle huser (by simp [hpc])) hc
      flag := by simp [effect]
      pending := by simp [effect, Pc.Undrained]
      quit := by simp [effect] }
  | handler =>
    simp only [guard, Bool.or_eq_true, atPc_iff] at hg
    have hpc : ∃ w, s.pc = .dispatch w := hg.elim (fun h => ⟨_, h.1⟩) fun h => ⟨_, h.1⟩
    exact { h with
      user := fun _ => Or.inr hpc
      selfCall := fun _ => Or.inl rfl
      selfQueued := fun _ => rfl }
  | userReturn =>
    simp only [guard, Bool.and_eq_true, beq_iff_eq] at hg
    exact { h with
      user := fun hu => absurd hu (by simp [effect])
      selfCall := fun hc => absurd hg.2 hc
      selfQueued := fun hq => absurd (hg.2.symm.trans hq) (by simp) }
  | doPendingFunctors =>
    obtain ⟨hpc, huser⟩ := atPc_iff.mp hg
    exact { h with
      user := fun hu => absurd hu (by simp [effect, huser])
      selfCall := fun hc => absurd (h.selfIdle huser (by simp [hpc])) hc
      flag := fun _ => rfl
      pending := by simp [effect, Pc.Undrained]
      quit := by simp [effect] }
  | swap =>
    obtain ⟨hpc, huser⟩ := atPc_iff.mp hg
    exact { h with
      user := fun hu => absurd hu (by simp [effect, huser])
      selfCall := fun hc => absurd (h.selfIdle huser (by simp [hpc])) hc
      flag := fun _ => h.flag (Or.inl hpc)
      pending := by simp [effect]
      quit := by simp [effect] }
  | callFunctor =>
    simp only [guard, Bool.and_eq_true, atPc_iff] at hg
    exact { h with
      user := fun _ => Or.inl hg.1.1
      selfCall := fun _ => Or.inl rfl
      selfQueued := fun _ => rfl }
  | finishFunctors =>
    simp only [guard, Bool.and_eq_true, atPc_iff] at hg
    obtain ⟨⟨hpc, huser⟩, -⟩ := hg
    exact { h with
      user := fun hu => absurd hu (by simp [effect, huser])
      selfCall := fun hc => absurd (h.selfIdle huser (by simp [hpc])) hc
      flag := by simp [effect]
      pending := fun _ => h.pending (by simp [hpc, Pc.Undrained])
      quit := by simp [effect] }
  | runInLoop t cb =>
    cases t with
    | loop => exact h
    | other t => exact h.push (by simp)
  | queueInLoop t cb =>
    apply h.push
    intro ht
    subst ht
    exact (canCall_loop_iff.mp hg).2.resolve_right hok
  | quit t =>
    cases t with
    | loop =>
      obtain ⟨hidle, hwhere⟩ := canCall_loop_iff.mp hg
      exact { h with
        selfCall := fun _ => hwhere
        selfQueued := by simp [effect]
        pending := fun hpc hp => by
          have hsignal := (h.pending hpc hp).resolve_right (by simp [hidle])
          exact Or.inl (hsignal.update (c := .quitSet) (by simp) rfl rfl)
        quit := fun hpc _ => by
          rcases hwhere with hu | ho
          · rcases h.user hu with hf | ⟨w, hd⟩
            · exact absurd (hpc.symm.trans hf) (by simp)
            · exact absurd (hpc.symm.trans hd) (by simp)
          · exact absurd (hpc.symm.trans ho) (by simp) }
    | other t =>
      -- another thread owes the write from here on, and signals by that
      have hsignal : Signalled (effect s (.quit (.other t))) := Or.inr ⟨t, by simp [effect]⟩
      exact { h with
        selfCall := fun hc => h.selfCall (by simpa [effect] using hc)
        selfQueued := fun hq => h.selfQueued (by simpa [effect] using hq)
        pending := fun _ _ => Or.inl hsignal
        quit := fun _ _ => hsignal }
  | wakeup t => exact h.wakeup t

/-- **No lost wakeup.** Whenever the loop's thread is about to block in `Poll()`
with a functor queued, or with `quit_` set since the last test of the loop
condition, the eventfd is readable or some thread has yet to write it. -/
theorem signalled_of_poll {as : List (Action T F)}
    (hrun : Reach step SelfQueuesInLoop (State.init T F) as s) (hpc : s.pc = .poll)
    (hwork : s.functors.pending ≠ [] ∨ s.quitFlag = true) :
    0 < s.wakeupFd ∨ ∃ t : T, s.calls (.other t) ≠ .idle := by
  have hinv : WakeupInv s :=
    hrun.invariant wakeupInv_init fun _ h hok hstep => wakeupInv_step h hok hstep
  have huser : s.inUser = false := by
    cases hu : s.inUser with
    | false => rfl
    | true => rcases hinv.user hu with hf | ⟨w, hd⟩ <;> simp_all
  rcases hwork with hpending | hquit
  · exact hinv.signalled (by simp [hpc, Pc.Undrained]) huser hpending
  · exact hinv.quit hpc hquit

/-- A thread has pushed while the loop was on its way into `Poll()` and has not
written the eventfd yet. -/
theorem signalled_of_poll_pushed :
    ∃ s : State Unit ℕ,
      Reach step SelfQueuesInLoop (State.init Unit ℕ)
        [.enterLoop, .clearQuit, .testQuit, .queueInLoop (.other ()) 7] s ∧
      s.pc = .poll ∧ s.functors.pending ≠ [] ∧
      (0 < s.wakeupFd ∨ ∃ t, s.calls (.other t) ≠ .idle) :=
  have hrun : Reach step SelfQueuesInLoop (State.init Unit ℕ)
      [.enterLoop, .clearQuit, .testQuit, .queueInLoop (.other ()) 7] _ := reach_of_runIf rfl
  ⟨_, hrun, rfl, by decide, signalled_of_poll hrun rfl (Or.inl (by decide))⟩

end EventLoop
end Bbkgl
