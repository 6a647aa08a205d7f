import Bbkgl.Net.TcpServerAnatomy

/-!
# Where the loops are

Only the steps of a loop itself take it from one phase to the next: `poll` begins a walk
over the active channels, `HandleEvent` splits an event into callbacks, and each callback
is made once. What a callback does to the connections, the queues and the pollers leaves
the walks alone, that of its own loop as well as those of the others.
-/

set_option autoImplicit false

namespace Bbkgl
namespace TcpServer

open TcpConnection

/-- The phase that the step leaves loop `i` in. -/
inductive Turn (s : State) (i : LoopId) (a : Action) : Phase → Prop
  | same : (∀ cb, callback a ≠ some (i, cb)) → Turn s i a (s.loops i).phase
  /-- nothing is walked over -/
  | rest {phase : Phase} : walked phase = [] → Turn s i a phase
  | poll {active : List (ConnId × EventMask)} : a = .poll i active → Turn s i a (.dispatch active)
  | handleEvent {c : ConnId} {revents : EventMask} {active : List (ConnId × EventMask)} :
      a = .handleEvent i → (s.loops i).phase = .dispatch ((c, revents) :: active) →
      Turn s i a (.handling c (Channel.handleEvent revents) active)
  | callback {c : ConnId} {cb : Channel.Callback} {todo : List Channel.Callback}
      {active : List (ConnId × EventMask)} :
      callback a = some (i, cb) → (s.loops i).phase = .handling c (cb :: todo) active →
      Turn s i a (.handling c todo active)
  | endEvent {c : ConnId} {active : List (ConnId × EventMask)} :
      a = .endEvent i → (s.loops i).phase = .handling c [] active → Turn s i a (.dispatch active)

variable {cfg : Config} {s m t : State} {i j : LoopId} {a : Action}

/-! ### What leaves the walks alone -/

theorem phase_setLoop {g : Loop → Loop} (hphase : (g (s.loops i)).phase = (s.loops i).phase) :
    ((setLoop s i g).loops j).phase = (s.loops j).phase := by
  rw [loops_setLoop]
  split
  · next hj => rw [hj, hphase]
  · rfl

theorem phase_push {f : Functor} : ((push s i f).loops j).phase = (s.loops j).phase := by
  rw [push, setFunctors]
  exact phase_setLoop rfl

/-- The work of a step, whatever it does. -/
theorem Works.phase (h : Works cfg s a m t) : (t.loops j).phase = (m.loops j).phase := by
  cases h with
  | push => exact phase_push
  | setConn | setCall => rfl
  | method => exact phase_putLocal.1

/-- The end of a step leaves the walk where it is. -/
theorem Ends.phase (h : Ends cfg s a m t) : (t.loops j).phase = (m.loops j).phase := by
  rw [Ends] at h
  split at h
  · rw [removeConnectionInLoop_eq_ok h]
    exact phase_push
  · rw [h]
    exact pushes_loop.1

/-! ### What a step does to them -/

theorem turn_setPhase {phase : Phase} (ha : ∀ j cb, callback a ≠ some (j, cb))
    (hi : Turn s i a phase) :
    Turn s j a ((setPhase s i phase).loops j).phase := by
  rw [setPhase, loops_setLoop]
  split
  · next hj => exact hj ▸ hi
  · exact .same (ha j)

/-- The next callback of the event is taken out. -/
theorem turn_nextCallback {cb : Channel.Callback} {p : ConnId → Channel.Callback → Bool}
    (ha : callback a = some (i, cb)) (hg : callbackIs cfg s i p = true)
    (hp : ∀ c cb', p c cb' = true → cb' = cb) :
    Turn s j a ((nextCallback s i).loops j).phase := by
  rw [callbackIs] at hg
  split at hg
  · next c cb' todo active hphase =>
    simp only [Bool.and_eq_true] at hg
    obtain rfl := hp c cb' hg.2
    rw [nextCallback, hphase]
    simp only [setPhase, loops_setLoop]
    split
    · next hj =>
      subst hj
      exact .callback ha hphase
    · next hj =>
      refine .same fun cb hcb => hj ?_
      exact (Prod.mk.inj (Option.some_inj.mp (ha.symm.trans hcb))).1.symm
  · exact absurd hg (by simp)

/-- The opening of a step moves the walk on. -/
theorem Opens.turn (hg : guard cfg s a = true) (h : Opens cfg s a m) :
    Turn s j a (m.loops j).phase := by
  cases h with
  | poll i active => exact turn_setPhase (by simp [callback]) (.poll rfl)
  | handleEvent i c revents active hphase =>
    exact turn_setPhase (by simp [callback]) (.handleEvent rfl hphase)
  | endEvent i c active hphase => exact turn_setPhase (by simp [callback]) (.endEvent rfl hphase)
  | handleClose i | handleError i =>
    exact turn_nextCallback rfl hg fun c cb hcb => of_decide_eq_true hcb
  | handleRead i readv | handleWrite i wr =>
    refine turn_nextCallback rfl hg fun c cb hcb => ?_
    simp only [Bool.and_eq_true, decide_eq_true_eq] at hcb
    exact hcb.1
  | doPendingFunctors i | finishFunctors i =>
    rw [setPhase, loops_setLoop]
    split
    · exact .rest rfl
    · rw [setFunctors, phase_setLoop rfl]
      exact .same (by simp [callback])
  | newConnection | closeTimer | inputBuffer | keep | drop =>
    exact .same (by simp [callback])
  | runFunctor =>
    rw [setFunctors, phase_setLoop rfl]
    exact .same (by simp [callback])
  | userReturn =>
    rw [phase_setLoop rfl]
    exact .same (by simp [callback])
  | destroy c =>
    rw [phase_setLoop rfl]
    exact .same (by simp [callback])
  | proceed who call hcall =>
    cases call with
    | send c message | shutdownSet c =>
      have hpush : ∀ f, ((setCall (push s (own s c) f) who none).loops j).phase =
          (s.loops j).phase := fun f => phase_push
      rw [TcpServer.proceed, hpush]
      exact .same (by simp [callback])
    | shutdownChecked c => exact .same (by simp [callback])
  | call a hcall =>
    refine .same fun cb hcb => ?_
    cases a with
    | handleClose | handleError | handleRead | handleWrite =>
      exact absurd hcall (by simp [Action.isCall])
    | _ => exact absurd hcb (by simp [callback])

/-- What a step does to the walk of a loop. -/
theorem turn_of_effect (hg : guard cfg s a = true) (hok : effect cfg s a = .ok t) :
    Turn s j a (t.loops j).phase := by
  refine anatomy_invariant (I := fun m => Turn s j a (m.loops j).phase) hg hok ?_ ?_ ?_
  · exact fun hopens => hopens.turn hg
  · exact fun h hworks => hworks.phase ▸ h
  · exact fun h hends => hends.phase ▸ h

end TcpServer
end Bbkgl
