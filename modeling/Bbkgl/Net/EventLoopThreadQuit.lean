import Mathlib.Data.Fintype.Basic
import Bbkgl.Net.EventLoopThread

/-!
# Quit and the new thread

`Loop()` begins with `quit_ = false`, some steps after the pointer to the loop was
published: a `Quit` that comes before is undone. And the loop is gone as soon as
`Loop()` and `ThreadFunc` return, which a `Quit` brings about: its own second
access, and every `Quit` after it, is then too late.
-/

set_option autoImplicit false

namespace Bbkgl

open CS CS.Transition

namespace EventLoop

variable {T F : Type*} [DecidableEq T] {l : State T F} {a : Action T F}

/-- Only the prologue of `Loop()` writes false. -/
theorem quitFlag_effect (ha : a ≠ .clearQuit) (h : l.quitFlag = true) :
    (effect l a).quitFlag = true := by
  cases a with
  | clearQuit => exact absurd rfl ha
  | testQuit => simp [effect, h]
  | runInLoop t cb => cases t <;> exact h
  | quit t => rfl
  | _ => exact h

/-- Once past its prologue, `Loop` does not come back to it. -/
theorem pc_effect_ne_prologue (ha : a ≠ .enterLoop) (h : l.pc ≠ .prologue) :
    (effect l a).pc ≠ .prologue := by
  cases a with
  | enterLoop => exact absurd rfl ha
  | testQuit =>
    rw [effect]
    split <;> exact Pc.noConfusion
  | runInLoop t cb => cases t <;> exact h
  | quit | queueInLoop | wakeup | handler | userReturn | callFunctor => exact h
  | _ => exact Pc.noConfusion

end EventLoop

namespace EventLoopThread

variable {T F : Type*} [DecidableEq T] {s t : State T F} {a : Action T F} {as : List (Action T F)}

/-! ### A Quit that is lost -/

/-- `Loop()` has executed `quit_ = false`. -/
def cleared (s : State T F) : Bool :=
  s.thread = .returned || s.thread = .inLoop && s.loop.pc != .prologue

/-- No `Quit` sets `quit_` before `Loop()` has cleared it. -/
def quitsCleared (s : State T F) : Action T F → Bool
  | .loop (.quit _) | .destructorQuit => cleared s
  | _ => true

/-- A `Quit` that was made is still there. -/
structure QuitKept (s : State T F) : Prop where
  cleared : s.quitMade = true → cleared s = true
  flag : s.quitMade = true → s.loop.quitFlag = true

omit [DecidableEq T] in
theorem quitKept_init : QuitKept (State.init T F) := by
  constructor <;> exact fun h => Bool.noConfusion h

variable {b : EventLoop.Action (Caller T) F}

omit [DecidableEq T] in
/-- The loop has cleared `quit_` once its thread is past the prologue, or has returned. -/
theorem cleared_iff :
    cleared s = true ↔ s.thread = .returned ∨ s.thread = .inLoop ∧ s.loop.pc ≠ .prologue := by
  simp [cleared]

/-- A step of the loop inside its thread. -/
theorem effect_loop (hb : b ≠ .enterLoop) : effect s (.loop b) = loopStep s b := by
  cases b with
  | enterLoop => exact absurd rfl hb
  | _ => rfl

/-- A step of the loop keeps a `Quit` that comes after the clearing. -/
theorem QuitKept.loopStep (h : QuitKept s) (hb : b ≠ .enterLoop)
    (hclear : b = .clearQuit → s.quitMade = false)
    (hquit : isQuit b = true → EventLoopThread.cleared s = true) : QuitKept (loopStep s b) := by
  rw [EventLoopThread.loopStep]
  split
  · exact ⟨h.cleared, h.flag⟩
  · next hthread =>
    constructor
    · intro hmade
      have hcleared : EventLoopThread.cleared s = true :=
        (Bool.or_eq_true _ _ ▸ hmade).elim h.cleared hquit
      obtain ⟨hin, hpc⟩ := (cleared_iff.mp hcleared).resolve_left hthread
      exact cleared_iff.mpr (Or.inr ⟨hin, EventLoop.pc_effect_ne_prologue hb hpc⟩)
    · intro hmade
      rcases (Bool.or_eq_true _ _ ▸ hmade : s.quitMade = true ∨ isQuit b = true)
        with hmade | hisQuit
      · refine EventLoop.quitFlag_effect (fun heq => ?_) (h.flag hmade)
        rw [hclear heq] at hmade
        cases hmade
      · cases b with
        | quit => rfl
        | _ => cases hisQuit

/-- The step lemma of `QuitKept`. -/
theorem quitKept_step (h : QuitKept s) (hok : quitsCleared s a = true)
    (hstep : step s a = some t) : QuitKept t := by
  obtain ⟨hguard, rfl⟩ := guarded_eq_some_iff.mp hstep
  obtain ⟨-, hguard⟩ := (Bool.and_eq_true _ _).mp hguard
  have hnone (hthread : cleared s = false) : s.quitMade = false := by
    by_contra hmade
    rw [h.cleared (Bool.not_eq_false _ ▸ hmade)] at hthread
    cases hthread
  cases a with
  | construct =>
    have hthread : s.thread = .start := of_decide_eq_true hguard
    have hmade := hnone (by simp [cleared, hthread])
    exact ⟨fun h => absurd (hmade.symm.trans h) Bool.noConfusion, h.flag⟩
  | publish =>
    have hthread : s.thread = .constructed := of_decide_eq_true hguard
    have hmade := hnone (by simp [cleared, hthread])
    exact ⟨fun h => absurd (hmade.symm.trans h) Bool.noConfusion, h.flag⟩
  | startLoop | enterDestructor | join => exact ⟨h.cleared, h.flag⟩
  | returnFromLoop => exact ⟨fun _ => rfl, h.flag⟩
  | loop b =>
    obtain ⟨hmay, hloop⟩ := (Bool.and_eq_true _ _).mp hguard
    by_cases henter : b = .enterLoop
    · obtain rfl := henter
      have hthread : s.thread = .published := of_decide_eq_true hmay
      have hmade := hnone (by simp [cleared, hthread])
      have hnever : (loopStep s .enterLoop).quitMade = false := by
        simp [loopStep, hthread, hmade, isQuit]
      exact ⟨fun h => absurd (hnever.symm.trans h) Bool.noConfusion,
        fun h => absurd (hnever.symm.trans h) Bool.noConfusion⟩
    · rw [effect_loop henter]
      refine h.loopStep henter ?_ ?_
      · rintro rfl
        have hpc := (EventLoop.atPc_iff.mp hloop).1
        have hthread : s.thread = .inLoop := by
          simpa [mayStep, EventLoop.Action.thread, hpc] using hmay
        exact hnone (by simp [cleared, hthread, hpc])
      · intro hisQuit
        cases b with
        | quit => exact hok
        | _ => cases hisQuit
  | destructorQuit =>
    rw [effect]
    split
    · have hkept := h.loopStep (b := .quit (.other .owner)) (by simp) (by simp) fun _ => hok
      exact ⟨hkept.cleared, hkept.flag⟩
    · exact ⟨h.cleared, h.flag⟩
  | destructorWakeup =>
    rw [effect]
    split
    · exact ⟨h.cleared, h.flag⟩
    · have hkept := h.loopStep (b := .wakeup (.other .owner)) (by simp) (by simp) (by simp [isQuit])
      exact ⟨hkept.cleared, hkept.flag⟩

/-- A step of the new thread inside `Loop()`. -/
theorem loop_own (hb : b.thread = .loop) (henter : b ≠ .enterLoop)
    (hstep : step s (.loop b) = some t) :
    s.thread = .inLoop ∧ t.loop = EventLoop.effect s.loop b ∧
      t.quitMade = (s.quitMade || isQuit b) := by
  obtain ⟨hguard, rfl⟩ := guarded_eq_some_iff.mp hstep
  obtain ⟨-, hguard⟩ := (Bool.and_eq_true _ _).mp hguard
  obtain ⟨hmay, -⟩ := (Bool.and_eq_true _ _).mp hguard
  have hthread : s.thread = .inLoop := by
    cases b with
    | enterLoop => exact absurd rfl henter
    | runInLoop u | queueInLoop u | quit u | wakeup u =>
      obtain rfl : u = .loop := hb
      exact of_decide_eq_true ((Bool.and_eq_true _ _).mp hmay).1
    | _ => exact of_decide_eq_true ((Bool.and_eq_true _ _).mp hmay).1
  have hlive : s.thread ≠ .returned := hthread ▸ ThreadPc.noConfusion
  rw [effect_loop henter, loopStep, if_neg hlive]
  exact ⟨hthread, rfl, rfl⟩

/-- A `Quit` that comes too early has the clearing of `quit_` still ahead. -/
theorem not_cleared_of_early (hok : quitsCleared s a = false) (hstep : step s a = some t)
    (hfault : t.fault = none) : t.quitMade = true ∧ cleared t = false := by
  obtain ⟨-, rfl⟩ := guarded_eq_some_iff.mp hstep
  have hearly (u : Thread (Caller T)) (hcleared : cleared s = false) :
      (loopStep s (.quit u)).quitMade = true ∧ cleared (loopStep s (.quit u)) = false := by
    have hlive : s.thread ≠ .returned := fun h => by simp [cleared, h] at hcleared
    rw [loopStep, if_neg hlive]
    exact ⟨Bool.or_true _, hcleared⟩
  cases a with
  | loop b =>
    cases b with
    | quit u => exact hearly u hok
    | _ => cases hok
  | destructorQuit =>
    rw [effect] at hfault ⊢
    split at hfault
    · next hset =>
      rw [if_pos hset]
      exact hearly (.other .owner) hok
    · cases hfault
  | _ => cases hok

/-- **A Quit is never lost** in the runs in which no `Quit` sets `quit_` before
`Loop()` has cleared it: `quit_` stays true, and every later test of the condition
ends `Loop()`. A `Quit` that comes before has the clearing still ahead, and that
undoes it. -/
theorem quit_kept :
    (∀ {as} {s : State T F}, Reach step (fun s a => quitsCleared s a = true) (.init T F) as s →
      s.quitMade = true → s.loop.quitFlag = true ∧
        ∀ t, step s (.loop .testQuit) = some t → t.loop.pc = .outside) ∧
    (∀ {as} {s t : State T F} {a}, Reach step Always (.init T F) as s → step s a = some t →
      quitsCleared s a = false → t.fault = none → t.quitMade = true ∧ cleared t = false) ∧
    ∀ {as} {s t : State T F}, Reach step Always (.init T F) as s →
      step s (.loop .clearQuit) = some t → t.quitMade = s.quitMade ∧ t.loop.quitFlag = false := by
  refine ⟨fun h hmade => ?_, fun _ hstep hok hfault => not_cleared_of_early hok hstep hfault,
    fun _ hstep => ?_⟩
  · have hkept : QuitKept _ :=
      h.invariant quitKept_init fun _ hkept hok hstep => quitKept_step hkept hok hstep
    have hflag := hkept.flag hmade
    refine ⟨hflag, fun t hstep => ?_⟩
    obtain ⟨-, hloop, -⟩ := loop_own rfl (by simp) hstep
    rw [hloop, EventLoop.effect, if_pos hflag]
  · obtain ⟨-, hloop, hmade⟩ := loop_own rfl (by simp) hstep
    rw [hloop, hmade]
    exact ⟨Bool.or_false _, rfl⟩

/-- `StartLoop` returns before the new thread calls `Loop()`, and the owner calls
`Quit` at once. -/
def earlyQuit : List (Action Empty Unit) :=
  [.construct, .publish, .startLoop, .loop (.quit (.other .owner)),
    .loop (.wakeup (.other .owner)), .loop .enterLoop, .loop .clearQuit]

/-- The test of the condition finds false, and another iteration begins. -/
theorem quit_lost_of_earlyQuit :
    ¬ ∀ {as} {s : State Empty Unit}, Reach step Always (.init Empty Unit) as s →
      s.quitMade = true → s.loop.quitFlag = true ∧
        ∀ t, step s (.loop .testQuit) = some t → t.loop.pc = .outside := by
  intro h
  have hrun : Reach step Always (.init Empty Unit) earlyQuit _ := reach_of_run rfl
  exact absurd (h hrun rfl).1 Bool.noConfusion

/-- `Quit` during the first iteration. -/
theorem quit_kept_inLoop : ∃ s : State Empty Unit,
    Reach step (fun s a => quitsCleared s a = true) (.init Empty Unit)
      [.construct, .publish, .startLoop, .loop .enterLoop, .loop .clearQuit, .loop .testQuit,
        .loop (.poll false), .loop (.quit (.other .owner)), .loop (.wakeup (.other .owner)),
        .loop .doPendingFunctors, .loop .swap, .loop .finishFunctors] s ∧
    s.loop.quitFlag = true ∧ ∀ t, step s (.loop .testQuit) = some t → t.loop.pc = .outside := by
  have hrun : Reach step (fun s a => quitsCleared s a = true) (.init Empty Unit)
      [.construct, .publish, .startLoop, .loop .enterLoop, .loop .clearQuit, .loop .testQuit,
        .loop (.poll false), .loop (.quit (.other .owner)), .loop (.wakeup (.other .owner)),
        .loop .doPendingFunctors, .loop .swap, .loop .finishFunctors] _ := reach_of_runIf rfl
  exact ⟨_, hrun, quit_kept.1 hrun rfl⟩

/-! ### A Quit that comes too late -/

/-- `ThreadFunc` returns when the destructor's `Quit` is complete and no other is
under way; the destructor finds `loop_` set, and no explicit `Quit` begins after
`ThreadFunc` has returned. -/
def LoopOutlivesQuits (s : State T F) : Action T F → Prop
  | .returnFromLoop => s.owner = .joining ∧ ∀ c, s.loop.calls (.other c) ≠ .quitSet
  | .destructorQuit => s.loopSet = true
  | .loop (.quit (.other _)) => s.thread ≠ .returned
  | _ => True

omit [DecidableEq T] in
/-- A caller is the owner or a user. -/
theorem forall_caller_iff {p : Caller T → Prop} : (∀ c, p c) ↔ p .owner ∧ ∀ t, p (.user t) := by
  constructor
  · exact fun h => ⟨h _, fun t => h _⟩
  · rintro ⟨howner, huser⟩ (_ | t)
    · exact howner
    · exact huser t

instance [Fintype T] (s : State T F) (a : Action T F) : Decidable (LoopOutlivesQuits s a) :=
  match a with
  | .returnFromLoop =>
    have : Decidable (∀ c, s.loop.calls (.other c) ≠ .quitSet) :=
      decidable_of_iff _ forall_caller_iff.symm
    inferInstanceAs (Decidable (_ ∧ _))
  | .destructorQuit => inferInstanceAs (Decidable (s.loopSet = true))
  | .loop (.quit (.other _)) => inferInstanceAs (Decidable (s.thread ≠ .returned))
  | .loop (.quit .loop) | .loop .enterLoop | .loop .clearQuit | .loop .testQuit
  | .loop (.poll _) | .loop .handleRead | .loop .handler | .loop .userReturn
  | .loop .doPendingFunctors | .loop .swap | .loop .callFunctor | .loop .finishFunctors
  | .loop (.runInLoop _ _) | .loop (.queueInLoop _ _) | .loop (.wakeup _) | .construct
  | .publish | .startLoop | .enterDestructor | .destructorWakeup | .join => .isTrue trivial

/-- When the loop is gone, every `Quit` is complete, that of the destructor too. -/
structure LoopOutlived (s : State T F) : Prop where
  owner : s.thread = .returned → s.owner = .joining ∨ s.owner = .joined
  calls : s.thread = .returned → ∀ c, s.loop.calls (.other c) ≠ .quitSet
  fault : s.fault ≠ some .nullLoop ∧ s.fault ≠ some .deadQuit

omit [DecidableEq T] in
theorem loopOutlived_init : LoopOutlived (State.init T F) where
  owner h := ThreadPc.noConfusion h
  calls h := ThreadPc.noConfusion h
  fault := by simp [State.init]

/-- A step that is not an access of `Quit` to a loop that is gone. -/
theorem LoopOutlived.loopStep (h : LoopOutlived s)
    (hquit : s.thread = .returned → inQuit s.loop b = false) : LoopOutlived (loopStep s b) := by
  rw [EventLoopThread.loopStep]
  split
  · next hthread =>
    rw [hquit hthread]
    exact ⟨h.owner, h.calls, by simp⟩
  · next hthread => exact ⟨fun h => absurd h hthread, fun h => absurd h hthread, h.fault⟩

/-- The step lemma of `LoopOutlived`. -/
theorem loopOutlived_step (h : LoopOutlived s) (hok : LoopOutlivesQuits s a)
    (hstep : step s a = some t) : LoopOutlived t := by
  obtain ⟨hguard, rfl⟩ := guarded_eq_some_iff.mp hstep
  obtain ⟨-, hguard⟩ := (Bool.and_eq_true _ _).mp hguard
  cases a with
  | construct =>
    exact ⟨fun h => ThreadPc.noConfusion h, fun h => ThreadPc.noConfusion h, h.fault⟩
  | publish =>
    exact ⟨fun h => ThreadPc.noConfusion h, fun h => ThreadPc.noConfusion h, h.fault⟩
  | startLoop => exact ⟨h.owner, h.calls, h.fault⟩
  | loop b =>
    by_cases henter : b = .enterLoop
    · obtain rfl := henter
      have hfault := (h.loopStep (b := .enterLoop) fun _ => rfl).fault
      exact ⟨fun h => ThreadPc.noConfusion h, fun h => ThreadPc.noConfusion h, hfault⟩
    · rw [effect_loop henter]
      refine h.loopStep fun hthread => ?_
      have hother (hb : b.thread = .loop) : False := by
        have hin := (loop_own hb henter hstep).1
        rw [hthread] at hin
        cases hin
      cases b with
      | quit u =>
        cases u with
        | loop => exact (hother rfl).elim
        | other c => exact absurd hthread hok
      | wakeup u =>
        cases u with
        | loop => exact (hother rfl).elim
        | other c => exact beq_eq_false_iff_ne.mpr (h.calls hthread c)
      | _ => rfl
  | returnFromLoop => exact ⟨fun _ => Or.inl hok.1, fun _ => hok.2, h.fault⟩
  | enterDestructor =>
    have howner : s.owner = .outside := of_decide_eq_true ((Bool.and_eq_true _ _).mp hguard).1
    refine ⟨fun hthread => ?_, h.calls, h.fault⟩
    exact absurd (h.owner hthread) (by simp [howner])
  | destructorQuit =>
    have howner : s.owner = .exiting := of_decide_eq_true hguard
    have hlive : s.thread ≠ .returned := fun hthread => absurd (h.owner hthread) (by simp [howner])
    have hset : s.loopSet = true := hok
    rw [effect, if_pos hset, loopStep, if_neg hlive]
    exact ⟨fun h => absurd h hlive, fun h => absurd h hlive, h.fault⟩
  | destructorWakeup =>
    have howner : s.owner = .quitting := of_decide_eq_true hguard
    have hlive : s.thread ≠ .returned := fun hthread => absurd (h.owner hthread) (by simp [howner])
    rw [effect, if_neg hlive, loopStep, if_neg hlive]
    exact ⟨fun h => absurd h hlive, fun h => absurd h hlive, h.fault⟩
  | join => exact ⟨fun _ => Or.inr rfl, h.calls, h.fault⟩

/-- An access that a `Quit` makes, through `loop_` or another pointer. -/
def isQuitAccess (s : State T F) : Action T F → Bool
  | .loop b => inQuit s.loop b
  | .destructorQuit | .destructorWakeup => true
  | _ => false

/-- Whatever `Quit` does to a loop that is gone is a fault. -/
theorem fault_of_returned (hthread : s.thread = .returned) (hquit : isQuitAccess s a = true)
    (hstep : step s a = some t) : t.fault = some .nullLoop ∨ t.fault = some .deadQuit := by
  obtain ⟨-, rfl⟩ := guarded_eq_some_iff.mp hstep
  cases a with
  | loop b =>
    have henter : b ≠ .enterLoop := by
      rintro rfl
      cases hquit
    have hin : inQuit s.loop b = true := hquit
    rw [effect_loop henter, loopStep, if_pos hthread, hin]
    exact Or.inr rfl
  | destructorQuit =>
    rw [effect]
    split
    · rw [loopStep, if_pos hthread]
      exact Or.inr rfl
    · exact Or.inl rfl
  | destructorWakeup =>
    rw [effect, if_pos hthread]
    exact Or.inr rfl
  | _ => cases hquit

/-- **No Quit reaches a dead or missing loop** in the runs in which the loop
outlives every `Quit`. In every run, the destructor's access through a null
`loop_` is a fault, and so is whatever a `Quit` that is late or still under way
does after `ThreadFunc` has returned. -/
theorem no_dead_loop :
    (∀ {as} {s : State T F}, Reach step LoopOutlivesQuits (.init T F) as s →
      s.fault ≠ some .nullLoop ∧ s.fault ≠ some .deadQuit) ∧
    (∀ {as} {s t : State T F} {a}, Reach step Always (.init T F) as s → step s a = some t →
      s.thread = .returned → isQuitAccess s a = true →
      t.fault = some .nullLoop ∨ t.fault = some .deadQuit) ∧
    ∀ {as} {s t : State T F}, Reach step Always (.init T F) as s →
      step s .destructorQuit = some t → s.loopSet = false → t.fault = some .nullLoop := by
  refine ⟨fun h => ?_, fun _ hstep hthread hquit => fault_of_returned hthread hquit hstep,
    fun _ hstep hset => ?_⟩
  · have houtlived : LoopOutlived _ :=
      h.invariant loopOutlived_init fun _ h hok hstep => loopOutlived_step h hok hstep
    exact houtlived.fault
  · obtain ⟨-, rfl⟩ := guarded_eq_some_iff.mp hstep
    rw [effect, hset]
    rfl

/-- `Quit`, some time for the loop to end, and then the destructor. -/
def quitThenDestructor : List (Action Empty Unit) :=
  [.construct, .publish, .startLoop, .loop .enterLoop, .loop .clearQuit, .loop .testQuit,
    .loop (.quit (.other .owner)), .loop (.wakeup (.other .owner)), .loop (.poll true),
    .loop .handleRead, .loop .doPendingFunctors, .loop .swap, .loop .finishFunctors,
    .loop .testQuit, .returnFromLoop, .enterDestructor, .destructorQuit]

/-- The loop has ended by then, and the `Quit` of the destructor finds no object. -/
theorem deadQuit_of_quitThenDestructor :
    ¬ ∀ {as} {s : State Empty Unit}, Reach step Always (.init Empty Unit) as s →
      s.fault ≠ some .nullLoop ∧ s.fault ≠ some .deadQuit := by
  intro h
  have hrun : Reach step Always (.init Empty Unit) quitThenDestructor _ := reach_of_run rfl
  exact (h hrun).2 rfl

/-- The destructor's `Quit` is complete before the loop ends. -/
theorem no_dead_loop_joined : ∃ s : State Empty Unit,
    Reach step LoopOutlivesQuits (.init Empty Unit)
      [.construct, .publish, .startLoop, .loop .enterLoop, .loop .clearQuit, .loop .testQuit,
        .enterDestructor, .destructorQuit, .destructorWakeup, .loop (.poll true),
        .loop .handleRead, .loop .doPendingFunctors, .loop .swap, .loop .finishFunctors,
        .loop .testQuit, .returnFromLoop, .join] s ∧
    s.owner = .joined ∧ s.fault ≠ some .nullLoop ∧ s.fault ≠ some .deadQuit := by
  have hrun : Reach step LoopOutlivesQuits (.init Empty Unit)
      [.construct, .publish, .startLoop, .loop .enterLoop, .loop .clearQuit, .loop .testQuit,
        .enterDestructor, .destructorQuit, .destructorWakeup, .loop (.poll true),
        .loop .handleRead, .loop .doPendingFunctors, .loop .swap, .loop .finishFunctors,
        .loop .testQuit, .returnFromLoop, .join] _ := reach_of_runIf rfl
  exact ⟨_, hrun, rfl, no_dead_loop.1 hrun⟩

end EventLoopThread
end Bbkgl
