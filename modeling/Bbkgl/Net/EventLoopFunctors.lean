import Bbkgl.Net.EventLoop

/-!
# The functor queue

A functor pushed by `QueueInLoop` is in exactly one of three places: already
executed, in the part of the local vector of `DoPendingFunctors` that is not
executed yet, or in `pending_functors_`. Read in this order, the three are the
sequence of all pushes.
-/

set_option autoImplicit false

namespace Bbkgl
namespace EventLoop

open CS Transition

variable {T F : Type*} [DecidableEq T] {s s' t : State T F} {a : Action T F}

/-- The conservation law, with the fact that the local vector is used up
whenever the loop's thread is outside the walk over it. -/
structure QueueInv (s : State T F) : Prop where
  conserved : s.executed ++ s.functors.todo = s.pushed
  rest : s.pc ≠ .functors → s.functors.rest = []

omit [DecidableEq T] in
theorem queueInv_init : QueueInv (State.init T F) := by
  constructor <;> simp [State.init, Mailbox.empty, Mailbox.todo]

/-- A functor goes to the end of the queue and of the history. -/
theorem QueueInv.push {x : Thread T} {cb : F} (h : QueueInv s) : QueueInv (pushFunctor s x cb) where
  conserved := by
    simp only [pushFunctor, Mailbox.todo_push, ← h.conserved, List.append_assoc]
  rest := h.rest

omit [DecidableEq T] in
/-- The queue is not about the rest of the loop. -/
theorem QueueInv.frame {u : State T F} (h : QueueInv s) (hfunctors : u.functors = s.functors)
    (hexecuted : u.executed = s.executed) (hpushed : u.pushed = s.pushed)
    (hpc : u.pc ≠ .functors → s.pc ≠ .functors) : QueueInv u where
  conserved := by rw [hexecuted, hfunctors, hpushed, h.conserved]
  rest := fun hu => by rw [hfunctors, h.rest (hpc hu)]

/-- Every step keeps the order of the queue. -/
theorem queueInv_step (h : QueueInv s) (hstep : step s a = some s') : QueueInv s' := by
  obtain ⟨hg, rfl⟩ := guarded_eq_some_iff.mp hstep
  cases a with
  | enterLoop =>
    simp only [guard, Bool.and_eq_true, atPc_iff] at hg
    exact h.frame rfl rfl rfl fun _ => by simp [hg.1.1.1]
  | clearQuit | handleRead | doPendingFunctors =>
    exact h.frame rfl rfl rfl fun _ => by simp [(atPc_iff.mp hg).1]
  | testQuit =>
    have hpc : s.pc ≠ .functors := by simp [(atPc_iff.mp hg).1]
    have hsame : (effect s .testQuit).functors = s.functors ∧
        (effect s .testQuit).executed = s.executed ∧ (effect s .testQuit).pushed = s.pushed := by
      simp only [effect]
      split <;> exact ⟨rfl, rfl, rfl⟩
    exact h.frame hsame.1 hsame.2.1 hsame.2.2 fun _ => hpc
  | poll wakeup =>
    simp only [guard, Bool.and_eq_true, atPc_iff] at hg
    exact h.frame rfl rfl rfl fun _ => by simp [hg.1.1]
  | handler | userReturn | quit _ | wakeup _ => exact h.frame rfl rfl rfl id
  | swap =>
    -- the vector is empty before the swap, so no functor is dropped
    have hrest := h.rest (by simp [(atPc_iff.mp hg).1])
    exact ⟨by simpa [effect, Mailbox.todo_swap hrest] using h.conserved, by simp [effect]⟩
  | callFunctor =>
    simp only [guard, Bool.and_eq_true, atPc_iff, Bool.not_eq_true',
      List.isEmpty_eq_false_iff] at hg
    obtain ⟨⟨hpc, -⟩, hne⟩ := hg
    obtain ⟨cb, rest, hrest⟩ := List.exists_cons_of_ne_nil hne
    refine ⟨?_, fun hpc' => absurd hpc hpc'⟩
    have hconserved := h.conserved
    rw [Mailbox.todo_advance hrest] at hconserved
    simpa [effect, hrest] using hconserved
  | finishFunctors =>
    simp only [guard, Bool.and_eq_true, atPc_iff, List.isEmpty_iff] at hg
    exact ⟨by simpa [effect, Mailbox.todo_finish hg.2] using h.conserved, by simp [effect]⟩
  | runInLoop x cb =>
    cases x with
    | loop => exact h
    | other x => exact h.push
  | queueInLoop x cb => exact h.push

/-- The functor that a call puts into `pending_functors_`: `RunInLoop` does so on
another thread only. -/
def Action.queued : Action T F → Option F
  | .queueInLoop _ cb | .runInLoop (.other _) cb => some cb
  | _ => none

/-- The pushes are those of the calls of `QueueInLoop`, and of the calls of
`RunInLoop` from other threads, in their order. -/
theorem pushed_of_reach {ok : State T F → Action T F → Prop} {as : List (Action T F)}
    (hrun : Reach step ok (State.init T F) as s) : s.pushed = as.filterMap Action.queued := by
  induction hrun with
  | nil => rfl
  | @snoc as a s t _ _ hstep ih =>
    obtain ⟨-, rfl⟩ := guarded_eq_some_iff.mp hstep
    rw [List.filterMap_append, ← ih]
    cases a with
    | queueInLoop x cb => rfl
    | runInLoop x cb =>
      cases x with
      | loop => exact (List.append_nil _).symm
      | other x => rfl
    | testQuit =>
      simp only [effect]
      split <;> exact (List.append_nil _).symm
    | _ => exact (List.append_nil _).symm

/-! ### One call of `DoPendingFunctors` -/

/-- The loop calls a functor. -/
def Action.isCall : Action T F → Bool
  | .callFunctor => true
  | _ => false

/-- Inside the walk over the local vector a step either executes its next
element or leaves both the vector and the history alone. -/
theorem step_in_batch (hpc : s.pc = .functors) (hne : a ≠ .finishFunctors)
    (hstep : step s a = some s') :
    s'.pc = .functors ∧
      s'.executed ++ s'.functors.rest = s.executed ++ s.functors.rest ∧
      a.isCall.toNat + s'.functors.rest.length = s.functors.rest.length := by
  obtain ⟨hg, rfl⟩ := guarded_eq_some_iff.mp hstep
  cases a with
  | callFunctor =>
    simp only [guard, Bool.and_eq_true, Bool.not_eq_true', List.isEmpty_eq_false_iff] at hg
    obtain ⟨cb, rest, hrest⟩ := List.exists_cons_of_ne_nil hg.2
    refine ⟨hpc, by simp [effect, hrest], ?_⟩
    simp [effect, hrest, Action.isCall]
    omega
  | finishFunctors => exact absurd rfl hne
  | runInLoop x cb => cases x <;> exact ⟨hpc, rfl, Nat.zero_add _⟩
  | handler | userReturn | queueInLoop _ _ | quit _ | wakeup _ => exact ⟨hpc, rfl, Nat.zero_add _⟩
  | enterLoop => simp [guard, hpc] at hg
  | clearQuit | testQuit | poll _ | handleRead | doPendingFunctors | swap => simp [guard, hpc] at hg

/-- From the swap on, as long as the call has not returned, the functors
executed and those left in the local vector are the ones taken by the swap. -/
theorem batch_conserved {bs : List (Action T F)} (hpc : s.pc = .functors)
    (hbs : .finishFunctors ∉ bs) (hrun : run step s bs = some t) :
    t.pc = .functors ∧
      t.executed ++ t.functors.rest = s.executed ++ s.functors.rest ∧
      bs.countP Action.isCall + t.functors.rest.length = s.functors.rest.length := by
  induction bs generalizing s with
  | nil =>
    obtain rfl := Option.some_inj.mp hrun
    exact ⟨hpc, rfl, by simp⟩
  | cons b bs ih =>
    obtain ⟨u, hu, hrest⟩ := Option.bind_eq_some_iff.mp hrun
    simp only [List.mem_cons, not_or] at hbs
    obtain ⟨hupc, huq, hun⟩ := step_in_batch hpc (Ne.symm hbs.1) hu
    obtain ⟨htpc, htq, htn⟩ := ih hupc hbs.2 hrest
    refine ⟨htpc, htq.trans huq, ?_⟩
    cases hb : b.isCall <;> simp [hb] at hun ⊢ <;> omega

/-- **Functor queue.** In every reachable state the functors executed from the
queue, the rest of the local vector and `pending_functors_` are all pushes in
the order in which they took the mutex. And a call of `DoPendingFunctors`
executes exactly what was pending at its swap: once that many functors have run
it executes no other one, and it returns as soon as the last one has. -/
theorem functor_queue_fifo {as : List (Action T F)}
    (hrun : Reach step Always (State.init T F) as s) :
    s.executed ++ s.functors.rest ++ s.functors.pending = s.pushed ∧
      ∀ bs t, s.pc = .swap → run step s (.swap :: bs) = some t → .finishFunctors ∉ bs →
        t.executed ++ t.functors.rest = s.executed ++ s.functors.pending ∧
        bs.countP Action.isCall + t.functors.rest.length = s.functors.pending.length ∧
        (bs.countP Action.isCall = s.functors.pending.length →
          t.executed = s.executed ++ s.functors.pending ∧ step t .callFunctor = none ∧
          (t.inUser = false → (step t .finishFunctors).isSome)) := by
  have hinv : QueueInv s :=
    hrun.invariant queueInv_init fun _ h _ hstep => queueInv_step h hstep
  refine ⟨by simpa [Mailbox.todo] using hinv.conserved, fun bs t hpc hbatch hbs => ?_⟩
  obtain ⟨u, hu, hrest⟩ := Option.bind_eq_some_iff.mp hbatch
  obtain ⟨-, rfl⟩ := guarded_eq_some_iff.mp hu
  obtain ⟨htpc, hq, hn⟩ := batch_conserved (s := effect s .swap) rfl hbs hrest
  refine ⟨hq, hn, fun hall => ?_⟩
  -- as many calls as functors: none of the vector is left
  have hempty : t.functors.rest = [] := by
    rw [← List.length_eq_zero_iff]
    have : s.functors.swap.rest.length = s.functors.pending.length := rfl
    simp only [effect] at hn
    omega
  refine ⟨by simpa [hempty, effect] using hq, by simp [step, guarded, guard, hempty],
    fun huser => ?_⟩
  simp [step, guarded, guard, atPc, htpc, huser, hempty]

/-- Two functors pushed before the swap. -/
def queuedTwice : List (Action Unit ℕ) :=
  [.queueInLoop (.other ()) 1, .wakeup (.other ()), .queueInLoop (.other ()) 2,
    .enterLoop, .clearQuit, .testQuit, .poll true, .handleRead, .doPendingFunctors]

/-- The first of them, which pushes a third. -/
def queuesAgain : List (Action Unit ℕ) :=
  [.callFunctor, .queueInLoop .loop 3, .wakeup .loop]

/-- A functor that queues another one: it waits for the next batch. -/
theorem functor_queue_fifo_reentrant :
    ∃ s t : State Unit ℕ,
      run step (State.init Unit ℕ) queuedTwice = some s ∧
      run step s (.swap :: queuesAgain) = some t ∧
      s.functors.pending = [1, 2] ∧ t.functors.pending = [3] ∧
      s.executed ++ s.functors.rest ++ s.functors.pending = s.pushed ∧
      t.executed ++ t.functors.rest = s.executed ++ s.functors.pending := by
  have hrun : Reach step Always (State.init Unit ℕ) queuedTwice _ := reach_of_run rfl
  have h := functor_queue_fifo hrun
  have hbatch := h.2 queuesAgain _ rfl rfl (by simp [queuesAgain])
  exact ⟨_, _, hrun.run_eq, rfl, rfl, rfl, h.1, hbatch.1⟩

end EventLoop
end Bbkgl
