import Mathlib.Algebra.Group.Nat.Defs
import Mathlib.Logic.Function.Basic
import Mathlib.Order.Lattice
import Bbkgl.CS.Mailbox
import Bbkgl.CS.Transition

/-!
# EventLoop

One loop, the thread that runs `Loop()`, and any number of other threads that
call `RunInLoop`, `QueueInLoop` and `Quit` on it. `step` interleaves them at the
grain of the source: the push under the mutex, the write of `quit_` and the
write to the eventfd are separate steps, and so are the phases of one iteration.

A functor is an opaque value of type `F`. What it does when it runs is user code
on the loop's thread, and so is the body of every handler: while the loop's
thread is in user code (`inUser`) it may make the same three calls.
-/

set_option autoImplicit false

namespace Bbkgl

open CS

/-- The loop's own thread, or another one. -/
inductive Thread (T : Type*)
  | loop
  | other (t : T)
  deriving DecidableEq, Repr

namespace EventLoop

/-- The next thing the loop's thread will do. -/
inductive Pc
  /-- not inside `Loop()` -/
  | outside
  /-- `looping_ = true` is done, `quit_ = false` is next -/
  | prologue
  /-- the test of `while (!quit_)` -/
  | test
  /-- the call of `Poll()` -/
  | poll
  /-- the walk over `active_channels_`; `wakeup` while `wakeup_channel_` is still ahead -/
  | dispatch (wakeup : Bool)
  /-- `functors.swap(pending_functors_)`, with `call_pending_functors_` already set -/
  | swap
  /-- the walk over the local vector of `DoPendingFunctors` -/
  | functors
  deriving DecidableEq, Repr

/-- Where a thread stands in a call it makes on the loop. -/
inductive Call
  | idle
  /-- `QueueInLoop` has pushed; the test that may write the eventfd is next -/
  | queued
  /-- `Quit` has set `quit_`; the test that may write the eventfd is next -/
  | quitSet
  deriving DecidableEq, Repr

/-- `executed` and `pushed` are history: the functors run from the queue, and
the pushes in the order in which they took the mutex. -/
structure State (T F : Type*) where
  looping : Bool
  quitFlag : Bool
  callPendingFunctors : Bool
  wakeupFd : ℕ
  functors : Mailbox F
  pc : Pc
  inUser : Bool
  calls : Thread T → Call
  executed : List F
  pushed : List F

/-- The object as its constructor leaves it. -/
def State.init (T F : Type*) : State T F where
  looping := false
  quitFlag := false
  callPendingFunctors := false
  wakeupFd := 0
  functors := .empty
  pc := .outside
  inUser := false
  calls := fun _ => .idle
  executed := []
  pushed := []

/-- What the loop's thread does in `Loop()`, and the calls of user code and of other threads, step
by step. -/
inductive Action (T F : Type*)
  | enterLoop
  | clearQuit
  | testQuit
  | poll (wakeup : Bool)
  | handleRead
  | handler
  | userReturn
  | doPendingFunctors
  | swap
  | callFunctor
  | finishFunctors
  | runInLoop (t : Thread T) (cb : F)
  | queueInLoop (t : Thread T) (cb : F)
  | quit (t : Thread T)
  | wakeup (t : Thread T)

/-- The largest value an eventfd counter takes: a write that would exceed it
fails with `EAGAIN` on a non-blocking descriptor. -/
def eventfdMax : ℕ := 2 ^ 64 - 2

/-- `write(wakeup_fd_, &one, sizeof(one))` -/
def eventfdWrite (counter : ℕ) : ℕ := if counter + 1 ≤ eventfdMax then counter + 1 else counter

/-- After a write the eventfd can be read. -/
theorem eventfdWrite_pos (counter : ℕ) : 0 < eventfdWrite counter := by
  unfold eventfdWrite eventfdMax
  split <;> omega

section Step

variable {T F : Type*} {s : State T F}

/-- A thread can start a call when it is not inside another one. The loop's
thread is in user code at that moment, or outside `Loop()`. -/
def canCall (s : State T F) : Thread T → Bool
  | .loop => s.calls .loop == .idle && (s.inUser || s.pc == .outside)
  | .other t => s.calls (.other t) == .idle

/-- Is the loop's thread at `pc` and not in user code? -/
def atPc (s : State T F) (pc : Pc) : Bool := s.pc == pc && !s.inUser

@[simp] theorem atPc_iff {pc : Pc} : atPc s pc = true ↔ s.pc = pc ∧ s.inUser = false := by
  simp [atPc]

/-- The loop's own thread makes calls from user code, or outside of `Loop`. -/
@[simp] theorem canCall_loop_iff :
    canCall s .loop = true ↔ s.calls .loop = .idle ∧ (s.inUser = true ∨ s.pc = .outside) := by
  simp [canCall]

/-- Another thread makes one call at a time. -/
@[simp] theorem canCall_other_iff {t : T} :
    canCall s (.other t) = true ↔ s.calls (.other t) = .idle := by
  simp [canCall]

variable [DecidableEq T]

/-- When an action is possible. -/
def guard (s : State T F) : Action T F → Bool
  | .enterLoop =>
    -- the loop's thread has finished any call it made before `Loop()`
    atPc s .outside && s.calls .loop == .idle && !s.looping
  | .clearQuit => atPc s .prologue
  | .testQuit => atPc s .test
  | .poll wakeup =>
    -- `Poll` may time out or report other channels at any time; it reports
    -- `wakeup_fd_` only while its counter is positive
    atPc s .poll && (!wakeup || 0 < s.wakeupFd)
  | .handleRead => atPc s (.dispatch true)
  | .handler => atPc s (.dispatch true) || atPc s (.dispatch false)
  | .userReturn => s.inUser && s.calls .loop == .idle
  | .doPendingFunctors => atPc s (.dispatch false)
  | .swap => atPc s .swap
  | .callFunctor => atPc s .functors && !s.functors.rest.isEmpty
  | .finishFunctors => atPc s .functors && s.functors.rest.isEmpty
  | .runInLoop t _ => canCall s t
  | .queueInLoop t _ => canCall s t
  | .quit t => canCall s t
  | .wakeup t => s.calls t != .idle

/-- `QueueInLoop`, up to the end of the critical section. -/
def pushFunctor (s : State T F) (t : Thread T) (cb : F) : State T F :=
  { s with
    functors := s.functors.push cb
    pushed := s.pushed ++ [cb]
    calls := Function.update s.calls t .queued }

/-- The condition under which `QueueInLoop` and `Quit` go on to `Wakeup()`;
both test `IsInLoopThread()`, only `QueueInLoop` the flag. -/
def wakes (s : State T F) (t : Thread T) : Bool :=
  t != .loop || (s.calls t == .queued && s.callPendingFunctors)

/-- What an action does. -/
def effect (s : State T F) : Action T F → State T F
  | .enterLoop => { s with looping := true, pc := .prologue }
  | .clearQuit => { s with quitFlag := false, pc := .test }
  | .testQuit =>
    if s.quitFlag then { s with looping := false, pc := .outside } else { s with pc := .poll }
  | .poll wakeup => { s with pc := .dispatch wakeup }
  | .handleRead => { s with wakeupFd := 0, pc := .dispatch false }
  | .handler => { s with inUser := true }
  | .userReturn => { s with inUser := false }
  | .doPendingFunctors => { s with callPendingFunctors := true, pc := .swap }
  | .swap => { s with functors := s.functors.swap, pc := .functors }
  | .callFunctor =>
    { s with
      executed := s.executed ++ s.functors.rest.take 1
      functors := s.functors.advance
      inUser := true }
  | .finishFunctors =>
    { s with functors := s.functors.finish, callPendingFunctors := false, pc := .test }
  | .runInLoop .loop _ =>
    -- `cb()` at once: more user code on the loop's thread
    s
  | .runInLoop (.other t) cb => pushFunctor s (.other t) cb
  | .queueInLoop t cb => pushFunctor s t cb
  | .quit t => { s with quitFlag := true, calls := Function.update s.calls t .quitSet }
  | .wakeup t =>
    { s with
      wakeupFd := if wakes s t then eventfdWrite s.wakeupFd else s.wakeupFd
      calls := Function.update s.calls t .idle }

/-- One step of the loop or of a caller. -/
def step : State T F → Action T F → Option (State T F) := Transition.guarded guard effect

end Step

end EventLoop
end Bbkgl
