import Bbkgl.Net.EventLoop

/-!
# EventLoopThread

The thread that runs `ThreadFunc`, with its `EventLoop` as a local variable, the
owner of the `EventLoopThread`, and other threads that were given the pointer
that `StartLoop` returned. The steps of the loop itself are those of `EventLoop`,
except that the object may be gone: a call on it is then a fault, and the run
ends. A `Quit` consists of two accesses, the write of `quit_` and the test of the
thread with `Wakeup()`, and so does the one that the destructor makes.
-/

set_option autoImplicit false

namespace Bbkgl

open CS

namespace EventLoop

variable {T F : Type*}

/-- The thread that takes a step. -/
def Action.thread : Action T F → Thread T
  | .runInLoop t _ | .queueInLoop t _ | .quit t | .wakeup t => t
  | .enterLoop | .clearQuit | .testQuit | .poll _ | .handleRead | .handler | .userReturn
  | .doPendingFunctors | .swap | .callFunctor | .finishFunctors => .loop

end EventLoop

namespace EventLoopThread

/-- A thread other than the new one. -/
inductive Caller (T : Type*)
  | owner
  | user (t : T)
  deriving DecidableEq, Repr

/-- What the new thread has done. -/
inductive ThreadPc
  | start
  /-- `EventLoop loop` -/
  | constructed
  /-- `loop_ = &loop`, and the notification -/
  | published
  /-- it is in `loop.Loop()`, or about to leave `ThreadFunc` -/
  | inLoop
  /-- `ThreadFunc` has returned, and `loop` is destroyed -/
  | returned
  deriving DecidableEq, Repr

/-- Where the owner stands in the destructor. -/
inductive OwnerPc
  | outside
  /-- `exiting_ = true` -/
  | exiting
  /-- `quit_ = true`, through `loop_` -/
  | quitting
  /-- the rest of `Quit` -/
  | joining
  | joined
  deriving DecidableEq, Repr

/-- What the source does not survive. -/
inductive Fault
  /-- `loop_` is null in the destructor -/
  | nullLoop
  /-- an access of `Quit` to a destroyed loop -/
  | deadQuit
  /-- an access of `RunInLoop` or `QueueInLoop` to a destroyed loop -/
  | deadCall
  deriving DecidableEq, Repr

/-- `loopSet`: `loop_` is not null. `started`: `StartLoop` has returned.
`quitMade` is history: a `Quit` has set `quit_`. -/
structure State (T F : Type*) where
  thread : ThreadPc
  loop : EventLoop.State (Caller T) F
  loopSet : Bool
  started : Bool
  owner : OwnerPc
  exiting : Bool
  quitMade : Bool
  fault : Option Fault

/-- The thread is started, and has not made its `EventLoop` yet. -/
def State.init (T F : Type*) : State T F where
  thread := .start
  loop := .init (Caller T) F
  loopSet := false
  started := false
  owner := .outside
  exiting := false
  quitMade := false
  fault := none

/-- What `ThreadFunc`, `StartLoop`, the loop and the destructor do. -/
inductive Action (T F : Type*)
  | construct
  | publish
  | startLoop
  | loop (a : EventLoop.Action (Caller T) F)
  | returnFromLoop
  | enterDestructor
  | destructorQuit
  | destructorWakeup
  | join

variable {T F : Type*} [DecidableEq T]

/-- The threads that may take a step of the loop: the new thread inside
`Loop()`, and those that have the pointer. -/
def mayStep (s : State T F) (a : EventLoop.Action (Caller T) F) : Bool :=
  match a, a.thread with
  | .enterLoop, _ => s.thread = .published
  | _, .loop => s.thread = .inLoop && s.loop.pc != .outside
  | _, .other .owner => s.started && s.owner = .outside
  | _, .other (.user _) => s.started

/-- When an action can be taken; nothing happens after a fault. -/
def guard (s : State T F) (a : Action T F) : Bool :=
  s.fault = none && match a with
  | .construct => s.thread = .start
  | .publish => s.thread = .constructed
  | .startLoop =>
    -- the wait ends when `loop_` is not null
    s.owner = .outside && s.loopSet
  | .loop a => mayStep s a && EventLoop.guard s.loop a
  | .returnFromLoop => s.thread = .inLoop && s.loop.pc == .outside
  | .enterDestructor => s.owner = .outside && s.loop.calls (.other .owner) == .idle
  | .destructorQuit => s.owner = .exiting
  | .destructorWakeup => s.owner = .quitting
  | .join => s.owner = .joining && s.thread = .returned

/-- A call of `Quit`. -/
def isQuit : EventLoop.Action (Caller T) F → Bool
  | .quit _ => true
  | _ => false

/-- An access of `Quit`. -/
def inQuit (s : EventLoop.State (Caller T) F) : EventLoop.Action (Caller T) F → Bool
  | .quit _ => true
  | .wakeup t => s.calls t == .quitSet
  | _ => false

/-- A step of the loop, by whichever thread. -/
def loopStep (s : State T F) (a : EventLoop.Action (Caller T) F) : State T F :=
  if s.thread = .returned then
    { s with fault := some (if inQuit s.loop a then .deadQuit else .deadCall) }
  else
    { s with
      loop := EventLoop.effect s.loop a
      quitMade := s.quitMade || isQuit a }

/-- What an action does. -/
def effect (s : State T F) : Action T F → State T F
  | .construct => { s with thread := .constructed }
  | .publish => { s with thread := .published, loopSet := true }
  | .startLoop => { s with started := true }
  | .loop .enterLoop => { loopStep s .enterLoop with thread := .inLoop }
  | .loop a => loopStep s a
  | .returnFromLoop => { s with thread := .returned }
  | .enterDestructor => { s with exiting := true, owner := .exiting }
  | .destructorQuit =>
    if s.loopSet then { loopStep s (.quit (.other .owner)) with owner := .quitting }
    else { s with fault := some .nullLoop }
  | .destructorWakeup =>
    if s.thread = .returned then { s with fault := some .deadQuit }
    else { loopStep s (.wakeup (.other .owner)) with owner := .joining }
  | .join => { s with owner := .joined }

/-- One step of the thread, of its owner or of the loop. -/
def step : State T F → Action T F → Option (State T F) := Transition.guarded guard effect

end EventLoopThread
end Bbkgl
