import Bbkgl.Net.TcpServerRecords

/-!
# The destruction of the server

`~TcpServer` has an empty body: its members go one after the other, the last
declared first. `connections_` drops its pointers while the threads of the pool
still run; then `thread_pool_` lets each of them leave `Loop` and joins it. The
base loop's thread executes all of this, between two rounds of its loop or in
user code, and may go on with the loop afterwards. `acceptor_` closes its
socket, so there is no `NewConnection` any more.

What happens on a loop that has been joined is of no interest here: a call on
one of its connections pushes onto a queue that nobody takes.
-/

set_option autoImplicit false

namespace Bbkgl
namespace TcpServer

open CS CS.Transition TcpConnection

/-- How far `~TcpServer` has come. -/
inductive Stage
  | serving
  | connections
  /-- that many threads have been joined -/
  | threadPool (joined : ℕ)
  | destroyed
  deriving DecidableEq, Repr

/-- The server, and how far its destructor has come. -/
structure Lifetime where
  server : State
  stage : Stage

namespace Lifetime

/-- A server that serves. -/
def init : Lifetime := ⟨.init, .serving⟩

/-- The actions of the server, and the parts of its destructor. -/
inductive Action
  | server (a : TcpServer.Action)
  /-- the base loop's thread enters `~TcpServer` -/
  | destructor
  /-- the entry of `c` goes with `connections_` -/
  | eraseEntry (c : ConnId)
  | connectionsGone
  /-- `~EventLoopThread`: the next thread leaves `Loop`, and its `EventLoop` goes -/
  | joinThread
  | threadPoolGone
  deriving DecidableEq, Repr

/-- The thread of the loop runs its loop. -/
def running : Stage → LoopId → Bool
  | .serving, _ => true
  | .connections, i => i ≠ 0
  | .threadPool joined, i => joined < i
  | .destroyed, i => i = 0

/-- The loop of a thread; the user's own threads have none. -/
def loopOf : Caller → Option LoopId
  | .loop i => some i
  | .user _ => none

/-- The loop whose thread takes the step. -/
def thread (s : State) : TcpServer.Action → Option LoopId
  | .poll i _ | .handleEvent i | .handleClose i | .handleError i | .handleRead i _
  | .handleWrite i _ | .endEvent i | .userCode i | .doPendingFunctors i | .runFunctor i _
  | .finishFunctors i | .userReturn i | .inputBuffer i _ => some i
  | .newConnection _ => some 0
  | .closeTimer c => some (own s c)
  | .send who _ _ _ | .shutdown who _ | .close who _ | .proceed who | .queueInLoop who _
  | .setWriteComplete who _ _ | .keep who _ => loopOf who
  | .drop _ | .destroy _ => none

/-- The acceptor calls `NewConnection`. -/
def isNewConnection : TcpServer.Action → Bool
  | .newConnection _ => true
  | _ => false

/-- The thread is at the top of `Loop`. -/
def atTop (cfg : Config) (s : State) (i : LoopId) : Bool :=
  free cfg s i && (s.loops i).phase = .poll

/-- The thread is in user code, and in no call from there. -/
def inUserCode (s : State) (i : LoopId) : Bool :=
  (s.loops i).frame.isSome && (s.calls (.loop i)).isNone

/-- When an action can be taken; a loop that has been joined takes none. -/
def guard (cfg : Config) (s : Lifetime) : Action → Bool
  | .server a => TcpServer.guard cfg s.server a && (thread s.server a).all (running s.stage) &&
      (s.stage = .serving || !isNewConnection a)
  | .destructor => s.stage = .serving && (atTop cfg s.server 0 || inUserCode s.server 0)
  | .eraseEntry c => s.stage = .connections &&
      s.server.connections (s.server.conns c).name = some c
  | .connectionsGone => s.stage = .connections && (List.range s.server.nextObj).all fun c =>
      s.server.connections (s.server.conns c).name ≠ some c
  | .joinThread => match s.stage with
    | .threadPool joined => joined < cfg.numThreads && atTop cfg s.server (joined + 1)
    | _ => false
  | .threadPoolGone => s.stage = .threadPool cfg.numThreads

/-- An `EventLoop` and what is queued on it are gone. -/
def endLoop (s : State) (i : LoopId) : State := setLoop s i fun _ => ⟨.empty, .poll, none, .empty⟩

/-- What an action does. -/
def effect (cfg : Config) (s : Lifetime) : Action → Lifetime
  | .server a => { s with server := commit cfg s.server a }
  | .destructor => { s with stage := .connections }
  | .eraseEntry c => { s with server := { s.server with
      connections := Function.update s.server.connections (s.server.conns c).name none } }
  | .connectionsGone => { s with stage := .threadPool 0 }
  | .joinThread => match s.stage with
    | .threadPool joined => ⟨endLoop s.server (joined + 1), .threadPool (joined + 1)⟩
    | _ => s
  | .threadPoolGone => { s with stage := .destroyed }

/-- One step; none after a fault. -/
def step (cfg : Config) : Lifetime → Action → Option Lifetime :=
  guarded (fun s a => s.server.fault.isNone && guard cfg s a) (effect cfg)

/-! ### What the destructor should not leave behind -/

/-- The step dispatches `HandleEvent` to the channel of a destroyed connection. -/
def handlesDestroyed (s : State) : TcpServer.Action → Bool
  | .handleEvent i => match (s.loops i).phase with
    | .dispatch ((c, _) :: _) => !(s.conns c).alive
    | _ => false
  | _ => false

/-- The functor enters the server once more. -/
def isRemoval : Functor → Bool
  | .removeConnectionInLoop _ => true
  | _ => false

/-- The step enters `RemoveConnection`, through a `HandleClose` that passes its
assertion, or `RemoveConnectionInLoop`. -/
def callsServer (s : State) (a : TcpServer.Action) : Bool :=
  ((closes s a).any fun c => (s.conns c).alive && (s.conns c).isUp) || (runs s a).any isRemoval

end Lifetime
end TcpServer
end Bbkgl
