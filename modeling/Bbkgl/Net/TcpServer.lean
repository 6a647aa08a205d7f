import Bbkgl.CS.Mailbox
import Bbkgl.CS.Transition
import Bbkgl.Net.BufferQueue
import Bbkgl.Net.TcpConnection

/-!
# TcpServer

A started server: the base loop (loop 0), the loops of the thread pool, the
connections, and threads of the user. `step` interleaves the threads. A loop's
thread takes one callback of a channel, one functor or one timer at a time; what
it does in the user's callbacks is a sequence of steps of its own, and so is
what other threads do. A call that another thread makes on a connection is split
where the source reads `state_`, writes it, and pushes onto the queue.

The kernel, the scheduler and the user decide which action comes next. The
first assertion that fails, exception that is not caught, or use of a destroyed
object ends the run (`fault`).
-/

set_option autoImplicit false

namespace Bbkgl

open CS CS.Fallible CS.Transition TcpConnection

namespace TcpServer

/-- What the program has set up: `name_`, the sizes of the thread pool and of the
set of user threads, and whether `write_complete_callback_` is set. -/
structure Config where
  name : String
  numThreads : ℕ
  numUsers : ℕ
  writeComplete : Bool
  deriving DecidableEq, Repr

/-- The base loop and the loops of the pool. -/
def Config.loops (cfg : Config) : List LoopId := List.range (cfg.numThreads + 1)

/-- The threads that may call the methods: those of the loops and the user's own. -/
def Config.callers (cfg : Config) : List Caller :=
  cfg.loops.map .loop ++ (List.range cfg.numUsers).map .user

/-- The user's code on a loop's thread: the connection it was given, whether it
was also given the input buffer, and whether `ConnDestroyed` has called it, which
goes on to `RemoveChannel`. -/
structure Frame where
  conn : Option ConnId
  message : Bool
  removeChannel : Bool
  deriving DecidableEq, Repr

/-- Where a loop is in `Loop()`. -/
inductive Phase
  | poll
  /-- the walk over `active_channels_`; `revents_` is kept with each channel -/
  | dispatch (active : List (ConnId × EventMask))
  /-- inside `HandleEvent` of `c`, with these callbacks still to be made -/
  | handling (c : ConnId) (todo : List Channel.Callback) (active : List (ConnId × EventMask))
  /-- the walk over the local vector of `DoPendingFunctors` -/
  | functors
  deriving DecidableEq, Repr

/-- A loop: its functor queue, where its thread is, the user code that it runs, and its poller. -/
structure Loop where
  functors : Mailbox Functor
  phase : Phase
  frame : Option Frame
  poller : Epoller ConnId

/-- Where a thread stands in a call on a connection of another thread's loop. -/
inductive Call
  /-- `Send` has found `k_connected`; the push is next -/
  | send (c : ConnId) (message : Bytes)
  /-- `Shutdown` has found `k_connected`; `SetState` is next -/
  | shutdownChecked (c : ConnId)
  /-- `SetState` is done; the push is next -/
  | shutdownSet (c : ConnId)
  deriving DecidableEq, Repr

/-- The connection whose method is under way. -/
def Call.conn : Call → ConnId
  | send c _ | shutdownChecked c | shutdownSet c => c

/-- `nextObj` is the address that the next TcpConnection object will get. -/
structure State where
  conns : ConnId → TcpConnection
  nextObj : ConnId
  loops : LoopId → Loop
  calls : Caller → Option Call
  connections : String → Option ConnId
  nextConnId : BitVec 32
  next : ℕ
  fault : Option Fault

/-- A server that has been started, without connections. -/
def State.init : State where
  conns := fun _ => { TcpConnection.new 0 "" 0 false with alive := false }
  nextObj := 0
  loops := fun _ => ⟨.empty, .poll, none, .empty⟩
  calls := fun _ => none
  connections := fun _ => none
  nextConnId := 1
  next := 0
  fault := none

/-- What the threads do, one step at a time. -/
inductive Action
  | poll (i : LoopId) (active : List (ConnId × EventMask))
  | handleEvent (i : LoopId)
  | handleClose (i : LoopId)
  | handleError (i : LoopId)
  | handleRead (i : LoopId) (readv : Option Bytes)
  | handleWrite (i : LoopId) (wr : WriteResult)
  | endEvent (i : LoopId)
  /-- the acceptor has accepted `fd` -/
  | newConnection (fd : ℕ)
  /-- a timer of `Close` expires -/
  | closeTimer (c : ConnId)
  /-- a timer or a handler of the user's own -/
  | userCode (i : LoopId)
  | doPendingFunctors (i : LoopId)
  | runFunctor (i : LoopId) (wr : WriteResult)
  | finishFunctors (i : LoopId)
  /-- the user's code on a loop's thread returns -/
  | userReturn (i : LoopId)
  | send (who : Caller) (c : ConnId) (message : Bytes) (wr : WriteResult)
  | shutdown (who : Caller) (c : ConnId)
  | close (who : Caller) (c : ConnId)
  /-- the next step of a call that `who` has under way -/
  | proceed (who : Caller)
  | queueInLoop (who : Caller) (i : LoopId)
  | setWriteComplete (who : Caller) (c : ConnId) (on : Bool)
  /-- user code uses the `Buffer *` of the message callback -/
  | inputBuffer (i : LoopId) (u : Buffer.Use)
  /-- user code copies a pointer to `c` -/
  | keep (who : Caller) (c : ConnId)
  /-- user code drops such a copy -/
  | drop (c : ConnId)
  /-- the last shared pointer to `c` has gone -/
  | destroy (c : ConnId)
  deriving DecidableEq, Repr

variable (cfg : Config) (s : State)

/-- The state with one loop changed. -/
def setLoop (i : LoopId) (f : Loop → Loop) : State :=
  { s with loops := Function.update s.loops i (f (s.loops i)) }

/-- The state with one connection changed. -/
def setConn (c : ConnId) (f : TcpConnection → TcpConnection) : State :=
  { s with conns := Function.update s.conns c (f (s.conns c)) }

/-- The loop's thread is at another place. -/
def setPhase (i : LoopId) (phase : Phase) : State :=
  setLoop s i fun l => { l with phase := phase }

/-- The loop has another functor queue. -/
def setFunctors (i : LoopId) (functors : Mailbox Functor) : State :=
  setLoop s i fun l => { l with functors := functors }

/-- The functor enters the queue of the loop. -/
def push (i : LoopId) (f : Functor) : State := setFunctors s i ((s.loops i).functors.push f)

/-- The thread's call is at another point. -/
def setCall (who : Caller) (call : Option Call) : State :=
  { s with calls := Function.update s.calls who call }

/-- The loop's thread calls the user's code. -/
def enterUser (i : LoopId) (frame : Frame) : State :=
  setLoop s i fun l => { l with frame := some frame }

/-- The loop whose thread runs the methods of `c`. -/
abbrev own (c : ConnId) : LoopId := (s.conns c).loop

/-! ### Methods of a connection -/

/-- The connection and the poller of its loop, as a method finds them. -/
def localOf (c : ConnId) : Local := ⟨s.conns c, (s.loops (own s c)).poller, []⟩

/-- The connection and the poller as a method has left them, with what it has queued. -/
def putLocal (c : ConnId) (l : Local) : State :=
  let s' := setLoop s (own s c) fun loop =>
    { loop with poller := l.poller, functors := l.queued.foldl Mailbox.push loop.functors }
  { s' with conns := Function.update s.conns c l.conn }

/-- Use the object at the address `c`. -/
def touch (c : ConnId) (site : Access) : Except Fault Unit :=
  check (s.conns c).alive (.useAfterFree site)

/-- A method of the connection, called where `site` says, on its own loop. -/
def method (c : ConnId) (site : Access) (f : Local → Except Fault Local) : Except Fault State := do
  touch s c site
  let l ← f (localOf s c)
  return putLocal s c l

/-- The entry goes, and `ConnDestroyed` is queued on the connection's loop. -/
def removeConnectionInLoop (c : ConnId) : Except Fault State :=
  let name := (s.conns c).name
  if (s.connections name).isSome then
    let s' := setConn s c fun conn => { conn with log := conn.log ++ [.removed] }
    let s' := { s' with connections := Function.update s.connections name none }
    .ok (push s' (own s c) (.connDestroyed c))
  else .error (.assertion .removeConnection)

/-- The method `HandleClose`, and the close callback `RemoveConnection`: on the base loop
`RunInLoop` removes the entry at once. -/
def handleClose (c : ConnId) (site : Access) : Except Fault State := do
  let s' ← method s c site (Local.handleClose c)
  if own s c = 0 then removeConnectionInLoop s' c
  else return push s' 0 (.removeConnectionInLoop c)

/-- The method `ConnEstablished` up to the connection callback, which is the user's code. -/
def connEstablished (c : ConnId) : Except Fault State := do
  let s' ← method s c .functor (Local.connEstablished c)
  return enterUser s' (own s c) ⟨some c, false, false⟩

/-- The method `ConnDestroyed` up to the connection callback; `Remove()` follows when that
returns. -/
def connDestroyed (c : ConnId) : Except Fault State := do
  let s' ← method s c .functor (Local.connDestroyed c)
  return enterUser s' (own s c) ⟨some c, false, true⟩

/-- The method `HandleRead` up to the message callback, or with the end of the stream, or with a
failed `readv`. -/
def handleRead (c : ConnId) (readv : Option Bytes) : Except Fault State := do
  touch s c .handleEvent
  match (s.conns c).input.readFd readv with
  | .error f => .error (.buffer f)
  | .ok (input, n) =>
    let s' := setConn s c fun conn => { conn with input := input }
    if 0 < n then return enterUser s' (own s c) ⟨some c, true, false⟩
    else if n = 0 then handleClose s' c .handleEvent
    else return s'

/-! ### The server -/

/-- The method `GetNextLoop`: the loop, and `next_` after the call. -/
def getNextLoop : LoopId × ℕ :=
  if cfg.numThreads = 0 then (0, s.next)
  else (s.next + 1, if cfg.numThreads ≤ s.next + 1 then 0 else s.next + 1)

/-- `conn_name`, for the `next_conn_id_` it is made from. -/
def connName (id : BitVec 32) : String := cfg.name ++ "#" ++ toString id.toInt

/-- The method `NewConnection` for a descriptor that has been accepted. -/
def newConnection (fd : ℕ) : Except Fault State :=
  let id := s.nextConnId + 1
  let name := connName cfg id
  let (ioLoop, next) := getNextLoop cfg s
  let c := s.nextObj
  let s' : State := { s with
    conns := Function.update s.conns c (.new ioLoop name fd cfg.writeComplete)
    nextObj := c + 1
    connections := Function.update s.connections name (some c)
    nextConnId := id
    next := next }
  if ioLoop = 0 then connEstablished s' c else .ok (push s' ioLoop (.connEstablished c))

/-- A functor that was queued, run on the thread of loop `i`. -/
def runFunctor (i : LoopId) (wr : WriteResult) : Functor → Except Fault State
  | .connEstablished c => connEstablished s c
  | .connDestroyed c => connDestroyed s c
  | .removeConnectionInLoop c => removeConnectionInLoop s c
  | .writeComplete c => .ok (enterUser s i ⟨some c, false, false⟩)
  | .sendInLoop c who message => method s c .functor (Local.sendInLoop c who message wr)
  | .shutdownInLoop c => method s c .functor fun l => .ok l.shutdownInLoop
  | .addTimerInLoop c =>
    .ok (setConn s c fun conn => { conn with closeTimers := conn.closeTimers + 1 })
  | .user => .ok (enterUser s i ⟨none, false, false⟩)

/-! ### Calls -/

/-- The method `Send`: at once on the connection's loop, with the test passed on any other thread.
-/
def send (who : Caller) (c : ConnId) (message : Bytes) (wr : WriteResult) : Except Fault State :=
  if (s.conns c).state = .connected then
    let s' := setConn s c fun conn => { conn with log := conn.log ++ [.sent who message] }
    if who = .loop (own s c) then method s' c .functor (Local.sendInLoop c who message wr)
    else .ok (setCall s' who (some (.send c message)))
  else .ok s

/-- The method `Shutdown`, likewise. -/
def shutdown (who : Caller) (c : ConnId) : Except Fault State :=
  if (s.conns c).state = .connected then
    if who = .loop (own s c) then
      method s c .functor fun l => .ok (l.setState .disconnecting).shutdownInLoop
    else .ok (setCall s who (some (.shutdownChecked c)))
  else .ok s

/-- The method `Close`: the timer is added, or its addition queued on the connection's loop. -/
def close (who : Caller) (c : ConnId) : State :=
  if who = .loop (own s c) then
    setConn s c fun conn => { conn with closeTimers := conn.closeTimers + 1 }
  else push s (own s c) (.addTimerInLoop c)

/-- The next step of a call on a thread that is not the connection's. -/
def proceed (who : Caller) : Call → State
  | .send c message => setCall (push s (own s c) (.sendInLoop c who message)) who none
  | .shutdownChecked c =>
    setCall (setConn s c fun conn => { conn with state := .disconnecting }) who
      (some (.shutdownSet c))
  | .shutdownSet c => setCall (push s (own s c) (.shutdownInLoop c)) who none

/-! ### When an action is possible -/

/-- The loop's thread is not in user code. -/
def free (i : LoopId) : Bool := i ∈ cfg.loops && (s.loops i).frame.isNone

/-- The loop's thread is in the walk over the active channels, between two of them. -/
def dispatching (i : LoopId) : Bool :=
  match (s.loops i).phase with
  | .dispatch _ => free cfg s i
  | _ => false

/-- The thread can make a call: a loop's thread does so in user code. -/
def canCall (who : Caller) : Bool :=
  who ∈ cfg.callers && (s.calls who).isNone &&
    match who with
    | .loop i => (s.loops i).frame.isSome
    | .user _ => true

/-- The frame was given `c`. -/
def givenTo (c : ConnId) (l : Loop) : Bool := l.frame.any fun frame => frame.conn = some c

/-- The thread has a pointer to `c`: a copy that user code keeps, or the
argument of the callback it is in. -/
def hasPointer (who : Caller) (c : ConnId) : Bool :=
  0 < (s.conns c).refs ||
    match who with
    | .loop i => givenTo c (s.loops i)
    | .user _ => false

/-- The loop has a pointer to the connection, in its user code or in its functors. -/
def holds (c : ConnId) (l : Loop) : Bool :=
  givenTo c l || (l.functors.pending ++ l.functors.done ++ l.functors.rest).any
    fun f => f.owns = some c

/-- Some shared pointer to `c` is left. -/
def owned (c : ConnId) : Bool :=
  0 < (s.conns c).refs || s.connections (s.conns c).name = some c ||
    cfg.loops.any (fun i => holds c (s.loops i)) ||
    cfg.callers.any fun who => (s.calls who).any fun call => call.conn = c

/-- `write()` accepts at most what it is offered. -/
def accepts (offered : ℕ) (wr : WriteResult) : Bool := wr.all (· ≤ offered)

/-- A callback of `HandleEvent` is next. -/
def callbackIs (i : LoopId) (p : ConnId → Channel.Callback → Bool) : Bool :=
  match (s.loops i).phase with
  | .handling c (cb :: _) _ => free cfg s i && p c cb
  | _ => false

/-- When an action can be taken. -/
def guard : Action → Bool
  | .poll i active =>
    free cfg s i && (s.loops i).phase = .poll && (active.map Prod.fst).Nodup &&
      active.all fun e => (s.loops i).poller.mayReport (s.conns e.1).channel.fd e.1 e.2
  | .handleEvent i => match (s.loops i).phase with
    | .dispatch (_ :: _) => free cfg s i
    | _ => false
  | .handleClose i => callbackIs cfg s i fun _ cb => cb = .close
  | .handleError i => callbackIs cfg s i fun _ cb => cb = .error
  | .handleRead i readv => callbackIs cfg s i fun c cb =>
      cb = .read && readv.all fun data =>
        data.length ≤ (s.conns c).input.writableBytes + Buffer.extraSize
  | .handleWrite i wr => callbackIs cfg s i fun c cb =>
      cb = .write && accepts (s.conns c).output.readableBytes wr
  | .endEvent i => match (s.loops i).phase with
    | .handling _ [] _ => free cfg s i
    | _ => false
  | .newConnection fd => dispatching cfg s 0 && (List.range s.nextObj).all fun c =>
      !((s.conns c).alive && (s.conns c).channel.fd = fd)
  | .closeTimer c => dispatching cfg s (own s c) && 0 < (s.conns c).closeTimers
  | .userCode i => dispatching cfg s i
  | .doPendingFunctors i => free cfg s i && (s.loops i).phase = .dispatch []
  | .runFunctor i wr => free cfg s i && (s.loops i).phase = .functors &&
      match (s.loops i).functors.rest with
      | [] => false
      | .sendInLoop _ _ message :: _ => accepts message.length wr
      | _ :: _ => true
  | .finishFunctors i => free cfg s i && (s.loops i).phase = .functors &&
      (s.loops i).functors.rest.isEmpty
  | .userReturn i => i ∈ cfg.loops && (s.loops i).frame.isSome && (s.calls (.loop i)).isNone
  | .send who c message wr => canCall cfg s who && hasPointer s who c &&
      message.length ≤ Buffer.maxSize && accepts message.length wr
  | .shutdown who c | .close who c | .setWriteComplete who c _ | .keep who c =>
      canCall cfg s who && hasPointer s who c
  | .proceed who => (s.calls who).isSome
  | .queueInLoop who i => canCall cfg s who && i ∈ cfg.loops
  | .inputBuffer i _ => canCall cfg s (.loop i) &&
      (s.loops i).frame.any fun frame => frame.message && frame.conn.isSome
  | .drop c => 0 < (s.conns c).refs
  | .destroy c => c < s.nextObj && (s.conns c).alive && !owned cfg s c

/-- The callback of `HandleEvent` that is next is over for the walk. -/
def nextCallback (i : LoopId) : State :=
  match (s.loops i).phase with
  | .handling c (_ :: todo) active => setPhase s i (.handling c todo active)
  | _ => s

/-- The connection whose event the loop handles. -/
def handled (i : LoopId) : ConnId :=
  match (s.loops i).phase with
  | .handling c _ _ => c
  | _ => 0

/-- The mark `event_handling_` of the connection's channel. -/
def setEventHandling (c : ConnId) (b : Bool) : State :=
  setConn s c fun conn => { conn with channel.eventHandling := b }

/-- What an action does. -/
def effect : Action → Except Fault State
  | .poll i active =>
    -- `FillActiveChannels` finds each channel in `channels_`
    if active.all fun e => (s.loops i).poller.channels (s.conns e.1).channel.fd = some e.1 then
      .ok (setPhase s i (.dispatch active))
    else .error (.epoller .fillActive)
  | .handleEvent i => match (s.loops i).phase with
    | .dispatch ((c, revents) :: active) => do
      touch s c .handleEvent
      return setPhase (setEventHandling s c true) i
        (.handling c (Channel.handleEvent revents) active)
    | _ => .ok s
  | .handleClose i => handleClose (nextCallback s i) (handled s i) .handleEvent
  | .handleError i => .ok (nextCallback s i)
  | .handleRead i readv => handleRead (nextCallback s i) (handled s i) readv
  | .handleWrite i wr =>
    method (nextCallback s i) (handled s i) .handleEvent (Local.handleWrite (handled s i) wr)
  | .endEvent i => match (s.loops i).phase with
    | .handling c _ active => do
      touch s c .handleEvent
      return setPhase (setEventHandling s c false) i (.dispatch active)
    | _ => .ok s
  | .newConnection fd => newConnection cfg s fd
  | .closeTimer c =>
    handleClose (setConn s c fun conn => { conn with closeTimers := conn.closeTimers - 1 }) c
      .closeTimer
  | .userCode i => .ok (enterUser s i ⟨none, false, false⟩)
  | .doPendingFunctors i =>
    .ok (setPhase (setFunctors s i (s.loops i).functors.swap) i .functors)
  | .runFunctor i wr => match (s.loops i).functors.rest with
    | [] => .ok s
    | f :: _ => runFunctor (setFunctors s i (s.loops i).functors.advance) i wr f
  | .finishFunctors i => .ok (setPhase (setFunctors s i (s.loops i).functors.finish) i .poll)
  | .userReturn i =>
    let s' := setLoop s i fun l => { l with frame := none }
    match (s.loops i).frame with
    | some ⟨some c, _, true⟩ => method s' c .functor (Local.removeChannel c)
    | _ => .ok s'
  | .send who c message wr => send s who c message wr
  | .shutdown who c => shutdown s who c
  | .close who c => .ok (close s who c)
  | .proceed who => match s.calls who with
    | none => .ok s
    | some call => .ok (proceed s who call)
  | .queueInLoop _ i => .ok (push s i .user)
  | .setWriteComplete _ c on => .ok (setConn s c fun conn => { conn with writeComplete := on })
  | .inputBuffer i u => match (s.loops i).frame.bind Frame.conn with
    | none => .ok s
    | some c => match u.exec (s.conns c).input with
      | .ok input => .ok (setConn s c fun conn => { conn with input := input })
      | .error f => .error (.buffer f)
  | .keep _ c => .ok (setConn s c fun conn => { conn with refs := conn.refs + 1 })
  | .drop c => .ok (setConn s c fun conn => { conn with refs := conn.refs - 1 })
  | .destroy c =>
    if (s.conns c).channel.eventHandling then .error (.assertion .channelDestroyed)
    else
      let s' := setConn s c fun conn => { conn with alive := false }
      .ok (setLoop s' (own s c) fun l => { l with poller := l.poller.close (s.conns c).channel.fd })

/-- A fault leaves the rest of the state as it was before the step that ran into it. -/
def commit (a : Action) : State :=
  match effect cfg s a with
  | .ok t => t
  | .error f => { s with fault := some f }

/-- One step of the server; none after a fault. -/
def step : State → Action → Option State :=
  guarded (fun s a => s.fault.isNone && guard cfg s a) (commit cfg)

end TcpServer
end Bbkgl
