import Mathlib.Data.List.Perm.Subperm
import Bbkgl.CS.CallStack
import Bbkgl.Net.TcpServer

/-!
# Which thread makes which call

The server with every thread there is: the one on which the program constructs
the base loop and the server, those of the pool, and the user's. Each thread has
a stack of calls still to be made. A call is a function of the source, or a piece
of one, and leaves what that function calls in turn; so a thread reaches a method
of a connection through everything that leads there, and nothing but
`IsInLoopThread` decides where a functor runs.

`TcpServer` has a thread for each loop and gives the methods of a connection to
the one of its own loop. Here the methods are the same, and which thread comes to
run them is what is recorded.
-/

set_option autoImplicit false

namespace Bbkgl

open CS CS.Fallible TcpConnection

namespace Threads

/-- A channel, as the loop that watches it knows it. -/
inductive Ptr
  | conn (c : ConnId)
  | timerfd
  | wakeup
  | accept
  deriving DecidableEq, Repr

/-- A call that is still to be made, with its arguments. The functors, too, are
calls. `i` is the loop whose method it is. -/
inductive Call
  /-- the program's main thread -/
  | main
  /-- `EventLoopThread::ThreadFunc` -/
  | threadFunc (i : LoopId)
  /-- `EnableReading` of a channel of the loop's own -/
  | enableReading (i : LoopId) (p : Ptr)
  /-- one round of `Loop` -/
  | loop (i : LoopId)
  | handleEvent (i : LoopId) (p : Ptr) (revents : EventMask)
  | doPendingFunctors (i : LoopId)
  | runInLoop (i : LoopId) (cb : Call)
  | queueInLoop (i : LoopId) (cb : Call)
  /-- `EventLoop::HandleRead`, of the eventfd -/
  | wakeupRead (i : LoopId)
  | addTimer (i : LoopId) (cb : Call) (repeats : Bool)
  | addTimerInLoop (i : LoopId) (cb : Call) (repeats : Bool)
  /-- `TimerQueue::HandleRead` -/
  | timerRead (i : LoopId)
  /-- what `Reset` does with a timer that repeats -/
  | restart (i : LoopId) (cb : Call)
  /-- `TcpServer::Start` -/
  | start
  /-- `new EventLoopThread` -/
  | startThread (i : LoopId)
  /-- `EventLoopThread::StartLoop`, which waits for the loop -/
  | startLoop (i : LoopId)
  /-- the second half of `Start` -/
  | startListening
  | listen
  /-- `Acceptor::HandleRead` -/
  | acceptRead
  | newConnection (fd : ℕ)
  | removeConnection (c : ConnId)
  | removeConnectionInLoop (c : ConnId)
  | connEstablished (c : ConnId)
  | connDestroyed (c : ConnId)
  /-- what `ConnDestroyed` does after the user's callback -/
  | removeChannel (c : ConnId)
  | handleRead (c : ConnId)
  | handleWrite (c : ConnId)
  | handleClose (c : ConnId)
  | handleError (c : ConnId)
  | send (c : ConnId) (message : Bytes)
  | sendInLoop (c : ConnId) (sender : Caller) (message : Bytes)
  | shutdown (c : ConnId)
  /-- `SetState(k_disconnecting)` in `Shutdown` -/
  | setDisconnecting (c : ConnId)
  | shutdownInLoop (c : ConnId)
  | close (c : ConnId)
  | setWriteComplete (c : ConnId) (on : Bool)
  | inputBuffer (c : ConnId) (u : Buffer.Use)
  /-- the last shared pointer to `c` has gone -/
  | destroy (c : ConnId)
  /-- the user's code -/
  | user
  deriving DecidableEq

/-- The functions that have to run on the thread of a loop; `connections` is an access to
`connections_`. -/
inductive Function
  | connEstablished
  | connDestroyed
  | sendInLoop
  | shutdownInLoop
  | handleRead
  | handleWrite
  | handleClose
  | updateChannel
  | removeChannel
  | addTimerInLoop
  | timerRead
  | loop
  | start
  | listen
  | acceptRead
  | newConnection
  | getNextLoop
  | removeConnectionInLoop
  | connections
  deriving DecidableEq, Repr

/-- `inLoopThread` is what `IsInLoopThread` of the loop answers there. -/
structure Execution where
  thread : Caller
  function : Function
  loop : LoopId
  inLoopThread : Bool
  deriving DecidableEq, Repr

/-- `threadId` is `thread_id_`, once the constructor has set it, and `channels`
are the channels of the loop's own that its epoll instance watches. A timer is
its callback and whether it repeats. -/
structure Loop where
  threadId : Option Caller
  pending : List Call
  timers : List (Call × Bool)
  poller : Epoller ConnId
  channels : List Ptr

/-- `spawned` counts the threads of the pool that have been made, and `pool` is
`loops_` of the pool. `log` is history. -/
structure State where
  conns : ConnId → TcpConnection
  nextObj : ConnId
  loops : LoopId → Loop
  spawned : ℕ
  started : Bool
  listenning : Bool
  pool : List LoopId
  next : ℕ
  connections : String → Option ConnId
  nextConnId : BitVec 32
  log : List Execution
  fault : Option Fault

/-- Nothing has been constructed but the base loop and the server. -/
def State.init : State where
  conns := fun _ => { TcpConnection.new 0 "" 0 false with alive := false }
  nextObj := 0
  loops := fun _ => ⟨none, [], [], .empty, []⟩
  spawned := 0
  started := false
  listenning := false
  pool := []
  next := 0
  connections := fun _ => none
  nextConnId := 1
  log := []
  fault := none

/-- What the environment decides for one call: whether `quit_` is set, what the
poller reports, which timers have expired, what the kernel answers, and what
user code calls next, if anything. -/
structure Choice where
  quit : Bool := false
  active : List (Ptr × EventMask) := []
  expired : List (Call × Bool) := []
  accepted : Option ℕ := none
  readv : Option Bytes := none
  wr : WriteResult := none
  api : Option Call := none
  deriving DecidableEq

variable (cfg : TcpServer.Config) (me : Caller) (k : Choice) (s : State)

/-- The loop whose thread has to run the methods of `c`. -/
abbrev own (c : ConnId) : LoopId := (s.conns c).loop

/-- The state with one loop changed. -/
def setLoop (i : LoopId) (g : Loop → Loop) : State :=
  { s with loops := Function.update s.loops i (g (s.loops i)) }

/-- The state with one connection changed. -/
def setConn (c : ConnId) (g : TcpConnection → TcpConnection) : State :=
  { s with conns := Function.update s.conns c (g (s.conns c)) }

/-- The test by which the calling thread knows whether the loop is its own. -/
def isInLoopThread (i : LoopId) : Bool := (s.loops i).threadId = some me

/-- A call enters the queue of the loop. -/
def push (i : LoopId) (cb : Call) : State :=
  setLoop s i fun l => { l with pending := l.pending ++ [cb] }

/-- A timer enters the queue of the loop. -/
def insertTimer (i : LoopId) (cb : Call) (repeats : Bool) : State :=
  setLoop s i fun l => { l with timers := l.timers ++ [(cb, repeats)] }

/-- The constructor of an EventLoop; its two channels are still to be enabled. -/
def construct (i : LoopId) : State := setLoop s i fun _ => ⟨some me, [], [], .empty, []⟩

/-- `EnableReading` of `wakeup_channel_` is the last thing that the constructor does. -/
def constructed (i : LoopId) : Bool :=
  (s.loops i).threadId.isSome && .wakeup ∈ (s.loops i).channels

/-! ### Methods of a connection -/

/-- The connection and the poller of its loop, as a method finds them. -/
def localOf (c : ConnId) : Local := ⟨s.conns c, (s.loops (own s c)).poller, []⟩

/-- The functors that a method queues are write-complete callbacks: user code. -/
def putLocal (c : ConnId) (l : Local) : State :=
  let s' := setLoop s (own s c) fun loop =>
    { loop with poller := l.poller, pending := loop.pending ++ l.queued.map fun _ => .user }
  { s' with conns := Function.update s.conns c l.conn }

/-- An access to a connection, which has to exist. -/
def touch (c : ConnId) (site : Access) : Except Fault Unit :=
  check (s.conns c).alive (.useAfterFree site)

/-- A method of the connection, as the server's model has it. -/
def method (c : ConnId) (site : Access) (g : Local → Except Fault Local) : Except Fault State := do
  touch s c site
  let l ← g (localOf s c)
  return putLocal s c l

/-! ### What is executed -/

/-- `SendInLoop` goes on to `EnableWriting`, unless `Append` throws. -/
def sendUpdates (conn : TcpConnection) (message : Bytes) : Bool :=
  Local.nwrote conn k.wr < message.length && !conn.channel.isWriting

/-- `HandleWrite` goes on to `DisableWriting`. -/
def writeUpdates (conn : TcpConnection) : Bool :=
  conn.channel.isWriting && 0 < k.wr.getD 0 && k.wr.getD 0 = conn.output.readableBytes

/-- The functions that a call executes, each with the loop that owns its object. `HandleClose`,
`ConnEstablished` and `ConnDestroyed` get to `Update()` if their assertion holds. -/
def executed : Call → List (Function × LoopId)
  | .connEstablished c => (.connEstablished, own s c) ::
      if (s.conns c).state = .connecting then [(.updateChannel, own s c)] else []
  | .connDestroyed c => (.connDestroyed, own s c) ::
      if (s.conns c).isUp then [(.updateChannel, own s c)] else []
  | .handleClose c => (.handleClose, own s c) ::
      if (s.conns c).isUp then [(.updateChannel, own s c)] else []
  | .removeChannel c => [(.removeChannel, own s c)]
  | .handleRead c => [(.handleRead, own s c)]
  | .handleWrite c => (.handleWrite, own s c) ::
      if writeUpdates k (s.conns c) then
        (.updateChannel, own s c) ::
          if (s.conns c).state = .disconnecting then [(.shutdownInLoop, own s c)] else []
      else []
  | .sendInLoop c _ message => (.sendInLoop, own s c) ::
      if sendUpdates k (s.conns c) message then [(.updateChannel, own s c)] else []
  | .shutdownInLoop c => [(.shutdownInLoop, own s c)]
  | .enableReading i _ => [(.updateChannel, i)]
  | .addTimerInLoop i _ _ => [(.addTimerInLoop, i)]
  | .timerRead i => [(.timerRead, i)]
  | .loop i => [(.loop, i)]
  | .start => if s.started then [] else [(.start, 0)]
  | .listen => [(.listen, 0)]
  | .acceptRead => [(.acceptRead, 0)]
  | .newConnection _ => [(.newConnection, 0), (.getNextLoop, 0), (.connections, 0)]
  | .removeConnectionInLoop _ => [(.removeConnectionInLoop, 0), (.connections, 0)]
  | _ => []

/-- The functions that are executed now, with their loop and with the thread. -/
def record (fs : List (Function × LoopId)) : State :=
  { s with log := s.log ++ fs.map fun (f, i) => ⟨me, f, i, isInLoopThread me s i⟩ }

/-! ### When a call is possible -/

/-- The channel is watched, and the kernel may report this for it. -/
def reported (i : LoopId) : Ptr × EventMask → Bool
  | (.conn c, revents) => (s.loops i).poller.mayReport (s.conns c).channel.fd c revents
  | (p, _) => p ∈ (s.loops i).channels

/-- What user code may call, on whatever thread it runs; `Start` is for the one
that has constructed the base loop. -/
def isApi : Call → Bool
  | .send c message => c < s.nextObj && message.length ≤ Buffer.maxSize
  | .shutdown c | .close c | .setWriteComplete c _ | .destroy c => c < s.nextObj
  | .inputBuffer c _ => c < s.nextObj && me = .loop (own s c)
  | .runInLoop i cb | .queueInLoop i cb | .addTimer i cb _ => constructed s i && cb = .user
  | .start => isInLoopThread me s 0
  | _ => false

/-- A thread of the pool exists once it has been started, and `StartLoop` waits
until the loop has been constructed. -/
def possible : Call → Bool
  | .threadFunc i => i ≤ s.spawned
  | .startLoop i => constructed s i
  | .loop i => k.active.all (reported s i)
  | .timerRead i => k.expired.Subperm (s.loops i).timers
  | .handleWrite c => TcpServer.accepts (s.conns c).output.readableBytes k.wr
  | .sendInLoop _ _ message => TcpServer.accepts message.length k.wr
  | .user => k.api.all (isApi me s)
  | _ => true

/-! ### What a call does -/

/-- The callbacks that are set: only the channel of a connection has all four. -/
def Ptr.callback (i : LoopId) : Ptr → Channel.Callback → Option Call
  | .conn c, .close => some (.handleClose c)
  | .conn c, .error => some (.handleError c)
  | .conn c, .read => some (.handleRead c)
  | .conn c, .write => some (.handleWrite c)
  | .timerfd, .read => some (.timerRead i)
  | .wakeup, .read => some (.wakeupRead i)
  | .accept, .read => some .acceptRead
  | _, _ => none

/-- `FillActiveChannels` finds the channel in `channels_`. -/
def filled (i : LoopId) : Ptr × EventMask → Bool
  | (.conn c, _) => (s.loops i).poller.channels (s.conns c).channel.fd = some c
  | _ => true

/-- The same for what a channel belongs to; the acceptor and the loops' own descriptors exist
throughout. -/
def touchPtr : Ptr → Except Fault Unit
  | .conn c => touch s c .handleEvent
  | _ => .ok ()

/-- The method `GetNextLoop`: the loop, and `next_` after the call. -/
def getNextLoop : LoopId × ℕ :=
  match s.pool with
  | [] => (0, s.next)
  | _ => (s.pool.getD s.next 0, if s.pool.length ≤ s.next + 1 then 0 else s.next + 1)

/-- `NewConnection` up to `RunInLoop`. -/
def addConnection (fd : ℕ) : State :=
  let id := s.nextConnId + 1
  let name := TcpServer.connName cfg id
  let (ioLoop, next) := getNextLoop s
  { s with
    conns := Function.update s.conns s.nextObj (.new ioLoop name fd cfg.writeComplete)
    nextObj := s.nextObj + 1
    connections := Function.update s.connections name (some s.nextObj)
    nextConnId := id
    next := next }

/-- The method `HandleRead`, and the calls that it goes on to. -/
def handleRead (c : ConnId) : Except Fault (State × List Call) := do
  touch s c .handleEvent
  match (s.conns c).input.readFd k.readv with
  | .error f => .error (.buffer f)
  | .ok (input, n) =>
    let s' := setConn s c fun conn => { conn with input := input }
    return (s', if 0 < n then [.user] else if n = 0 then [.handleClose c] else [.handleError c])

/-- `connections_.erase`, with the assertion about it. -/
def eraseConnection (c : ConnId) : Except Fault State :=
  let name := (s.conns c).name
  if (s.connections name).isSome then
    .ok { s with connections := Function.update s.connections name none }
  else .error (.assertion .removeConnection)

/-- A method of a connection that calls nothing in turn but what is given. -/
def methodThen (c : ConnId) (site : Access) (g : Local → Except Fault Local) (calls : List Call) :
    Except Fault (State × List Call) := do
  let s' ← method s c site g
  return (s', calls)

/-- The state after a call, and the calls that it leaves to its thread. -/
def effect : Call → Except Fault (State × List Call)
  | .main => .ok (construct me s 0,
      [.enableReading 0 .timerfd, .enableReading 0 .wakeup, .user, .loop 0])
  | .threadFunc i => .ok (construct me s i,
      [.enableReading i .timerfd, .enableReading i .wakeup, .loop i])
  | .enableReading i p => .ok (setLoop s i fun l => { l with channels := l.channels ++ [p] }, [])
  | .loop i =>
    if k.quit then .ok (s, [])
    else if k.active.all (filled s i) then
      .ok (s, k.active.map (fun (p, revents) => .handleEvent i p revents) ++
        [.doPendingFunctors i, .loop i])
    else .error (.epoller .fillActive)
  | .handleEvent i p revents => do
    touchPtr s p
    return (s, (Channel.handleEvent revents).filterMap (p.callback i))
  | .doPendingFunctors i =>
    .ok (setLoop s i fun l => { l with pending := [] }, (s.loops i).pending)
  | .runInLoop i cb => .ok (s, if isInLoopThread me s i then [cb] else [.queueInLoop i cb])
  | .queueInLoop i cb => .ok (push s i cb, [])
  | .wakeupRead _ => .ok (s, [])
  | .addTimer i cb repeats => .ok (s, [.runInLoop i (.addTimerInLoop i cb repeats)])
  | .addTimerInLoop i cb repeats => .ok (insertTimer s i cb repeats, [])
  | .timerRead i =>
    .ok (setLoop s i fun l => { l with timers := l.timers.diff k.expired },
      k.expired.map Prod.fst ++
        (k.expired.filter Prod.snd).map fun (cb, _) => .restart i cb)
  | .restart i cb => .ok (insertTimer s i cb true, [])
  | .start =>
    if s.started then .ok (s, [.startListening])
    else .ok ({ s with started := true },
      (List.range cfg.numThreads).flatMap (fun i => [.startThread (i + 1), .startLoop (i + 1)]) ++
        [.startListening])
  | .startThread i => .ok ({ s with spawned := i }, [])
  | .startLoop i => .ok ({ s with pool := s.pool ++ [i] }, [])
  | .startListening => .ok (s, if s.listenning then [] else [.runInLoop 0 .listen])
  | .listen => .ok ({ s with listenning := true }, [.enableReading 0 .accept])
  | .acceptRead => .ok (s, match k.accepted with
    | some fd => [.newConnection fd]
    | none => [])
  | .newConnection fd =>
    .ok (addConnection cfg s fd, [.runInLoop (getNextLoop s).1 (.connEstablished s.nextObj)])
  | .removeConnection c => .ok (s, [.runInLoop 0 (.removeConnectionInLoop c)])
  | .removeConnectionInLoop c => do
    let s' ← eraseConnection s c
    return (s', [.queueInLoop (own s c) (.connDestroyed c)])
  | .connEstablished c => methodThen s c .functor (Local.connEstablished c) [.user]
  | .connDestroyed c => methodThen s c .functor (Local.connDestroyed c) [.user, .removeChannel c]
  | .removeChannel c => methodThen s c .functor (Local.removeChannel c) []
  | .handleRead c => handleRead k s c
  | .handleWrite c => methodThen s c .handleEvent (Local.handleWrite c k.wr) []
  | .handleClose c => methodThen s c .handleEvent (Local.handleClose c) [.removeConnection c]
  | .handleError _ => .ok (s, [])
  | .send c message => .ok (s,
      if (s.conns c).state = .connected then
        if isInLoopThread me s (own s c) then [.sendInLoop c me message]
        else [.runInLoop (own s c) (.sendInLoop c me message)]
      else [])
  | .sendInLoop c sender message =>
    methodThen s c .functor (Local.sendInLoop c sender message k.wr) []
  | .shutdown c => .ok (s,
      if (s.conns c).state = .connected then
        [.setDisconnecting c, .runInLoop (own s c) (.shutdownInLoop c)]
      else [])
  | .setDisconnecting c => .ok (setConn s c fun conn => { conn with state := .disconnecting }, [])
  | .shutdownInLoop c => methodThen s c .functor (fun l => .ok l.shutdownInLoop) []
  | .close c => .ok (s, [.addTimer (own s c) (.handleClose c) false])
  | .setWriteComplete c on => .ok (setConn s c fun conn => { conn with writeComplete := on }, [])
  | .inputBuffer c u => match u.exec (s.conns c).input with
    | .ok input => .ok (setConn s c fun conn => { conn with input := input }, [])
    | .error f => .error (.buffer f)
  | .destroy c =>
    let s' := setConn s c fun conn => { conn with alive := false }
    .ok (setLoop s' (own s c) fun l => { l with poller := l.poller.close (s.conns c).channel.fd },
      [])
  | .user => .ok (s, match k.api with
    | some call => [call, .user]
    | none => [])

/-- A fault ends the run; what led to it has been executed. -/
def exec (call : Call) : Option (State × List Call) :=
  if s.fault.isNone && possible me k s call then
    let s' := record me s (executed k s call)
    match effect cfg me k s' call with
    | .ok r => some r
    | .error f => some ({ s' with fault := some f }, [])
  else none

/-- A thread makes the call on top of its stack. -/
def step : CallStack Caller Call State → Caller × Choice → Option (CallStack Caller Call State) :=
  CallStack.step (exec cfg)

/-- A thread of the pool has nothing but `ThreadFunc`, and one of the user nothing
but the user's code. -/
def init : CallStack Caller Call State where
  data := .init
  stack
    | .loop 0 => [.main]
    | .loop i => if i ≤ cfg.numThreads then [.threadFunc i] else []
    | .user t => if t < cfg.numUsers then [.user] else []

end Threads
end Bbkgl
