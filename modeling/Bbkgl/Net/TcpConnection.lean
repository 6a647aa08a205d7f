import Bbkgl.Net.Buffer
import Bbkgl.Net.Epoller

/-!
# TcpConnection

The object and its methods. A method runs on the thread of the connection's
loop and touches the object, the poller of that loop and its queue of functors:
these three make a `Local`. Calls from other threads, and what goes through the
server, are in `TcpServer`.
-/

set_option autoImplicit false

namespace Bbkgl

open CS.Fallible

/-- Loop 0 is the base loop. -/
abbrev LoopId := ℕ

/-- The address of a TcpConnection object. -/
abbrev ConnId := ℕ

/-- A thread: the one that runs a loop, or one of the user's. -/
inductive Caller
  | loop (i : LoopId)
  | user (t : ℕ)
  deriving DecidableEq, Repr

/-- What is queued on a loop. `sender` is history. -/
inductive Functor
  | connEstablished (c : ConnId)
  | connDestroyed (c : ConnId)
  | removeConnectionInLoop (c : ConnId)
  /-- `write_complete__callback_`, bound to the connection -/
  | writeComplete (c : ConnId)
  | sendInLoop (c : ConnId) (sender : Caller) (message : Bytes)
  | shutdownInLoop (c : ConnId)
  /-- `AddTimerInLoop` of a timer that will call `HandleClose` -/
  | addTimerInLoop (c : ConnId)
  | user
  deriving DecidableEq, Repr

/-- The connection that a functor holds by a shared pointer. The others hold a
bare `this`. -/
def Functor.owns : Functor → Option ConnId
  | connEstablished c | connDestroyed c | removeConnectionInLoop c | writeComplete c => some c
  | sendInLoop _ _ _ | shutdownInLoop _ | addTimerInLoop _ | user => none

/-- The states of the connection, under their names in `StateE`. -/
inductive StateE
  | connecting
  | connected
  | disconnecting
  | disconnected
  deriving DecidableEq, Repr

/-- What has happened to a connection so far. -/
inductive ConnEvent
  /-- the user's connection callback, from `ConnEstablished` -/
  | up
  /-- the user's connection callback, from `ConnDestroyed` -/
  | down
  /-- `HandleClose` -/
  | closed
  /-- `RemoveConnectionInLoop` -/
  | removed
  /-- `ConnDestroyed` -/
  | destroyed
  /-- a call of `Send` that found `k_connected` -/
  | sent (who : Caller) (message : Bytes)
  /-- `SendInLoop` -/
  | executed (who : Caller) (message : Bytes)
  /-- `write()`, with the bytes it accepted -/
  | write (accepted : Bytes)
  /-- `shutdown(SHUT_WR)` -/
  | halfClosed
  deriving DecidableEq, Repr

/-- What `write()` returns; `none` is -1. -/
abbrev WriteResult := Option ℕ

/-- `writeComplete` says whether `write_complete__callback_` is set. The last
four fields are not the object's own: whether it still exists, how many copies
of its pointer user code holds, how many timers of `Close` are pending, and what
has happened to it. -/
structure TcpConnection where
  loop : LoopId
  name : String
  state : StateE
  channel : Channel
  input : Buffer
  output : Buffer
  writeComplete : Bool
  alive : Bool
  refs : ℕ
  closeTimers : ℕ
  log : List ConnEvent

namespace TcpConnection

/-- The constructor, and the callbacks that `TcpServer` sets next. -/
def new (loop : LoopId) (name : String) (fd : ℕ) (writeComplete : Bool) : TcpConnection where
  loop := loop
  name := name
  state := .connecting
  channel := .new fd
  input := .new
  output := .new
  writeComplete := writeComplete
  alive := true
  refs := 0
  closeTimers := 0
  log := []

/-- The assertions of the connection, of the server and of the channel's destructor. -/
inductive Assertion
  /-- `state_ == k_connecting` in `ConnEstablished` -/
  | connEstablished
  /-- `state_ == k_connected || state_ == k_disconnecting` in `ConnDestroyed` -/
  | connDestroyed
  /-- the same in `HandleClose` -/
  | handleClose
  /-- `n == 1` in `TcpServer::RemoveConnectionInLoop` -/
  | removeConnection
  /-- `!event_handling_` in `~Channel` -/
  | channelDestroyed
  deriving DecidableEq, Repr

/-- Where an object that no longer exists is used. -/
inductive Access
  | handleEvent
  | closeTimer
  | functor
  deriving DecidableEq, Repr

/-- What ends a method before its end; an exception that may leave any call is not among these. -/
inductive Fault
  | buffer (f : Buffer.Fault)
  | epoller (a : Epoller.Assertion)
  | assertion (a : Assertion)
  | useAfterFree (a : Access)
  deriving DecidableEq, Repr

/-- What a method works on; `queued` are the functors it has queued on its loop. -/
structure Local where
  conn : TcpConnection
  poller : Epoller ConnId
  queued : List Functor

/-- An assertion of the source: the call goes on only if `c` holds. -/
def assert (c : Bool) (a : Assertion) : Except Fault Unit := check c (.assertion a)

/-- `state_ == k_connected || state_ == k_disconnecting` -/
def isUp (conn : TcpConnection) : Bool :=
  conn.state = .connected || conn.state = .disconnecting

namespace Local

/-- One more event in the history. -/
def record (l : Local) (e : ConnEvent) : Local :=
  { l with conn.log := l.conn.log ++ [e] }

/-- The method `SetState`. -/
def setState (l : Local) (state : StateE) : Local := { l with conn.state := state }

/-- A change of `events_`, with the `Update()` that follows it. -/
def update (c : ConnId) (ch : Channel) (l : Local) : Except Fault Local :=
  match l.poller.updateChannel c ch with
  | .ok (poller, ch') => .ok { l with conn.channel := ch', poller := poller }
  | .error a => .error (.epoller a)

/-- A method of the output buffer: `Append`. -/
def append (data : Bytes) (l : Local) : Except Fault Local :=
  match l.conn.output.append data with
  | .ok output => .ok { l with conn.output := output }
  | .error f => .error (.buffer f)

/-- A method of the output buffer: `Retrieve`. -/
def retrieve (len : ℕ) (l : Local) : Except Fault Local :=
  match l.conn.output.retrieve len with
  | .ok output => .ok { l with conn.output := output }
  | .error f => .error (.buffer f)

/-- `SendInLoop` writes to the socket itself. -/
def writesDirectly (conn : TcpConnection) : Bool :=
  !conn.channel.isWriting && conn.output.readableBytes = 0

/-- `nwrote`, once `SendInLoop` is past its `write()`. -/
def nwrote (conn : TcpConnection) (wr : WriteResult) : ℕ :=
  if writesDirectly conn then wr.getD 0 else 0

/-- `QueueInLoop` of the write-complete callback. -/
def queueWriteComplete (c : ConnId) (l : Local) : Local :=
  { l with queued := l.queued ++ [.writeComplete c] }

/-- `SendInLoop` up to `assert(nwrote >= 0)`. -/
def tryWrite (c : ConnId) (who : Caller) (message : Bytes) (wr : WriteResult) (l : Local) : Local :=
  let n := nwrote l.conn wr
  let direct := writesDirectly l.conn
  let l := l.record (.executed who message)
  let l := if direct then l.record (.write (message.take n)) else l
  if direct && wr.isSome && !(n < message.length) && l.conn.writeComplete then
    { l.queueWriteComplete c with conn.writeComplete := false }
  else l

/-- The rest of `SendInLoop`, for the bytes that were not accepted. -/
def keepRest (c : ConnId) (rest : Bytes) (l : Local) : Except Fault Local := do
  let l ← l.append rest
  if !l.conn.channel.isWriting then l.update c l.conn.channel.enableWriting else return l

/-- The method `SendInLoop`: a direct write when nothing is waiting, and the rest stored. -/
def sendInLoop (c : ConnId) (who : Caller) (message : Bytes) (wr : WriteResult) (l : Local) :
    Except Fault Local :=
  let n := nwrote l.conn wr
  let l := l.tryWrite c who message wr
  if n < message.length then l.keepRest c (message.drop n) else .ok l

/-- The method `ShutdownInLoop`: the half-close, if the channel does not write. -/
def shutdownInLoop (l : Local) : Local :=
  if !l.conn.channel.isWriting then l.record .halfClosed else l

/-- What `HandleWrite` offers to `write()`. -/
def offered (conn : TcpConnection) : Bytes :=
  CS.Region.slice conn.output.buffer conn.output.peek conn.output.readableBytes

/-- `HandleWrite` with all of the output buffer written. -/
def drained (c : ConnId) (l : Local) : Except Fault Local := do
  let l ← l.update c l.conn.channel.disableWriting
  let l := if l.conn.writeComplete then l.queueWriteComplete c else l
  return if l.conn.state = .disconnecting then l.shutdownInLoop else l

/-- The method `HandleWrite`: one `write()` of the output buffer, unless the channel does not
write any more. -/
def handleWrite (c : ConnId) (wr : WriteResult) (l : Local) : Except Fault Local :=
  if l.conn.channel.isWriting then
    let n := wr.getD 0
    let l := l.record (.write ((offered l.conn).take n))
    if 0 < n then do
      let l ← l.retrieve n
      if l.conn.output.readableBytes = 0 then l.drained c else return l
    else .ok l
  else .ok l

/-- `ConnEstablished` up to the user's callback. -/
def connEstablished (c : ConnId) (l : Local) : Except Fault Local := do
  assert (l.conn.state = .connecting) .connEstablished
  let l := l.setState .connected
  let l ← l.update c l.conn.channel.enableReading
  return l.record .up

/-- `ConnDestroyed` up to the user's callback. -/
def connDestroyed (c : ConnId) (l : Local) : Except Fault Local := do
  assert l.conn.isUp .connDestroyed
  let l := l.setState .disconnected
  let l ← l.update c l.conn.channel.disableAll
  return (l.record .destroyed).record .down

/-- The rest of `ConnDestroyed`. -/
def removeChannel (c : ConnId) (l : Local) : Except Fault Local :=
  match l.poller.removeChannel c l.conn.channel with
  | .ok (poller, ch) => .ok { l with conn.channel := ch, poller := poller }
  | .error a => .error (.epoller a)

/-- `HandleClose` up to `close_callback_`. -/
def handleClose (c : ConnId) (l : Local) : Except Fault Local := do
  assert l.conn.isUp .handleClose
  let l ← l.update c l.conn.channel.disableAll
  return l.record .closed

end Local
end TcpConnection
end Bbkgl
