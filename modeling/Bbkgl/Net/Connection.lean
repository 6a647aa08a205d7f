import Mathlib.Data.List.Count
import Mathlib.Logic.Function.Basic
import Bbkgl.CS.Transition
import Bbkgl.Net.TcpConnection

/-!
# The life of one connection

What happens to a connection, taken alone: an abstract machine whose inputs are
the steps that concern it, wherever in the server they are taken. The output
buffer is a byte string, the interest of the channel two flags, and of the
queues only what is about this connection is left. `Tokens` is the bookkeeping
of the hops between the loops that establish, remove and destroy it.
-/

set_option autoImplicit false

namespace Bbkgl

open CS.Transition

/-- A functor on the queue of the connection's loop. -/
inductive Task
  | establish
  | destroy
  | send (who : Caller) (message : Bytes)
  | shutdown
  deriving DecidableEq, Repr

/-- A call from another thread that is under way. -/
inductive Pending
  | send (message : Bytes)
  | shutdownChecked
  | shutdownSet
  deriving DecidableEq, Repr

/-- `owner` is the thread of the connection's loop, `removals` counts the queued
`RemoveConnectionInLoop`s, and `inMap` says that `connections_` still maps the
name of the connection to it. -/
@[ext] structure Connection where
  owner : Caller
  state : StateE
  reading : Bool
  writing : Bool
  backlog : Bytes
  log : List ConnEvent
  tasks : List Task
  removals : ℕ
  inMap : Bool
  calls : Caller → Option Pending
  alive : Bool

namespace Connection

/-- As `NewConnection` makes it. `ConnEstablished` is still to be run. -/
def init (owner : Caller) : Connection where
  owner := owner
  state := .connecting
  reading := false
  writing := false
  backlog := []
  log := []
  tasks := [.establish]
  removals := 0
  inMap := true
  calls := fun _ => none
  alive := true

/-- What can happen to a connection, each of them at one point of time. -/
inductive Action
  | establish
  | close
  | remove
  /-- the entry in `connections_` is taken by another connection of that name -/
  | evict
  | destroy
  | die
  | callSend (who : Caller) (message : Bytes)
  | pushSend (who : Caller)
  | runSend (wr : WriteResult)
  | sendDirect (who : Caller) (message : Bytes) (wr : WriteResult)
  | callShutdown (who : Caller)
  | setDisconnecting (who : Caller)
  | pushShutdown (who : Caller)
  | runShutdown
  | shutdownDirect
  | handleWrite (wr : WriteResult)
  deriving DecidableEq, Repr

/-- The test of `HandleClose` and `ConnDestroyed` on the state. -/
def isUp (v : Connection) : Bool := v.state = .connected || v.state = .disconnecting

/-- One more event in the history. -/
def record (v : Connection) (e : ConnEvent) : Connection := { v with log := v.log ++ [e] }

/-- The test by which `SendInLoop` tries `write()` first. -/
def writesDirectly (v : Connection) : Bool := !v.writing && v.backlog.isEmpty

/-- The bytes that a direct write has taken; none if it fails. -/
def nwrote (v : Connection) (wr : WriteResult) : ℕ := if v.writesDirectly then wr.getD 0 else 0

/-- The message is written as far as `write()` takes it, and the rest stored. -/
def sendInLoop (v : Connection) (who : Caller) (message : Bytes) (wr : WriteResult) : Connection :=
  { v with
    log := v.log ++ .executed who message ::
      if v.writesDirectly then [.write (message.take (v.nwrote wr))] else []
    backlog := v.backlog ++ message.drop (v.nwrote wr)
    writing := v.writing || v.nwrote wr < message.length }

/-- The half-close, unless the backlog is still to be written. -/
def shutdownInLoop (v : Connection) : Connection :=
  if v.writing then v else v.record .halfClosed

/-- `HandleWrite`, once `write()` has accepted `n` bytes. -/
def written (v : Connection) (n : ℕ) : Connection :=
  { v with log := v.log ++ [.write (v.backlog.take n)], backlog := v.backlog.drop n }

/-- `write()` accepts all that is left. -/
def empties (v : Connection) (wr : WriteResult) : Bool :=
  0 < wr.getD 0 && (v.backlog.drop (wr.getD 0)).isEmpty

/-- One `write()` of the backlog, and the pending half-close once it is gone. -/
def handleWrite (v : Connection) (wr : WriteResult) : Connection :=
  if v.writing then
    if v.empties wr then
      let v' := { v.written (wr.getD 0) with writing := false }
      if v.state = .disconnecting then v'.shutdownInLoop else v'
    else v.written (wr.getD 0)
  else v

/-- A thread's call of `Send` or `Shutdown` is at another point. -/
def setCall (v : Connection) (who : Caller) (call : Option Pending) : Connection :=
  { v with calls := Function.update v.calls who call }

/-- Without its first task. -/
def popTask (v : Connection) : Connection := { v with tasks := v.tasks.tail }

/-- When an action can be taken. -/
def guard (v : Connection) : Action → Bool
  | .establish => v.tasks.head? = some .establish && v.state = .connecting
  | .close => v.isUp && v.alive
  | .remove => 0 < v.removals
  | .evict => true
  | .destroy => v.tasks.head? = some .destroy && v.isUp
  | .die => !v.inMap && v.removals = 0 && v.tasks.count .establish = 0 && v.tasks.count .destroy = 0
  | .callSend who _ | .callShutdown who =>
    v.state = .connected && who ≠ v.owner && (v.calls who).isNone
  | .pushSend who => match v.calls who with
    | some (.send _) => true
    | _ => false
  | .runSend _ => match v.tasks with
    | .send _ _ :: _ => true
    | _ => false
  | .sendDirect who _ _ => v.state = .connected && who = v.owner
  | .setDisconnecting who => v.calls who = some .shutdownChecked
  | .pushShutdown who => v.calls who = some .shutdownSet
  | .runShutdown => v.tasks.head? = some .shutdown
  | .shutdownDirect => v.state = .connected
  | .handleWrite _ => true

/-- What an action does. -/
def effect (v : Connection) : Action → Connection
  | .establish =>
    { (v.popTask.record .up) with state := .connected, reading := true }
  | .close =>
    { v.record .closed with reading := false, writing := false, removals := v.removals + 1 }
  | .remove =>
    { v.record .removed with
      removals := v.removals - 1, inMap := false, tasks := v.tasks ++ [.destroy] }
  | .evict => { v with inMap := false }
  | .destroy =>
    { (v.popTask.record .destroyed).record .down with
      state := .disconnected, reading := false, writing := false }
  | .die => { v with alive := false }
  | .callSend who message => (v.record (.sent who message)).setCall who (some (.send message))
  | .pushSend who => match v.calls who with
    | some (.send message) =>
      { v.setCall who none with tasks := v.tasks ++ [.send who message] }
    | _ => v
  | .runSend wr => match v.tasks with
    | .send who message :: _ => v.popTask.sendInLoop who message wr
    | _ => v
  | .sendDirect who message wr => (v.record (.sent who message)).sendInLoop who message wr
  | .callShutdown who => v.setCall who (some .shutdownChecked)
  | .setDisconnecting who => { v.setCall who (some .shutdownSet) with state := .disconnecting }
  | .pushShutdown who => { v.setCall who none with tasks := v.tasks ++ [.shutdown] }
  | .runShutdown => v.popTask.shutdownInLoop
  | .shutdownDirect => { v with state := .disconnecting }.shutdownInLoop
  | .handleWrite wr => v.handleWrite wr

/-- One step in the life of a connection. -/
def step : Connection → Action → Option Connection := guarded guard effect

variable {v v' : Connection} {a : Action}

/-! ### What sending leaves alone -/

/-- `v'` differs from `v` in its backlog, its interest in writing and its log,
and the log has only grown by events of the stream. -/
structure Streamed (v v' : Connection) : Prop where
  owner : v'.owner = v.owner
  state : v'.state = v.state
  reading : v'.reading = v.reading
  tasks : v'.tasks = v.tasks
  removals : v'.removals = v.removals
  inMap : v'.inMap = v.inMap
  calls : v'.calls = v.calls
  alive : v'.alive = v.alive
  log : ∃ es, v'.log = v.log ++ es ∧ ∀ e ∈ es,
    e ≠ .up ∧ e ≠ .down ∧ e ≠ .closed ∧ e ≠ .removed ∧ e ≠ .destroyed

namespace Streamed

theorem rfl : Streamed v v :=
  ⟨.refl _, .refl _, .refl _, .refl _, .refl _, .refl _, .refl _, .refl _, [], by simp⟩

theorem trans {w : Connection} (h : Streamed v v') (h' : Streamed v' w) : Streamed v w where
  owner := h'.owner.trans h.owner
  state := h'.state.trans h.state
  reading := h'.reading.trans h.reading
  tasks := h'.tasks.trans h.tasks
  removals := h'.removals.trans h.removals
  inMap := h'.inMap.trans h.inMap
  calls := h'.calls.trans h.calls
  alive := h'.alive.trans h.alive
  log := by
    obtain ⟨es, hes, hall⟩ := h.log
    obtain ⟨es', hes', hall'⟩ := h'.log
    refine ⟨es ++ es', by rw [hes', hes, List.append_assoc], fun e he => ?_⟩
    rcases List.mem_append.mp he with he | he
    · exact hall e he
    · exact hall' e he

/-- The log has grown by `es`, which are events of the stream. -/
theorem grow (es : List ConnEvent) (backlog : Bytes) (writing : Bool)
    (hes : ∀ e ∈ es, e ≠ .up ∧ e ≠ .down ∧ e ≠ .closed ∧ e ≠ .removed ∧ e ≠ .destroyed) :
    Streamed v { v with log := v.log ++ es, backlog := backlog, writing := writing } :=
  ⟨.refl _, .refl _, .refl _, .refl _, .refl _, .refl _, .refl _, .refl _, es, .refl _, hes⟩

/-- A `Send` that is only noted. -/
theorem sent {who : Caller} {message : Bytes} : Streamed v (v.record (.sent who message)) :=
  grow [.sent who message] v.backlog v.writing (by simp)

theorem sendInLoop {who : Caller} {message : Bytes} {wr : WriteResult} :
    Streamed v (v.sendInLoop who message wr) := by
  apply grow _ _ _
  intro e he
  rcases List.mem_cons.mp he with hexec | hwrite
  · simp [hexec]
  · split at hwrite
    · simp [List.mem_singleton.mp hwrite]
    · exact absurd hwrite List.not_mem_nil

theorem shutdownInLoop : Streamed v v.shutdownInLoop := by
  rw [Connection.shutdownInLoop]
  split
  · exact rfl
  · exact grow [.halfClosed] v.backlog v.writing (by simp)

theorem handleWrite {wr : WriteResult} : Streamed v (v.handleWrite wr) := by
  have hwritten : ∀ n writing, Streamed v { v.written n with writing := writing } :=
    fun n writing =>
    grow [.write (v.backlog.take n)] (v.backlog.drop n) writing (by simp)
  rw [Connection.handleWrite]
  split
  · split
    · simp only
      split
      · exact (hwritten _ false).trans shutdownInLoop
      · exact hwritten _ false
    · exact hwritten _ v.writing
  · exact rfl

/-- The events of the connection's life are as many as before. -/
theorem count (h : Streamed v v') {e : ConnEvent}
    (he : e = .up ∨ e = .down ∨ e = .closed ∨ e = .removed ∨ e = .destroyed) :
    v'.log.count e = v.log.count e := by
  obtain ⟨es, hes, hall⟩ := h.log
  rw [hes, List.count_append, Nat.add_eq_left]
  apply List.count_eq_zero.mpr
  intro hmem
  have := hall e hmem
  rcases he with rfl | rfl | rfl | rfl | rfl <;> simp at this

end Streamed

end Connection
end Bbkgl
