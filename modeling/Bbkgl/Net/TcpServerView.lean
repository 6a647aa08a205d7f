import Bbkgl.Net.TcpConnectionRefines
import Bbkgl.Net.TcpServer

/-!
# What a connection sees of the server

`view s c` is the state of the abstract machine that belongs to the connection
`c` in the server state `s`. The lemmas say what each elementary change of the
server state does to it, so that the steps of the server need not be unfolded
further than to these.
-/

set_option autoImplicit false

namespace Bbkgl
namespace TcpServer

open CS TcpConnection

/-- The functor as a task of the connection `c`, if it is one. -/
def taskOf (c : ConnId) : Functor → Option Task
  | .connEstablished d => if d = c then some .establish else none
  | .connDestroyed d => if d = c then some .destroy else none
  | .sendInLoop d who message => if d = c then some (.send who message) else none
  | .shutdownInLoop d => if d = c then some .shutdown else none
  | .removeConnectionInLoop _ | .writeComplete _ | .addTimerInLoop _ | .user => none

/-- The call as one on the connection `c`, if it is one. -/
def pendingOf (c : ConnId) : Call → Option Pending
  | .send d message => if d = c then some (.send message) else none
  | .shutdownChecked d => if d = c then some .shutdownChecked else none
  | .shutdownSet d => if d = c then some .shutdownSet else none

/-- What is queued on a loop and not executed yet. -/
def todo (s : State) (i : LoopId) : List Functor := (s.loops i).functors.todo

/-- What the server's state holds of one connection. -/
def view (s : State) (c : ConnId) : Connection where
  owner := .loop (own s c)
  state := (s.conns c).state
  reading := (s.conns c).channel.isReading
  writing := (s.conns c).channel.isWriting
  backlog := (s.conns c).output.readable
  log := (s.conns c).log
  tasks := (todo s (own s c)).filterMap (taskOf c)
  removals := (todo s 0).count (.removeConnectionInLoop c)
  inMap := s.connections (s.conns c).name = some c
  calls := fun who => (s.calls who).bind (pendingOf c)
  alive := (s.conns c).alive

variable {s s' : State} {i : LoopId} {c d : ConnId} {conn : TcpConnection} {f : Functor}
  {l : Local} {g : Connection → Connection} {who : Caller}

theorem core_view : core (view s c) (s.conns c) = view s c := rfl

/-! ### Loops -/

theorem loops_setLoop {h : Loop → Loop} {j : LoopId} :
    (setLoop s i h).loops j = if j = i then h (s.loops i) else s.loops j := by
  simp [setLoop, Function.update_apply]

theorem todo_setLoop {h : Loop → Loop}
    (htodo : (h (s.loops i)).functors.todo = (s.loops i).functors.todo) (j : LoopId) :
    todo (setLoop s i h) j = todo s j := by
  rw [todo, todo, loops_setLoop]
  split
  · next hj => rw [hj, htodo]
  · rfl

theorem todo_push {j : LoopId} :
    todo (push s i f) j = if j = i then todo s j ++ [f] else todo s j := by
  rw [todo, todo, push, setFunctors, loops_setLoop]
  split
  · next hj => rw [hj, Mailbox.todo_push]
  · rfl

/-- Nothing has happened that the connection can see. -/
theorem view_congr (hconn : s'.conns c = s.conns c) (htodo : ∀ i, todo s' i = todo s i)
    (hconnections : s'.connections = s.connections) (hcalls : s'.calls = s.calls) :
    view s' c = view s c := by
  simp only [view, own, hconn, htodo, hconnections, hcalls]

theorem view_setLoop {h : Loop → Loop}
    (htodo : (h (s.loops i)).functors.todo = (s.loops i).functors.todo) :
    view (setLoop s i h) c = view s c :=
  view_congr rfl (todo_setLoop htodo) rfl rfl

/-- A functor that the connection does not see. -/
theorem view_push_of_none (htask : taskOf c f = none) (hremove : f ≠ .removeConnectionInLoop c) :
    view (push s i f) c = view s c := by
  have htasks : ∀ j, (todo (push s i f) j).filterMap (taskOf c) =
      (todo s j).filterMap (taskOf c) := fun j => by
    rw [todo_push]
    split <;> simp [htask]
  have hcount : (todo (push s i f) 0).count (.removeConnectionInLoop c) =
      (todo s 0).count (.removeConnectionInLoop c) := by
    rw [todo_push]
    split <;> simp [hremove]
  have hother : view (push s i f) c = { view s c with
      tasks := (todo (push s i f) (own s c)).filterMap (taskOf c)
      removals := (todo (push s i f) 0).count (.removeConnectionInLoop c) } := rfl
  rw [hother, htasks, hcount]
  rfl

theorem view_push_task {t : Task} (htask : taskOf c f = some t) :
    view (push s (own s c) f) c = { view s c with tasks := (view s c).tasks ++ [t] } := by
  have hremove : f ≠ .removeConnectionInLoop c := fun h => by simp [h, taskOf] at htask
  have hother : view (push s (own s c) f) c = { view s c with
      tasks := (todo (push s (own s c) f) (own s c)).filterMap (taskOf c)
      removals := (todo (push s (own s c) f) 0).count (.removeConnectionInLoop c) } := rfl
  rw [hother, todo_push, todo_push, if_pos rfl, List.filterMap_append]
  split
  -- the connection's loop is the base loop, whose queue holds the removals too
  · rw [List.count_append]
    simp [htask, hremove, view]
  · simp [htask, view]

theorem view_push_removal :
    view (push s 0 (.removeConnectionInLoop c)) c =
      { view s c with removals := (view s c).removals + 1 } := by
  have hother : view (push s 0 (.removeConnectionInLoop c)) c = { view s c with
      tasks := (todo (push s 0 (.removeConnectionInLoop c)) (own s c)).filterMap (taskOf c)
      removals := (todo (push s 0 (.removeConnectionInLoop c)) 0).count
        (.removeConnectionInLoop c) } := rfl
  rw [hother, todo_push, todo_push, if_pos rfl, List.count_append]
  split
  · simp [view, taskOf]
  · simp [view]

/-- The functor at the head of the queue of loop `i` is taken out. -/
theorem todo_advance {fs : List Functor} (hrest : (s.loops i).functors.rest = f :: fs)
    {j : LoopId} :
    todo s j = if j = i then f :: todo (setFunctors s i (s.loops i).functors.advance) j
      else todo (setFunctors s i (s.loops i).functors.advance) j := by
  rw [todo, todo, setFunctors, loops_setLoop]
  split
  · next hj => rw [hj, Mailbox.todo_advance hrest]
  · rfl

theorem mem_todo_of_rest {fs : List Functor} (hrest : (s.loops i).functors.rest = f :: fs) :
    f ∈ todo s i := by
  rw [todo, Mailbox.todo_advance hrest]
  exact List.mem_cons_self

/-- Taking out the head adds nothing to what is still to be executed. -/
theorem mem_todo_of_advance {fs : List Functor} (hrest : (s.loops i).functors.rest = f :: fs)
    {f' : Functor} (h : f' ∈ (s.loops i).functors.advance.todo) : f' ∈ todo s i := by
  rw [todo, Mailbox.todo_advance hrest]
  exact List.mem_cons_of_mem _ h

/-- The functor at the head is the first task, or a removal. -/
theorem view_advance {fs : List Functor} (hrest : (s.loops i).functors.rest = f :: fs) :
    view s c = { view (setFunctors s i (s.loops i).functors.advance) c with
      tasks := (if own s c = i then (taskOf c f).toList else []) ++
        (view (setFunctors s i (s.loops i).functors.advance) c).tasks
      removals := (view (setFunctors s i (s.loops i).functors.advance) c).removals +
        if 0 = i ∧ f = .removeConnectionInLoop c then 1 else 0 } := by
  have hown : own (setFunctors s i (s.loops i).functors.advance) c = own s c := rfl
  apply Connection.ext <;> try rfl
  · simp only [view, hown]
    rw [todo_advance hrest]
    split
    · rw [List.filterMap_cons]
      cases taskOf c f <;> rfl
    · rfl
  · simp only [view]
    rw [todo_advance hrest]
    split
    · next h0 => simp [List.count_cons, h0]
    · next h0 => simp [h0]

/-! ### The object -/

theorem conns_setConn {h : TcpConnection → TcpConnection} :
    (setConn s d h).conns c = if c = d then h (s.conns d) else s.conns c :=
  Function.update_apply _ _ _ _

/-- What a connection sees of a change of its own object. -/
theorem view_setConn_self {h : TcpConnection → TcpConnection}
    (hloop : (h (s.conns c)).loop = (s.conns c).loop)
    (hname : (h (s.conns c)).name = (s.conns c).name) :
    view (setConn s c h) c = core (view s c) (h (s.conns c)) := by
  have hconn : (setConn s c h).conns c = h (s.conns c) := by simp [setConn]
  have htodo : todo (setConn s c h) = todo s := rfl
  have hconnections : (setConn s c h).connections = s.connections := rfl
  have hcalls : (setConn s c h).calls = s.calls := rfl
  simp only [view, own, core, hconn, htodo, hconnections, hcalls, hloop, hname]

theorem view_setConn_of_ne {h : TcpConnection → TcpConnection} (hne : c ≠ d) :
    view (setConn s d h) c = view s c :=
  view_congr (Function.update_of_ne hne _ _) (fun _ => rfl) rfl rfl

/-- A change of the object that is not in its `core`. -/
theorem view_setConn {h : TcpConnection → TcpConnection}
    (hloop : (h (s.conns d)).loop = (s.conns d).loop)
    (hname : (h (s.conns d)).name = (s.conns d).name)
    (hcore : ∀ v, core v (h (s.conns d)) = core v (s.conns d)) :
    view (setConn s d h) c = view s c := by
  by_cases hc : c = d
  · subst hc
    rw [view_setConn_self hloop hname, hcore, core_view]
  · exact view_setConn_of_ne hc

/-! ### Calls and `connections_` -/

theorem view_setCall {call : Option Call} :
    view (setCall s who call) c = (view s c).setCall who (call.bind (pendingOf c)) := by
  apply Connection.ext <;> try rfl
  funext w
  by_cases hw : w = who
  · subst hw
    simp [view, setCall, Connection.setCall]
  · simp [view, setCall, Connection.setCall, hw]

theorem view_connections {connections : String → Option ConnId} :
    view { s with connections := connections } c =
      { view s c with inMap := connections (s.conns c).name = some c } := rfl

/-! ### A method -/

theorem foldl_push_todo {m : Mailbox Functor} {fs : List Functor} :
    (fs.foldl Mailbox.push m).todo = m.todo ++ fs := by
  induction fs generalizing m with
  | nil => simp
  | cons f fs ih => rw [List.foldl_cons, ih, Mailbox.todo_push, List.append_assoc]; rfl

theorem foldl_push_pending {m : Mailbox Functor} {fs : List Functor} :
    (fs.foldl Mailbox.push m).pending = m.pending ++ fs := by
  induction fs generalizing m with
  | nil => exact (List.append_nil _).symm
  | cons f fs ih => rw [List.foldl_cons, ih, Mailbox.push, List.append_assoc]; rfl

theorem foldl_push_rest {m : Mailbox Functor} {fs : List Functor} :
    (fs.foldl Mailbox.push m).rest = m.rest := by
  induction fs generalizing m with
  | nil => rfl
  | cons f fs ih => rw [List.foldl_cons, ih, Mailbox.rest_push]

theorem conns_putLocal : (putLocal s d l).conns c = if c = d then l.conn else s.conns c :=
  Function.update_apply _ _ _ _

theorem poller_putLocal : ((putLocal s d l).loops i).poller =
    if i = own s d then l.poller else (s.loops i).poller := by
  rw [putLocal]
  simp only [loops_setLoop]
  split
  · rfl
  · rfl

theorem phase_putLocal : ((putLocal s d l).loops i).phase = (s.loops i).phase ∧
    ((putLocal s d l).loops i).frame = (s.loops i).frame := by
  rw [putLocal]
  simp only [loops_setLoop]
  split
  · next h =>
    subst h
    exact ⟨rfl, rfl⟩
  · exact ⟨rfl, rfl⟩

/-- What a method queues comes last. -/
theorem todo_putLocal {j : LoopId} :
    todo (putLocal s c l) j = if j = own s c then todo s j ++ l.queued else todo s j := by
  rw [todo, todo, putLocal]
  simp only [loops_setLoop]
  split
  · next hj => rw [foldl_push_todo, hj]
  · rfl

/-- A write-complete callback is not a task of the connection. -/
theorem filterMap_taskOf_eq_nil {fs : List Functor} (hfs : ∀ f ∈ fs, f = .writeComplete d) :
    fs.filterMap (taskOf c) = [] := by
  apply List.filterMap_eq_nil_iff.mpr
  intro f hf
  rw [hfs f hf]
  rfl

theorem count_removal_eq_zero {fs : List Functor} (hfs : ∀ f ∈ fs, f = .writeComplete d) :
    fs.count (.removeConnectionInLoop c) = 0 :=
  List.count_eq_zero.mpr fun hmem => by simpa using hfs _ hmem

theorem view_putLocal (hacts : Local.Acts d (localOf s d) l g) :
    view (putLocal s d l) d = g (view s d) ∧
      ∀ c, c ≠ d → view (putLocal s d l) c = view s c := by
  obtain ⟨fs, hfs, hall⟩ := hacts.queued
  have hqueued : l.queued = fs := hfs
  have htasks : ∀ c j, (todo (putLocal s d l) j).filterMap (taskOf c) =
      (todo s j).filterMap (taskOf c) := fun c j => by
    rw [todo_putLocal, hqueued]
    split
    · rw [List.filterMap_append, filterMap_taskOf_eq_nil hall, List.append_nil]
    · rfl
  have hcount : ∀ c, (todo (putLocal s d l) 0).count (.removeConnectionInLoop c) =
      (todo s 0).count (.removeConnectionInLoop c) := fun c => by
    rw [todo_putLocal, hqueued]
    split
    · rw [List.count_append, count_removal_eq_zero hall, Nat.add_zero]
    · rfl
  have hconnections : (putLocal s d l).connections = s.connections := rfl
  have hcalls : (putLocal s d l).calls = s.calls := rfl
  constructor
  · have hconn : (putLocal s d l).conns d = l.conn := conns_putLocal.trans (if_pos rfl)
    have hcore := hacts.core (view s d)
    rw [show (localOf s d).conn = s.conns d from rfl, core_view] at hcore
    rw [← hcore]
    have hloop : l.conn.loop = (s.conns d).loop := hacts.same.loop
    have hname : l.conn.name = (s.conns d).name := hacts.same.name
    simp only [view, own, core, hconn, hconnections, hcalls, hcount, htasks, hloop, hname]
  · intro c hc
    have hconn : (putLocal s d l).conns c = s.conns c := conns_putLocal.trans (if_neg hc)
    simp only [view, own, hconn, hconnections, hcalls, hcount, htasks]

end TcpServer
end Bbkgl
