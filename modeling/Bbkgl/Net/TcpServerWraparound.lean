import Mathlib
import Bbkgl.Net.TcpServerHandling

/-!
# When `next_conn_id_` comes round again

A server without a thread pool, and connection 0, which stays open. From a
resting state another connection comes and goes, and the server is at rest again
with `next_conn_id_` one further (`run_visit`). After 2^32 - 1 visits the name of
the next connection is that of connection 0, whose entry in `connections_` it
takes: connection 0 is destroyed while it is in the walk over `active_channels_`.
-/

set_option autoImplicit false

namespace Bbkgl
namespace TcpServer

open CS CS.Fallible CS.Transition TcpConnection Connection

/-- A server with the base loop only. -/
def noPool : Config := ⟨"s", 0, 0, false⟩

theorem connName_injective {cfg : Config} {id id' : BitVec 32}
    (h : connName cfg id = connName cfg id') : id = id' := by
  have hsuffix : toString id.toInt = toString id'.toInt := (String.append_right_inj _).mp h
  exact BitVec.toInt_inj.mp (Int.repr_injective hsuffix)

/-- Connection 0 is open, every other connection has gone, and nothing is under way. -/
structure Resting (s : State) : Prop where
  fault : s.fault = none
  nextConnId : s.nextConnId = BitVec.ofNat 32 (s.nextObj + 1)
  pos : 0 < s.nextObj
  calls : ∀ who, s.calls who = none
  functors : (s.loops 0).functors = ⟨[], [], []⟩
  phase : (s.loops 0).phase = .poll
  frame : (s.loops 0).frame = none
  channels : (s.loops 0).poller.channels 8 = none
  kernel : (s.loops 0).poller.kernel 8 = none
  gone : ∀ c, 0 < c → (s.conns c).alive = false
  first : s.conns 0 = { TcpConnection.new 0 (connName noPool 2) 7 false with
    state := .connected, channel := ⟨7, Channel.readEvent, Epoller.kAdded, false⟩, log := [.up] }
  entry : s.connections (connName noPool 2) = some 0
  watched : (s.loops 0).poller.channels 7 = some 0 ∧
    (s.loops 0).poller.kernel 7 = some (Channel.readEvent, 0)

/-- What a visit changes: the object, where the loop stands, the two records of the
poller for descriptor 8, and the entry in `connections_`. -/
structure Visit where
  conn : TcpConnection
  phase : Phase
  frame : Option Frame
  functors : Mailbox Functor
  channel : Option ConnId
  kernel : Option (EventMask × ConnId)
  entry : Option ConnId

/-- The name of the next connection. -/
def visitorName (s : State) : String := connName noPool (s.nextConnId + 1)

/-- The object of the connection that visits `s`. -/
def visitor (s : State) (state : StateE) (channel : Channel) (log : List ConnEvent) :
    TcpConnection :=
  { TcpConnection.new 0 (visitorName s) 8 false with
    state := state, channel := channel, log := log }

/-- The poller of the base loop, with the entry and the record of the visitor. -/
def visitPoller (s : State) (v : Visit) : Epoller ConnId :=
  ⟨Function.update (s.loops 0).poller.channels 8 v.channel,
    Function.update (s.loops 0).poller.kernel 8 v.kernel⟩

/-- The state in the middle of a visit. -/
def during (s : State) (v : Visit) : State :=
  { s with
    conns := Function.update s.conns s.nextObj v.conn
    nextObj := s.nextObj + 1
    connections := Function.update s.connections (visitorName s) v.entry
    nextConnId := s.nextConnId + 1
    loops := Function.update s.loops 0 ⟨v.functors, v.phase, v.frame, visitPoller s v⟩ }

variable {s t : State} {v : Visit} {conn : TcpConnection} {phase : Phase} {frame : Option Frame}
  {functors : Mailbox Functor} {channel entry : Option ConnId}
  {kernel : Option (EventMask × ConnId)}
  {log : List ConnEvent} {active : List (ConnId × EventMask)} {a : Action}

@[simp] theorem during_conns : (during s v).conns s.nextObj = v.conn := Function.update_self _ _ _

@[simp] theorem during_loops :
    (during s v).loops 0 = ⟨v.functors, v.phase, v.frame, visitPoller s v⟩ := by
  simp [during]

theorem setPhase_during : setPhase (during s v) 0 phase = during s { v with phase := phase } := by
  simp [setPhase, setLoop, during, visitPoller]

theorem setFunctors_during :
    setFunctors (during s v) 0 functors = during s { v with functors := functors } := by
  simp [setFunctors, setLoop, during, visitPoller]

theorem setFrame_during : (setLoop (during s v) 0 fun l => { l with frame := frame }) =
    during s { v with frame := frame } := by
  simp [setLoop, during, visitPoller]

theorem setConn_during {g : TcpConnection → TcpConnection} :
    setConn (during s v) s.nextObj g = during s { v with conn := g v.conn } := by
  simp [setConn, during, visitPoller]

/-- A method of the visitor that queues nothing. -/
theorem method_during {site : Access} {f : Local → Except Fault Local} (conn : TcpConnection)
    (channel : Option ConnId) (kernel : Option (EventMask × ConnId)) (halive : v.conn.alive = true)
    (hown : v.conn.loop = 0)
    (hf : f ⟨v.conn, visitPoller s v, []⟩ =
      .ok ⟨conn, visitPoller s { v with channel := channel, kernel := kernel }, []⟩) :
    method (during s v) s.nextObj site f =
      .ok (during s { v with conn := conn, channel := channel, kernel := kernel }) := by
  have hlocal : localOf (during s v) s.nextObj = ⟨v.conn, visitPoller s v, []⟩ := by
    simp [localOf, own, hown]
  rw [method, touch, hlocal, during_conns, halive, hf]
  simp [check, bind, Except.bind, pure, Except.pure, putLocal, own, hown, setLoop, during,
    visitPoller]

theorem free_during (hframe : v.frame = none) : free noPool (during s v) 0 = true := by
  simp [free, hframe, Config.loops]

theorem step_of_effect (hfault : s.fault = none) (hg : guard noPool s a = true)
    (hok : effect noPool s a = .ok t) : step noPool s a = some t := by
  rw [step, guarded_eq_some_iff]
  simp [hfault, hg, commit, hok]

/-! ### The steps of a visit -/

/-- The object and the records of the poller, once `ConnEstablished` has run. -/
def upAt (s : State) (handling : Bool) : TcpConnection :=
  visitor s .connected ⟨8, Channel.readEvent, Epoller.kAdded, handling⟩ [.up]

/-- After `HandleClose` and the removal. -/
def closedAt (s : State) (handling : Bool) : TcpConnection :=
  visitor s .connected ⟨8, Channel.noneEvent, Epoller.kDeleted, handling⟩ [.up, .closed, .removed]

/-- After `ConnDestroyed`, before and after `RemoveChannel`. -/
def downAt (s : State) (index : Int) : TcpConnection :=
  visitor s .disconnected ⟨8, Channel.noneEvent, index, false⟩
    [.up, .closed, .removed, .destroyed, .down]

namespace Resting

variable (h : Resting s)
include h

theorem fault_during : (during s v).fault = none := h.fault

theorem step_poll (hentries : ∀ e ∈ active, e = (0, pollIn))
    (hnodup : (active.map Prod.fst).Nodup) :
    step noPool s (.poll 0 active) = some (setPhase s 0 (.dispatch active)) := by
  have hmay : ∀ e ∈ active,
      (s.loops 0).poller.mayReport (s.conns e.1).channel.fd e.1 e.2 = true := by
    intro e he
    rw [hentries e he, h.first, Epoller.mayReport]
    simp only [h.watched.2]
    decide
  apply step_of_effect h.fault
  · simp only [guard, free, h.frame, h.phase, Config.loops, Bool.and_eq_true, List.all_eq_true]
    exact ⟨⟨⟨by decide, rfl⟩, decide_eq_true hnodup⟩, hmay⟩
  · rw [effect, if_pos]
    rw [List.all_eq_true]
    intro e he
    rw [hentries e he, h.first]
    exact decide_eq_true h.watched.1

theorem withNewObject_eq : withNewObject noPool (setPhase s 0 (.dispatch active)) 8 =
    during s ⟨.new 0 (visitorName s) 8 false, .dispatch active, none, ⟨[], [], []⟩, none, none,
      some s.nextObj⟩ := by
  have hchannels : Function.update (s.loops 0).poller.channels 8 none =
      (s.loops 0).poller.channels := by
    rw [← h.channels, Function.update_eq_self]
  have hkernel : Function.update (s.loops 0).poller.kernel 8 none =
      (s.loops 0).poller.kernel := by
    rw [← h.kernel, Function.update_eq_self]
  simp [withNewObject, during, setPhase, setLoop, getNextLoop, noPool, visitorName, visitPoller,
    hchannels, hkernel, h.functors, h.frame]

theorem step_newConnection :
    step noPool (setPhase s 0 (.dispatch active)) (.newConnection 8) =
      some (during s ⟨upAt s false, .dispatch active, some ⟨some s.nextObj, false, false⟩,
        ⟨[], [], []⟩, some s.nextObj, some (Channel.readEvent, s.nextObj), some s.nextObj⟩) := by
  have hfault : (setPhase s 0 (.dispatch active)).fault = none := h.fault
  have hbase : (getNextLoop noPool (setPhase s 0 (.dispatch active))).1 = 0 := rfl
  have hnext : (setPhase s 0 (.dispatch active)).nextObj = s.nextObj := rfl
  apply step_of_effect hfault
  -- the descriptor of connection 0 is another, and no other connection exists
  · have hfd : ∀ c, !((s.conns c).alive && (s.conns c).channel.fd = 8) := by
      intro c
      by_cases h0 : c = 0
      · rw [h0, h.first]
        decide
      · rw [h.gone c (Nat.pos_of_ne_zero h0)]
        rfl
    have hdispatch : dispatching noPool (setPhase s 0 (.dispatch active)) 0 = true := by
      simp [dispatching, free, setPhase, setLoop, h.frame, Config.loops]
    rw [guard, hdispatch, Bool.true_and, List.all_eq_true]
    exact fun c _ => hfd c
  · rw [effect, newConnection_eq, if_pos hbase, h.withNewObject_eq, hnext, connEstablished,
      method_during (upAt s false) (some s.nextObj) (some (Channel.readEvent, s.nextObj)) rfl rfl]
    · simp [bind, Except.bind, pure, Except.pure, own, enterUser, TcpConnection.new,
        setFrame_during]
    · simp [Local.connEstablished, assert, check, bind, Except.bind, pure, Except.pure,
        Local.setState, Local.update, Local.record, Epoller.updateChannel, Epoller.update,
        Epoller.kNew, Epoller.kAdded, TcpConnection.new, Channel.new, Channel.enableReading,
        Channel.noneEvent, visitPoller, upAt, visitor]

theorem step_userReturn {c : Option ConnId} :
    step noPool (during s ⟨conn, phase, some ⟨c, false, false⟩, functors, channel, kernel, entry⟩)
      (.userReturn 0) =
        some (during s ⟨conn, phase, none, functors, channel, kernel, entry⟩) := by
  have hcalls : ∀ v who, (during s v).calls who = none := fun _ => h.calls
  apply step_of_effect h.fault_during
  · simp [guard, hcalls, Config.loops]
  · simp [effect, setFrame_during]

theorem step_doPendingFunctors {pending : List Functor} :
    step noPool (during s ⟨conn, .dispatch [], none, ⟨pending, [], []⟩, channel, kernel, entry⟩)
      (.doPendingFunctors 0) =
        some (during s ⟨conn, .functors, none, ⟨[], [], pending⟩, channel, kernel, entry⟩) := by
  apply step_of_effect h.fault_during
  · simp [guard, free_during]
  · simp [effect, setFunctors_during, setPhase_during, Mailbox.swap]

theorem step_finishFunctors {done : List Functor} :
    step noPool (during s ⟨conn, .functors, none, ⟨[], done, []⟩, channel, kernel, entry⟩)
      (.finishFunctors 0) =
        some (during s ⟨conn, .poll, none, ⟨[], [], []⟩, channel, kernel, entry⟩) := by
  apply step_of_effect h.fault_during
  · simp [guard, free_during]
  · simp [effect, setFunctors_during, setPhase_during, Mailbox.finish]

theorem step_pollHup :
    step noPool (during s ⟨upAt s false, .poll, none, ⟨[], [], []⟩, some s.nextObj,
      some (Channel.readEvent, s.nextObj), entry⟩) (.poll 0 [(s.nextObj, pollHup)]) =
        some (during s ⟨upAt s false, .dispatch [(s.nextObj, pollHup)], none, ⟨[], [], []⟩,
          some s.nextObj, some (Channel.readEvent, s.nextObj), entry⟩) := by
  have hreport : (pollHup != 0#32 &&
      (pollHup &&& ~~~(Channel.readEvent ||| pollErr ||| pollHup)) == 0#32) = true := by decide
  apply step_of_effect h.fault_during
  · simpa [guard, free_during, upAt, visitor, Epoller.mayReport, visitPoller] using hreport
  · simp [effect, setPhase_during, upAt, visitor, visitPoller]

theorem step_handleEvent :
    step noPool (during s ⟨upAt s false, .dispatch [(s.nextObj, pollHup)], none, functors, channel,
      kernel, entry⟩) (.handleEvent 0) =
        some (during s ⟨upAt s true, .handling s.nextObj [.close] [], none, functors, channel,
          kernel, entry⟩) := by
  have hclose : Channel.handleEvent pollHup = [.close] := by decide
  apply step_of_effect h.fault_during
  · simp [guard, free_during]
  · simp [effect, touch, check, bind, Except.bind, pure, Except.pure, hclose, setEventHandling,
      setConn_during, setPhase_during, upAt, visitor, TcpConnection.new]

theorem step_handleClose :
    step noPool (during s ⟨upAt s true, .handling s.nextObj [.close] [], none, ⟨[], [], []⟩,
      some s.nextObj, some (Channel.readEvent, s.nextObj), some s.nextObj⟩) (.handleClose 0) =
        some (during s ⟨closedAt s true, .handling s.nextObj [] [], none,
          ⟨[.connDestroyed s.nextObj], [], []⟩, some s.nextObj, none, none⟩) := by
  apply step_of_effect h.fault_during
  · simp [guard, callbackIs, free_during]
  · have hnext : nextCallback
          (during s ⟨upAt s true, .handling s.nextObj [.close] [], none, ⟨[], [], []⟩,
            some s.nextObj, some (Channel.readEvent, s.nextObj), some s.nextObj⟩) 0 =
        during s ⟨upAt s true, .handling s.nextObj [] [], none, ⟨[], [], []⟩, some s.nextObj,
          some (Channel.readEvent, s.nextObj), some s.nextObj⟩ := by
      simp [nextCallback, setPhase_during]
    have hhandled : handled
        (during s ⟨upAt s true, .handling s.nextObj [.close] [], none, ⟨[], [], []⟩,
          some s.nextObj, some (Channel.readEvent, s.nextObj), some s.nextObj⟩) 0 =
        s.nextObj := by
      simp [handled]
    rw [effect, hnext, hhandled, handleClose,
      method_during (visitor s .connected ⟨8, Channel.noneEvent, Epoller.kDeleted, true⟩
        [.up, .closed]) (some s.nextObj) none rfl rfl]
    · simp [bind, Except.bind, own, removeConnectionInLoop, upAt, closedAt, visitor, setConn, push,
        setFunctors, setLoop, Mailbox.push, TcpConnection.new, during, visitPoller,
        visitorName]
    · simp [Local.handleClose, assert, check, bind, Except.bind, pure, Except.pure, Local.update,
        Local.record, Epoller.updateChannel, Epoller.update, Epoller.kNew, Epoller.kAdded,
        Epoller.kDeleted, TcpConnection.new, Channel.disableAll, Channel.isNoneEvent,
        TcpConnection.isUp, visitPoller, upAt, visitor]

theorem step_endEvent :
    step noPool (during s ⟨closedAt s true, .handling s.nextObj [] [], none, functors, channel,
      kernel, entry⟩) (.endEvent 0) =
        some (during s
          ⟨closedAt s false, .dispatch [], none, functors, channel, kernel, entry⟩) := by
  apply step_of_effect h.fault_during
  · simp [guard, free_during]
  · simp [effect, touch, check, bind, Except.bind, pure, Except.pure, setEventHandling,
      setConn_during, setPhase_during, closedAt, visitor, TcpConnection.new]

theorem step_connDestroyed :
    step noPool (during s ⟨closedAt s false, .functors, none, ⟨[], [], [.connDestroyed s.nextObj]⟩,
      some s.nextObj, none, entry⟩) (.runFunctor 0 none) =
        some (during s ⟨downAt s Epoller.kAdded, .functors, some ⟨some s.nextObj, false, true⟩,
          ⟨[], [.connDestroyed s.nextObj], []⟩, some s.nextObj,
          some (Channel.noneEvent, s.nextObj), entry⟩) := by
  apply step_of_effect h.fault_during
  · simp [guard, free_during]
  · simp only [effect, during_loops, runFunctor, setFunctors_during, Mailbox.advance, connDestroyed]
    rw [method_during (downAt s Epoller.kAdded) (some s.nextObj)
      (some (Channel.noneEvent, s.nextObj)) rfl rfl]
    · simp [bind, Except.bind, pure, Except.pure, own, enterUser, closedAt, visitor,
        TcpConnection.new, setFrame_during]
    · simp [Local.connDestroyed, assert, check, bind, Except.bind, pure, Except.pure,
        Local.setState, Local.update, Local.record, Epoller.updateChannel, Epoller.update,
        Epoller.kNew, Epoller.kAdded, Epoller.kDeleted, TcpConnection.new, Channel.disableAll,
        TcpConnection.isUp, visitPoller, closedAt, downAt, visitor]

theorem step_removeChannel :
    step noPool (during s ⟨downAt s Epoller.kAdded, phase, some ⟨some s.nextObj, false, true⟩,
      functors, some s.nextObj, some (Channel.noneEvent, s.nextObj), entry⟩) (.userReturn 0) =
        some (during s ⟨downAt s Epoller.kNew, phase, none, functors, none, none, entry⟩) := by
  have hcalls : ∀ v who, (during s v).calls who = none := fun _ => h.calls
  apply step_of_effect h.fault_during
  · simp [guard, hcalls, Config.loops]
  · simp only [effect, during_loops, setFrame_during]
    rw [method_during (downAt s Epoller.kNew) none none rfl rfl]
    simp [Local.removeChannel, check, bind, Except.bind, pure, Except.pure, Epoller.removeChannel,
      Epoller.update, Epoller.kNew, Epoller.kAdded, Epoller.kDeleted, TcpConnection.new,
      Channel.isNoneEvent, visitPoller, downAt, visitor]

theorem step_destroy :
    step noPool (during s ⟨downAt s Epoller.kNew, .poll, none, ⟨[], [], []⟩, none, none, none⟩)
      (.destroy s.nextObj) =
        some (during s ⟨{ downAt s Epoller.kNew with alive := false }, .poll, none,
          ⟨[], [], []⟩, none, none, none⟩) := by
  have hcalls : ∀ v who, (during s v).calls who = none := fun _ => h.calls
  have hentry : ∀ v, (during s v).connections (visitorName s) = v.entry := fun _ =>
    Function.update_self _ _ _
  have hname : (downAt s Epoller.kNew).name = visitorName s := rfl
  apply step_of_effect h.fault_during
  · have howned : owned noPool
        (during s ⟨downAt s Epoller.kNew, .poll, none, ⟨[], [], []⟩, none, none, none⟩)
        s.nextObj = false := by
      have hrefs : (downAt s Epoller.kNew).refs = 0 := rfl
      simp [owned, holds, givenTo, Config.loops, Config.callers, noPool, hcalls, hentry, hname,
        hrefs]
    have halive : (downAt s Epoller.kNew).alive = true := rfl
    have hlt : s.nextObj < (during s ⟨downAt s Epoller.kNew, .poll, none, ⟨[], [], []⟩, none, none,
      none⟩).nextObj := Nat.lt_succ_self _
    rw [guard, howned, during_conns, halive, decide_eq_true hlt]
    rfl
  · simp [effect, setConn, setLoop, own, during, visitPoller, downAt, visitor,
      TcpConnection.new, Epoller.close]

end Resting

/-! ### Visits -/

/-- A connection is accepted, its peer hangs up, and its object goes. -/
def visit (n : ConnId) : List Action :=
  [.poll 0 [], .newConnection 8, .userReturn 0, .doPendingFunctors 0, .finishFunctors 0,
    .poll 0 [(n, pollHup)], .handleEvent 0, .handleClose 0, .endEvent 0, .doPendingFunctors 0,
    .runFunctor 0 none, .userReturn 0, .finishFunctors 0, .destroy n]

/-- The visitor has gone. -/
def left (s : State) : State :=
  during s
    ⟨{ downAt s Epoller.kNew with alive := false }, .poll, none, ⟨[], [], []⟩, none, none, none⟩

/-- A visitor comes and goes, and leaves nothing but a higher counter. -/
theorem run_visit (h : Resting s) :
    run (step noPool) s (visit s.nextObj) = some (left s) := by
  simp only [visit, run_cons, run_nil]
  rw [h.step_poll (by simp) (by simp), Option.bind_some, h.step_newConnection, Option.bind_some,
    h.step_userReturn, Option.bind_some, h.step_doPendingFunctors, Option.bind_some,
    h.step_finishFunctors, Option.bind_some, h.step_pollHup, Option.bind_some, h.step_handleEvent,
    Option.bind_some, h.step_handleClose, Option.bind_some, h.step_endEvent, Option.bind_some,
    h.step_doPendingFunctors, Option.bind_some, h.step_connDestroyed, Option.bind_some,
    h.step_removeChannel, Option.bind_some, h.step_finishFunctors, Option.bind_some,
    h.step_destroy, Option.bind_some]
  rfl

/-- The next visitor's number. -/
theorem visitor_id (h : Resting s) : s.nextConnId + 1 = BitVec.ofNat 32 (s.nextObj + 2) := by
  rw [h.nextConnId]
  exact (BitVec.ofNat_add _ 1).symm

theorem two_ne_mod {n : ℕ} (hpos : 0 < n) (hlt : n < 2 ^ 32) : 2 ≠ (n + 2) % 2 ^ 32 := by
  omega

/-- As long as the name is not that of connection 0, the server is at rest again. -/
theorem resting_left (h : Resting s) (hlt : s.nextObj < 2 ^ 32) : Resting (left s) where
  fault := h.fault
  nextConnId := visitor_id h
  pos := Nat.succ_pos _
  calls := h.calls
  functors := by simp [left]
  phase := by simp [left]
  frame := by simp [left]
  channels := by simp [left, visitPoller]
  kernel := by simp [left, visitPoller]
  gone c hc := by
    simp only [left, during, Function.update_apply]
    split
    · rfl
    · exact h.gone c hc
  first := by
    simp only [left, during]
    rw [Function.update_of_ne (Nat.ne_of_lt h.pos)]
    exact h.first
  entry := by
    simp only [left, during]
    rw [Function.update_of_ne]
    · exact h.entry
    -- the names differ, as `next_conn_id_` has not come round
    · intro hname
      have hid := congrArg BitVec.toNat (connName_injective hname)
      rw [visitor_id h, BitVec.toNat_ofNat] at hid
      exact two_ne_mod h.pos hlt hid
  watched := by simpa [left, visitPoller] using h.watched

/-- `k` visits, one after the other. -/
def visits (k : ℕ) : List Action := (List.range k).flatMap fun j => visit (j + 1)

/-- Any number of visitors come and go. -/
theorem run_visits (h : Resting s) (hone : s.nextObj = 1) {k : ℕ} (hk : k < 2 ^ 32) :
    ∃ t, run (step noPool) s (visits k) = some t ∧ Resting t ∧ t.nextObj = k + 1 := by
  induction k with
  | zero => exact ⟨s, rfl, h, hone⟩
  | succ k ih =>
    obtain ⟨t, ht, hrest, hnext⟩ := ih (Nat.lt_of_succ_lt hk)
    have hvisits : visits (k + 1) = visits k ++ visit t.nextObj := by
      rw [visits, List.range_succ, List.flatMap_append, List.flatMap_singleton, hnext]
      rfl
    refine ⟨left t, ?_, resting_left hrest (hnext ▸ hk), congrArg (· + 1) hnext⟩
    rw [hvisits, run_append, ht, Option.bind_some]
    exact run_visit hrest

/-! ### The run -/

/-- Connection 0 is accepted and stays open. -/
def firstOpened : List Action :=
  [.poll 0 [], .newConnection 7, .userReturn 0, .doPendingFunctors 0, .finishFunctors 0]

/-- Connection 0 has something to read, and a connection is accepted before its turn comes. -/
def acceptedBefore : List Action :=
  [.poll 0 [(0, pollIn)], .newConnection 8, .userReturn 0, .destroy 0, .handleEvent 0]

theorem run_acceptedBefore (h : Resting s) (hround : s.nextObj = 2 ^ 32) :
    (run (step noPool) s acceptedBefore).map State.fault =
      some (some (.useAfterFree .handleEvent)) := by
  obtain ⟨v, hv⟩ : ∃ v : Visit, v = ⟨upAt s false, .dispatch [(0, pollIn)], none, ⟨[], [], []⟩,
    some s.nextObj, some (Channel.readEvent, s.nextObj), some s.nextObj⟩ := ⟨_, rfl⟩
  -- the name of the new connection is that of connection 0
  have hname : visitorName s = connName noPool 2 := by
    rw [visitorName, visitor_id h, hround]
    rfl
  have hfirst : (during s v).conns 0 = s.conns 0 :=
    Function.update_of_ne (Nat.ne_of_lt h.pos) _ _
  have hne : s.nextObj ≠ 0 := Nat.ne_of_gt h.pos
  have hdestroy : step noPool (during s v) (.destroy 0) =
      some (setLoop (setConn (during s v) 0 fun conn => { conn with alive := false }) 0 fun l =>
        { l with poller := l.poller.close 7 }) := by
    have hcalls : ∀ who, (during s v).calls who = none := h.calls
    have hentry : (during s v).connections (connName noPool 2) = some s.nextObj := by
      rw [← hname, hv]
      exact Function.update_self _ _ _
    have hrefs : ((during s v).conns 0).refs = 0 := by rw [hfirst, h.first]; rfl
    have hconn : ((during s v).conns 0).name = connName noPool 2 := by rw [hfirst, h.first]; rfl
    have hloops : noPool.loops = [0] := rfl
    have hcallers : noPool.callers = [.loop 0] := rfl
    have hholds : holds 0 ((during s v).loops 0) = false := by rw [during_loops, hv]; rfl
    apply step_of_effect h.fault_during
    · have howned : owned noPool (during s v) 0 = false := by
        rw [owned, hrefs, hconn, hentry, hloops, hcallers]
        simp [hholds, hcalls, hne, -during_loops]
      have hlt : 0 < (during s v).nextObj := Nat.succ_pos _
      rw [guard, howned, hfirst, h.first, decide_eq_true hlt]
      rfl
    · simp [effect, own, hfirst, h.first, TcpConnection.new]
  obtain ⟨t, ht⟩ : ∃ t, t =
      setLoop (setConn (during s v) 0 fun conn => { conn with alive := false })
        0 fun l => { l with poller := l.poller.close 7 } := ⟨_, rfl⟩
  have hloop : (t.loops 0).phase = .dispatch [(0, pollIn)] ∧ (t.loops 0).frame = none := by
    rw [ht, loops_setLoop, if_pos rfl]
    have hkept : (setConn (during s v) 0 fun conn => { conn with alive := false }).loops 0 =
      (during s v).loops 0 := rfl
    rw [hkept, during_loops, hv]
    exact ⟨rfl, rfl⟩
  have hdead : (t.conns 0).alive = false := by
    rw [ht]
    simp [setLoop, setConn]
  have hfault : t.fault = none := ht ▸ h.fault
  have hhandle : step noPool t (.handleEvent 0) =
      some { t with fault := some (.useAfterFree .handleEvent) } := by
    rw [step, guarded_eq_some_iff]
    simp [hfault, guard, hloop, free, Config.loops, commit, effect, touch, hdead, check, bind,
      Except.bind]
  simp only [acceptedBefore, run_cons, run_nil]
  rw [h.step_poll (by simp) (by simp), Option.bind_some, h.step_newConnection, Option.bind_some,
    h.step_userReturn, Option.bind_some, ← hv, hdestroy, Option.bind_some, ← ht, hhandle]
  rfl

/-- Connection 0 stays open while 2^32 - 1 others come and go. -/
def wrappedAround : List Action := firstOpened ++ visits (2 ^ 32 - 1) ++ acceptedBefore

theorem resting_firstOpened :
    ∃ s, run (step noPool) State.init firstOpened = some s ∧ Resting s ∧ s.nextObj = 1 := by
  have hsome : (run (step noPool) State.init firstOpened).isSome = true := by decide +kernel
  obtain ⟨s, hs⟩ := Option.isSome_iff_exists.mp hsome
  have heq : ∀ {β : Type} {f : State → β} {b : β},
      (run (step noPool) State.init firstOpened).map f = some b → f s = b := by
    intro β f b hb
    rw [hs] at hb
    exact Option.some_inj.mp hb
  have hnext : s.nextObj = 1 := heq (by decide +kernel)
  have hid : s.nextConnId = 2 := heq (by decide +kernel)
  refine ⟨s, hs, ?_, hnext⟩
  exact {
    fault := heq (by decide +kernel)
    nextConnId := by rw [hid, hnext]; rfl
    pos := by rw [hnext]; exact Nat.one_pos
    calls := congrFun (heq (by rfl))
    functors := heq (f := fun s => (s.loops 0).functors) (by decide +kernel)
    phase := heq (f := fun s => (s.loops 0).phase) (by decide +kernel)
    frame := heq (f := fun s => (s.loops 0).frame) (by decide +kernel)
    channels := heq (f := fun s => (s.loops 0).poller.channels 8) (by decide +kernel)
    kernel := heq (f := fun s => (s.loops 0).poller.kernel 8) (by decide +kernel)
    gone := fun c hc => ((placed_of_reach (reach_of_run hs)).fresh c (by rw [hnext]; exact hc)).1
    first := heq (f := fun s => s.conns 0) (by rfl)
    entry := heq (f := fun s => s.connections (connName noPool 2)) (by decide +kernel)
    watched := by
      constructor
      · exact heq (f := fun s => (s.loops 0).poller.channels 7) (by decide +kernel)
      · exact heq (f := fun s => (s.loops 0).poller.kernel 7) (by decide +kernel) }

theorem callsInLoop_wrappedAround (ha : a ∈ wrappedAround) (s : State) :
    callsInLoop s a = true := by
  have hvisit : ∀ n, ∀ b ∈ visit n, callsInLoop s b = true := by
    intro n b hb
    simp only [visit, List.mem_cons, List.not_mem_nil, or_false] at hb
    rcases hb with rfl | rfl | rfl | rfl | rfl | rfl | rfl | rfl | rfl | rfl | rfl | rfl | rfl | rfl
      <;> rfl
  rcases List.mem_append.mp ha with ha | ha
  · rcases List.mem_append.mp ha with ha | ha
    · simp only [firstOpened, List.mem_cons, List.not_mem_nil, or_false] at ha
      rcases ha with rfl | rfl | rfl | rfl | rfl <;> rfl
    · obtain ⟨j, -, hj⟩ := List.mem_flatMap.mp ha
      exact hvisit _ a hj
  · simp only [acceptedBefore, List.mem_cons, List.not_mem_nil, or_false] at ha
    rcases ha with rfl | rfl | rfl | rfl | rfl <;> rfl

/-- `HandleEvent` of an object that has gone, although every call was made on the
thread of its connection's loop. -/
theorem handled_dead_of_wrappedAround :
    ∃ s, Reach (step noPool) (fun s a => callsInLoop s a = true) State.init wrappedAround s ∧
      s.fault = some (.useAfterFree .handleEvent) := by
  obtain ⟨s, hs, hrest, hone⟩ := resting_firstOpened
  obtain ⟨t, ht, hrest', hround⟩ := run_visits (k := 2 ^ 32 - 1) hrest hone (by norm_num)
  have hlast := run_acceptedBefore hrest' (hround.trans (by norm_num))
  obtain ⟨u, hu, hfault⟩ := Option.map_eq_some_iff.mp hlast
  have hrun : run (step noPool) State.init wrappedAround = some u := by
    rw [wrappedAround, List.append_assoc, run_append, hs, Option.bind_some, run_append, ht,
      Option.bind_some, hu]
  refine ⟨u, reach_of_admits (admits_of_forall fun a ha s => ?_) hrun, hfault⟩
  exact callsInLoop_wrappedAround ha s

end TcpServer
end Bbkgl
