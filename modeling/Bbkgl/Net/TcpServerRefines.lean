import Bbkgl.Net.TcpServerLabels

/-!
# The server refines the life of each of its connections

Every step of the server that does not fault is, for each connection, the list
of actions that `labels` gives. So what one action of the abstract machine
preserves holds of every connection in every run of the server
(`views_invariant`).
-/

set_option autoImplicit false

namespace Bbkgl
namespace TcpServer

open CS CS.Fallible CS.Transition TcpConnection

variable {cfg : Config} {s s' t : State} {i : LoopId} {c d : ConnId} {f : Functor}
  {who : Caller} {a : Action}

/-! ### Calls -/

/-- The call of a thread is none of `c`'s business, before and after. -/
theorem view_setCall_of_same {call : Option Call}
    (hsame : call.bind (pendingOf c) = (s.calls who).bind (pendingOf c)) :
    view (setCall s who call) c = view s c := by
  rw [view_setCall, hsame]
  have hcalls : Function.update (view s c).calls who ((s.calls who).bind (pendingOf c)) =
      (view s c).calls := Function.update_eq_self who (view s c).calls
  rw [Connection.setCall, hcalls]

/-- A `Send` is the actions that its labels say. -/
theorem follows_send (h : Placed cfg s) {message : Bytes} {wr : WriteResult}
    (hlen : message.length ≤ Buffer.maxSize) (hwhom : who ∈ cfg.callers)
    (hcall : s.calls who = none)
    (hok : send s who d message wr = .ok t) :
    Follows cfg s t fun c => if c = d ∧ (s.conns d).state = .connected then
      [if who = .loop (own s d) then .sendDirect who message wr else .callSend who message]
    else [] := by
  simp only [send] at hok
  split at hok
  · next hstate =>
    have hd : d < s.nextObj := h.lt_nextObj_of_state (by simp [hstate])
    have hup : (view s d).state = .connected := hstate
    have howner : (view s d).owner = .loop (own s d) := rfl
    have hidle : (view s d).calls who = none := by simp [view, hcall]
    have hrec : Placed cfg (setConn s d fun conn =>
      { conn with log := conn.log ++ [.sent who message] }) := h.setConn_frame rfl rfl rfl rfl rfl
    have hself :
        view (setConn s d fun conn => { conn with log := conn.log ++ [.sent who message] }) d
        = (view s d).record (.sent who message) := view_setConn_self rfl rfl
    simp only [hstate, and_true]
    split at hok
    · next hwho =>
      simp only [if_pos hwho]
      obtain ⟨-, htouches⟩ := touches_method hrec (fun l hl =>
        Local.sendInLoop_acts (hrec.wf d) hlen hl) hok
      have hguard : (view s d).guard (.sendDirect who message wr) = true := by
        simp [Connection.guard, hup, howner, hwho]
      refine follows_of_view_self htouches.placed htouches.fault htouches.nextObj hguard ?_
        fun c hc => ?_
      · rw [htouches.self, hself]
        rfl
      · rw [htouches.other c hc, view_setConn_of_ne hc]
    · next hwho =>
      simp only [if_neg hwho]
      obtain rfl := Except.ok.inj hok
      have hguard : (view s d).guard (.callSend who message) = true := by
        simp [Connection.guard, hup, howner, hwho, hidle]
      refine follows_of_view_self (hrec.setCall fun call hc => ?_) rfl rfl hguard ?_ fun c hc => ?_
      · obtain rfl := Option.some_inj.mp hc
        exact ⟨hwhom, hd, hlen⟩
      · rw [view_setCall, hself]
        simp [Connection.effect, pendingOf]
      · rw [view_setCall_of_same, view_setConn_of_ne hc]
        simp [setConn, hcall, pendingOf, hc.symm]
  · next hstate =>
    obtain rfl := Except.ok.inj hok
    exact (unseen_self h).follows.congr fun c => by simp [hstate]

/-- A `Shutdown` is the actions that its labels say. -/
theorem follows_shutdown (h : Placed cfg s) (hwhom : who ∈ cfg.callers)
    (hcall : s.calls who = none) (hok : shutdown s who d = .ok t) :
    Follows cfg s t fun c => if c = d ∧ (s.conns d).state = .connected then
      [if who = .loop (own s d) then .shutdownDirect else .callShutdown who]
    else [] := by
  simp only [shutdown] at hok
  split at hok
  · next hstate =>
    have hd : d < s.nextObj := h.lt_nextObj_of_state (by simp [hstate])
    have hup : (view s d).state = .connected := hstate
    have howner : (view s d).owner = .loop (own s d) := rfl
    have hidle : (view s d).calls who = none := by simp [view, hcall]
    simp only [hstate, and_true]
    split at hok
    · next hwho =>
      simp only [if_pos hwho]
      have hset := Local.setState_acts (c := d) (l := localOf s d) (h.wf d) .disconnecting
      obtain ⟨-, htouches⟩ := touches_method_ok
        (u := fun l => (l.setState .disconnecting).shutdownInLoop) h
        (hset.trans (Local.shutdownInLoop_acts hset.wf)) hok
      have hguard : (view s d).guard .shutdownDirect = true := by
        simp [Connection.guard, hup]
      exact follows_of_view_self htouches.placed htouches.fault htouches.nextObj hguard
        htouches.self
        htouches.other
    · next hwho =>
      simp only [if_neg hwho]
      obtain rfl := Except.ok.inj hok
      have hguard : (view s d).guard (.callShutdown who) = true := by
        simp [Connection.guard, hup, howner, hwho, hidle]
      refine follows_of_view_self (h.setCall fun call hc => ?_) rfl rfl hguard ?_ fun c hc => ?_
      · obtain rfl := Option.some_inj.mp hc
        exact ⟨hwhom, hd⟩
      · rw [view_setCall]
        simp [Connection.effect, pendingOf]
      · exact view_setCall_of_same (by simp [hcall, pendingOf, hc.symm])
  · next hstate =>
    obtain rfl := Except.ok.inj hok
    exact (unseen_self h).follows.congr fun c => by simp [hstate]

/-- `Close` leaves nothing that a connection sees but a timer. -/
theorem follows_close (h : Placed cfg s) : Follows cfg s (close s who d) fun _ => [] := by
  rw [close]
  split
  · exact (unseen_setConn h rfl rfl rfl rfl rfl fun _ => rfl).follows
  · exact (unseen_push (f := .addTimerInLoop d) h trivial (fun _ => rfl) (by simp)).follows

/-- The next step of a call is the actions that its labels say. -/
theorem follows_proceed (h : Placed cfg s) {call : Call} (hcall : s.calls who = some call) :
    Follows cfg s (proceed s who call) fun c => callLabels c who call := by
  obtain ⟨hwhom, hplaced⟩ := h.calls who call hcall
  cases call with
  | send d message =>
    have hpush : Placed cfg (push s (own s d) (.sendInLoop d who message)) :=
      h.push ⟨⟨hplaced.1, rfl⟩, hplaced.2⟩
    have hpending : (view s d).calls who = some (.send message) := by
      simp [view, hcall, pendingOf]
    have htask : ∀ c, taskOf c (.sendInLoop d who message) =
      if d = c then some (.send who message) else none := fun _ => rfl
    refine follows_of_view_self (hpush.setCall (by simp)) rfl rfl ?_ ?_ fun c hc => ?_
    · rw [Connection.guard, hpending]
    · rw [proceed, view_setCall, view_push_task ((htask d).trans (if_pos rfl)), Connection.effect,
        hpending]
      rfl
    · rw [proceed, view_setCall_of_same, view_push_of_none ((htask c).trans (if_neg hc.symm))
        (by simp)]
      simp [push, setFunctors, setLoop, hcall, pendingOf, hc.symm]
  | shutdownChecked d =>
    have hset : Placed cfg (setConn s d fun conn => { conn with state := .disconnecting }) :=
      h.setConn rfl (fun hle => absurd hplaced (Nat.not_lt_of_le hle)) (h.wf d)
    have hpending : (view s d).calls who = some .shutdownChecked := by
      simp [view, hcall, pendingOf]
    refine follows_of_view_self (hset.setCall fun call hc => ?_) rfl rfl ?_ ?_ fun c hc => ?_
    · obtain rfl := Option.some_inj.mp hc
      exact ⟨hwhom, hplaced⟩
    · rw [Connection.guard, hpending]
      rfl
    · rw [proceed, view_setCall, view_setConn_self rfl rfl]
      simp only [Option.bind_some, pendingOf, if_pos]
      rfl
    · rw [proceed, view_setCall_of_same, view_setConn_of_ne hc]
      simp [setConn, hcall, pendingOf, hc.symm]
  | shutdownSet d =>
    have hpush : Placed cfg (push s (own s d) (.shutdownInLoop d)) := h.push ⟨hplaced, rfl⟩
    have hpending : (view s d).calls who = some .shutdownSet := by
      simp [view, hcall, pendingOf]
    have htask : ∀ c, taskOf c (.shutdownInLoop d) = if d = c then some .shutdown else none :=
      fun _ => rfl
    refine follows_of_view_self (hpush.setCall (by simp)) rfl rfl ?_ ?_ fun c hc => ?_
    · rw [Connection.guard, hpending]
      rfl
    · rw [proceed, view_setCall, view_push_task ((htask d).trans (if_pos rfl))]
      rfl
    · rw [proceed, view_setCall_of_same, view_push_of_none ((htask c).trans (if_neg hc.symm))
        (by simp)]
      simp [push, setFunctors, setLoop, hcall, pendingOf, hc.symm]

/-! ### A new connection -/

/-- The step from `s` to `t` has created the object at `s.nextObj`. -/
structure Creates (cfg : Config) (s t : State) (steps : ConnId → List Connection.Action) :
    Prop where
  placed : Placed cfg t
  fault : t.fault = s.fault
  nextObj : t.nextObj = s.nextObj + 1
  views : ∀ c, c < s.nextObj → run Connection.step (view s c) (steps c) = some (view t c)
  created : ∃ i : LoopId, run Connection.step (.init (.loop i))
    (if i = 0 then [.establish] else []) = some (view t s.nextObj)

/-- `NewConnection` up to the functor for the new object. -/
def withNewObject (cfg : Config) (s : State) (fd : ℕ) : State :=
  { s with
    conns := Function.update s.conns s.nextObj
      (.new (getNextLoop cfg s).1 (connName cfg (s.nextConnId + 1)) fd cfg.writeComplete)
    nextObj := s.nextObj + 1
    connections := Function.update s.connections (connName cfg (s.nextConnId + 1)) (some s.nextObj)
    nextConnId := s.nextConnId + 1
    next := (getNextLoop cfg s).2 }

theorem newConnection_eq (fd : ℕ) : newConnection cfg s fd =
    if (getNextLoop cfg s).1 = 0 then connEstablished (withNewObject cfg s fd) s.nextObj
    else .ok (push (withNewObject cfg s fd) (getNextLoop cfg s).1 (.connEstablished s.nextObj)) :=
  rfl

theorem getNextLoop_mem (h : Placed cfg s) : (getNextLoop cfg s).1 ∈ cfg.loops ∧
    (cfg.numThreads = 0 ∨ (getNextLoop cfg s).2 < cfg.numThreads) := by
  have hnext := h.next
  rw [Config.loops, List.mem_range, getNextLoop]
  split
  · next hzero => exact ⟨Nat.succ_pos _, Or.inl hzero⟩
  · next hpool =>
    simp only
    split
    · exact ⟨by omega, Or.inr (by omega)⟩
    · exact ⟨by omega, Or.inr (by omega)⟩

theorem placed_withNewObject (h : Placed cfg s) (fd : ℕ) :
    Placed cfg (withNewObject cfg s fd) := by
  have hconn : ∀ c, (withNewObject cfg s fd).conns c = if c = s.nextObj then
      .new (getNextLoop cfg s).1 (connName cfg (s.nextConnId + 1)) fd cfg.writeComplete
      else s.conns c := fun c => Function.update_apply _ _ _ _
  have hold : ∀ c < s.nextObj, (withNewObject cfg s fd).conns c = s.conns c := fun c hc => by
    rw [hconn, if_neg (Nat.ne_of_lt hc)]
  have hown : ∀ c < s.nextObj, own (withNewObject cfg s fd) c = own s c := fun c hc =>
    congrArg TcpConnection.loop (hold c hc)
  refine ⟨fun c hc => ?_, fun c hc => ?_, (getNextLoop_mem h).2, fun j f hf => ?_,
    fun who call hcall => ?_, fun c => ?_, h.batch⟩
  · rw [hconn, if_neg (Nat.ne_of_gt hc)]
    exact h.fresh c (Nat.le_of_succ_le hc)
  · rcases Nat.lt_succ_iff_lt_or_eq.mp hc with hlt | rfl
    · exact hown c hlt ▸ h.own_mem c hlt
    · rw [own, hconn, if_pos rfl]
      exact (getNextLoop_mem h).1
  · exact (h.functors j f hf).congr (Nat.le_succ _) hown
  · exact (h.calls who call hcall).imp_right fun hp => hp.congr (Nat.le_succ _)
  · rw [hconn]
    split
    · exact Buffer.wf_new
    · exact h.wf c

/-- The connections there were: one may have lost its entry. -/
theorem run_withNewObject {fd : ℕ} (hc : c < s.nextObj) :
    run Connection.step (view s c) (labels cfg s c (.newConnection fd)) =
      some (view (withNewObject cfg s fd) c) := by
  have hne : c ≠ s.nextObj := Nat.ne_of_lt hc
  have hconn : (withNewObject cfg s fd).conns c = s.conns c := Function.update_of_ne hne _ _
  have hview : view (withNewObject cfg s fd) c = { view s c with
      inMap := (view s c).inMap && (s.conns c).name ≠ connName cfg (s.nextConnId + 1) } := by
    have htodo : todo (withNewObject cfg s fd) = todo s := rfl
    have hcalls : (withNewObject cfg s fd).calls = s.calls := rfl
    have hconnections : (withNewObject cfg s fd).connections = Function.update s.connections
      (connName cfg (s.nextConnId + 1)) (some s.nextObj) := rfl
    simp only [view, own, hconn, htodo, hcalls, hconnections, Function.update_apply]
    by_cases hname : (s.conns c).name = connName cfg (s.nextConnId + 1)
    · simp [hname, hne.symm]
    · rw [if_neg hname, decide_eq_true hname, Bool.and_true]
  rw [hview, labels]
  by_cases hname : (s.conns c).name = connName cfg (s.nextConnId + 1)
  · cases hmap : (view s c).inMap with
    | true =>
      rw [if_pos ⟨hname, rfl⟩]
      exact run_singleton rfl (by simp [Connection.effect, hname])
    | false => rw [if_neg (by simp), run_nil, Bool.false_and, ← hmap]
  · rw [if_neg fun h => hname h.1, run_nil, decide_eq_true hname, Bool.and_true]

theorem view_withNewObject (h : Placed cfg s) (fd : ℕ) :
    view (withNewObject cfg s fd) s.nextObj =
      { Connection.init (.loop (getNextLoop cfg s).1) with tasks := [] } := by
  have hconn : (withNewObject cfg s fd).conns s.nextObj =
      .new (getNextLoop cfg s).1 (connName cfg (s.nextConnId + 1)) fd cfg.writeComplete :=
    Function.update_self _ _ _
  have hfresh : ¬ s.nextObj < s.nextObj := Nat.lt_irrefl _
  have htasks : ∀ j, (todo (withNewObject cfg s fd) j).filterMap (taskOf s.nextObj) = [] := by
    refine fun j => List.filterMap_eq_nil_iff.mpr fun f hf => ?_
    have hplaced := h.functors j f hf
    cases f with
    | connEstablished d | connDestroyed d | shutdownInLoop d =>
      exact if_neg (Nat.ne_of_lt hplaced.1)
    | sendInLoop d who message => exact if_neg (Nat.ne_of_lt hplaced.1.1)
    | removeConnectionInLoop d | writeComplete d | addTimerInLoop d | user => rfl
  have hremovals :
      (todo (withNewObject cfg s fd) 0).count (.removeConnectionInLoop s.nextObj) = 0 :=
    List.count_eq_zero.mpr fun hmem => hfresh (h.functors 0 _ hmem).1
  have hcalls : ∀ who, ((withNewObject cfg s fd).calls who).bind (pendingOf s.nextObj) = none := by
    refine fun who => Option.bind_eq_none_iff.mpr fun call hcall => ?_
    obtain ⟨-, hplaced⟩ := h.calls who call hcall
    cases call with
    | send d message => exact if_neg (Nat.ne_of_lt hplaced.1)
    | shutdownChecked d | shutdownSet d => exact if_neg (Nat.ne_of_lt hplaced)
  have hconnections : (withNewObject cfg s fd).connections (connName cfg (s.nextConnId + 1)) =
      some s.nextObj := Function.update_self _ _ _
  have hname : (TcpConnection.new (getNextLoop cfg s).1 (connName cfg (s.nextConnId + 1)) fd
    cfg.writeComplete).name = connName cfg (s.nextConnId + 1) := rfl
  simp only [view, own, hconn, htasks, hremovals, hcalls, hname, hconnections]
  simp [Connection.init, TcpConnection.new, Channel.isReading, Channel.isWriting, Channel.new,
    Channel.noneEvent_meets, Buffer.readable_new]

/-- `NewConnection` makes one connection; another may lose its entry. -/
theorem creates_newConnection (h : Placed cfg s) {fd : ℕ} (hok : newConnection cfg s fd = .ok t) :
    Creates cfg s t fun c => labels cfg s c (.newConnection fd) := by
  have hplaced := placed_withNewObject h fd
  have hnew := view_withNewObject h fd
  rw [newConnection_eq] at hok
  split at hok
  · next hbase =>
    obtain ⟨-, htouches⟩ := touches_connEstablished hplaced hok
    refine ⟨htouches.placed, htouches.fault, htouches.nextObj, fun c hc => ?_, 0, ?_⟩
    · rw [htouches.other c (Nat.ne_of_lt hc)]
      exact run_withNewObject hc
    · rw [if_pos rfl, htouches.self, hnew, hbase]
      exact run_singleton rfl rfl
  · next hio =>
    obtain rfl := Except.ok.inj hok
    have hown : own (withNewObject cfg s fd) s.nextObj = (getNextLoop cfg s).1 := by
      simp [own, withNewObject, TcpConnection.new]
    have htask : ∀ c, taskOf c (.connEstablished s.nextObj) =
      if s.nextObj = c then some .establish else none := fun _ => rfl
    refine ⟨hplaced.push ⟨Nat.lt_succ_self _, hown⟩, rfl, rfl, fun c hc => ?_,
      (getNextLoop cfg s).1, ?_⟩
    · rw [view_push_of_none ((htask c).trans (if_neg (Nat.ne_of_gt hc))) (by simp)]
      exact run_withNewObject hc
    · rw [if_neg hio, run_nil, ← hown, view_push_task ((htask _).trans (if_pos rfl)), hnew, hown]
      rfl

/-! ### The end of an object -/

/-- What owns `d` and is still queued keeps the object alive. -/
theorem owns_of_not_owned (howned : owned cfg s d = false) (hi : i ∈ cfg.loops)
    (hf : f ∈ todo s i) : f.owns ≠ some d := by
  intro howns
  simp only [owned, Bool.or_eq_false_iff, List.any_eq_false] at howned
  apply howned.1.2 i hi
  have hmem : f ∈ (s.loops i).functors.pending ++ (s.loops i).functors.done ++
      (s.loops i).functors.rest := by
    rcases List.mem_append.mp hf with hf | hf
    · exact List.mem_append_right _ hf
    · exact List.mem_append_left _ (List.mem_append_left _ hf)
  rw [holds, List.any_eq_true.mpr ⟨f, hmem, decide_eq_true howns⟩, Bool.or_true]

/-- An object that nothing owns may go. -/
theorem die_guard (h : Placed cfg s) (hd : d < s.nextObj) (howned : owned cfg s d = false) :
    (view s d).guard .die = true := by
  have hmap : (view s d).inMap = false := by
    simp only [owned, Bool.or_eq_false_iff] at howned
    exact howned.1.1.2
  have hbase : 0 ∈ cfg.loops := List.mem_range.mpr (Nat.succ_pos _)
  have hremovals : (view s d).removals = 0 :=
    List.count_eq_zero.mpr fun hmem => owns_of_not_owned howned hbase hmem rfl
  have hnone : ∀ task, task = .establish ∨ task = .destroy → (view s d).tasks.count task = 0 := by
    refine fun task htask => List.count_eq_zero.mpr fun hmem => ?_
    obtain ⟨f, hf, hft⟩ := List.mem_filterMap.mp hmem
    apply owns_of_not_owned howned (h.own_mem d hd) hf
    cases f with
    | connEstablished e | connDestroyed e | sendInLoop e who message | shutdownInLoop e =>
      simp only [taskOf, Option.ite_none_right_eq_some, Option.some_inj] at hft
      obtain ⟨rfl, rfl⟩ := hft
      first | rfl | simp at htask
    | removeConnectionInLoop e | writeComplete e | addTimerInLoop e | user =>
      exact absurd hft (by simp [taskOf])
  simp [Connection.guard, hmap, hremovals, hnone]

theorem follows_destroy (h : Placed cfg s) (hd : d < s.nextObj) (howned : owned cfg s d = false)
    (hok : effect cfg s (.destroy d) = .ok t) :
    Follows cfg s t fun c => if c = d then [.die] else [] := by
  simp only [effect] at hok
  split at hok
  · exact absurd hok (by simp)
  · obtain rfl := Except.ok.inj hok
    have hdead : Placed cfg (setConn s d fun conn => { conn with alive := false }) :=
      h.setConn rfl (fun hle => absurd hd (Nat.not_lt_of_le hle)) (h.wf d)
    refine follows_of_view_self (hdead.setLoop_frame rfl id) rfl rfl (die_guard h hd howned) ?_
      fun c hc => ?_
    · rw [view_setLoop rfl, view_setConn_self rfl rfl]
      rfl
    · rw [view_setLoop rfl, view_setConn_of_ne hc]

/-! ### Every step -/

theorem unseen_nextCallback (h : Placed cfg s) : Unseen cfg s (nextCallback s i) := by
  rw [nextCallback]
  split
  · next hphase => exact unseen_setPhase h (by simp [hphase])
  · exact unseen_self h

theorem unseen_setEventHandling (h : Placed cfg s) {b : Bool} :
    Unseen cfg s (setEventHandling s c b) :=
  unseen_setConn h rfl rfl rfl rfl rfl fun _ => rfl

/-- End of file closes, data goes to the user's callback, and nothing comes of an error. -/
theorem handleRead_cases {readv : Option Bytes} (hok : handleRead s d readv = .ok t) :
    ∃ m, (∃ input, m = setConn s d fun conn => { conn with input := input }) ∧
      (readv = some [] ∧ handleClose m d .handleEvent = .ok t ∨
        readv ≠ some [] ∧ (t = m ∨ t = enterUser m (own s d) ⟨some d, true, false⟩)) := by
  rw [handleRead, touch, check_bind_eq_ok_iff] at hok
  obtain ⟨-, hok⟩ := hok
  split at hok
  · exact absurd hok (by simp)
  · next input n hread =>
    have hn := Buffer.readFd_eq_ok hread
    refine ⟨_, ⟨input, rfl⟩, ?_⟩
    split at hok
    · next hpos =>
      obtain rfl := pure_eq_ok_iff.mp hok
      refine Or.inr ⟨?_, Or.inr rfl⟩
      rintro rfl
      simp [hn] at hpos
    · split at hok
      · next hzero =>
        refine Or.inl ⟨?_, hok⟩
        cases readv with
        | none => simp [hn] at hzero
        | some data => simpa [hn] using hzero
      · next hzero =>
        obtain rfl := pure_eq_ok_iff.mp hok
        refine Or.inr ⟨?_, Or.inl rfl⟩
        rintro rfl
        simp [hn] at hzero

/-- `HandleRead` is a close after end of file, and not seen otherwise. -/
theorem follows_handleRead (h : Placed cfg s) {readv : Option Bytes}
    (hok : handleRead s d readv = .ok t) :
    Follows cfg s t fun c => if readv = some [] then closing s c d else [] := by
  obtain ⟨m, ⟨input, hm⟩, hcases⟩ := handleRead_cases hok
  have hinput : Unseen cfg s m :=
    hm ▸ unseen_setConn h rfl rfl rfl rfl rfl fun _ => rfl
  rcases hcases with ⟨heof, hclose⟩ | ⟨hmore, rfl | rfl⟩
  · apply (Follows.of_unseen hinput (follows_handleClose hinput.placed hclose)).congr
    intro c
    rw [if_pos heof, hinput.closing]
  · exact hinput.follows.congr fun c => if_neg hmore
  · exact (hinput.trans (unseen_enterUser hinput.placed)).follows.congr fun c => if_neg hmore

/-- The methods of a channel's callback, after the walk has moved on. -/
theorem unseen_handleEvent (h : Placed cfg s) (hok : effect cfg s (.handleEvent i) = .ok t) :
    Unseen cfg s t := by
  simp only [effect] at hok
  split at hok
  · next c revents active hphase =>
    rw [touch, check_bind_eq_ok_iff] at hok
    obtain rfl := pure_eq_ok_iff.mp hok.2
    have hset : Unseen cfg s (setEventHandling s c true) := unseen_setEventHandling h
    have hno : ((setEventHandling s c true).loops i).phase ≠ .functors := by
      simp [setEventHandling, setConn, hphase]
    exact hset.trans (unseen_setPhase hset.placed hno)
  · obtain rfl := Except.ok.inj hok
    exact unseen_self h

theorem unseen_endEvent (h : Placed cfg s) (hok : effect cfg s (.endEvent i) = .ok t) :
    Unseen cfg s t := by
  simp only [effect] at hok
  split at hok
  · next c todo active hphase =>
    rw [touch, check_bind_eq_ok_iff] at hok
    obtain rfl := pure_eq_ok_iff.mp hok.2
    have hset : Unseen cfg s (setEventHandling s c false) := unseen_setEventHandling h
    have hno : ((setEventHandling s c false).loops i).phase ≠ .functors := by
      simp [setEventHandling, setConn, hphase]
    exact hset.trans (unseen_setPhase hset.placed hno)
  · obtain rfl := Except.ok.inj hok
    exact unseen_self h

/-- The batch begins and ends with nothing lost. -/
theorem unseen_setFunctors (h : Placed cfg s) {m : CS.Mailbox Functor} {phase : Phase}
    (htodo : m.todo = (s.loops i).functors.todo) (hrest : phase ≠ .functors → m.rest = []) :
    Unseen cfg s (setPhase (setFunctors s i m) i phase) := by
  have heq : setPhase (setFunctors s i m) i phase =
      setLoop s i fun loop => { loop with functors := m, phase := phase } := by
    simp [setPhase, setFunctors, setLoop]
  rw [heq]
  refine ⟨h.setLoop (fun f hf => Or.inl ?_) hrest, rfl, rfl, fun _ => rfl, fun _ =>
    view_setLoop htodo⟩
  rw [todo, ← htodo]
  exact hf

theorem unseen_userReturn (h : Placed cfg s) (hok : effect cfg s (.userReturn i) = .ok t) :
    Unseen cfg s t := by
  have hreturn : Unseen cfg s (setLoop s i fun loop => { loop with frame := none }) :=
    unseen_setLoop h rfl id
  simp only [effect] at hok
  split at hok
  · next d message hframe =>
    obtain ⟨-, htouches⟩ := touches_method hreturn.placed (fun l hl =>
      Local.removeChannel_acts (hreturn.placed.wf d) hl) hok
    refine hreturn.trans ⟨htouches.placed, htouches.fault, htouches.nextObj, htouches.name,
      fun c => ?_⟩
    by_cases hc : c = d
    · subst hc
      exact htouches.self
    · exact htouches.other c hc
  · obtain rfl := Except.ok.inj hok
    exact hreturn

/-- Every step that makes no connection is the actions that its labels say. -/
theorem follows_effect (h : Placed cfg s) (hg : guard cfg s a = true) (hok : effect cfg s a = .ok t)
    (hnew : ∀ fd, a ≠ .newConnection fd) : Follows cfg s t fun c => labels cfg s c a := by
  cases a with
  | newConnection fd => exact absurd rfl (hnew fd)
  | poll i active =>
    simp only [guard, Bool.and_eq_true, decide_eq_true_eq] at hg
    simp only [effect] at hok
    split at hok
    · obtain rfl := Except.ok.inj hok
      exact (unseen_setPhase h (by simp [hg.1.1.2])).follows
    · exact absurd hok (by simp)
  | handleEvent i => exact (unseen_handleEvent h hok).follows
  | handleClose i =>
    have hwalk : Unseen cfg s (nextCallback s i) := unseen_nextCallback h
    exact (Follows.of_unseen hwalk (follows_handleClose hwalk.placed hok)).congr fun c =>
      hwalk.closing.symm
  | handleError i =>
    obtain rfl := Except.ok.inj hok
    exact (unseen_nextCallback h).follows
  | handleRead i readv =>
    have hwalk : Unseen cfg s (nextCallback s i) := unseen_nextCallback h
    apply (Follows.of_unseen hwalk (follows_handleRead hwalk.placed hok)).congr
    intro c
    rw [labels, hwalk.closing]
  | handleWrite i wr =>
    have hwalk : Unseen cfg s (nextCallback s i) := unseen_nextCallback h
    obtain ⟨-, htouches⟩ := touches_method hwalk.placed (fun l hl =>
      Local.handleWrite_acts (hwalk.placed.wf _) hl) hok
    exact Follows.of_unseen hwalk
      (follows_of_view_self htouches.placed htouches.fault htouches.nextObj rfl
        htouches.self htouches.other)
  | endEvent i => exact (unseen_endEvent h hok).follows
  | closeTimer d =>
    have hexpired : Unseen cfg s
      (setConn s d fun conn => { conn with closeTimers := conn.closeTimers - 1 }) :=
        unseen_setConn h rfl rfl rfl rfl rfl fun _ => rfl
    exact (Follows.of_unseen hexpired (follows_handleClose hexpired.placed hok)).congr fun c =>
      hexpired.closing.symm
  | userCode i =>
    obtain rfl := Except.ok.inj hok
    exact (unseen_enterUser h).follows
  | doPendingFunctors i =>
    obtain rfl := Except.ok.inj hok
    simp only [guard, Bool.and_eq_true, decide_eq_true_eq] at hg
    -- the last batch was executed to its end, so the swap loses nothing
    have hrest : (s.loops i).functors.rest = [] := h.batch i (by simp [hg.2])
    exact (unseen_setFunctors h (Mailbox.todo_swap hrest) (by simp)).follows
  | runFunctor i wr =>
    simp only [effect] at hok
    split at hok
    · next hrest =>
      obtain rfl := Except.ok.inj hok
      exact (unseen_self h).follows.congr fun c => by simp only [labels, hrest]
    · next f fs hrest =>
      exact (follows_runFunctor h hrest hok).congr fun c => by simp only [labels, hrest]
  | finishFunctors i =>
    obtain rfl := Except.ok.inj hok
    simp only [guard, Bool.and_eq_true, List.isEmpty_iff] at hg
    exact (unseen_setFunctors h (Mailbox.todo_finish hg.2) fun _ => rfl).follows
  | userReturn i => exact (unseen_userReturn h hok).follows
  | send who d message wr =>
    simp only [guard, canCall, Bool.and_eq_true, decide_eq_true_eq, Option.isNone_iff_eq_none] at hg
    exact follows_send h hg.1.2 hg.1.1.1.1.1 hg.1.1.1.1.2 hok
  | shutdown who d =>
    simp only [guard, canCall, Bool.and_eq_true, decide_eq_true_eq, Option.isNone_iff_eq_none] at hg
    exact follows_shutdown h hg.1.1.1 hg.1.1.2 hok
  | close who d =>
    obtain rfl := Except.ok.inj hok
    exact follows_close h
  | proceed who =>
    simp only [effect] at hok
    split at hok
    · next hcall =>
      obtain rfl := Except.ok.inj hok
      exact (unseen_self h).follows.congr fun c => by simp only [labels, hcall]
    · next call hcall =>
      obtain rfl := Except.ok.inj hok
      exact (follows_proceed h hcall).congr fun c => by simp only [labels, hcall]
  | queueInLoop who i =>
    obtain rfl := Except.ok.inj hok
    exact (unseen_push (f := .user) h trivial (fun _ => rfl) (by simp)).follows
  | setWriteComplete who d on =>
    obtain rfl := Except.ok.inj hok
    exact (unseen_setConn h rfl rfl rfl rfl rfl fun _ => rfl).follows
  | inputBuffer i u =>
    simp only [effect] at hok
    split at hok
    · obtain rfl := Except.ok.inj hok
      exact (unseen_self h).follows
    · split at hok
      · obtain rfl := Except.ok.inj hok
        exact (unseen_setConn h rfl rfl rfl rfl rfl fun _ => rfl).follows
      · exact absurd hok (by simp)
  | keep who d =>
    obtain rfl := Except.ok.inj hok
    exact (unseen_setConn h rfl rfl rfl rfl rfl fun _ => rfl).follows
  | drop d =>
    obtain rfl := Except.ok.inj hok
    exact (unseen_setConn h rfl rfl rfl rfl rfl fun _ => rfl).follows
  | destroy d =>
    simp only [guard, Bool.and_eq_true, decide_eq_true_eq, Bool.not_eq_true'] at hg
    exact follows_destroy h hg.1.1 hg.2 hok

/-! ### Every run -/

/-- A step either runs into a fault, which is all that it changes, or has the effect. -/
theorem step_cases (hstep : step cfg s a = some t) :
    s.fault = none ∧ guard cfg s a = true ∧
      (effect cfg s a = .ok t ∨
        ∃ f, effect cfg s a = .error f ∧ t = { s with fault := some f }) := by
  obtain ⟨hg, hcommit⟩ := guarded_eq_some_iff.mp hstep
  simp only [Bool.and_eq_true, Option.isNone_iff_eq_none] at hg
  refine ⟨hg.1, hg.2, ?_⟩
  rw [commit] at hcommit
  split at hcommit
  · next hok => exact Or.inl (hcommit ▸ hok)
  · next f herr => exact Or.inr ⟨f, herr, hcommit.symm⟩

/-- A fault is all that a connection does not see. -/
theorem placed_fault (h : Placed cfg s) {f : Option Fault} : Placed cfg { s with fault := f } :=
  ⟨h.fresh, h.own_mem, h.next, h.functors, h.calls, h.wf, h.batch⟩

theorem placed_step (h : Placed cfg s) (hstep : step cfg s a = some t) : Placed cfg t := by
  obtain ⟨-, hg, hok | ⟨f, -, rfl⟩⟩ := step_cases hstep
  · by_cases hnew : ∃ fd, a = .newConnection fd
    · obtain ⟨fd, rfl⟩ := hnew
      exact (creates_newConnection h hok).placed
    · exact (follows_effect h hg hok fun fd ha => hnew ⟨fd, ha⟩).placed
  · exact placed_fault h

/-- An invariant of the abstract machine, for a step of the server. -/
theorem view_inv_step {I : Connection → Prop} {p : Connection → Connection.Action → Prop}
    (init : ∀ owner, I (.init owner)) (establish : ∀ owner, p (.init owner) .establish)
    (preserved : ∀ {v b v'}, I v → p v b → Connection.step v b = some v' → I v')
    (h : Placed cfg s) (hinv : ∀ c, c < s.nextObj → I (view s c))
    (hadmits : effect cfg s a = .ok t → ∀ c, c < s.nextObj →
      Admits Connection.step p (view s c) (labels cfg s c a))
    (hstep : step cfg s a = some t) : ∀ c, c < t.nextObj → I (view t c) := by
  have hrun : ∀ {v bs v'}, I v → Admits Connection.step p v bs →
      run Connection.step v bs = some v' → I v' := by
    intro v bs v' hv hadm hvv'
    exact (reach_of_admits hadm hvv').invariant hv fun _ => preserved
  obtain ⟨-, hg, hok | ⟨f, -, rfl⟩⟩ := step_cases hstep
  · by_cases hnew : ∃ fd, a = .newConnection fd
    · obtain ⟨fd, rfl⟩ := hnew
      have hcreates := creates_newConnection h hok
      intro c hc
      rw [hcreates.nextObj] at hc
      rcases Nat.lt_succ_iff_lt_or_eq.mp hc with hlt | rfl
      · exact hrun (hinv c hlt) (hadmits hok c hlt) (hcreates.views c hlt)
      · obtain ⟨i, hi⟩ := hcreates.created
        refine hrun (init (.loop i)) ?_ hi
        split
        · exact ⟨establish _, fun _ _ => trivial⟩
        · trivial
    · have hfollows := follows_effect h hg hok fun fd ha => hnew ⟨fd, ha⟩
      intro c hc
      rw [hfollows.nextObj] at hc
      exact hrun (hinv c hc) (hadmits hok c hc) (hfollows.views c hc)
  · exact hinv

/-- In every run everything is in its place. -/
theorem placed_of_reach {ok : State → Action → Prop} {as : List Action}
    (hrun : Reach (step cfg) ok State.init as s) : Placed cfg s :=
  hrun.invariant placed_init fun _ h _ hstep => placed_step h hstep

/-- What every action of the abstract machine that `p` admits preserves holds of every
connection, if `p` admits the labels of every step. -/
theorem views_invariant {I : Connection → Prop} {p : Connection → Connection.Action → Prop}
    {ok : State → Action → Prop} {as : List Action}
    (hrun : Reach (step cfg) ok State.init as s)
    (init : ∀ owner, I (.init owner)) (establish : ∀ owner, p (.init owner) .establish)
    (preserved : ∀ {v b v'}, I v → p v b → Connection.step v b = some v' → I v')
    (admits : ∀ {s a t}, Placed cfg s → (∀ c, c < s.nextObj → I (view s c)) → ok s a →
      effect cfg s a = .ok t → ∀ c, c < s.nextObj →
        Admits Connection.step p (view s c) (labels cfg s c a)) :
    ∀ c, c < s.nextObj → I (view s c) := by
  refine hrun.invariant (I := fun s => ∀ c, c < s.nextObj → I (view s c))
    (fun c hc => absurd hc (Nat.not_lt_zero c)) ?_
  intro as s a t hreach hinv hok hstep
  have hplaced := placed_of_reach hreach
  exact view_inv_step init establish preserved hplaced hinv (admits hplaced hinv hok) hstep

end TcpServer
end Bbkgl
