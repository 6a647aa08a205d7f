import Bbkgl.Net.Threads
import Bbkgl.Net.TcpServerRecords
import Bbkgl.Net.TcpServerStream

/-!
# Every call is made where it belongs

`Home s t call` says on which thread a call belongs, and for a call that hands a
functor to a loop, where the functor belongs. It is kept by each step for all the
calls on all the stacks; beside them, what a loop has in its queue, in its timers
and in its epoll instance has to belong to its thread, which is `Good`.

Running on the thread of a loop that has been constructed is all that
`AssertInLoopThread` asks, so it never prints.
-/

set_option autoImplicit false

namespace Bbkgl
namespace Threads

open CS CS.Fallible CS.Transition TcpConnection

/-- The loop has been constructed, on its own thread. -/
def Running (s : State) (i : LoopId) : Prop := (s.loops i).threadId = some (.loop i)

/-- The thread is that of a loop which exists. -/
def OnLoop (s : State) (t : Caller) (i : LoopId) : Prop := t = .loop i ∧ Running s i

/-- `t` is the thread that has to run the methods of `c`. -/
def OnOwn (s : State) (t : Caller) (c : ConnId) : Prop := c < s.nextObj ∧ OnLoop s t (own s c)

/-- The channel is one of those of loop `i`. -/
def PtrOf (s : State) (i : LoopId) : Ptr → Prop
  | .conn c => c < s.nextObj ∧ own s c = i
  | .accept => i = 0
  | .timerfd | .wakeup => True

/-- The call may be made by the thread. -/
def Home (s : State) (t : Caller) : Call → Prop
  | .main => t = .loop 0
  | .threadFunc i => t = .loop i
  | .enableReading i p | .handleEvent i p _ => OnLoop s t i ∧ PtrOf s i p
  | .loop i | .doPendingFunctors i | .wakeupRead i | .timerRead i => OnLoop s t i
  | .runInLoop i cb | .queueInLoop i cb => Home s (.loop i) cb
  | .addTimer i cb _ => Running s i ∧ Home s (.loop i) cb
  | .addTimerInLoop i cb _ | .restart i cb => OnLoop s t i ∧ Home s (.loop i) cb
  | .start | .startThread _ | .startLoop _ | .startListening | .listen | .acceptRead
  | .newConnection _ => OnLoop s t 0
  | .removeConnectionInLoop c => OnLoop s t 0 ∧ c < s.nextObj
  | .connEstablished c | .connDestroyed c | .removeChannel c | .handleRead c | .handleWrite c
  | .handleClose c | .shutdownInLoop c => OnOwn s t c
  | .sendInLoop c _ message => OnOwn s t c ∧ message.length ≤ Buffer.maxSize
  | .send c message => c < s.nextObj ∧ message.length ≤ Buffer.maxSize
  | .removeConnection c | .shutdown c | .setDisconnecting c | .close c | .setWriteComplete c _
  | .inputBuffer c _ | .destroy c => c < s.nextObj
  | .handleError _ | .user => True

variable {cfg : TcpServer.Config} {me u : Caller} {k : Choice} {s t w : State} {i : LoopId}
  {c : ConnId} {p : Ptr} {f : Call} {next : List Call} {l l' : Local}

/-! ### What a step leaves -/

/-- The loops run on, and the connections stay where they are. -/
structure Extends (s t : State) : Prop where
  nextObj : s.nextObj ≤ t.nextObj
  own : ∀ c < s.nextObj, own t c = own s c
  running : ∀ i, Running s i → Running t i

theorem Extends.refl : Extends s s := ⟨Nat.le_refl _, fun _ _ => rfl, fun _ h => h⟩

theorem Extends.trans (h : Extends s t) (h' : Extends t w) : Extends s w where
  nextObj := Nat.le_trans h.nextObj h'.nextObj
  own c hc := (h'.own c (Nat.lt_of_lt_of_le hc h.nextObj)).trans (h.own c hc)
  running i hi := h'.running i (h.running i hi)

theorem OnLoop.mono (hext : Extends s t) (h : OnLoop s u i) : OnLoop t u i :=
  ⟨h.1, hext.running i h.2⟩

theorem OnOwn.mono (hext : Extends s t) (h : OnOwn s u c) : OnOwn t u c := by
  refine ⟨Nat.lt_of_lt_of_le h.1 hext.nextObj, ?_⟩
  rw [hext.own c h.1]
  exact h.2.mono hext

theorem PtrOf.mono (hext : Extends s t) (h : PtrOf s i p) : PtrOf t i p := by
  cases p with
  | conn c => exact ⟨Nat.lt_of_lt_of_le h.1 hext.nextObj, (hext.own c h.1).trans h.2⟩
  | timerfd => trivial
  | wakeup => trivial
  | accept => exact h

/-- A call that is at home stays so. -/
theorem Home.mono (hext : Extends s t) (h : Home s u f) : Home t u f := by
  induction f generalizing u with
  | main => exact h
  | threadFunc i => exact h
  | enableReading i p => exact ⟨h.1.mono hext, h.2.mono hext⟩
  | loop i => exact OnLoop.mono hext h
  | handleEvent i p revents => exact ⟨h.1.mono hext, h.2.mono hext⟩
  | doPendingFunctors i => exact OnLoop.mono hext h
  | runInLoop i cb ih => exact ih h
  | queueInLoop i cb ih => exact ih h
  | wakeupRead i => exact OnLoop.mono hext h
  | addTimer i cb repeats ih => exact ⟨hext.running i h.1, ih h.2⟩
  | addTimerInLoop i cb repeats ih => exact ⟨h.1.mono hext, ih h.2⟩
  | timerRead i => exact OnLoop.mono hext h
  | restart i cb ih => exact ⟨h.1.mono hext, ih h.2⟩
  | start => exact OnLoop.mono hext h
  | startThread i => exact OnLoop.mono hext h
  | startLoop i => exact OnLoop.mono hext h
  | startListening => exact OnLoop.mono hext h
  | listen => exact OnLoop.mono hext h
  | acceptRead => exact OnLoop.mono hext h
  | newConnection fd => exact OnLoop.mono hext h
  | removeConnection c => exact Nat.lt_of_lt_of_le h hext.nextObj
  | removeConnectionInLoop c => exact ⟨h.1.mono hext, Nat.lt_of_lt_of_le h.2 hext.nextObj⟩
  | connEstablished c => exact OnOwn.mono hext h
  | connDestroyed c => exact OnOwn.mono hext h
  | removeChannel c => exact OnOwn.mono hext h
  | handleRead c => exact OnOwn.mono hext h
  | handleWrite c => exact OnOwn.mono hext h
  | handleClose c => exact OnOwn.mono hext h
  | handleError c => trivial
  | send c message => exact ⟨Nat.lt_of_lt_of_le h.1 hext.nextObj, h.2⟩
  | sendInLoop c sender message => exact ⟨h.1.mono hext, h.2⟩
  | shutdown c => exact Nat.lt_of_lt_of_le h hext.nextObj
  | setDisconnecting c => exact Nat.lt_of_lt_of_le h hext.nextObj
  | shutdownInLoop c => exact OnOwn.mono hext h
  | close c => exact Nat.lt_of_lt_of_le h hext.nextObj
  | setWriteComplete c on => exact Nat.lt_of_lt_of_le h hext.nextObj
  | inputBuffer c u => exact Nat.lt_of_lt_of_le h hext.nextObj
  | destroy c => exact Nat.lt_of_lt_of_le h hext.nextObj
  | user => trivial

/-! ### The invariant -/

/-- What loop `i` has, it has for its own thread. -/
structure Fits (s : State) (i : LoopId) (l : Loop) : Prop where
  thread : ∀ u, l.threadId = some u → u = .loop i
  pending : ∀ f ∈ l.pending, Home s (.loop i) f
  timers : ∀ e ∈ l.timers, Home s (.loop i) e.1
  records : ∀ fd e, l.poller.kernel fd = some e → PtrOf s i (.conn e.2)
  channels : ∀ p ∈ l.channels, PtrOf s i p

/-- Connections are made only once the base loop runs, and for loops that run. -/
structure Served (s : State) (conn : TcpConnection) : Prop where
  running : Running s conn.loop
  base : Running s 0
  wf : conn.output.WF

/-- The function has run on the thread of the loop, where `AssertInLoopThread`
does not print; for `connections_` that is the base loop's. -/
structure Confined (e : Execution) : Prop where
  thread : e.thread = .loop e.loop
  inLoopThread : e.inLoopThread = true
  connections : e.function = .connections → e.loop = 0

/-- What is kept for later is kept for the right thread, and what has been executed was executed
there. -/
structure Good (s : State) : Prop where
  loops : ∀ i, Fits s i (s.loops i)
  conns : ∀ c < s.nextObj, Served s (s.conns c)
  pool : ∀ i ∈ s.pool, Running s i
  log : ∀ e ∈ s.log, Confined e

theorem Fits.mono {loop : Loop} (hext : Extends s t) (h : Fits s i loop) : Fits t i loop where
  thread := h.thread
  pending f hf := (h.pending f hf).mono hext
  timers e he := (h.timers e he).mono hext
  records fd e he := (h.records fd e he).mono hext
  channels p hp := (h.channels p hp).mono hext

theorem Served.mono {conn : TcpConnection} (hext : Extends s t) (h : Served s conn) :
    Served t conn :=
  ⟨hext.running _ h.running, hext.running _ h.base, h.wf⟩

/-- A step from `s` to `t` has kept the invariant. -/
structure Leads (s t : State) : Prop where
  good : Good t
  ext : Extends s t

theorem Leads.trans (h : Leads s t) (h' : Leads t w) : Leads s w :=
  ⟨h'.good, h.ext.trans h'.ext⟩

/-- Loops and connections are as before. -/
theorem Good.leads (h : Good s) (hloops : t.loops = s.loops) (hconns : t.conns = s.conns)
    (hnext : t.nextObj = s.nextObj) (hpool : ∀ i ∈ t.pool, i ∈ s.pool ∨ Running s i)
    (hlog : ∀ e ∈ t.log, e ∈ s.log ∨ Confined e) : Leads s t := by
  have hext : Extends s t := by
    refine ⟨Nat.le_of_eq hnext.symm, fun c _ => ?_, fun i hi => ?_⟩
    · rw [own, own, hconns]
    · rw [Running, hloops]
      exact hi
  refine ⟨⟨fun i => ?_, fun c hc => ?_, fun i hi => ?_, fun e he => ?_⟩, hext⟩
  · rw [hloops]
    exact (h.loops i).mono hext
  · rw [hconns]
    exact (h.conns c (hnext ▸ hc)).mono hext
  · exact hext.running i ((hpool i hi).elim (h.pool i) id)
  · exact (hlog e he).elim (h.log e) id

/-! ### Elementary changes -/

theorem loops_setLoop {g : Loop → Loop} : (setLoop s i g).loops i = g (s.loops i) :=
  Function.update_self ..

theorem loops_setLoop_of_ne {g : Loop → Loop} {j : LoopId} (h : j ≠ i) :
    (setLoop s i g).loops j = s.loops j :=
  Function.update_of_ne h ..

theorem conns_setConn {g : TcpConnection → TcpConnection} :
    (setConn s c g).conns c = g (s.conns c) :=
  Function.update_self ..

theorem conns_setConn_of_ne {g : TcpConnection → TcpConnection} {d : ConnId} (h : d ≠ c) :
    (setConn s c g).conns d = s.conns d :=
  Function.update_of_ne h ..

theorem extends_setLoop {g : Loop → Loop}
    (hrun : Running s i → (g (s.loops i)).threadId = some (.loop i)) :
    Extends s (setLoop s i g) := by
  refine ⟨Nat.le_refl _, fun _ _ => rfl, fun j hj => ?_⟩
  by_cases hji : j = i
  · subst hji
    rw [Running, loops_setLoop]
    exact hrun hj
  · rw [Running, loops_setLoop_of_ne hji]
    exact hj

theorem Good.setLoop (h : Good s) {g : Loop → Loop}
    (hrun : Running s i → (g (s.loops i)).threadId = some (.loop i))
    (hfits : Fits s i (g (s.loops i))) : Leads s (setLoop s i g) := by
  have hext := extends_setLoop hrun
  refine ⟨⟨fun j => ?_, fun c hc => (h.conns c hc).mono hext,
    fun j hj => hext.running j (h.pool j hj), h.log⟩, hext⟩
  by_cases hji : j = i
  · subst hji
    rw [loops_setLoop]
    exact hfits.mono hext
  · rw [loops_setLoop_of_ne hji]
    exact (h.loops j).mono hext

theorem Good.push (h : Good s) (hf : Home s (.loop i) f) : Leads s (push s i f) :=
  h.setLoop id { h.loops i with
    pending := fun g hg => (List.mem_append.mp hg).elim ((h.loops i).pending g) fun hg =>
      List.mem_singleton.mp hg ▸ hf }

theorem Good.insertTimer (h : Good s) {repeats : Bool} (hf : Home s (.loop i) f) :
    Leads s (insertTimer s i f repeats) :=
  h.setLoop id { h.loops i with
    timers := fun e he => (List.mem_append.mp he).elim ((h.loops i).timers e) fun he =>
      List.mem_singleton.mp he ▸ hf }

theorem Good.construct (h : Good s) : Leads s (construct (.loop i) s i) :=
  h.setLoop (fun _ => rfl)
    { thread := fun _ hu => (Option.some_inj.mp hu).symm
      pending := fun _ hf => absurd hf List.not_mem_nil
      timers := fun _ he => absurd he List.not_mem_nil
      records := fun _ _ he => absurd he (by simp [Epoller.empty])
      channels := fun _ hp => absurd hp List.not_mem_nil }

theorem running_construct : Running (construct (.loop i) s i) i := by
  rw [Running, construct, loops_setLoop]

theorem Good.setConn (h : Good s) {g : TcpConnection → TcpConnection}
    (hloop : (g (s.conns c)).loop = (s.conns c).loop)
    (hwf : (s.conns c).output.WF → (g (s.conns c)).output.WF) : Leads s (setConn s c g) := by
  have hext : Extends s (Threads.setConn s c g) := by
    refine ⟨Nat.le_refl _, fun d _ => ?_, fun _ hj => hj⟩
    by_cases hd : d = c
    · subst hd
      rw [own, conns_setConn]
      exact hloop
    · rw [own, conns_setConn_of_ne hd]
  refine ⟨⟨fun j => (h.loops j).mono hext, fun d hd => ?_, h.pool, h.log⟩, hext⟩
  by_cases hdc : d = c
  · subst hdc
    have hserved := (h.conns d hd).mono hext
    rw [conns_setConn]
    exact ⟨hloop ▸ hserved.running, hserved.base, hwf hserved.wf⟩
  · rw [conns_setConn_of_ne hdc]
    exact (h.conns d hd).mono hext

/-! ### Methods of a connection -/

/-- The method leaves the object what it is, and the poller no record of another. -/
structure Keeps (c : ConnId) (l l' : Local) : Prop where
  loop : l'.conn.loop = l.conn.loop
  wf : l'.conn.output.WF
  records : TcpServer.Local.Records c l l'

theorem keeps_of_acts {g : Connection → Connection} (hact : Local.Acts c l l' g)
    (hpolls : Local.Polls c l l') : Keeps c l l' :=
  ⟨hact.same.loop, hact.wf, TcpServer.Local.records_of_polls hpolls⟩

theorem Good.putLocal (h : Good s) (hc : c < s.nextObj) (hkeeps : Keeps c (localOf s c) l) :
    Leads s (putLocal s c l) := by
  have hloop : Leads s (Threads.setLoop s (own s c) fun loop =>
      { loop with
        poller := l.poller, pending := loop.pending ++ l.queued.map fun _ => .user }) := by
    refine h.setLoop id { h.loops (own s c) with pending := fun f hf => ?_, records := ?_ }
    · rcases List.mem_append.mp hf with hf | hf
      · exact (h.loops (own s c)).pending f hf
      · obtain ⟨-, -, rfl⟩ := List.mem_map.mp hf
        trivial
    · intro fd e he
      rcases hkeeps.records fd e.1 e.2 he with ⟨mask, hold⟩ | ⟨hown, -⟩
      · exact (h.loops (own s c)).records fd (mask, e.2) hold
      · rw [hown]
        exact ⟨hc, rfl⟩
  exact hloop.trans (hloop.good.setConn (g := fun _ => l.conn) hkeeps.loop fun _ => hkeeps.wf)

/-- A step has kept the invariant and left only calls that are at home. -/
structure Carries (me : Caller) (s t : State) (next : List Call) : Prop extends Leads s t where
  home : ∀ f ∈ next, Home t me f

theorem carries_methodThen (h : Good s) (hc : c < s.nextObj) {site : Access}
    {g : Local → Except Fault Local} {calls : List Call}
    (hkeeps : ∀ l, g (localOf s c) = .ok l → Keeps c (localOf s c) l)
    (hcalls : ∀ f ∈ calls, Home s me f) (hok : methodThen s c site g calls = .ok (t, next)) :
    Carries me s t next := by
  obtain ⟨m, hm, hok⟩ := bind_eq_ok_iff.mp hok
  obtain ⟨rfl, rfl⟩ := Prod.mk.inj (pure_eq_ok_iff.mp hok)
  obtain ⟨-, hm⟩ := check_bind_eq_ok_iff.mp hm
  obtain ⟨l, hl, hm⟩ := bind_eq_ok_iff.mp hm
  obtain rfl := pure_eq_ok_iff.mp hm
  have hleads := h.putLocal hc (hkeeps l hl)
  exact ⟨hleads, fun f hf => (hcalls f hf).mono hleads.ext⟩

/-- For the methods that need no more than the output buffer to be well formed. -/
theorem Good.wf (h : Good s) (hc : c < s.nextObj) : (localOf s c).conn.output.WF :=
  (h.conns c hc).wf

theorem keeps_connEstablished (h : Good s) (hc : c < s.nextObj)
    (hok : Local.connEstablished c (localOf s c) = .ok l) : Keeps c (localOf s c) l :=
  keeps_of_acts (Local.connEstablished_acts (h.wf hc) hok).2 (Local.polls_of_connEstablished hok)

theorem keeps_connDestroyed (h : Good s) (hc : c < s.nextObj)
    (hok : Local.connDestroyed c (localOf s c) = .ok l) : Keeps c (localOf s c) l :=
  keeps_of_acts (Local.connDestroyed_acts (h.wf hc) hok).2 (Local.polls_of_connDestroyed hok)

theorem keeps_handleClose (h : Good s) (hc : c < s.nextObj)
    (hok : Local.handleClose c (localOf s c) = .ok l) : Keeps c (localOf s c) l :=
  keeps_of_acts (Local.handleClose_acts (h.wf hc) hok).2 (Local.polls_of_handleClose hok)

theorem keeps_handleWrite (h : Good s) (hc : c < s.nextObj) {wr : WriteResult}
    (hok : Local.handleWrite c wr (localOf s c) = .ok l) : Keeps c (localOf s c) l :=
  keeps_of_acts (Local.handleWrite_acts (h.wf hc) hok) (Local.polls_of_handleWrite hok)

theorem keeps_sendInLoop (h : Good s) (hc : c < s.nextObj) {message : Bytes} {wr : WriteResult}
    (hlen : message.length ≤ Buffer.maxSize)
    (hok : Local.sendInLoop c u message wr (localOf s c) = .ok l) : Keeps c (localOf s c) l :=
  keeps_of_acts (Local.sendInLoop_acts (h.wf hc) hlen hok) (Local.polls_of_sendInLoop hok)

theorem keeps_shutdownInLoop (h : Good s) (hc : c < s.nextObj)
    (hok : Except.ok (localOf s c).shutdownInLoop = Except.ok (ε := Fault) l) :
    Keeps c (localOf s c) l := by
  obtain rfl := Except.ok.inj hok
  exact keeps_of_acts (Local.shutdownInLoop_acts (h.wf hc)) (Or.inl Local.unpolled_shutdownInLoop)

theorem keeps_removeChannel (h : Good s) (hc : c < s.nextObj)
    (hok : Local.removeChannel c (localOf s c) = .ok l) : Keeps c (localOf s c) l := by
  have hact := Local.removeChannel_acts (h.wf hc) hok
  exact ⟨hact.same.loop, hact.wf, TcpServer.Local.records_of_removeChannel hok⟩

/-! ### From one call to the next -/

theorem Good.eq_of_isInLoopThread (h : Good s) (hin : isInLoopThread me s i = true) :
    me = .loop i :=
  (h.loops i).thread me (of_decide_eq_true hin)

theorem OnLoop.isInLoopThread (h : OnLoop s me i) : isInLoopThread me s i = true := by
  rw [Threads.isInLoopThread, h.2, h.1]
  exact decide_eq_true rfl

theorem Good.leads_self (h : Good s) : Leads s s := ⟨h, .refl⟩

theorem Good.onOwn (h : Good s) (hc : c < s.nextObj) : OnOwn s (.loop (own s c)) c :=
  ⟨hc, rfl, (h.conns c hc).running⟩

theorem Good.base (h : Good s) (hc : c < s.nextObj) : OnLoop s (.loop 0) 0 :=
  ⟨rfl, (h.conns c hc).base⟩

/-- `RunInLoop` makes the call itself only on the thread of the loop. -/
theorem carries_runInLoop (h : Good s) (hf : Home s (.loop i) f) :
    Carries me s s (if isInLoopThread me s i then [f] else [.queueInLoop i f]) := by
  refine ⟨h.leads_self, fun g hg => ?_⟩
  split at hg
  · next hin =>
    obtain rfl := List.mem_singleton.mp hg
    rw [h.eq_of_isInLoopThread hin]
    exact hf
  · obtain rfl := List.mem_singleton.mp hg
    exact hf

/-- The callbacks of a channel are about what it belongs to. -/
theorem home_of_callback (hloop : OnLoop s me i) (hp : PtrOf s i p) {cb : Channel.Callback}
    (h : p.callback i cb = some f) : Home s me f := by
  have hown {d : ConnId} (hd : PtrOf s i (.conn d)) : OnOwn s me d := ⟨hd.1, hd.2.symm ▸ hloop⟩
  unfold Ptr.callback at h
  split at h
  · exact Option.some_inj.mp h ▸ hown hp
  · exact Option.some_inj.mp h ▸ trivial
  · exact Option.some_inj.mp h ▸ hown hp
  · exact Option.some_inj.mp h ▸ hown hp
  · exact Option.some_inj.mp h ▸ hloop
  · exact Option.some_inj.mp h ▸ hloop
  · obtain rfl : i = 0 := hp
    exact Option.some_inj.mp h ▸ hloop
  · exact absurd h (by simp)

/-- What the poller of a loop reports is the loop's own. -/
theorem ptrOf_of_reported (h : Good s) {revents : EventMask}
    (hreported : reported s i (p, revents) = true) : PtrOf s i p := by
  cases p with
  | conn c =>
    rw [reported, Epoller.mayReport] at hreported
    split at hreported
    · exact absurd hreported (by simp)
    · next mask q hkernel =>
      simp only [Bool.and_eq_true, decide_eq_true_eq] at hreported
      rw [← hreported.1.1]
      exact (h.loops i).records _ _ hkernel
  | timerfd => trivial
  | wakeup => trivial
  | accept => exact (h.loops i).channels .accept (of_decide_eq_true hreported)

theorem running_getNextLoop (h : Good s) (hbase : Running s 0) : Running s (getNextLoop s).1 := by
  rw [getNextLoop]
  split
  · exact hbase
  · rw [List.getD_eq_getElem?_getD]
    cases hnext : s.pool[s.next]? with
    | none => exact hbase
    | some j => exact h.pool j (List.mem_of_getElem? hnext)

theorem running_of_constructed (h : Good s) (hc : constructed s i = true) : Running s i := by
  obtain ⟨hid, -⟩ := Bool.and_eq_true_iff.mp hc
  obtain ⟨u, hu⟩ := Option.isSome_iff_exists.mp hid
  rw [Running, hu, (h.loops i).thread u hu]

theorem home_of_isApi (h : Good s) (hapi : isApi me s f = true) : Home s me f := by
  cases f with
  | send c message =>
    obtain ⟨hc, hlen⟩ := Bool.and_eq_true_iff.mp hapi
    exact ⟨of_decide_eq_true hc, of_decide_eq_true hlen⟩
  | shutdown c =>
    have hc : c < s.nextObj := of_decide_eq_true hapi
    exact hc
  | close c =>
    have hc : c < s.nextObj := of_decide_eq_true hapi
    exact hc
  | setWriteComplete c on =>
    have hc : c < s.nextObj := of_decide_eq_true hapi
    exact hc
  | destroy c =>
    have hc : c < s.nextObj := of_decide_eq_true hapi
    exact hc
  | inputBuffer c u =>
    have hc : c < s.nextObj := of_decide_eq_true (Bool.and_eq_true_iff.mp hapi).1
    exact hc
  | runInLoop j cb =>
    obtain rfl := of_decide_eq_true (Bool.and_eq_true_iff.mp hapi).2
    trivial
  | queueInLoop j cb =>
    obtain rfl := of_decide_eq_true (Bool.and_eq_true_iff.mp hapi).2
    trivial
  | addTimer j cb repeats =>
    obtain ⟨hj, hcb⟩ := Bool.and_eq_true_iff.mp hapi
    obtain rfl := of_decide_eq_true hcb
    exact ⟨running_of_constructed h hj, trivial⟩
  | start =>
    obtain rfl := h.eq_of_isInLoopThread hapi
    have hrun : (s.loops 0).threadId = some (.loop 0) := of_decide_eq_true hapi
    exact ⟨rfl, hrun⟩
  | _ => exact absurd hapi (by simp [isApi])

/-- What is executed belongs to the thread that makes the call. -/
theorem onLoop_of_executed (hhome : Home s me f) {e : Function × LoopId}
    (he : e ∈ executed k s f) : OnLoop s me e.2 ∧ (e.1 = .connections → e.2 = 0) := by
  have hown {d : ConnId} (hd : OnOwn s me d) (hmem : e.2 = own s d ∧ e.1 ≠ .connections) :
      OnLoop s me e.2 ∧ (e.1 = .connections → e.2 = 0) :=
    ⟨hmem.1 ▸ hd.2, fun hc => absurd hc hmem.2⟩
  have hloop {j : LoopId} (hj : OnLoop s me j) (hmem : e.2 = j ∧ (e.1 = .connections → j = 0)) :
      OnLoop s me e.2 ∧ (e.1 = .connections → e.2 = 0) := by
    rw [hmem.1]
    exact ⟨hj, hmem.2⟩
  cases f with
  | connEstablished c => exact hown hhome (by grind [executed])
  | connDestroyed c => exact hown hhome (by grind [executed])
  | handleClose c => exact hown hhome (by grind [executed])
  | removeChannel c => exact hown hhome (by grind [executed])
  | handleRead c => exact hown hhome (by grind [executed])
  | handleWrite c => exact hown hhome (by grind [executed])
  | sendInLoop c sender message => exact hown hhome.1 (by grind [executed])
  | shutdownInLoop c => exact hown hhome (by grind [executed])
  | enableReading i p => exact hloop hhome.1 (by grind [executed])
  | addTimerInLoop i cb repeats => exact hloop hhome.1 (by grind [executed])
  | timerRead i => exact hloop hhome (by grind [executed])
  | loop i => exact hloop hhome (by grind [executed])
  | start => exact hloop hhome (by grind [executed])
  | listen => exact hloop hhome (by grind [executed])
  | acceptRead => exact hloop hhome (by grind [executed])
  | newConnection fd => exact hloop hhome (by grind [executed])
  | removeConnectionInLoop c => exact hloop hhome.1 (by grind [executed])
  | _ => exact absurd he List.not_mem_nil

theorem Good.record (h : Good s) (hhome : Home s me f) :
    Leads s (record me s (executed k s f)) := by
  refine h.leads rfl rfl rfl (fun i hi => Or.inl hi) fun e he => ?_
  refine (List.mem_append.mp he).imp_right fun he => ?_
  obtain ⟨⟨g, i⟩, hmem, rfl⟩ := List.mem_map.mp he
  obtain ⟨hloop, hbase⟩ := onLoop_of_executed hhome hmem
  exact ⟨hloop.1, hloop.isInLoopThread, hbase⟩

theorem extends_addConnection {fd : ℕ} : Extends s (addConnection cfg s fd) where
  nextObj := Nat.le_succ _
  own c hc := by
    rw [own, addConnection]
    exact congrArg _ (Function.update_of_ne (Nat.ne_of_lt hc) ..)
  running _ h := h

theorem conns_addConnection {fd : ℕ} : (addConnection cfg s fd).conns s.nextObj =
    .new (getNextLoop s).1 (TcpServer.connName cfg (s.nextConnId + 1)) fd cfg.writeComplete :=
  Function.update_self ..

theorem conns_addConnection_of_ne {fd : ℕ} {d : ConnId} (h : d ≠ s.nextObj) :
    (addConnection cfg s fd).conns d = s.conns d :=
  Function.update_of_ne h ..

theorem Good.addConnection (h : Good s) (hbase : Running s 0) {fd : ℕ} :
    Leads s (addConnection cfg s fd) := by
  have hext : Extends s (Threads.addConnection cfg s fd) := extends_addConnection
  refine ⟨⟨fun i => (h.loops i).mono hext, fun c hc => ?_, h.pool, h.log⟩, hext⟩
  by_cases hnew : c = s.nextObj
  · subst hnew
    rw [conns_addConnection]
    exact ⟨running_getNextLoop h hbase, hbase, Buffer.wf_new⟩
  · have hold : c < s.nextObj := Nat.lt_of_le_of_ne (Nat.le_of_lt_succ hc) hnew
    rw [conns_addConnection_of_ne hnew]
    exact (h.conns c hold).mono hext

theorem carries_newConnection (h : Good s) (hbase : Running s 0) {fd : ℕ} :
    Carries me s (addConnection cfg s fd)
      [.runInLoop (getNextLoop s).1 (.connEstablished s.nextObj)] := by
  have hleads : Leads s (addConnection cfg s fd) := h.addConnection hbase
  have hown : OnOwn (addConnection cfg s fd) (.loop (own (addConnection cfg s fd) s.nextObj))
      s.nextObj := hleads.good.onOwn (Nat.lt_succ_self _)
  refine ⟨hleads, fun f hf => ?_⟩
  obtain rfl := List.mem_singleton.mp hf
  rw [own, conns_addConnection] at hown
  exact hown

theorem carries_handleRead (h : Good s) (hown : OnOwn s me c)
    (hok : handleRead k s c = .ok (t, next)) : Carries me s t next := by
  obtain ⟨-, hok⟩ := check_bind_eq_ok_iff.mp hok
  split at hok
  · exact absurd hok (by simp)
  · next input n hread =>
    obtain ⟨rfl, rfl⟩ := Prod.mk.inj (pure_eq_ok_iff.mp hok)
    have hleads : Leads s (setConn s c fun conn => { conn with input := input }) :=
      h.setConn rfl id
    refine ⟨hleads, fun f hf => ?_⟩
    split at hf
    · obtain rfl := List.mem_singleton.mp hf
      trivial
    · split at hf
      · obtain rfl := List.mem_singleton.mp hf
        exact hown.mono hleads.ext
      · obtain rfl := List.mem_singleton.mp hf
        trivial

theorem carries_construct (h : Good s) {calls : List Call}
    (hcalls : ∀ f ∈ calls, OnLoop (construct (.loop i) s i) (.loop i) i →
      Home (construct (.loop i) s i) (.loop i) f) :
    Carries (.loop i) s (construct (.loop i) s i)
      (.enableReading i .timerfd :: .enableReading i .wakeup :: calls) := by
  have hloop : OnLoop (construct (.loop i) s i) (.loop i) i := ⟨rfl, running_construct⟩
  refine ⟨h.construct, fun f hf => ?_⟩
  rcases List.mem_cons.mp hf with rfl | hf
  · exact ⟨hloop, trivial⟩
  · rcases List.mem_cons.mp hf with rfl | hf
    · exact ⟨hloop, trivial⟩
    · exact hcalls f hf hloop

theorem carries_loop (h : Good s) (hloop : OnLoop s me i)
    (hactive : k.active.all (reported s i) = true)
    (hok : effect cfg me k s (.loop i) = .ok (t, next)) : Carries me s t next := by
  simp only [effect] at hok
  split at hok
  · obtain ⟨rfl, rfl⟩ := Prod.mk.inj (Except.ok.inj hok)
    exact ⟨h.leads_self, by simp⟩
  · split at hok
    · obtain ⟨rfl, rfl⟩ := Prod.mk.inj (Except.ok.inj hok)
      refine ⟨h.leads_self, fun f hf => ?_⟩
      rcases List.mem_append.mp hf with hf | hf
      · obtain ⟨⟨p, revents⟩, hmem, rfl⟩ := List.mem_map.mp hf
        exact ⟨hloop, ptrOf_of_reported h (List.all_eq_true.mp hactive _ hmem)⟩
      · rcases List.mem_cons.mp hf with rfl | hf
        · exact hloop
        · obtain rfl := List.mem_singleton.mp hf
          exact hloop
    · exact absurd hok (by simp)

/-- The callbacks of the timers run where the timers are. -/
theorem carries_timerRead (h : Good s) (hloop : OnLoop s me i)
    (hexpired : k.expired.Subperm (s.loops i).timers) :
    Carries me s (setLoop s i fun l => { l with timers := l.timers.diff k.expired })
      (k.expired.map Prod.fst ++
        (k.expired.filter Prod.snd).map fun (cb, _) => .restart i cb) := by
  have hleads : Leads s (setLoop s i fun l => { l with timers := l.timers.diff k.expired }) :=
    h.setLoop id { h.loops i with
      timers := fun e he => (h.loops i).timers e (List.diff_subset _ _ he) }
  have hcb {e : Call × Bool} (he : e ∈ k.expired) : Home s me e.1 := by
    rw [hloop.1]
    exact (h.loops i).timers e (hexpired.subset he)
  refine ⟨hleads, fun f hf => Home.mono hleads.ext ?_⟩
  rcases List.mem_append.mp hf with hf | hf
  · obtain ⟨e, he, rfl⟩ := List.mem_map.mp hf
    exact hcb he
  · obtain ⟨e, he, rfl⟩ := List.mem_map.mp hf
    exact ⟨hloop, hloop.1 ▸ hcb (List.mem_filter.mp he).1⟩

theorem carries_start (h : Good s) (hbase : OnLoop s me 0)
    (hok : effect cfg me k s .start = .ok (t, next)) : Carries me s t next := by
  simp only [effect] at hok
  split at hok
  · obtain ⟨rfl, rfl⟩ := Prod.mk.inj (Except.ok.inj hok)
    exact ⟨h.leads_self, fun f hf => List.mem_singleton.mp hf ▸ hbase⟩
  · obtain ⟨rfl, rfl⟩ := Prod.mk.inj (Except.ok.inj hok)
    refine ⟨h.leads rfl rfl rfl (fun i hi => Or.inl hi) fun e he => Or.inl he, fun f hf => ?_⟩
    rcases List.mem_append.mp hf with hf | hf
    · obtain ⟨i, -, hf⟩ := List.mem_flatMap.mp hf
      rcases List.mem_cons.mp hf with rfl | hf
      · exact hbase
      · exact List.mem_singleton.mp hf ▸ hbase
    · exact List.mem_singleton.mp hf ▸ hbase

theorem carries_send (h : Good s) {message : Bytes}
    (hhome : c < s.nextObj ∧ message.length ≤ Buffer.maxSize)
    (hok : effect cfg me k s (.send c message) = .ok (t, next)) : Carries me s t next := by
  obtain ⟨rfl, rfl⟩ := Prod.mk.inj (Except.ok.inj hok)
  have hown := h.onOwn hhome.1
  refine ⟨h.leads_self, fun f hf => ?_⟩
  split at hf
  · split at hf
    · next hin =>
      obtain rfl := List.mem_singleton.mp hf
      exact ⟨h.eq_of_isInLoopThread hin ▸ hown, hhome.2⟩
    · obtain rfl := List.mem_singleton.mp hf
      exact ⟨hown, hhome.2⟩
  · exact absurd hf List.not_mem_nil

theorem carries_shutdown (h : Good s) (hc : c < s.nextObj)
    (hok : effect cfg me k s (.shutdown c) = .ok (t, next)) : Carries me s t next := by
  obtain ⟨rfl, rfl⟩ := Prod.mk.inj (Except.ok.inj hok)
  refine ⟨h.leads_self, fun f hf => ?_⟩
  split at hf
  · rcases List.mem_cons.mp hf with rfl | hf
    · exact hc
    · obtain rfl := List.mem_singleton.mp hf
      exact h.onOwn hc
  · exact absurd hf List.not_mem_nil

theorem carries_removeConnectionInLoop (h : Good s) (hc : c < s.nextObj)
    (hok : effect cfg me k s (.removeConnectionInLoop c) = .ok (t, next)) :
    Carries me s t next := by
  obtain ⟨m, hm, hok⟩ := bind_eq_ok_iff.mp hok
  obtain ⟨rfl, rfl⟩ := Prod.mk.inj (pure_eq_ok_iff.mp hok)
  simp only [eraseConnection] at hm
  split at hm
  · obtain rfl := Except.ok.inj hm
    have hleads : Leads s { s with
        connections := Function.update s.connections (s.conns c).name none } :=
      h.leads rfl rfl rfl (fun i hi => Or.inl hi) fun e he => Or.inl he
    refine ⟨hleads, fun f hf => ?_⟩
    obtain rfl := List.mem_singleton.mp hf
    exact h.onOwn hc
  · exact absurd hm (by simp)

theorem carries_destroy (h : Good s) (hok : effect cfg me k s (.destroy c) = .ok (t, next)) :
    Carries me s t next := by
  obtain ⟨rfl, rfl⟩ := Prod.mk.inj (Except.ok.inj hok)
  have hconn : Leads s (setConn s c fun conn => { conn with alive := false }) := h.setConn rfl id
  refine ⟨hconn.trans (hconn.good.setLoop id { hconn.good.loops (own s c) with
    records := fun fd e he => ?_ }), by simp⟩
  simp only [Epoller.close, Function.update_apply] at he
  split at he
  · exact absurd he (by simp)
  · exact (hconn.good.loops (own s c)).records fd e he

/-- Every function keeps the state good, and makes its calls where they belong. -/
theorem carries_effect (h : Good s) (hhome : Home s me f) (hpossible : possible me k s f = true)
    (hok : effect cfg me k s f = .ok (t, next)) : Carries me s t next := by
  cases f with
  | main =>
    obtain rfl : me = .loop 0 := hhome
    obtain ⟨rfl, rfl⟩ := Prod.mk.inj (Except.ok.inj hok)
    refine carries_construct h fun f hf hloop => ?_
    rcases List.mem_cons.mp hf with rfl | hf
    · trivial
    · exact List.mem_singleton.mp hf ▸ hloop
  | threadFunc i =>
    obtain rfl : me = .loop i := hhome
    obtain ⟨rfl, rfl⟩ := Prod.mk.inj (Except.ok.inj hok)
    exact carries_construct h fun f hf hloop => List.mem_singleton.mp hf ▸ hloop
  | enableReading i p =>
    obtain ⟨rfl, rfl⟩ := Prod.mk.inj (Except.ok.inj hok)
    exact ⟨h.setLoop id { h.loops i with
      channels := fun q hq => (List.mem_append.mp hq).elim ((h.loops i).channels q) fun hq =>
        List.mem_singleton.mp hq ▸ hhome.2 }, by simp⟩
  | loop i => exact carries_loop h hhome hpossible hok
  | handleEvent i p revents =>
    obtain ⟨-, -, hok⟩ := bind_eq_ok_iff.mp hok
    obtain ⟨rfl, rfl⟩ := Prod.mk.inj (pure_eq_ok_iff.mp hok)
    refine ⟨h.leads_self, fun f hf => ?_⟩
    obtain ⟨cb, -, hf⟩ := List.mem_filterMap.mp hf
    exact home_of_callback hhome.1 hhome.2 hf
  | doPendingFunctors i =>
    obtain ⟨rfl, rfl⟩ := Prod.mk.inj (Except.ok.inj hok)
    have hleads : Leads s (setLoop s i fun l => { l with pending := [] }) :=
      h.setLoop id { h.loops i with pending := fun f hf => absurd hf List.not_mem_nil }
    refine ⟨hleads, fun f hf => Home.mono hleads.ext ?_⟩
    rw [hhome.1]
    exact (h.loops i).pending f hf
  | runInLoop i cb =>
    obtain ⟨rfl, rfl⟩ := Prod.mk.inj (Except.ok.inj hok)
    exact carries_runInLoop h hhome
  | queueInLoop i cb =>
    obtain ⟨rfl, rfl⟩ := Prod.mk.inj (Except.ok.inj hok)
    exact ⟨h.push hhome, by simp⟩
  | wakeupRead i =>
    obtain ⟨rfl, rfl⟩ := Prod.mk.inj (Except.ok.inj hok)
    exact ⟨h.leads_self, by simp⟩
  | addTimer i cb repeats =>
    obtain ⟨rfl, rfl⟩ := Prod.mk.inj (Except.ok.inj hok)
    refine ⟨h.leads_self, fun f hf => ?_⟩
    obtain rfl := List.mem_singleton.mp hf
    exact ⟨⟨rfl, hhome.1⟩, hhome.2⟩
  | addTimerInLoop i cb repeats =>
    obtain ⟨rfl, rfl⟩ := Prod.mk.inj (Except.ok.inj hok)
    exact ⟨h.insertTimer hhome.2, by simp⟩
  | timerRead i =>
    obtain ⟨rfl, rfl⟩ := Prod.mk.inj (Except.ok.inj hok)
    exact carries_timerRead h hhome (of_decide_eq_true hpossible)
  | restart i cb =>
    obtain ⟨rfl, rfl⟩ := Prod.mk.inj (Except.ok.inj hok)
    exact ⟨h.insertTimer hhome.2, by simp⟩
  | start => exact carries_start h hhome hok
  | startThread i =>
    obtain ⟨rfl, rfl⟩ := Prod.mk.inj (Except.ok.inj hok)
    exact ⟨h.leads rfl rfl rfl (fun j hj => Or.inl hj) fun e he => Or.inl he, by simp⟩
  | startLoop i =>
    obtain ⟨rfl, rfl⟩ := Prod.mk.inj (Except.ok.inj hok)
    refine ⟨h.leads rfl rfl rfl (fun j hj => ?_) fun e he => Or.inl he, by simp⟩
    refine (List.mem_append.mp hj).imp_right fun hj => ?_
    obtain rfl := List.mem_singleton.mp hj
    exact running_of_constructed h hpossible
  | startListening =>
    obtain ⟨rfl, rfl⟩ := Prod.mk.inj (Except.ok.inj hok)
    refine ⟨h.leads_self, fun f hf => ?_⟩
    split at hf
    · exact absurd hf List.not_mem_nil
    · obtain rfl := List.mem_singleton.mp hf
      exact ⟨rfl, hhome.2⟩
  | listen =>
    obtain ⟨rfl, rfl⟩ := Prod.mk.inj (Except.ok.inj hok)
    refine ⟨h.leads rfl rfl rfl (fun j hj => Or.inl hj) fun e he => Or.inl he, fun f hf => ?_⟩
    obtain rfl := List.mem_singleton.mp hf
    exact ⟨hhome, rfl⟩
  | acceptRead =>
    obtain ⟨rfl, rfl⟩ := Prod.mk.inj (Except.ok.inj hok)
    refine ⟨h.leads_self, fun f hf => ?_⟩
    split at hf
    · exact List.mem_singleton.mp hf ▸ hhome
    · exact absurd hf List.not_mem_nil
  | newConnection fd =>
    obtain ⟨rfl, rfl⟩ := Prod.mk.inj (Except.ok.inj hok)
    exact carries_newConnection h hhome.2
  | removeConnection c =>
    obtain ⟨rfl, rfl⟩ := Prod.mk.inj (Except.ok.inj hok)
    refine ⟨h.leads_self, fun f hf => ?_⟩
    obtain rfl := List.mem_singleton.mp hf
    exact ⟨h.base hhome, hhome⟩
  | removeConnectionInLoop c => exact carries_removeConnectionInLoop h hhome.2 hok
  | connEstablished c =>
    refine carries_methodThen h hhome.1 (fun l => keeps_connEstablished h hhome.1)
      (fun f hf => ?_) hok
    obtain rfl := List.mem_singleton.mp hf
    trivial
  | connDestroyed c =>
    refine carries_methodThen h hhome.1 (fun l => keeps_connDestroyed h hhome.1)
      (fun f hf => ?_) hok
    rcases List.mem_cons.mp hf with rfl | hf
    · trivial
    · exact List.mem_singleton.mp hf ▸ hhome
  | removeChannel c =>
    exact carries_methodThen h hhome.1 (fun l => keeps_removeChannel h hhome.1) (by simp) hok
  | handleRead c => exact carries_handleRead h hhome hok
  | handleWrite c =>
    exact carries_methodThen h hhome.1 (fun l => keeps_handleWrite h hhome.1) (by simp) hok
  | handleClose c =>
    refine carries_methodThen h hhome.1 (fun l => keeps_handleClose h hhome.1)
      (fun f hf => ?_) hok
    obtain rfl := List.mem_singleton.mp hf
    exact hhome.1
  | handleError c =>
    obtain ⟨rfl, rfl⟩ := Prod.mk.inj (Except.ok.inj hok)
    exact ⟨h.leads_self, by simp⟩
  | send c message => exact carries_send h hhome hok
  | sendInLoop c sender message =>
    exact carries_methodThen h hhome.1.1 (fun l => keeps_sendInLoop h hhome.1.1 hhome.2) (by simp)
      hok
  | shutdown c => exact carries_shutdown h hhome hok
  | setDisconnecting c =>
    obtain ⟨rfl, rfl⟩ := Prod.mk.inj (Except.ok.inj hok)
    exact ⟨h.setConn rfl id, by simp⟩
  | shutdownInLoop c =>
    exact carries_methodThen h hhome.1 (fun l => keeps_shutdownInLoop h hhome.1) (by simp) hok
  | close c =>
    obtain ⟨rfl, rfl⟩ := Prod.mk.inj (Except.ok.inj hok)
    refine ⟨h.leads_self, fun f hf => ?_⟩
    obtain rfl := List.mem_singleton.mp hf
    exact ⟨(h.conns c hhome).running, h.onOwn hhome⟩
  | setWriteComplete c on =>
    obtain ⟨rfl, rfl⟩ := Prod.mk.inj (Except.ok.inj hok)
    exact ⟨h.setConn rfl id, by simp⟩
  | inputBuffer c u =>
    simp only [effect] at hok
    split at hok
    · obtain ⟨rfl, rfl⟩ := Prod.mk.inj (Except.ok.inj hok)
      exact ⟨h.setConn rfl id, by simp⟩
    · exact absurd hok (by simp)
  | destroy c => exact carries_destroy h hok
  | user =>
    obtain ⟨rfl, rfl⟩ := Prod.mk.inj (Except.ok.inj hok)
    refine ⟨h.leads_self, fun f hf => ?_⟩
    split at hf
    · next call hcall =>
      rcases List.mem_cons.mp hf with rfl | hf
      · exact home_of_isApi h (by simpa [possible, hcall] using hpossible)
      · exact List.mem_singleton.mp hf ▸ trivial
    · exact absurd hf List.not_mem_nil

/-! ### Runs -/

theorem possible_record {fs : List (Function × LoopId)} :
    possible me k (record me s fs) f = possible me k s f := by
  cases f <;> rfl

theorem exec_eq_some (h : exec cfg me k s f = some (t, next)) : possible me k s f = true ∧
    (effect cfg me k (record me s (executed k s f)) f = .ok (t, next) ∨
      (∃ e, t = { record me s (executed k s f) with fault := some e }) ∧ next = []) := by
  simp only [exec, Option.ite_none_right_eq_some] at h
  obtain ⟨hpossible, h⟩ := h
  refine ⟨(Bool.and_eq_true_iff.mp hpossible).2, ?_⟩
  split at h
  · next r hok => exact Or.inl (hok.trans (congrArg _ (Option.some_inj.mp h)))
  · next e hfault =>
    obtain ⟨rfl, rfl⟩ := Prod.mk.inj (Option.some_inj.mp h)
    exact Or.inr ⟨⟨e, rfl⟩, rfl⟩

/-- What is executed is recorded whether or not the call comes to its end. -/
theorem carries_exec (h : Good s) (hhome : Home s me f)
    (hexec : exec cfg me k s f = some (t, next)) : Carries me s t next := by
  obtain ⟨hpossible, hok | ⟨⟨e, rfl⟩, rfl⟩⟩ := exec_eq_some hexec
  · have hrecord : Leads s (record me s (executed k s f)) := h.record hhome
    have heffect := carries_effect hrecord.good (hhome.mono hrecord.ext)
      (possible_record.trans hpossible) hok
    exact ⟨hrecord.trans heffect.toLeads, heffect.home⟩
  · have hrecord : Leads s (record me s (executed k s f)) := h.record hhome
    refine ⟨hrecord.trans (hrecord.good.leads rfl rfl rfl (fun i hi => Or.inl hi) fun e he =>
      Or.inl he), by simp⟩

/-- `Good` and `Home` are kept by every step of every thread. -/
theorem keeps_exec : CallStack.Keeps (exec cfg) Good Home where
  good h hhome hexec := (carries_exec h hhome hexec).good
  next h hhome hexec := (carries_exec h hhome hexec).home
  other h hhome hexec := Home.mono (carries_exec h hhome hexec).ext

theorem good_init : Good State.init where
  loops i :=
    { thread := fun _ hu => absurd hu (by simp [State.init])
      pending := fun _ hf => absurd hf List.not_mem_nil
      timers := fun _ he => absurd he List.not_mem_nil
      records := fun _ _ he => absurd he (by simp [State.init, Epoller.empty])
      channels := fun _ hp => absurd hp List.not_mem_nil }
  conns _ hc := absurd hc (Nat.not_lt_zero _)
  pool _ hi := absurd hi List.not_mem_nil
  log _ he := absurd he List.not_mem_nil

theorem atHome_init : CallStack.AtHome Home (init cfg) := by
  intro u f hf
  simp only [init] at hf
  split at hf
  · obtain rfl := List.mem_singleton.mp hf
    rfl
  · split at hf
    · obtain rfl := List.mem_singleton.mp hf
      rfl
    · exact absurd hf List.not_mem_nil
  · split at hf
    · obtain rfl := List.mem_singleton.mp hf
      trivial
    · exact absurd hf List.not_mem_nil

/-- In every run, a function that has to run on the thread of a loop does, and
`AssertInLoopThread` finds it there; `connections_` is the base loop's. -/
theorem confined {s : CallStack Caller Call State} {as : List (Caller × Choice)}
    (h : Reach (step cfg) Always (init cfg) as s) {e : Execution} (he : e ∈ s.data.log) :
    e.thread = .loop e.loop ∧ e.inLoopThread = true ∧
      (e.function = .connections → e.thread = .loop 0) := by
  have hlog : Confined e := (keeps_exec.reach h good_init atHome_init).1.log e he
  refine ⟨hlog.thread, hlog.inLoopThread, fun hf => ?_⟩
  rw [hlog.thread, hlog.connections hf]

/-- Steps of one thread. -/
def calls (u : Caller) (ks : List Choice) : List (Caller × Choice) := ks.map (u, ·)

/-- The program starts the server, the acceptor has a connection, and loop 1 establishes it. -/
def accepted : List (Caller × Choice) :=
  calls (.loop 0) [{}, {}, {}, { api := some .start }, {}, {}] ++ calls (.loop 1) [{}, {}, {}] ++
  calls (.loop 0) [{}, {}, {}, {}, {}, {}, { active := [(.accept, pollIn)] }, {},
    { accepted := some 7 }, {}, {}, {}] ++
  calls (.loop 1) [{}, {}, {}, {}]

/-- A thread of the user calls `Send` and `Close`; then the peer closes, and `connections_` of
the base loop loses the connection. -/
def peerCloses : List (Caller × Choice) :=
  accepted ++
  calls (.user 0) [{ api := some (.send 0 [104]) }, {}, {}, {}, { api := some (.close 0) }, {}, {},
    {}, {}] ++
  calls (.loop 1) [{ active := [(.conn 0, pollIn)] }, {}, { readv := some [] }, {}, {}, {}, {}, {},
    { wr := some 1 }, {}] ++
  calls (.loop 0) [{}, {}, {}]

/-- The functions that the run below logs, in their order. -/
def executedThere : List Function :=
  [.updateChannel, .updateChannel, .start, .updateChannel, .updateChannel, .listen,
    .updateChannel, .loop, .acceptRead, .newConnection, .getNextLoop, .connections, .loop,
    .connEstablished, .updateChannel, .loop, .handleRead, .handleClose, .updateChannel,
    .sendInLoop, .addTimerInLoop, .removeConnectionInLoop, .connections]

/-- A connection comes and is closed by its peer, and each function runs on its own thread. -/
theorem confined_peerCloses :
    ∃ s, run (step TcpServer.oneThread) (init TcpServer.oneThread) peerCloses = some s ∧
      s.data.log.map Execution.function = executedThere ∧
      ∀ e ∈ s.data.log, e.thread = .loop e.loop := by
  have hend : (run (step TcpServer.oneThread) (init TcpServer.oneThread) peerCloses).map
      (fun s => s.data.log.map Execution.function) =
        some executedThere := by decide +kernel
  obtain ⟨s, hs, hlog⟩ := Option.map_eq_some_iff.mp hend
  exact ⟨s, hs, hlog, fun e he => (confined (reach_of_run hs) he).1⟩

end Threads
end Bbkgl
