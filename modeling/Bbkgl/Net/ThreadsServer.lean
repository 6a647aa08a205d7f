import Bbkgl.Net.TcpConnectionAlike
import Bbkgl.Net.TcpConnectionParts
import Bbkgl.Net.TcpServerRefines
import Bbkgl.Net.Threads

/-!
# The threads' server and the loops' server

`TcpServer` and `Threads` are two models of one server. The methods of a connection are
the same definitions in both. Around the methods each has its own account of
`NewConnection`, `RemoveConnectionInLoop`, `HandleRead`, `HandleClose`, the functors and the
destruction. Here the two accounts are compared: from states that match, each function
fails in both or in neither, and leaves states that match.
-/

set_option autoImplicit false

namespace Bbkgl

open CS CS.Fallible TcpConnection

namespace Threads

/-- The call that stands for a functor in the queue of loop `i`. -/
def call (i : LoopId) : Functor → Call
  | .connEstablished c => .connEstablished c
  | .connDestroyed c => .connDestroyed c
  | .removeConnectionInLoop c => .removeConnectionInLoop c
  | .sendInLoop c who message => .sendInLoop c who message
  | .shutdownInLoop c => .shutdownInLoop c
  | .addTimerInLoop c => .addTimerInLoop i (.handleClose c) false
  | .writeComplete _ | .user => .user

/-- The same objects, entries, pollers and queues. -/
structure Matches (u : TcpServer.State) (s : State) : Prop where
  conn : ∀ c, Alike (u.conns c) (s.conns c)
  nextObj : s.nextObj = u.nextObj
  poller : ∀ i, (s.loops i).poller = (u.loops i).poller
  pending : ∀ i, (s.loops i).pending = (u.loops i).functors.pending.map (call i)
  connections : s.connections = u.connections
  nextConnId : s.nextConnId = u.nextConnId
  next : s.next = u.next

/-- A thread makes calls, and what they leave, until user code is next. -/
def perform (cfg : TcpServer.Config) (me : Caller) (k : Choice) :
    ℕ → State → List Call → Except Fault State
  | _, s, [] | _, s, .user :: _ | 0, s, _ => .ok s
  | n + 1, s, f :: fs => do
    let r ← effect cfg me k s f
    perform cfg me k n r.1 (r.2 ++ fs)

variable {cfg : TcpServer.Config} {me : Caller} {k : Choice} {u u' : TcpServer.State} {s s' : State}
  {i : LoopId} {c : ConnId} {f : Functor} {l l' : Local}

namespace Matches

theorem own (h : Matches u s) : own s c = TcpServer.own u c := (h.conn c).loop

theorem localOf (h : Matches u s) : Local.Alike (TcpServer.localOf u c) (localOf s c) := by
  have hconn := h.conn c
  rw [TcpServer.localOf, Threads.localOf, h.own, h.poller]
  generalize s.conns c = conn at hconn
  cases hconn with
  | mk b refs closeTimers log => exact .mk (TcpServer.localOf u c) b refs closeTimers log

/-- One object has changed, in both. -/
theorem setConn (h : Matches u s) {g k : TcpConnection → TcpConnection}
    (hconn : Alike (g (u.conns c)) (k (s.conns c))) :
    Matches (TcpServer.setConn u c g) (setConn s c k) where
  conn d := by
    simp only [TcpServer.setConn, Threads.setConn]
    by_cases hd : d = c
    · subst hd
      rw [Function.update_self, Function.update_self]
      exact hconn
    · rw [Function.update_of_ne hd, Function.update_of_ne hd]
      exact h.conn d
  nextObj := h.nextObj
  poller := h.poller
  pending := h.pending
  connections := h.connections
  nextConnId := h.nextConnId
  next := h.next

theorem setLoop (h : Matches u s) {g : TcpServer.Loop → TcpServer.Loop} {k : Loop → Loop}
    (hpoller : (k (s.loops i)).poller = (g (u.loops i)).poller)
    (hpending : (k (s.loops i)).pending = (g (u.loops i)).functors.pending.map (call i)) :
    Matches (TcpServer.setLoop u i g) (setLoop s i k) where
  conn := h.conn
  nextObj := h.nextObj
  poller j := by
    simp only [TcpServer.setLoop, Threads.setLoop]
    by_cases hj : j = i
    · subst hj
      rw [Function.update_self, Function.update_self]
      exact hpoller
    · rw [Function.update_of_ne hj, Function.update_of_ne hj]
      exact h.poller j
  pending j := by
    simp only [TcpServer.setLoop, Threads.setLoop]
    by_cases hj : j = i
    · subst hj
      rw [Function.update_self, Function.update_self]
      exact hpending
    · rw [Function.update_of_ne hj, Function.update_of_ne hj]
      exact h.pending j
  connections := h.connections
  nextConnId := h.nextConnId
  next := h.next

/-- What is pushed on one side is pushed on the other. -/
theorem push (h : Matches u s) : Matches (TcpServer.push u i f) (push s i (call i f)) := by
  have hpending : (s.loops i).pending ++ [call i f] =
      ((u.loops i).functors.pending ++ [f]).map (call i) := by
    rw [List.map_append, h.pending]
    rfl
  rw [TcpServer.push, TcpServer.setFunctors, Threads.push]
  exact h.setLoop (h.poller i) hpending

/-- A method is put back on both sides. -/
theorem putLocal (h : Matches u s) (hl : Local.Alike l l')
    (hqueued : ∀ f ∈ l.queued, f = .writeComplete c) :
    Matches (TcpServer.putLocal u c l) (putLocal s c l') := by
  have hcalls : l'.queued.map (fun _ => Call.user) =
      l.queued.map (call (TcpServer.own u c)) := by
    have hsame : l'.queued = l.queued := by
      cases hl
      rfl
    rw [hsame]
    refine List.map_congr_left fun f hf => ?_
    rw [hqueued f hf]
    rfl
  have hconn : Alike l.conn l'.conn := by
    cases hl with
    | mk b refs closeTimers log => exact .mk _ b refs closeTimers log
  have hloop : Matches _ _ := h.setLoop (i := TcpServer.own u c)
    (g := fun loop => { loop with
      poller := l.poller, functors := l.queued.foldl Mailbox.push loop.functors })
    (k := fun loop => { loop with
      poller := l'.poller, pending := loop.pending ++ l'.queued.map fun _ => .user })
    (by cases hl; rfl)
    (by
      show (s.loops _).pending ++ _ = (List.foldl Mailbox.push _ l.queued).pending.map _
      rw [TcpServer.foldl_push_pending, List.map_append, h.pending, hcalls])
  have hput := hloop.setConn (c := c) (g := fun _ => l.conn) (k := fun _ => l'.conn) hconn
  rw [Threads.putLocal, h.own]
  exact hput

/-- A method that does not see the difference runs on both sides, or fails on both. -/
theorem method (h : Matches u s) (site : Access) {g : Local → Except Fault Local}
    (hblind : Local.Blind g)
    (hparts : ∀ m, g (TcpServer.localOf u c) = .ok m → Local.Parts c (TcpServer.localOf u c) m) :
    Agree Matches (TcpServer.method u c site g) (method s c site g) := by
  rw [TcpServer.method, Threads.method, TcpServer.touch, Threads.touch, (h.conn c).alive]
  refine agree_check_bind fun _ => ?_
  have hagree := hblind (h.localOf (c := c))
  generalize hx : g (TcpServer.localOf u c) = x at hagree
  generalize g (Threads.localOf s c) = y at hagree
  cases hagree with
  | ok hm =>
    obtain ⟨fs, hqueued, hfs⟩ := Local.Parts.queued (hparts _ hx)
    refine .ok (h.putLocal hm fun f hf => ?_)
    rw [hqueued] at hf
    exact hfs f ((List.mem_append.mp hf).resolve_left List.not_mem_nil)
  | error e => exact .error e

end Matches

/-! ### The functions that the two models have of their own -/

theorem Matches.setConnections (h : Matches u s) (m : String → Option ConnId) :
    Matches { u with connections := m } { s with connections := m } where
  conn := h.conn
  nextObj := h.nextObj
  poller := h.poller
  pending := h.pending
  connections := rfl
  nextConnId := h.nextConnId
  next := h.next

/-- What only one of the models keeps. -/
theorem Matches.setHistory (h : Matches u s) {g : TcpConnection → TcpConnection}
    (hconn : Alike (g (u.conns c)) (s.conns c)) : Matches (TcpServer.setConn u c g) s := by
  have hset := h.setConn (k := fun conn => conn) hconn
  rwa [Threads.setConn, Function.update_eq_self] at hset

variable {n : ℕ} {fs : List Call}

theorem perform_nil : perform cfg me k n s [] = .ok s := by
  cases n <;> rfl

theorem perform_user : perform cfg me k n s (.user :: fs) = .ok s := by
  cases n <;> rfl

theorem perform_succ {f : Call} (hf : f ≠ .user) : perform cfg me k (n + 1) s (f :: fs) =
    effect cfg me k s f >>= fun r => perform cfg me k n r.1 (r.2 ++ fs) := by
  cases f with
  | user => exact absurd rfl hf
  | _ => rfl

theorem perform_queueInLoop {cb : Call} :
    perform cfg me k (n + 1) s [.queueInLoop i cb] = .ok (push s i cb) := by
  rw [perform_succ (by simp)]
  exact perform_nil

/-- `RunInLoop` is the call, or a `QueueInLoop`. -/
theorem perform_runInLoop {cb : Call} : perform cfg me k (n + 1) s [.runInLoop i cb] =
    perform cfg me k n s (if isInLoopThread me s i then [cb] else [.queueInLoop i cb]) := by
  rw [perform_succ (by simp)]
  exact congrArg _ (List.append_nil _)

/-- `RemoveConnectionInLoop`, with the `QueueInLoop` at its end. -/
theorem agree_removeConnectionInLoop (h : Matches u s) :
    Agree Matches (TcpServer.removeConnectionInLoop u c)
      (perform cfg me k (n + 2) s [.removeConnectionInLoop c]) := by
  have hown : own s c = TcpServer.own u c := h.own
  rw [perform_succ (by simp)]
  simp only [TcpServer.removeConnectionInLoop, effect, eraseConnection, (h.conn c).name,
    h.connections]
  split
  · have hrecord : Matches
        (TcpServer.setConn u c fun conn => { conn with log := conn.log ++ [.removed] }) s :=
      h.setHistory ((h.conn c).setLog _)
    show Agree Matches _ (perform cfg me k (n + 1) _ [.queueInLoop (own s c) (.connDestroyed c)])
    rw [perform_queueInLoop, hown]
    exact .ok (hrecord.setConnections _).push
  · exact .error _

theorem threadId_putLocal : ((putLocal s c l).loops i).threadId = (s.loops i).threadId := by
  simp only [putLocal, setLoop]
  by_cases hi : i = own s c
  · subst hi
    rw [Function.update_self]
  · rw [Function.update_of_ne hi]

theorem threadId_method {site : Access} {g : Local → Except Fault Local}
    (h : method s c site g = .ok s') : (s'.loops i).threadId = (s.loops i).threadId := by
  obtain ⟨-, h⟩ := check_bind_eq_ok_iff.mp h
  obtain ⟨l, -, h⟩ := bind_eq_ok_iff.mp h
  obtain rfl := pure_eq_ok_iff.mp h
  exact threadId_putLocal

/-- `HandleClose`, down to the removal on the base loop or the `QueueInLoop` there. -/
theorem agree_handleClose (h : Matches u s)
    (hbase : isInLoopThread me s 0 = decide (TcpServer.own u c = 0)) :
    Agree Matches (TcpServer.handleClose u c .handleEvent)
      (perform cfg me k (n + 5) s [.handleClose c]) := by
  have hmethod := h.method (c := c) .handleEvent Local.blind_handleClose fun m hm =>
    Local.parts_of_handleClose hm
  rw [perform_succ (by simp)]
  simp only [TcpServer.handleClose, effect, methodThen]
  generalize TcpServer.method u c .handleEvent (Local.handleClose c) = x at hmethod ⊢
  generalize hy : method s c .handleEvent (Local.handleClose c) = y at hmethod ⊢
  cases hmethod with
  | error e => exact .error e
  | @ok u' s' hm =>
    show Agree Matches _ (perform cfg me k (n + 4) s' [.removeConnection c])
    rw [perform_succ (by simp)]
    show Agree Matches _ (perform cfg me k (n + 3) s' [.runInLoop 0 (.removeConnectionInLoop c)])
    have hthread : isInLoopThread me s' 0 = isInLoopThread me s 0 := by
      rw [isInLoopThread, isInLoopThread, threadId_method hy]
    rw [perform_runInLoop, hthread, hbase]
    by_cases hown : TcpServer.own u c = 0
    · show Agree Matches (if TcpServer.own u c = 0 then _ else _) _
      rw [if_pos hown, if_pos (decide_eq_true hown)]
      exact agree_removeConnectionInLoop hm
    · show Agree Matches (if TcpServer.own u c = 0 then _ else _) _
      rw [if_neg hown, decide_eq_false hown, if_neg Bool.false_ne_true, perform_queueInLoop]
      exact .ok hm.push

theorem Matches.setPhaseOrFrame (h : Matches u s) {g : TcpServer.Loop → TcpServer.Loop}
    (hpoller : (g (u.loops i)).poller = (u.loops i).poller)
    (hfunctors : (g (u.loops i)).functors = (u.loops i).functors) :
    Matches (TcpServer.setLoop u i g) s := by
  have hset := h.setLoop (i := i) (g := g) (k := fun l => l) ((h.poller i).trans hpoller.symm)
    (by rw [hfunctors]; exact h.pending i)
  rwa [Threads.setLoop, Function.update_eq_self] at hset

theorem Matches.insertTimer (h : Matches u s) {cb : Call} {repeats : Bool} :
    Matches u (insertTimer s i cb repeats) := by
  have hset := h.setLoop (i := i) (g := fun l => l)
    (k := fun l => { l with timers := l.timers ++ [(cb, repeats)] }) (h.poller i) (h.pending i)
  rwa [TcpServer.setLoop, Function.update_eq_self] at hset

/-- `HandleRead`, down to the message callback. -/
theorem agree_handleRead (h : Matches u s)
    (hbase : isInLoopThread me s 0 = decide (TcpServer.own u c = 0)) :
    Agree Matches (TcpServer.handleRead u c k.readv)
      (perform cfg me k (n + 6) s [.handleRead c]) := by
  rw [perform_succ (by simp)]
  simp only [TcpServer.handleRead, effect, handleRead, TcpServer.touch, touch, (h.conn c).alive,
    (h.conn c).input]
  cases (u.conns c).alive with
  | false => exact .error _
  | true =>
    cases (u.conns c).input.readFd k.readv with
    | error f => exact .error _
    | ok r =>
      obtain ⟨input, m⟩ := r
      have hread : Matches (TcpServer.setConn u c fun conn => { conn with input := input })
          (setConn s c fun conn => { conn with input := input }) :=
        h.setConn ((h.conn c).setInput input)
      show Agree Matches (if 0 < m then _ else if m = 0 then _ else _)
        (perform cfg me k (n + 5) _ ((if 0 < m then _ else if m = 0 then _ else _) ++ []))
      rw [List.append_nil]
      by_cases hpos : 0 < m
      · rw [if_pos hpos, if_pos hpos, perform_user]
        exact .ok (hread.setPhaseOrFrame rfl rfl)
      · rw [if_neg hpos, if_neg hpos]
        by_cases hzero : m = 0
        · rw [if_pos hzero, if_pos hzero]
          refine agree_handleClose hread (hbase.trans ?_)
          rw [TcpServer.own, TcpServer.own, TcpServer.conns_setConn, if_pos rfl]
        · rw [if_neg hzero, if_neg hzero, perform_succ (by simp)]
          exact .ok hread

/-- `~TcpConnection`, which passes its assertion. -/
theorem agree_destroy (h : Matches u s)
    (hhandling : (u.conns c).channel.eventHandling = false) :
    Agree Matches (TcpServer.effect cfg u (.destroy c))
      (perform cfg me k (n + 1) s [.destroy c]) := by
  rw [perform_succ (by simp), TcpServer.effect, hhandling]
  show Agree Matches (.ok _) (perform cfg me k n _ [])
  rw [perform_nil, h.own, (h.conn c).fd]
  have hdead : Matches (TcpServer.setConn u c fun conn => { conn with alive := false })
      (setConn s c fun conn => { conn with alive := false }) := h.setConn (h.conn c).setDead
  have hloop : Matches _ _ := hdead.setLoop (i := TcpServer.own u c)
    (g := fun l => { l with poller := l.poller.close (u.conns c).channel.fd })
    (k := fun l => { l with poller := l.poller.close (u.conns c).channel.fd })
    (congrArg (fun ep => Epoller.close ep (u.conns c).channel.fd) (h.poller _)) (h.pending _)
  exact .ok hloop

/-- The pool has been started, and both stand at the same loop of it. -/
theorem getNextLoop_eq (h : Matches u s)
    (hpool : s.pool = (List.range cfg.numThreads).map fun i => i + 1)
    (hnext : cfg.numThreads = 0 ∨ u.next < cfg.numThreads) :
    getNextLoop s = TcpServer.getNextLoop cfg u := by
  rw [TcpServer.getNextLoop, getNextLoop, hpool]
  by_cases hzero : cfg.numThreads = 0
  · rw [if_pos hzero, hzero, ← h.next]
    rfl
  · have hlt := hnext.resolve_left hzero
    rw [if_neg hzero, ← h.next] at *
    split
    · next hnil =>
      have hlength := congrArg List.length hnil
      rw [List.length_map, List.length_range] at hlength
      exact absurd hlength hzero
    · rw [List.length_map, List.length_range, List.getD_eq_getElem?_getD, List.getElem?_map,
        List.getElem?_range (h.next ▸ hlt)]
      rfl

/-- A method that is followed by nothing. -/
theorem agree_methodThen (h : Matches u s) (site : Access) {g : Local → Except Fault Local}
    (hblind : Local.Blind g)
    (hparts : ∀ m, g (TcpServer.localOf u c) = .ok m → Local.Parts c (TcpServer.localOf u c) m) :
    Agree Matches (TcpServer.method u c site g)
      (methodThen s c site g [] >>= fun r => perform cfg me k n r.1 (r.2 ++ [])) := by
  have hmethod := h.method site hblind hparts
  rw [methodThen, bind_assoc]
  generalize TcpServer.method u c site g = x at hmethod ⊢
  generalize method s c site g = y at hmethod ⊢
  cases hmethod with
  | error e => exact .error e
  | @ok u' s' hm =>
    show Agree Matches _ (perform cfg me k n s' [])
    rw [perform_nil]
    exact .ok hm

/-- `HandleWrite`, which nothing follows. -/
theorem agree_handleWrite (h : Matches u s) :
    Agree Matches (TcpServer.method u c .handleEvent (Local.handleWrite c k.wr))
      (perform cfg me k (n + 1) s [.handleWrite c]) := by
  rw [perform_succ (by simp)]
  exact agree_methodThen h .handleEvent Local.blind_handleWrite
    fun m hm => Local.parts_of_handleWrite hm

/-- The end of `ConnDestroyed`, once the connection callback has returned. -/
theorem agree_connDestroyed_end (h : Matches u s) :
    Agree Matches (TcpServer.method u c .functor (Local.removeChannel c))
      (perform cfg me k (n + 1) s [.removeChannel c]) := by
  rw [perform_succ (by simp)]
  exact agree_methodThen h .functor Local.blind_removeChannel
    fun m hm => .single (.removeChannel _ _ hm)

/-- A method that is followed by a callback. -/
theorem agree_methodUser (h : Matches u s) (site : Access) {g : Local → Except Fault Local}
    (hblind : Local.Blind g)
    (hparts : ∀ m, g (TcpServer.localOf u c) = .ok m → Local.Parts c (TcpServer.localOf u c) m)
    {frame : TcpServer.Frame} :
    Agree Matches
      (TcpServer.method u c site g >>= fun u' => .ok (TcpServer.enterUser u' i frame))
      (methodThen s c site g (.user :: fs) >>= fun r => perform cfg me k n r.1 (r.2 ++ [])) := by
  rw [methodThen, bind_assoc]
  refine (h.method site hblind hparts).bind fun u' s' hm => ?_
  show Agree Matches _ (perform cfg me k n s' (.user :: (fs ++ [])))
  rw [perform_user]
  exact .ok (hm.setPhaseOrFrame rfl rfl)

/-- `NewConnection`, down to the connection callback or the `QueueInLoop` of
`ConnEstablished`. -/
theorem agree_newConnection (h : Matches u s)
    (hnext : getNextLoop s = TcpServer.getNextLoop cfg u)
    (hthread : ∀ i, isInLoopThread (.loop 0) s i = decide (i = 0)) {fd : ℕ} :
    Agree Matches (TcpServer.newConnection cfg u fd)
      (perform cfg (.loop 0) k (n + 3) s [.newConnection fd]) := by
  have hadded : Matches (TcpServer.withNewObject cfg u fd) (addConnection cfg s fd) := by
    simp only [addConnection, TcpServer.withNewObject, hnext, h.nextObj, h.nextConnId,
      h.connections]
    refine ⟨fun d => ?_, rfl, h.poller, h.pending, rfl, rfl, rfl⟩
    by_cases hd : d = u.nextObj
    · subst hd
      simp only [Function.update_self]
      exact .mk _ false 0 0 []
    · simp only [Function.update_of_ne hd]
      exact h.conn d
  rw [perform_succ (by simp), TcpServer.newConnection_eq]
  show Agree Matches _ (perform cfg _ k (n + 2) (addConnection cfg s fd)
    [.runInLoop (getNextLoop s).1 (.connEstablished s.nextObj)])
  rw [perform_runInLoop]
  have hsame : isInLoopThread (.loop 0) (addConnection cfg s fd) (getNextLoop s).1 =
      isInLoopThread (.loop 0) s (getNextLoop s).1 := rfl
  rw [hsame, hthread, hnext, h.nextObj]
  by_cases hbase : (TcpServer.getNextLoop cfg u).1 = 0
  · rw [if_pos hbase, if_pos (decide_eq_true hbase), perform_succ (by simp)]
    exact agree_methodUser hadded .functor Local.blind_connEstablished
      fun m hm => Local.parts_of_connEstablished hm
  · rw [if_neg hbase, decide_eq_false hbase, if_neg Bool.false_ne_true, perform_queueInLoop]
    exact .ok hadded.push

/-- Every functor, on the thread of the loop in whose queue it is: both models fail in it with
one fault, or both go on to states that match. -/
theorem agree_runFunctor (h : Matches u s) :
    Agree Matches (TcpServer.runFunctor u i k.wr f)
      (perform cfg (.loop i) k (n + 2) s [call i f]) := by
  cases f with
  | connEstablished c =>
    rw [call, perform_succ (by simp)]
    exact agree_methodUser h .functor Local.blind_connEstablished
      fun m hm => Local.parts_of_connEstablished hm
  | connDestroyed c =>
    rw [call, perform_succ (by simp)]
    exact agree_methodUser h .functor Local.blind_connDestroyed
      fun m hm => Local.parts_of_connDestroyed hm
  | removeConnectionInLoop c => exact agree_removeConnectionInLoop h
  | writeComplete c | user =>
    rw [call, perform_user]
    exact .ok (h.setPhaseOrFrame rfl rfl)
  | sendInLoop c who message =>
    rw [call, perform_succ (by simp)]
    exact agree_methodThen h .functor Local.blind_sendInLoop
      fun m hm => Local.parts_of_sendInLoop hm
  | shutdownInLoop c =>
    rw [call, perform_succ (by simp)]
    refine agree_methodThen h .functor Local.blind_shutdownInLoop fun m hm => ?_
    obtain rfl := Except.ok.inj hm
    exact Local.parts_shutdownInLoop
  | addTimerInLoop c =>
    rw [call, perform_succ (by simp)]
    show Agree Matches (.ok _) (perform cfg (.loop i) k (n + 1) _ [])
    rw [perform_nil]
    have hcounted : Matches
        (TcpServer.setConn u c fun conn => { conn with closeTimers := conn.closeTimers + 1 }) s :=
      h.setHistory ((h.conn c).setTimers _)
    exact .ok hcounted.insertTimer

end Threads
end Bbkgl
