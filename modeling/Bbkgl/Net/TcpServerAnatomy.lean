import Bbkgl.Net.TcpConnectionParts
import Bbkgl.Net.TcpServerFaults

/-!
# The anatomy of a step

Every step of the server has three parts. It opens: the thread moves on in its walk or
its batch, an object is made or goes, a pointer is copied. It works: something is queued,
a field of an object changes, one method of one connection runs. And it ends, in the
removal of an entry, in a call of the user's code, or as it is. `anatomy` says so of every
step, and what is proved of the parts holds of the steps.
-/

set_option autoImplicit false

namespace Bbkgl

/-- The connection that a functor runs a method of. -/
def Functor.subject : Functor → Option ConnId
  | .connEstablished c | .connDestroyed c | .sendInLoop c _ _ | .shutdownInLoop c => some c
  | .removeConnectionInLoop _ | .writeComplete _ | .addTimerInLoop _ | .user => none

/-- What a step queues, beside the methods, the removal of an entry and the calls of other
threads. -/
def Functor.isOwn : Functor → Bool
  | .connEstablished _ | .removeConnectionInLoop _ | .addTimerInLoop _ | .user => true
  | .connDestroyed _ | .writeComplete _ | .sendInLoop _ _ _ | .shutdownInLoop _ => false

namespace TcpServer

open CS CS.Fallible TcpConnection Relation

/-- A call of the user's code. -/
inductive Entry
  | connection (c : ConnId) (up : Bool)
  | message (c : ConnId)
  | writeComplete (c : ConnId)
  /-- a functor or a handler of the user's own -/
  | user
  deriving DecidableEq, Repr

namespace Entry

/-- The connection that the callback is about, if any. -/
def conn : Entry → Option ConnId
  | connection c _ | message c | writeComplete c => some c
  | user => none

/-- The frame of the callback on the loop's thread. -/
def frame : Entry → Frame
  | connection c up => ⟨some c, false, !up⟩
  | message c => ⟨some c, true, false⟩
  | writeComplete c => ⟨some c, false, false⟩
  | user => ⟨none, false, false⟩

theorem frame_conn (e : Entry) : e.frame.conn = e.conn := by
  cases e with
  | connection c up | message c | writeComplete c | user => rfl

end Entry

/-- The callback of `HandleEvent` that the step makes. -/
def callback : Action → Option (LoopId × Channel.Callback)
  | .handleClose i => some (i, .close)
  | .handleError i => some (i, .error)
  | .handleRead i _ => some (i, .read)
  | .handleWrite i _ => some (i, .write)
  | _ => none

variable (cfg : Config) (s : State)

/-- What the functor calls, on the thread of loop `i`. -/
def functorEntry (i : LoopId) : Functor → Option (LoopId × Entry)
  | .connEstablished c => some (own s c, .connection c true)
  | .connDestroyed c => some (own s c, .connection c false)
  | .writeComplete c => some (i, .writeComplete c)
  | .user => some (i, .user)
  | .removeConnectionInLoop _ | .sendInLoop _ _ _ | .shutdownInLoop _ | .addTimerInLoop _ => none

/-- The user's code that the step calls, and the loop on whose thread. -/
def enters : Action → Option (LoopId × Entry)
  | .newConnection _ =>
    if (getNextLoop cfg s).1 = 0 then some (0, .connection s.nextObj true) else none
  | .runFunctor i _ => (s.loops i).functors.rest.head?.bind (functorEntry s i)
  | .handleRead i readv =>
    if readv.getD [] = [] then none else some (own s (handled s i), .message (handled s i))
  | .userCode i => some (i, .user)
  | _ => none

/-- The connection that the step runs a method of. -/
def subject : Action → Option ConnId
  | .handleClose i | .handleWrite i _ => some (handled s i)
  | .handleRead i readv => if readv = some [] then some (handled s i) else none
  | .newConnection _ => if (getNextLoop cfg s).1 = 0 then some s.nextObj else none
  | .closeTimer c => some c
  | .send _ c _ _ | .shutdown _ c => if (s.conns c).state = .connected then some c else none
  | .runFunctor i _ => (s.loops i).functors.rest.head?.bind Functor.subject
  | .userReturn i => (s.loops i).frame.bind fun frame =>
    if frame.removeChannel then frame.conn else none
  | _ => none

/-- The method that the functor runs. -/
def functorMethod (c : ConnId) (wr : WriteResult) : Functor → Local → Except Fault Local
  | .connEstablished _ => Local.connEstablished c
  | .connDestroyed _ => Local.connDestroyed c
  | .sendInLoop _ who message => Local.sendInLoop c who message wr
  | .shutdownInLoop _ => fun l => .ok l.shutdownInLoop
  | .removeConnectionInLoop _ | .writeComplete _ | .addTimerInLoop _ | .user => .ok

/-- The method of its subject `c` that the step runs. -/
def methodOf (c : ConnId) : Action → Local → Except Fault Local
  | .handleClose _ | .handleRead _ _ | .closeTimer _ => Local.handleClose c
  | .handleWrite _ wr => Local.handleWrite c wr
  | .newConnection _ => Local.connEstablished c
  | .send who _ message wr => Local.sendInLoop c who message wr
  | .shutdown _ _ => fun l => .ok (l.setState .disconnecting).shutdownInLoop
  | .runFunctor i wr => match (s.loops i).functors.rest with
    | f :: _ => functorMethod c wr f
    | [] => .ok
  | .userReturn _ => Local.removeChannel c
  | _ => .ok

/-- The step adds a timer of `Close`, or queues the functor that does. -/
def addsTimer : Action → Bool
  | .close _ _ => true
  | .runFunctor i _ => (s.loops i).functors.rest.head?.any fun
    | .addTimerInLoop _ => true
    | _ => false
  | _ => false

/-! ### The three parts -/

/-- User code makes a call, or is called; the thread is in no walk and no batch. -/
def Action.isCall : Action → Bool
  | .userCode _ | .send _ _ _ _ | .shutdown _ _ | .close _ _ | .queueInLoop _ _
  | .setWriteComplete _ _ _ => true
  | _ => false

/-- What a step does first. -/
inductive Opens : Action → State → Prop
  | poll (i : LoopId) (active : List (ConnId × EventMask)) :
      Opens (.poll i active) (setPhase s i (.dispatch active))
  | handleEvent (i : LoopId) (c : ConnId) (revents : EventMask)
      (active : List (ConnId × EventMask))
      (h : (s.loops i).phase = .dispatch ((c, revents) :: active)) :
      Opens (.handleEvent i) (setPhase (setEventHandling s c true) i
        (.handling c (Channel.handleEvent revents) active))
  | handleClose (i : LoopId) : Opens (.handleClose i) (nextCallback s i)
  | handleError (i : LoopId) : Opens (.handleError i) (nextCallback s i)
  | handleRead (i : LoopId) (readv : Option Bytes) (input : Buffer) (n : ℤ)
      (h : (s.conns (handled s i)).input.readFd readv = .ok (input, n)) :
      Opens (.handleRead i readv)
        (setConn (nextCallback s i) (handled s i) fun conn => { conn with input := input })
  | handleWrite (i : LoopId) (wr : WriteResult) : Opens (.handleWrite i wr) (nextCallback s i)
  | endEvent (i : LoopId) (c : ConnId) (active : List (ConnId × EventMask))
      (h : (s.loops i).phase = .handling c [] active) :
      Opens (.endEvent i) (setPhase (setEventHandling s c false) i (.dispatch active))
  | newConnection (fd : ℕ) : Opens (.newConnection fd) (withNewObject cfg s fd)
  | closeTimer (c : ConnId) : Opens (.closeTimer c)
      (setConn s c fun conn => { conn with closeTimers := conn.closeTimers - 1 })
  | doPendingFunctors (i : LoopId) : Opens (.doPendingFunctors i)
      (setPhase (setFunctors s i (s.loops i).functors.swap) i .functors)
  | runFunctor (i : LoopId) (wr : WriteResult) (f : Functor) (fs : List Functor)
      (h : (s.loops i).functors.rest = f :: fs) :
      Opens (.runFunctor i wr) (setFunctors s i (s.loops i).functors.advance)
  | finishFunctors (i : LoopId) : Opens (.finishFunctors i)
      (setPhase (setFunctors s i (s.loops i).functors.finish) i .poll)
  | userReturn (i : LoopId) : Opens (.userReturn i) (setLoop s i fun l => { l with frame := none })
  | proceed (who : Caller) (call : Call) (h : s.calls who = some call) :
      Opens (.proceed who) (proceed s who call)
  | inputBuffer (i : LoopId) (u : Buffer.Use) (c : ConnId) (input : Buffer)
      (hc : (s.loops i).frame.bind Frame.conn = some c)
      (h : u.exec (s.conns c).input = .ok input) :
      Opens (.inputBuffer i u) (setConn s c fun conn => { conn with input := input })
  | keep (who : Caller) (c : ConnId) : Opens (.keep who c)
      (setConn s c fun conn => { conn with refs := conn.refs + 1 })
  | drop (c : ConnId) : Opens (.drop c)
      (setConn s c fun conn => { conn with refs := conn.refs - 1 })
  | destroy (c : ConnId) : Opens (.destroy c)
      (setLoop (setConn s c fun conn => { conn with alive := false }) (own s c) fun l =>
        { l with poller := l.poller.close (s.conns c).channel.fd })
  | call (a : Action) (h : a.isCall = true) : Opens a s

/-- Neither the channel nor a buffer has changed, and the object is the same. -/
structure Edited (conn conn' : TcpConnection) : Prop where
  fixed : Local.Fixed conn conn'
  events : conn'.channel.events = conn.channel.events
  index : conn'.channel.index = conn.channel.index
  output : conn'.output = conn.output

/-- To a method the object is as the step has found it. -/
structure Found (conn conn' : TcpConnection) : Prop where
  state : conn'.state = conn.state
  events : conn'.channel.events = conn.channel.events
  index : conn'.channel.index = conn.channel.index
  output : conn'.output = conn.output

/-- One change that a step makes in between. -/
inductive Works (a : Action) : State → State → Prop
  | push (m : State) (i : LoopId) (f : Functor) (h : f.isOwn = true)
      (htimer : ∀ c, f = .addTimerInLoop c → addsTimer s a = true) : Works a m (push m i f)
  | setConn (m : State) (c : ConnId) (g : TcpConnection → TcpConnection)
      (h : Edited (m.conns c) (g (m.conns c))) (hrefs : (g (m.conns c)).refs = (m.conns c).refs)
      (hhandling : (g (m.conns c)).channel.eventHandling = (m.conns c).channel.eventHandling)
      (htimer : (g (m.conns c)).closeTimers = (m.conns c).closeTimers ∨ addsTimer s a = true) :
      Works a m (setConn m c g)
  | setCall (m : State) (who : Caller) (call : Option Call) : Works a m (setCall m who call)
  | method (m : State) (c : ConnId) (l : Local) (hc : subject cfg s a = some c)
      (halive : (m.conns c).alive = true) (h : Local.Parts c (localOf m c) l)
      (hfound : c < s.nextObj → Found (s.conns c) (m.conns c))
      (hmethod : methodOf s c a (localOf m c) = .ok l) : Works a m (putLocal m c l)

/-- The user's code is called. -/
def pushes (m : State) : Option (LoopId × Entry) → State
  | some (i, e) => enterUser m i e.frame
  | none => m

/-- What a step does last. -/
def Ends (a : Action) (m t : State) : Prop :=
  match removes s a with
  | some d => removeConnectionInLoop m d = .ok t
  | none => t = pushes m (enters cfg s a)

variable {cfg s} {m m' t : State} {i j : LoopId} {c d : ConnId} {f : Functor} {l l' : Local}
  {who : Caller} {a : Action}

theorem pushes_loop {p : Option (LoopId × Entry)} :
    ((pushes m p).loops j).phase = (m.loops j).phase ∧ todo (pushes m p) j = todo m j := by
  cases p with
  | none => exact ⟨rfl, rfl⟩
  | some p =>
    rw [pushes, enterUser, todo, loops_setLoop]
    split
    · next h => exact h ▸ ⟨rfl, rfl⟩
    · exact ⟨rfl, rfl⟩

theorem pushes_conns {p : Option (LoopId × Entry)} :
    (pushes m p).conns = m.conns ∧ (pushes m p).nextObj = m.nextObj := by
  cases p with
  | none | some p => exact ⟨rfl, rfl⟩

/-! ### Parts that several steps have -/

/-- The method of a functor in parts. -/
theorem parts_of_functorMethod {wr : WriteResult} (h : functorMethod c wr f l = .ok l') :
    Local.Parts c l l' := by
  cases f with
  | connEstablished => exact Local.parts_of_connEstablished h
  | connDestroyed => exact Local.parts_of_connDestroyed h
  | sendInLoop => exact Local.parts_of_sendInLoop h
  | shutdownInLoop => exact Except.ok.inj h ▸ Local.parts_shutdownInLoop
  | removeConnectionInLoop | writeComplete | addTimerInLoop | user => exact Except.ok.inj h ▸ .refl

/-- The method of a step in parts. -/
theorem parts_of_methodOf (h : methodOf s c a l = .ok l') : Local.Parts c l l' := by
  cases a with
  | handleClose | handleRead | closeTimer => exact Local.parts_of_handleClose h
  | handleWrite => exact Local.parts_of_handleWrite h
  | newConnection => exact Local.parts_of_connEstablished h
  | send => exact Local.parts_of_sendInLoop h
  | shutdown =>
    obtain rfl := Except.ok.inj h
    have hset : Local.Parts c l (l.setState .disconnecting) := .single (.setState _ _)
    exact hset.trans Local.parts_shutdownInLoop
  | runFunctor i wr =>
    rw [methodOf] at h
    cases hrest : (s.loops i).functors.rest with
    | nil =>
      rw [hrest] at h
      exact Except.ok.inj h ▸ .refl
    | cons f fs =>
      rw [hrest] at h
      exact parts_of_functorMethod h
  | userReturn => exact .single (.removeChannel _ _ h)
  | _ => exact Except.ok.inj h ▸ .refl

/-- A method leaves the object the same. -/
theorem same_of_parts (h : Local.Parts c l l') : Same l.conn l'.conn :=
  ⟨h.fixed.loop, h.fixed.name, h.fixed.fd, h.fixed.alive, h.leaves.refs⟩

/-- Every method but `Remove` goes through `UpdateChannel` once at most. -/
theorem polls_of_methodOf (hreturn : ∀ i, a ≠ .userReturn i) (h : methodOf s c a l = .ok l') :
    Local.Polls c l l' := by
  have same : ∀ {k : Local}, (.ok l : Except Fault Local) = .ok k → Local.Polls c l k := fun hk =>
    Or.inl (Except.ok.inj hk ▸ ⟨rfl, rfl⟩)
  cases a with
  | handleClose | handleRead | closeTimer => exact Local.polls_of_handleClose h
  | handleWrite => exact Local.polls_of_handleWrite h
  | newConnection => exact Local.polls_of_connEstablished h
  | send => exact Local.polls_of_sendInLoop h
  | shutdown =>
    obtain rfl := Except.ok.inj h
    have hset : Local.Unpolled l (l.setState .disconnecting) := ⟨rfl, rfl⟩
    exact Or.inl (hset.trans Local.unpolled_shutdownInLoop)
  | runFunctor i wr =>
    rw [methodOf] at h
    cases hrest : (s.loops i).functors.rest with
    | nil =>
      rw [hrest] at h
      exact same h
    | cons f fs =>
      rw [hrest] at h
      cases f with
      | connEstablished => exact Local.polls_of_connEstablished h
      | connDestroyed => exact Local.polls_of_connDestroyed h
      | sendInLoop => exact Local.polls_of_sendInLoop h
      | shutdownInLoop => exact Or.inl (Except.ok.inj h ▸ Local.unpolled_shutdownInLoop)
      | removeConnectionInLoop | writeComplete | addTimerInLoop | user => exact same h
  | userReturn i => exact absurd rfl (hreturn i)
  | _ => exact same h

/-- The method of the step is one change in between. -/
theorem works_method {site : Access} (hc : subject cfg s a = some c)
    (hfound : c < s.nextObj → Found (s.conns c) (m.conns c))
    (hok : method m c site (methodOf s c a) = .ok t) : ReflTransGen (Works cfg s a) m t := by
  obtain ⟨halive, l, hl, rfl⟩ := method_eq_ok_iff.mp hok
  exact .single (.method m c l hc halive (parts_of_methodOf hl) hfound hl)

theorem works_functor {wr : WriteResult} {fs : List Functor}
    (hrest : (s.loops i).functors.rest = f :: fs) (hconns : m.conns = s.conns)
    (hc : f.subject = some c) {site : Access}
    (hok : method m c site (functorMethod c wr f) = .ok t) :
    ReflTransGen (Works cfg s (.runFunctor i wr)) m t := by
  have hmethod : methodOf s c (.runFunctor i wr) = functorMethod c wr f := by
    rw [methodOf, hrest]
  refine works_method ?_ (fun _ => ?_) (hmethod ▸ hok)
  · rw [subject, hrest, List.head?_cons, Option.bind_some, hc]
  · rw [hconns]
    exact ⟨rfl, rfl, rfl, rfl⟩

/-- `HandleClose`, and the removal on the base loop. -/
theorem ends_handleClose (hc : subject cfg s a = some c) (hcloses : closes s a = some c)
    (hruns : runs s a = none) (henters : enters cfg s a = none) (hown : own m c = own s c)
    (hfound : Found (s.conns c) (m.conns c)) (hmethod : methodOf s c a = Local.handleClose c)
    {site : Access} (hok : handleClose m c site = .ok t) :
    ∃ m', ReflTransGen (Works cfg s a) m m' ∧ Ends cfg s a m' t := by
  obtain ⟨k, hk, hok⟩ := bind_eq_ok_iff.mp hok
  have hmethod := works_method hc (fun _ => hfound) (hmethod ▸ hk)
  have hremoves : removes s a = if own s c = 0 then some c else none := by
    rw [removes, hruns, hcloses, Option.filter_some]
    simp only [decide_eq_true_eq]
  rw [hown] at hok
  split at hok
  · next hbase =>
    refine ⟨k, hmethod, ?_⟩
    rw [Ends, hremoves, if_pos hbase]
    exact hok
  · next hio =>
    refine ⟨_, hmethod.tail (.push k 0 (.removeConnectionInLoop c) rfl (by simp)), ?_⟩
    rw [Ends, hremoves, if_neg hio, henters]
    exact (pure_eq_ok_iff.mp hok).symm

/-- A step that calls nothing and removes nothing. -/
theorem ends_of_works (h : ReflTransGen (Works cfg s a) m t) (hremoves : removes s a = none)
    (henters : enters cfg s a = none) :
    ∃ m', ReflTransGen (Works cfg s a) m m' ∧ Ends cfg s a m' t := by
  refine ⟨t, h, ?_⟩
  rw [Ends, hremoves, henters]
  rfl

/-- A step that calls the user's code in the end. -/
theorem ends_of_enters {p : LoopId × Entry} (h : ReflTransGen (Works cfg s a) m m')
    (hremoves : removes s a = none) (henters : enters cfg s a = some p)
    (ht : t = enterUser m' p.1 p.2.frame) :
    ∃ m', ReflTransGen (Works cfg s a) m m' ∧ Ends cfg s a m' t := by
  refine ⟨m', h, ?_⟩
  rw [Ends, hremoves, henters]
  exact ht

/-- A functor runs its method, and then calls its callback. -/
theorem ends_runFunctor {wr : WriteResult} {fs : List Functor}
    (hrest : (s.loops i).functors.rest = f :: fs) (hconns : m.conns = s.conns)
    (hok : runFunctor m i wr f = .ok t) :
    ∃ m', ReflTransGen (Works cfg s (.runFunctor i wr)) m m' ∧
      Ends cfg s (.runFunctor i wr) m' t := by
  have hruns : runs s (.runFunctor i wr) = some f := by rw [runs, hrest, List.head?_cons]
  have henters : enters cfg s (.runFunctor i wr) = functorEntry s i f := by
    rw [enters, hrest, List.head?_cons, Option.bind_some]
  have hremoves : (∀ d, f ≠ .removeConnectionInLoop d) → removes s (.runFunctor i wr) = none := by
    intro hne
    rw [removes, hruns]
    split
    · next d hd => exact absurd (Option.some_inj.mp hd) (hne d)
    · rfl
  have hown : ∀ c, own m c = own s c := fun c => by rw [own, own, hconns]
  cases f with
  | connEstablished c | connDestroyed c =>
    obtain ⟨k, hk, hok⟩ := bind_eq_ok_iff.mp hok
    refine ends_of_enters (works_functor hrest hconns rfl hk) (hremoves (by simp)) henters ?_
    rw [← pure_eq_ok_iff.mp hok, hown]
    rfl
  | removeConnectionInLoop c =>
    refine ⟨m, .refl, ?_⟩
    rw [Ends, removes, hruns]
    exact hok
  | sendInLoop c | shutdownInLoop c =>
    exact ends_of_works (works_functor hrest hconns rfl hok) (hremoves (by simp)) henters
  | writeComplete c | user =>
    exact ends_of_enters .refl (hremoves (by simp)) henters (Except.ok.inj hok).symm
  | addTimerInLoop c =>
    obtain rfl := Except.ok.inj hok
    refine ends_of_works (.single (.setConn m c _ ?_ rfl rfl (Or.inr ?_))) (hremoves (by simp))
      henters
    · exact ⟨⟨rfl, rfl, rfl, rfl, rfl⟩, rfl, rfl, rfl⟩
    · rw [addsTimer, hrest]
      rfl

/-- A `Send` from the loop's own thread runs a method, and any other begins a call. -/
theorem works_send {message : Bytes} {wr : WriteResult} (hok : send s who c message wr = .ok t) :
    ReflTransGen (Works cfg s (.send who c message wr)) s t := by
  simp only [send] at hok
  split at hok
  · next hstate =>
    have hsent : ReflTransGen (Works cfg s (.send who c message wr)) s
        (setConn s c fun conn => { conn with log := conn.log ++ [.sent who message] }) :=
      .single (.setConn s c _ ⟨⟨rfl, rfl, rfl, rfl, rfl⟩, rfl, rfl, rfl⟩ rfl rfl (Or.inl rfl))
    split at hok
    · refine hsent.trans (works_method (if_pos hstate) (fun _ => ?_) hok)
      rw [conns_setConn, if_pos rfl]
      exact ⟨rfl, rfl, rfl, rfl⟩
    · obtain rfl := Except.ok.inj hok
      exact hsent.tail (.setCall _ _ _)
  · obtain rfl := Except.ok.inj hok
    exact .refl

/-- A `Shutdown` from the loop's own thread runs a method, and any other begins a call. -/
theorem works_shutdown (hok : shutdown s who c = .ok t) :
    ReflTransGen (Works cfg s (.shutdown who c)) s t := by
  simp only [shutdown] at hok
  split at hok
  · next hstate =>
    split at hok
    · exact works_method (if_pos hstate) (fun _ => ⟨rfl, rfl, rfl, rfl⟩) hok
    · obtain rfl := Except.ok.inj hok
      exact .single (.setCall _ _ _)
  · obtain rfl := Except.ok.inj hok
    exact .refl

/-- `ConnEstablished` at once on the base loop, else through the queue. -/
theorem ends_newConnection {fd : ℕ} (hok : newConnection cfg s fd = .ok t) :
    ∃ m', ReflTransGen (Works cfg s (.newConnection fd)) (withNewObject cfg s fd) m' ∧
      Ends cfg s (.newConnection fd) m' t := by
  rw [newConnection_eq] at hok
  split at hok
  · next hbase =>
    obtain ⟨k, hk, hok⟩ := bind_eq_ok_iff.mp hok
    have hown : own (withNewObject cfg s fd) s.nextObj = 0 := by
      simp [own, withNewObject, TcpConnection.new, hbase]
    refine ends_of_enters (works_method (if_pos hbase) (fun hlt => ?_) hk) rfl (if_pos hbase) ?_
    · exact absurd hlt (Nat.lt_irrefl _)
    rw [← pure_eq_ok_iff.mp hok, hown]
    rfl
  · next hio =>
    obtain rfl := Except.ok.inj hok
    exact ends_of_works (.single (.push _ _ (.connEstablished s.nextObj) rfl (by simp))) rfl
      (if_neg hio)

theorem nextCallback_own : own (nextCallback s i) c = own s c := by
  rw [own, own, nextCallback_frame.1]

/-- To the callback the object is as the step has found it. -/
theorem found_nextCallback : Found (s.conns c) ((nextCallback s i).conns c) := by
  rw [nextCallback_frame.1]
  exact ⟨rfl, rfl, rfl, rfl⟩

/-- End of file closes, data goes to the user's code, and nothing comes of an error. -/
theorem anatomy_handleRead {readv : Option Bytes}
    (hok : handleRead (nextCallback s i) (handled s i) readv = .ok t) :
    ∃ m m', Opens cfg s (.handleRead i readv) m ∧
      ReflTransGen (Works cfg s (.handleRead i readv)) m m' ∧
      Ends cfg s (.handleRead i readv) m' t := by
  rw [handleRead, touch, check_bind_eq_ok_iff] at hok
  obtain ⟨-, hok⟩ := hok
  split at hok
  · exact absurd hok (by simp)
  · next input n hread =>
    have hn := Buffer.readFd_eq_ok hread
    rw [nextCallback_frame.1] at hread
    have hown : own (setConn (nextCallback s i) (handled s i) fun conn =>
        { conn with input := input }) (handled s i) = own s (handled s i) := by
      rw [own, conns_setConn, if_pos rfl]
      exact nextCallback_own
    suffices h : ∃ m', ReflTransGen (Works cfg s (.handleRead i readv)) (setConn (nextCallback s i)
        (handled s i) fun conn => { conn with input := input }) m' ∧
        Ends cfg s (.handleRead i readv) m' t by
      obtain ⟨m', hworks, hends⟩ := h
      exact ⟨_, m', .handleRead i readv input n hread, hworks, hends⟩
    cases readv with
    | none =>
      simp only [hn] at hok
      obtain rfl := pure_eq_ok_iff.mp hok
      exact ends_of_works .refl rfl rfl
    | some data =>
      cases data with
      | nil =>
        simp only [hn] at hok
        refine ends_handleClose (by simp [subject]) (by simp [closes]) rfl rfl hown ?_ rfl hok
        rw [conns_setConn, if_pos rfl, nextCallback_frame.1]
        exact ⟨rfl, rfl, rfl, rfl⟩
      | cons byte rest =>
        have hpos : 0 < n := by simp [hn]
        rw [if_pos hpos] at hok
        obtain rfl := pure_eq_ok_iff.mp hok
        have hremoves : removes s (.handleRead i (some (byte :: rest))) = none := by
          simp [removes, runs, closes]
        have henters : enters cfg s (.handleRead i (some (byte :: rest))) =
            some (own s (handled s i), .message (handled s i)) := by
          simp [enters]
        refine ends_of_enters .refl hremoves henters ?_
        rw [nextCallback_own]
        rfl

/-! ### Every step -/

theorem anatomy (hg : guard cfg s a = true) (hok : effect cfg s a = .ok t) :
    ∃ m m', Opens cfg s a m ∧ ReflTransGen (Works cfg s a) m m' ∧ Ends cfg s a m' t := by
  cases a with
  | poll i active =>
    simp only [effect] at hok
    split at hok
    · obtain rfl := Except.ok.inj hok
      exact ⟨_, _, .poll i active, .refl, rfl⟩
    · exact absurd hok (by simp)
  | handleEvent i =>
    simp only [guard] at hg
    split at hg
    · next e active hphase =>
      simp only [effect, hphase] at hok
      obtain ⟨-, hok⟩ := check_bind_eq_ok_iff.mp hok
      obtain rfl := pure_eq_ok_iff.mp hok
      exact ⟨_, _, .handleEvent i _ _ active hphase, .refl, rfl⟩
    · exact absurd hg (by simp)
  | handleClose i =>
    exact ⟨_, (ends_handleClose rfl rfl rfl rfl nextCallback_own found_nextCallback rfl hok).imp
      fun _ h => ⟨.handleClose i, h⟩⟩
  | handleError i => exact ⟨_, _, .handleError i, .refl, (Except.ok.inj hok).symm⟩
  | handleRead i readv => exact anatomy_handleRead hok
  | handleWrite i wr =>
    exact ⟨_, _, .handleWrite i wr, works_method rfl (fun _ => found_nextCallback) hok, rfl⟩
  | endEvent i =>
    simp only [guard] at hg
    split at hg
    · next c active hphase =>
      simp only [effect, hphase] at hok
      obtain ⟨-, hok⟩ := check_bind_eq_ok_iff.mp hok
      obtain rfl := pure_eq_ok_iff.mp hok
      exact ⟨_, _, .endEvent i c active hphase, .refl, rfl⟩
    · exact absurd hg (by simp)
  | newConnection fd =>
    exact ⟨_, (ends_newConnection hok).imp fun _ h => ⟨.newConnection fd, h⟩⟩
  | closeTimer c =>
    have hself : (setConn s c fun conn => { conn with closeTimers := conn.closeTimers - 1 }).conns c
        = { s.conns c with closeTimers := (s.conns c).closeTimers - 1 } :=
      conns_setConn.trans (if_pos rfl)
    have hown : own (setConn s c fun conn => { conn with closeTimers := conn.closeTimers - 1 }) c =
        own s c := by
      rw [own, hself]
    have hfound : Found (s.conns c)
        ((setConn s c fun conn => { conn with closeTimers := conn.closeTimers - 1 }).conns c) := by
      rw [hself]
      exact ⟨rfl, rfl, rfl, rfl⟩
    exact ⟨_, (ends_handleClose rfl rfl rfl rfl hown hfound rfl hok).imp fun _ h =>
      ⟨.closeTimer c, h⟩⟩
  | userCode i => exact ⟨_, _, .call _ rfl, .refl, (Except.ok.inj hok).symm⟩
  | doPendingFunctors i =>
    exact ⟨_, _, .doPendingFunctors i, .refl, (Except.ok.inj hok).symm⟩
  | finishFunctors i => exact ⟨_, _, .finishFunctors i, .refl, (Except.ok.inj hok).symm⟩
  | runFunctor i wr =>
    simp only [guard, Bool.and_eq_true] at hg
    simp only [effect] at hok
    split at hok
    · next hrest => simp [hrest] at hg
    · next f fs hrest =>
      have hconns : (setFunctors s i (s.loops i).functors.advance).conns = s.conns := rfl
      exact ⟨_, (ends_runFunctor hrest hconns hok).imp fun _ h =>
        ⟨.runFunctor i wr f fs hrest, h⟩⟩
  | userReturn i =>
    simp only [effect] at hok
    split at hok
    · next c message hframe =>
      refine ⟨_, _, .userReturn i, works_method ?_ (fun _ => ⟨rfl, rfl, rfl, rfl⟩) hok, rfl⟩
      rw [subject, hframe]
      rfl
    · exact ⟨_, _, .userReturn i, .refl, (Except.ok.inj hok).symm⟩
  | send who c message wr => exact ⟨_, _, .call _ rfl, works_send hok, rfl⟩
  | shutdown who c => exact ⟨_, _, .call _ rfl, works_shutdown hok, rfl⟩
  | close who c =>
    obtain rfl := Except.ok.inj hok
    refine ⟨s, close s who c, .call _ rfl, ?_, rfl⟩
    rw [TcpServer.close]
    split
    · exact .single (.setConn s c _ ⟨⟨rfl, rfl, rfl, rfl, rfl⟩, rfl, rfl, rfl⟩ rfl rfl
        (Or.inr rfl))
    · exact .single (.push s _ _ rfl fun _ _ => rfl)
  | proceed who =>
    simp only [effect] at hok
    split at hok
    · next hnone => simp [guard, hnone] at hg
    · next call hcall => exact ⟨_, _, .proceed who call hcall, .refl, (Except.ok.inj hok).symm⟩
  | queueInLoop who i =>
    obtain rfl := Except.ok.inj hok
    exact ⟨_, _, .call _ rfl, .single (.push s i _ rfl (by simp)), rfl⟩
  | setWriteComplete who c on =>
    refine ⟨_, t, .call _ rfl, ?_, rfl⟩
    obtain rfl := Except.ok.inj hok
    exact .single (.setConn s c _ ⟨⟨rfl, rfl, rfl, rfl, rfl⟩, rfl, rfl, rfl⟩ rfl rfl (Or.inl rfl))
  | inputBuffer i u =>
    simp only [effect] at hok
    split at hok
    · next hnone =>
      simp only [guard, Bool.and_eq_true, Option.any_eq_true] at hg
      obtain ⟨-, frame, hframe, -, hconn⟩ := hg
      rw [hframe, Option.bind_some] at hnone
      exact absurd hconn (by simp [hnone])
    · next c hc =>
      split at hok
      · next input hexec =>
        exact ⟨_, _, .inputBuffer i u c input hc hexec, .refl, (Except.ok.inj hok).symm⟩
      · exact absurd hok (by simp)
  | keep who c => exact ⟨_, _, .keep who c, .refl, (Except.ok.inj hok).symm⟩
  | drop c => exact ⟨_, _, .drop c, .refl, (Except.ok.inj hok).symm⟩
  | destroy c =>
    simp only [effect] at hok
    split at hok
    · exact absurd hok (by simp)
    · exact ⟨_, _, .destroy c, .refl, (Except.ok.inj hok).symm⟩

/-! ### Proofs by parts -/

/-- What each change in between keeps, all of them keep. -/
theorem works_invariant {I : State → Prop} (h : ReflTransGen (Works cfg s a) m m') (hm : I m)
    (works : ∀ {k k'}, I k → Works cfg s a k k' → I k') : I m' := by
  induction h with
  | refl => exact hm
  | tail _ hwork ih => exact works ih hwork

/-- What holds once a step has opened, and is kept by its work and by its end. -/
theorem anatomy_invariant {I : State → Prop} (hg : guard cfg s a = true)
    (hok : effect cfg s a = .ok t) (opens : ∀ {m}, Opens cfg s a m → I m)
    (works : ∀ {k k'}, I k → Works cfg s a k k' → I k')
    (ends : ∀ {m}, I m → Ends cfg s a m t → I t) : I t := by
  obtain ⟨m, m', hopens, hworks, hends⟩ := anatomy hg hok
  exact ends (works_invariant hworks (opens hopens) works) hends

/-! ### What a step is for a connection -/

/-- Where the labels of a step come from. -/
inductive LabelOf (s : State) (c : ConnId) : Action → Connection.Action → Prop
  | close {a : Action} (h : closes s a = some c) : LabelOf s c a .close
  | remove {a : Action} : LabelOf s c a .remove
  | evict {a : Action} : LabelOf s c a .evict
  | establish {a : Action} (h : runs s a = some (.connEstablished c)) : LabelOf s c a .establish
  | destroy {a : Action} (h : runs s a = some (.connDestroyed c)) : LabelOf s c a .destroy
  | runSend {i : LoopId} {wr : WriteResult} {who : Caller} {message : Bytes}
      (h : runs s (.runFunctor i wr) = some (.sendInLoop c who message)) :
      LabelOf s c (.runFunctor i wr) (.runSend wr)
  | runShutdown {a : Action} (h : runs s a = some (.shutdownInLoop c)) : LabelOf s c a .runShutdown
  | handleWrite {i : LoopId} {wr : WriteResult} (h : c = handled s i) :
      LabelOf s c (.handleWrite i wr) (.handleWrite wr)
  | sendDirect {who : Caller} {message : Bytes} {wr : WriteResult} (h : who = .loop (own s c)) :
      LabelOf s c (.send who c message wr) (.sendDirect who message wr)
  | callSend {who : Caller} {message : Bytes} {wr : WriteResult} (h : who ≠ .loop (own s c)) :
      LabelOf s c (.send who c message wr) (.callSend who message)
  | shutdownDirect {who : Caller} (h : who = .loop (own s c)) :
      LabelOf s c (.shutdown who c) .shutdownDirect
  | callShutdown {who : Caller} (h : who ≠ .loop (own s c)) :
      LabelOf s c (.shutdown who c) (.callShutdown who)
  | pushSend {who : Caller} {message : Bytes} (h : s.calls who = some (.send c message)) :
      LabelOf s c (.proceed who) (.pushSend who)
  | setDisconnecting {who : Caller} (h : s.calls who = some (.shutdownChecked c)) :
      LabelOf s c (.proceed who) (.setDisconnecting who)
  | pushShutdown {who : Caller} (h : s.calls who = some (.shutdownSet c)) :
      LabelOf s c (.proceed who) (.pushShutdown who)
  | die : LabelOf s c (.destroy c) .die

variable {b : Connection.Action}

theorem eq_of_mem_ite {b' : Connection.Action} {p : Prop} [Decidable p]
    (hb : b ∈ (if p then [b'] else [])) : p ∧ b = b' :=
  (List.mem_ite_nil_right.mp hb).imp_right List.mem_singleton.mp

/-- `RemoveConnectionInLoop` removes the connection, or another takes its entry. -/
theorem mem_removal (hb : b ∈ removal s c d) : b = .remove ∨ b = .evict := by
  rw [removal] at hb
  split at hb
  · exact Or.inl (List.mem_singleton.mp hb)
  · exact Or.inr (eq_of_mem_ite hb).2

theorem mem_closing (hb : b ∈ closing s c d) :
    c = d ∧ b = .close ∨ b = .remove ∨ b = .evict := by
  rcases List.mem_append.mp hb with hb | hb
  · exact Or.inl (eq_of_mem_ite hb)
  · split at hb
    · exact Or.inr (mem_removal hb)
    · exact absurd hb List.not_mem_nil

theorem labelOf_of_mem_closing (hcloses : closes s a = some d) (hb : b ∈ closing s c d) :
    LabelOf s c a b := by
  rcases mem_closing hb with ⟨rfl, rfl⟩ | rfl | rfl
  · exact .close hcloses
  · exact .remove
  · exact .evict

theorem labelOf_of_mem_functorLabels {wr : WriteResult}
    (hruns : runs s (.runFunctor i wr) = some f) (hb : b ∈ functorLabels s c wr f) :
    LabelOf s c (.runFunctor i wr) b := by
  cases f with
  | connEstablished d =>
    obtain ⟨rfl, rfl⟩ := eq_of_mem_ite hb
    exact .establish hruns
  | connDestroyed d =>
    obtain ⟨rfl, rfl⟩ := eq_of_mem_ite hb
    exact .destroy hruns
  | removeConnectionInLoop d =>
    rcases mem_removal hb with rfl | rfl
    · exact .remove
    · exact .evict
  | sendInLoop d who message =>
    obtain ⟨rfl, rfl⟩ := eq_of_mem_ite hb
    exact .runSend hruns
  | shutdownInLoop d =>
    obtain ⟨rfl, rfl⟩ := eq_of_mem_ite hb
    exact .runShutdown hruns
  | writeComplete d | addTimerInLoop d | user => exact absurd hb List.not_mem_nil

theorem labelOf_of_mem_callLabels {call : Call} (hcall : s.calls who = some call)
    (hb : b ∈ callLabels c who call) : LabelOf s c (.proceed who) b := by
  cases call with
  | send d message =>
    obtain ⟨rfl, rfl⟩ := eq_of_mem_ite hb
    exact .pushSend hcall
  | shutdownChecked d =>
    obtain ⟨rfl, rfl⟩ := eq_of_mem_ite hb
    exact .setDisconnecting hcall
  | shutdownSet d =>
    obtain ⟨rfl, rfl⟩ := eq_of_mem_ite hb
    exact .pushShutdown hcall

/-- Every label of a step comes from one of these. -/
theorem labelOf_of_mem (hb : b ∈ labels cfg s c a) : LabelOf s c a b := by
  cases a with
  | handleClose j | closeTimer d => exact labelOf_of_mem_closing rfl hb
  | handleRead j readv =>
    rw [labels] at hb
    split at hb
    · next heof => exact labelOf_of_mem_closing (if_pos heof) hb
    · exact absurd hb List.not_mem_nil
  | handleWrite j wr =>
    obtain ⟨hc, rfl⟩ := eq_of_mem_ite hb
    exact .handleWrite hc
  | newConnection fd =>
    obtain ⟨-, rfl⟩ := eq_of_mem_ite hb
    exact .evict
  | runFunctor j wr =>
    rw [labels] at hb
    split at hb
    · exact absurd hb List.not_mem_nil
    · next f fs hrest =>
      exact labelOf_of_mem_functorLabels (by rw [runs, hrest, List.head?_cons]) hb
  | send who d message wr =>
    obtain ⟨⟨rfl, -⟩, rfl⟩ := eq_of_mem_ite hb
    split
    · next hwho => exact .sendDirect hwho
    · next hwho => exact .callSend hwho
  | shutdown who d =>
    obtain ⟨⟨rfl, -⟩, rfl⟩ := eq_of_mem_ite hb
    split
    · next hwho => exact .shutdownDirect hwho
    · next hwho => exact .callShutdown hwho
  | proceed who =>
    rw [labels] at hb
    split at hb
    · exact absurd hb List.not_mem_nil
    · next call hcall => exact labelOf_of_mem_callLabels hcall hb
  | destroy d =>
    obtain ⟨rfl, rfl⟩ := eq_of_mem_ite hb
    exact .die
  | _ => exact absurd hb List.not_mem_nil

end TcpServer
end Bbkgl
