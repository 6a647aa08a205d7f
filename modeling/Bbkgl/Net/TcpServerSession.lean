import Bbkgl.Net.Application
import Bbkgl.Net.TcpServerFrames
import Bbkgl.Net.TcpServerHandling
import Bbkgl.Net.TcpServerInput
import Bbkgl.Net.TcpServerRest
import Bbkgl.Net.TcpServerWatching

/-!
# The server with an application

Beside the state of the server there is a record of what its callbacks have been told
and of what is left of those that run. In a run that `obeys` it, user code is the
application's callbacks, and nothing else. A callback then finds its connection in a
state that its kind allows.
-/

set_option autoImplicit false

namespace Bbkgl
namespace TcpServer

open CS CS.Fallible CS.Transition TcpConnection Connection

/-- What is left of the callback on each loop's thread, what the callbacks of each
connection have been told, and the bytes that were delivered and taken. -/
structure Session where
  script : LoopId → Script
  events : ConnId → List Event
  traffic : Traffic

namespace Session

/-- No callback runs, and nothing has been told to anybody. -/
def init : Session := ⟨fun _ => .commands [], fun _ => [], .init⟩

variable (cfg : Config) (app : Application)

/-- The callback on loop `i` learns `e` about `c`. -/
def tell (h : Session) (i : LoopId) (c : ConnId) (e : Event) : Session :=
  { h with
    script := Function.update h.script i (.commands (app.answer e))
    events := Function.update h.events c (h.events c ++ [e]) }

/-- A callback is entered: the application is told, or is still to read the message. -/
def enter (h : Session) : Option (LoopId × Entry) → Session
  | some (i, .connection c up) => h.tell app i c (.connection up)
  | some (i, .message _) => { h with script := Function.update h.script i .retrieve }
  | some (i, .writeComplete c) => h.tell app i c .writeComplete
  | some (_, .user) | none => h

/-- `who` has made the next call of its callback. -/
def made (h : Session) : Caller → Session
  | .loop i => { h with script := Function.update h.script i (h.script i).tail }
  | .user _ => h

/-- What a step adds to the session. -/
def record (s : State) (h : Session) (a : Action) : Session :=
  let h' := { h.enter app (enters cfg s a) with traffic := h.traffic.record s a }
  match a with
  | .inputBuffer i _ => match (s.loops i).frame.bind Frame.conn with
    | none => h'
    | some c => h'.tell app i c (.message (s.conns c).input.retrieveAsString.1)
  | .send who _ _ _ | .shutdown who _ | .close who _ => h'.made who
  | _ => h'

variable {app} {h : Session} {i : LoopId} {c : ConnId} {e : Event}

@[simp] theorem tell_script : (h.tell app i c e).script i = .commands (app.answer e) :=
  Function.update_self _ _ _

@[simp] theorem tell_events : (h.tell app i c e).events c = h.events c ++ [e] :=
  Function.update_self _ _ _

theorem tell_script_of_ne {j : LoopId} (hj : j ≠ i) : (h.tell app i c e).script j = h.script j :=
  Function.update_of_ne hj _ _

theorem tell_events_of_ne {d : ConnId} (hd : d ≠ c) : (h.tell app i c e).events d = h.events d :=
  Function.update_of_ne hd _ _

end Session

/-- The callback that `who` is in was given `c`, and its next call is `command`. -/
def asks (s : State) (h : Session) (who : Caller) (c : ConnId) (command : Command) : Bool :=
  match who with
  | .loop i => givenTo c (s.loops i) && (h.script i).left.head? = some command
  | .user _ => false

/-- User code does what the application says. -/
def obeys (s : State) (h : Session) : Action → Bool
  | .send who c message _ => asks s h who c (.send message)
  | .shutdown who c => asks s h who c .shutdown
  | .close who c => asks s h who c .close
  | .inputBuffer i u => h.script i = .retrieve && match u with
    | .call .retrieveAsString => true
    | _ => false
  | .userReturn i => h.script i = .commands []
  | .userCode _ | .queueInLoop _ _ | .setWriteComplete _ _ _ | .keep _ _ => false
  | _ => true

/-- The server with the application `app`. -/
def serves (cfg : Config) (app : Application) :
    State × Session → Action → Option (State × Session) :=
  CS.Transition.recorded (step cfg) (Session.record cfg app)

/-- A run of the server in which user code is the application. -/
abbrev Serves (cfg : Config) (app : Application) (as : List Action) (s : State) (h : Session) :
    Prop :=
  Reach (serves cfg app) (fun q a => obeys q.1 q.2 a = true) (State.init, Session.init) as (s, h)

variable {cfg : Config} {app : Application} {s m t : State} {h h' : Session} {i j : LoopId}
  {c d : ConnId} {who : Caller} {a : Action} {as : List Action} {command : Command}

/-- An application calls from the loop of the connection, in its callback, what comes next in the
script. -/
theorem asks_loop (hsited : Sited s) (hasks : asks s h who c command = true) :
    who = .loop (own s c) ∧ givenTo c (s.loops (own s c)) = true ∧
      (h.script (own s c)).left.head? = some command := by
  cases who with
  | loop i =>
    simp only [asks, Bool.and_eq_true, decide_eq_true_eq] at hasks
    obtain ⟨-, rfl⟩ := hsited.frame i c hasks.1
    exact ⟨rfl, hasks⟩
  | user n => exact absurd hasks (by simp [asks])

/-- An application calls nothing from the thread of another loop. -/
theorem notCalled_of_obeys (hsited : Sited s) (hobeys : obeys s h a = true)
    {b : Connection.Action} (hb : b ∈ labels cfg s c a) (v : Connection) : NotCalled v b := by
  cases a with
  | close who d => exact absurd hb List.not_mem_nil
  | send who d message wr =>
    have hin : callsInLoop s (.send who d message wr) = true :=
      decide_eq_true (asks_loop hsited hobeys).1
    exact notCalled_of_mem_labels hin hb v
  | shutdown who d =>
    have hin : callsInLoop s (.shutdown who d) = true :=
      decide_eq_true (asks_loop hsited hobeys).1
    exact notCalled_of_mem_labels hin hb v
  | _ => exact notCalled_of_mem_labels rfl hb v

namespace Serves

theorem reach (hrun : Serves cfg app as s h) : Reach (step cfg) Always State.init as s :=
  hrun.forget fun _ _ => trivial

/-- What a connection preserves when no other thread calls it. -/
theorem views {I : Connection → Prop} (hrun : Serves cfg app as s h)
    (init : ∀ owner, I (.init owner))
    (preserved : ∀ {v b v'}, NoTraffic v → NotCalled v b → I v → Connection.step v b = some v' →
      I v') :
    ∀ c, c < s.nextObj → NoTraffic (view s c) ∧ I (view s c) := by
  have hforget : Reach (step cfg) (fun s a => ∀ c, ∀ b ∈ labels cfg s c a, ∀ v, NotCalled v b)
      State.init as s := by
    refine hrun.forget fun hprefix hobeys c b hb v => ?_
    exact notCalled_of_obeys (sited_of_reach (Serves.reach hprefix)) hobeys hb v
  refine views_invariant (I := fun v => NoTraffic v ∧ I v) (p := NotCalled) hforget ?_ ?_ ?_ ?_
  · intro owner
    exact ⟨⟨rfl, fun task htask => Or.inl (List.mem_singleton.mp htask)⟩, init owner⟩
  · intro owner
    exact ⟨by simp, by simp⟩
  · intro v b v' hv hb hstep
    exact ⟨noTraffic_step hv.1 hb hstep, preserved hv.1 hb hv.2 hstep⟩
  · intro s a t _ _ hok _ c _
    exact admits_of_forall fun b hb v => hok c b hb v

theorem noTraffic (hrun : Serves cfg app as s h) (c : ConnId) (hc : c < s.nextObj) :
    NoTraffic (view s c) :=
  (hrun.views (I := fun _ => True) (fun _ => trivial) (fun _ _ _ _ => trivial) c hc).1

end Serves

/-! ### The state that a callback finds -/

/-- No callback and no event is about a connection that has not been established. -/
structure Awake (s : State) : Prop where
  frame : ∀ i c, givenTo c (s.loops i) = true → (s.conns c).state ≠ .connecting
  walk : ∀ i, ∀ c ∈ walked (s.loops i).phase, (s.conns c).isUp = true
  writeComplete : ∀ i c, .writeComplete c ∈ todo s i → (s.conns c).state ≠ .connecting
  registered : ∀ c, (s.conns c).channel.index ≠ Epoller.kNew →
    (s.conns c).isUp = true ∨ removing s c

theorem awake_init : Awake State.init where
  frame i c h := absurd h (by simp [givenTo, State.init])
  walk i c h := absurd h List.not_mem_nil
  writeComplete i c h := absurd h List.not_mem_nil
  registered c h := absurd rfl h

/-- No connection goes back to `k_connecting`. -/
theorem state_advances (hplaced : Placed cfg s) (hg : guard cfg s a = true)
    (hok : effect cfg s a = .ok t) (hstate : (s.conns c).state ≠ .connecting) :
    (t.conns c).state ≠ .connecting := by
  have hc : c < s.nextObj := hplaced.lt_nextObj_of_state hstate
  have hrank := (later_run (run_labels hplaced hg hok hc).2).rank
  intro hnew
  have hview : (view t c).state = .connecting := hnew
  rw [hview] at hrank
  exact hstate (rank_eq_zero_iff.mp (Nat.le_zero.mp hrank))

/-- An open connection stays so, unless it is destroyed. -/
theorem isUp_advances (hplaced : Placed cfg s) (hg : guard cfg s a = true)
    (hok : effect cfg s a = .ok t) (hup : (s.conns c).isUp = true)
    (hdestroy : .destroy ∉ labels cfg s c a) : (t.conns c).isUp = true := by
  have hc : c < s.nextObj := hplaced.lt_nextObj_of_state (by
    intro hstate
    rw [TcpConnection.isUp, hstate] at hup
    exact absurd hup (by simp))
  have hview : (view s c).isUp = true := hup
  exact isUp_run hview hdestroy (run_labels hplaced hg hok hc).2

/-- `HandleClose` is over only if the connection was up. -/
theorem isUp_of_closing (hc : c < s.nextObj) (hlabels : labels cfg s c a = closing s c c)
    (hplaced : Placed cfg s) (hg : guard cfg s a = true) (hok : effect cfg s a = .ok t) :
    (t.conns c).isUp = true := by
  have hrun := (run_labels hplaced hg hok hc).2
  have hdestroy : .destroy ∉ labels cfg s c a := by
    rw [hlabels]
    exact fun hmem => absurd (mem_closing hmem) (by simp)
  refine isUp_advances hplaced hg hok ?_ hdestroy
  rw [hlabels, closing, if_pos rfl, List.singleton_append] at hrun
  obtain ⟨u, hu, -⟩ := Option.bind_eq_some_iff.mp hrun
  obtain ⟨hguard, -⟩ := guarded_eq_some_iff.mp hu
  simp only [Connection.guard, Bool.and_eq_true] at hguard
  exact hguard.1

/-- Whose method has run is up, or is being destroyed, or has been. -/
theorem subject_awake (hplaced : Placed cfg s) (hsited : Sited s) (hawake : Awake s)
    (htraffic : ∀ c, c < s.nextObj → NoTraffic (view s c)) (hg : guard cfg s a = true)
    (hok : effect cfg s a = .ok t) (hsubject : subject cfg s a = some c) :
    (t.conns c).state ≠ .connecting ∧ ((t.conns c).channel.index ≠ Epoller.kNew →
      (t.conns c).isUp = true ∨ removing t c) := by
  have up : (t.conns c).isUp = true → (t.conns c).state ≠ .connecting ∧
      ((t.conns c).channel.index ≠ Epoller.kNew → (t.conns c).isUp = true ∨ removing t c) := by
    refine fun hup => ⟨fun hstate => ?_, fun _ => Or.inl hup⟩
    rw [TcpConnection.isUp, hstate] at hup
    exact absurd hup (by simp)
  cases a with
  | handleClose i =>
    obtain rfl := Option.some_inj.mp hsubject
    have hwalk := (handled_of_callbackIs hg).1
    exact up (isUp_of_closing (hsited.walk i _ hwalk).1 rfl hplaced hg hok)
  | handleRead i readv =>
    simp only [subject, Option.ite_none_right_eq_some] at hsubject
    obtain ⟨rfl, heq⟩ := hsubject
    obtain rfl := Option.some_inj.mp heq
    have hwalk := (handled_of_callbackIs hg).1
    exact up (isUp_of_closing (hsited.walk i _ hwalk).1 rfl hplaced hg hok)
  | closeTimer d =>
    obtain rfl := Option.some_inj.mp hsubject
    obtain ⟨m, hm, -⟩ := bind_eq_ok_iff.mp hok
    obtain ⟨halive, -⟩ := method_eq_ok_iff.mp hm
    rw [conns_setConn, if_pos rfl] at halive
    exact up (isUp_of_closing (hplaced.lt_nextObj_of_alive halive) rfl hplaced hg hok)
  | handleWrite i wr =>
    obtain rfl := Option.some_inj.mp hsubject
    have hwalk := (handled_of_callbackIs hg).1
    exact up (isUp_advances hplaced hg hok (hawake.walk i _ hwalk) (by simp [labels]))
  | newConnection fd =>
    simp only [subject, Option.ite_none_right_eq_some] at hsubject
    obtain ⟨hbase, heq⟩ := hsubject
    obtain rfl := Option.some_inj.mp heq
    have hok : newConnection cfg s fd = .ok t := hok
    rw [newConnection_eq, if_pos hbase] at hok
    obtain ⟨-, htouches⟩ := touches_connEstablished (placed_withNewObject hplaced fd) hok
    have hview : (view t s.nextObj).isUp = true := by rw [htouches.self]; rfl
    exact up hview
  | runFunctor i wr =>
    obtain ⟨f, hhead, hf⟩ := Option.bind_eq_some_iff.mp hsubject
    obtain ⟨fs, hrest⟩ := List.head?_eq_some_iff.mp hhead
    have hmem : f ∈ todo s i := mem_todo_of_rest hrest
    have hfplaced := hplaced.functors i f hmem
    have hpopped := hplaced.advance hrest
    simp only [effect, hrest] at hok
    cases f with
    | connEstablished d =>
      obtain rfl := Option.some_inj.mp hf
      obtain ⟨-, htouches⟩ := touches_connEstablished hpopped hok
      have hview : (view t d).isUp = true := by rw [htouches.self]; rfl
      exact up hview
    | connDestroyed d =>
      obtain rfl := Option.some_inj.mp hf
      obtain ⟨-, htouches⟩ := touches_connDestroyed hpopped hok
      have hview : (view t d).state = .disconnected := by rw [htouches.self]
      have hstate : (t.conns d).state = .disconnected := hview
      refine ⟨by simp [hstate], fun _ => Or.inr ?_⟩
      exact removing_of_connDestroyed (hpopped.wf d) hok
    | sendInLoop d who message =>
      exact absurd hmem ((notMem_of_noTraffic hplaced htraffic).1 d who message)
    | shutdownInLoop d => exact absurd hmem ((notMem_of_noTraffic hplaced htraffic).2 d)
    | removeConnectionInLoop d | writeComplete d | addTimerInLoop d | user =>
      exact absurd hf (by simp [Functor.subject])
  | send who d message wr | shutdown who d =>
    simp only [subject, Option.ite_none_right_eq_some] at hsubject
    obtain ⟨hstate, heq⟩ := hsubject
    obtain rfl := Option.some_inj.mp heq
    have hup : (s.conns d).isUp = true := by simp [TcpConnection.isUp, hstate]
    refine up (isUp_advances hplaced hg hok hup ?_)
    rw [labels]
    split
    · split <;> simp
    · simp
  | userReturn i =>
    obtain ⟨⟨conn, message, removeChannel⟩, hframe, hconn⟩ := Option.bind_eq_some_iff.mp hsubject
    obtain ⟨rfl, rfl⟩ : removeChannel = true ∧ conn = some c := by simpa using hconn
    have hgiven : givenTo c (s.loops i) = true := by rw [givenTo, hframe]; simp
    refine ⟨state_advances hplaced hg hok (hawake.frame i c hgiven), fun hindex => ?_⟩
    simp only [effect, hframe] at hok
    obtain ⟨-, l, hl, rfl⟩ := method_eq_ok_iff.mp hok
    obtain ⟨poller, rfl, -⟩ := Local.removeChannel_eq_ok hl
    rw [conns_putLocal, if_pos rfl] at hindex
    exact absurd rfl hindex
  | _ => exact absurd hsubject (by simp [subject])

/-- Outside `ConnDestroyed` of its own, what is up stays up. -/
theorem isUp_kept (hplaced : Placed cfg s) (hg : guard cfg s a = true)
    (hok : effect cfg s a = .ok t) (hup : (s.conns c).isUp = true)
    (hruns : runs s a ≠ some (.connDestroyed c)) : (t.conns c).isUp = true :=
  isUp_advances hplaced hg hok hup fun hmem => hruns (runs_of_destroy_mem hmem)

/-- `ConnDestroyed` runs when no walk is under way on its loop. -/
theorem not_walked_of_runs (hplaced : Placed cfg s) (hsited : Sited s) (hg : guard cfg s a = true)
    (hruns : runs s a = some (.connDestroyed c)) : c ∉ walked (s.loops i).phase := by
  intro hwalk
  obtain ⟨-, rfl⟩ := hsited.walk i c hwalk
  cases a with
  | runFunctor j wr =>
    obtain ⟨fs, hrest⟩ := List.head?_eq_some_iff.mp hruns
    obtain ⟨-, rfl⟩ := hplaced.functors j _ (mem_todo_of_rest hrest)
    simp only [guard, Bool.and_eq_true, decide_eq_true_eq] at hg
    rw [hg.1.2] at hwalk
    exact absurd hwalk List.not_mem_nil
  | _ => exact absurd hruns (by simp [runs])

/-- The connection of a callback has been established. -/
theorem entered_awake (hplaced : Placed cfg s) (hsited : Sited s) (hawake : Awake s)
    (htraffic : ∀ c, c < s.nextObj → NoTraffic (view s c)) (hg : guard cfg s a = true)
    (hok : effect cfg s a = .ok t) {e : Entry} (henters : enters cfg s a = some (i, e))
    (hc : e.conn = some c) : (t.conns c).state ≠ .connecting := by
  have subjects : subject cfg s a = some c → (t.conns c).state ≠ .connecting := fun hsubject =>
    (subject_awake hplaced hsited hawake htraffic hg hok hsubject).1
  cases a with
  | newConnection fd =>
    simp only [enters, Option.ite_none_right_eq_some] at henters
    obtain ⟨hbase, heq⟩ := henters
    obtain ⟨-, rfl⟩ := Prod.mk.inj (Option.some_inj.mp heq)
    obtain rfl := Option.some_inj.mp hc
    exact subjects (by rw [subject, if_pos hbase])
  | runFunctor j wr =>
    obtain ⟨f, hhead, hf⟩ := Option.bind_eq_some_iff.mp henters
    obtain ⟨fs, hrest⟩ := List.head?_eq_some_iff.mp hhead
    cases f with
    | connEstablished d | connDestroyed d =>
      obtain ⟨-, rfl⟩ := Prod.mk.inj (Option.some_inj.mp hf)
      obtain rfl := Option.some_inj.mp hc
      exact subjects (by rw [subject, hrest]; rfl)
    | writeComplete d =>
      obtain ⟨-, rfl⟩ := Prod.mk.inj (Option.some_inj.mp hf)
      obtain rfl := Option.some_inj.mp hc
      exact state_advances hplaced hg hok (hawake.writeComplete j d (mem_todo_of_rest hrest))
    | user =>
      obtain ⟨-, rfl⟩ := Prod.mk.inj (Option.some_inj.mp hf)
      exact absurd hc (by simp [Entry.conn])
    | removeConnectionInLoop d | sendInLoop d who message | shutdownInLoop d | addTimerInLoop d =>
      exact absurd hf (by simp [functorEntry])
  | handleRead j readv =>
    simp only [enters, Option.ite_none_left_eq_some] at henters
    obtain ⟨-, heq⟩ := henters
    obtain ⟨-, rfl⟩ := Prod.mk.inj (Option.some_inj.mp heq)
    obtain rfl := Option.some_inj.mp hc
    have hup := hawake.walk j _ (handled_of_callbackIs hg).1
    refine state_advances hplaced hg hok fun hstate => ?_
    rw [TcpConnection.isUp, hstate] at hup
    exact absurd hup (by simp)
  | userCode j =>
    obtain ⟨-, rfl⟩ := Prod.mk.inj (Option.some_inj.mp henters)
    exact absurd hc (by simp [Entry.conn])
  | _ => exact absurd henters (by simp [enters])

/-- The connection of a callback has been established. -/
theorem awake_frame (hplaced : Placed cfg s) (hsited : Sited s) (hawake : Awake s)
    (htraffic : ∀ c, c < s.nextObj → NoTraffic (view s c)) (hg : guard cfg s a = true)
    (hok : effect cfg s a = .ok t) (hc : givenTo c (t.loops i) = true) :
    (t.conns c).state ≠ .connecting := by
  have old : givenTo c (s.loops i) = true → (t.conns c).state ≠ .connecting := fun hold =>
    state_advances hplaced hg hok (hawake.frame i c hold)
  cases henters : enters cfg s a with
  | none =>
    rw [givenTo, frame_kept hplaced hg hok henters] at hc
    split at hc
    · exact absurd hc (by simp)
    · exact old hc
  | some p =>
    obtain ⟨k, e⟩ := p
    rw [givenTo, frame_entered hplaced hg hok henters] at hc
    split at hc
    · rw [Option.any_some, decide_eq_true_eq, Entry.frame_conn] at hc
      exact entered_awake hplaced hsited hawake htraffic hg hok henters hc
    · exact old hc

theorem index_of_start (h : ((start cfg s a).conns c).channel.index ≠ Epoller.kNew) :
    (s.conns c).channel.index ≠ Epoller.kNew := by
  by_cases hc : c = s.nextObj
  · subst hc
    cases a with
    | newConnection fd => exact absurd (by simp [start, withNewObject]; rfl) h
    | _ => exact h
  · rwa [conns_start hc] at h

theorem subject_of_runs (hruns : runs s a = some (.connDestroyed c)) :
    subject cfg s a = some c := by
  cases a with
  | runFunctor i wr =>
    have hhead : (s.loops i).functors.rest.head? = some (.connDestroyed c) := hruns
    rw [subject, hhead]
    rfl
  | _ => exact absurd hruns (by simp [runs])

/-- A step keeps `Awake`. -/
theorem awake_effect (hplaced : Placed cfg s) (hsited : Sited s) (hwatching : Watching s)
    (hawake : Awake s) (htraffic : ∀ c, c < s.nextObj → NoTraffic (view s c))
    (hg : guard cfg s a = true) (hok : effect cfg s a = .ok t) : Awake t := by
  obtain ⟨m, hm, ht⟩ := passes hplaced hg hok
  have hconns : t.conns = m.conns := by rw [ht, pushes_conns.1]
  refine ⟨fun i c hc => awake_frame hplaced hsited hawake htraffic hg hok hc, fun i c hc => ?_,
    fun i c hc => ?_, fun c hindex => ?_⟩
  · rw [ht, pushes_loop.1] at hc
    rcases walked_start hg (hm.walk i c hc) with hwalk | ⟨⟨fd, hrecord⟩, hfree, active, rfl⟩
    · exact isUp_kept hplaced hg hok (hawake.walk i c hwalk) fun hruns =>
        not_walked_of_runs hplaced hsited hg hruns hwalk
    · obtain ⟨mask, hrecord⟩ := hrecord
      obtain ⟨⟨hown, -⟩, -, hadded, -⟩ := hwatching.record i fd mask c hrecord
      have hne : (s.conns c).channel.index ≠ Epoller.kNew := by rw [hadded]; decide
      rcases hawake.registered c hne with hup | ⟨message, hframe⟩
      · exact isUp_kept hplaced hg hok hup (by simp [runs])
      · rw [hown, hfree] at hframe
        exact absurd hframe (by simp)
  · rw [ht, pushes_loop.2] at hc
    rcases hm.writeComplete i c hc with hold | ⟨hsubject, -⟩
    · rw [todo_start] at hold
      exact state_advances hplaced hg hok (hawake.writeComplete i c hold)
    · exact (subject_awake hplaced hsited hawake htraffic hg hok hsubject).1
  · by_cases hsubject : subject cfg s a = some c
    · exact (subject_awake hplaced hsited hawake htraffic hg hok hsubject).2 hindex
    · have hstart : ((start cfg s a).conns c).channel.index ≠ Epoller.kNew := by
        rw [← hm.index c hsubject, ← hconns]
        exact hindex
      rcases hawake.registered c (index_of_start hstart) with hup | hremoving
      · refine Or.inl (isUp_kept hplaced hg hok hup fun hruns => hsubject ?_)
        exact subject_of_runs hruns
      · refine Or.inr (removing_kept hplaced hsited hg hok hremoving ?_)
        rintro rfl
        exact hsubject (subject_of_removing_return hremoving)

namespace Serves

theorem awake (hrun : Serves cfg app as s h) : Awake s := by
  refine hrun.invariant (I := fun q => Awake q.1) awake_init ?_
  rintro bs ⟨u, k⟩ a ⟨t, k'⟩ hprefix hawake hobeys hstep
  obtain ⟨hstep, -⟩ := recorded_eq_some_iff.mp hstep
  have hreach := Serves.reach hprefix
  obtain ⟨-, hg, heffect | ⟨f, -, rfl⟩⟩ := step_cases hstep
  · exact awake_effect (placed_of_reach hreach) (sited_of_reach hreach) (watching_of_reach hreach)
      hawake (Serves.noTraffic hprefix) hg heffect
  · exact ⟨hawake.frame, hawake.walk, hawake.writeComplete, hawake.registered⟩

end Serves

/-! ### What has been told -/

variable {e : Entry} {u : Buffer.Use}

/-- A callback is told to the application. -/
theorem record_of_enters (henters : enters cfg s a = some (i, e)) :
    Session.record cfg app s h a =
      { h.enter app (some (i, e)) with traffic := h.traffic.record s a } := by
  cases a with
  | newConnection fd | runFunctor j wr | handleRead j readv | userCode j =>
    rw [← henters]
    rfl
  | _ => exact absurd henters (by simp [enters])

theorem enter_script (hj : j ≠ i) : (h.enter app (some (i, e))).script j = h.script j := by
  cases e with
  | connection d up | message d | writeComplete d => exact Function.update_of_ne hj _ _
  | user => rfl

theorem enter_events (he : e.conn ≠ some c) :
    (h.enter app (some (i, e))).events c = h.events c := by
  cases e with
  | connection d up | writeComplete d =>
    exact Function.update_of_ne (fun hc => he (by rw [hc]; rfl)) _ _
  | message d | user => rfl

theorem nextObj_eq_start (hplaced : Placed cfg s) (hg : guard cfg s a = true)
    (hok : effect cfg s a = .ok t) : t.nextObj = (start cfg s a).nextObj := by
  obtain ⟨m, hm, rfl⟩ := passes hplaced hg hok
  rw [pushes_conns.2, hm.nextObj]

/-- `OnMessage` learns what is in the input buffer. -/
theorem record_inputBuffer (hframe : (s.loops i).frame.bind Frame.conn = some d) :
    Session.record cfg app s h (.inputBuffer i u) =
      { h with traffic := h.traffic.record s (.inputBuffer i u) }.tell app i d
        (.message (s.conns d).input.retrieveAsString.1) := by
  rw [Session.record, hframe]
  rfl

theorem givenTo_of_bind (hframe : (s.loops i).frame.bind Frame.conn = some d) :
    givenTo d (s.loops i) = true := by
  obtain ⟨frame, hsome, hconn⟩ := Option.bind_eq_some_iff.mp hframe
  rw [givenTo, hsome, Option.any_some]
  exact decide_eq_true hconn

/-- Nothing is told about what is not there yet. -/
theorem record_events (hplaced : Placed cfg s) (hsited : Sited s) (hg : guard cfg s a = true)
    (hok : effect cfg s a = .ok t) (hc : t.nextObj ≤ c) :
    (Session.record cfg app s h a).events c = h.events c := by
  rw [nextObj_eq_start hplaced hg hok] at hc
  cases henters : enters cfg s a with
  | some p =>
    obtain ⟨i, e⟩ := p
    rw [record_of_enters henters]
    apply enter_events
    intro he
    exact absurd (enters_sited hsited hplaced henters he hg).1 (Nat.not_lt.mpr hc)
  | none =>
    cases a with
    | inputBuffer i u =>
      cases hframe : (s.loops i).frame.bind Frame.conn with
      | none => simp only [Session.record, hframe, henters, Session.enter]
      | some d =>
        rw [record_inputBuffer hframe]
        apply Session.tell_events_of_ne
        rintro rfl
        exact absurd (hsited.frame i c (givenTo_of_bind hframe)).1 (Nat.not_lt.mpr hc)
    | send who d message wr | shutdown who d | close who d => cases who <;> rfl
    | _ => simp only [Session.record, henters, Session.enter]

theorem use_of_obeys (hobeys : obeys s h (.inputBuffer i u) = true) :
    u = .call .retrieveAsString := by
  simp only [obeys, Bool.and_eq_true] at hobeys
  cases u with
  | call op =>
    cases op with
    | retrieveAsString => rfl
    | _ => exact absurd hobeys.2 (by simp)
  | shrink reserve | swap rhs => exact absurd hobeys.2 (by simp)

theorem onlyTakes_of_obeys (hobeys : obeys s h a = true) : onlyTakes a = true := by
  cases a with
  | inputBuffer i u => rw [use_of_obeys hobeys]; rfl
  | _ => rfl

theorem record_traffic :
    (Session.record cfg app s h a).traffic = h.traffic.record s a := by
  cases a with
  | inputBuffer i u =>
    cases hframe : (s.loops i).frame.bind Frame.conn with
    | none => simp only [Session.record, hframe]
    | some d => rw [record_inputBuffer hframe]; rfl
  | send who d message wr | shutdown who d | close who d => cases who <;> rfl
  | _ => rfl

/-- Only a message that is taken is heard. -/
theorem heard_enter {p : Option (LoopId × Entry)} :
    heard ((h.enter app p).events c) = heard (h.events c) := by
  have htell : ∀ i d e, e.data = [] → heard ((h.tell app i d e).events c) = heard (h.events c) := by
    intro i d e he
    by_cases hd : c = d
    · rw [hd, Session.tell_events, heard_told, he, List.append_nil]
    · rw [Session.tell_events_of_ne hd]
  cases p with
  | none => rfl
  | some p =>
    obtain ⟨i, e⟩ := p
    cases e with
    | connection d up | writeComplete d => exact htell _ _ _ rfl
    | message d | user => rfl

/-- User code takes what `OnMessage` is told, and nothing else. -/
theorem record_consumed (hinput : ∀ c, (s.conns c).input.WF)
    (hfresh : h.events s.nextObj = []) (hobeys : obeys s h a = true)
    (hheard : h.traffic.consumed c = heard (h.events c)) :
    (Session.record cfg app s h a).traffic.consumed c =
      heard ((Session.record cfg app s h a).events c) := by
  cases a with
  | newConnection fd =>
    have hevents : (Session.record cfg app s h (.newConnection fd)).events =
        (h.enter app (enters cfg s (.newConnection fd))).events := rfl
    have hconsumed : (Session.record cfg app s h (.newConnection fd)).traffic.consumed =
        Function.update h.traffic.consumed s.nextObj [] := rfl
    rw [hevents, heard_enter, hconsumed]
    by_cases hc : c = s.nextObj
    · rw [hc, Function.update_self, hfresh]
      rfl
    · rw [Function.update_of_ne hc, hheard]
  | inputBuffer i u =>
    cases hframe : (s.loops i).frame.bind Frame.conn with
    | none =>
      simp only [Session.record, hframe, Traffic.record]
      exact hheard
    | some d =>
      obtain rfl := use_of_obeys hobeys
      rw [record_inputBuffer hframe]
      simp only [Session.tell, Traffic.record, hframe]
      by_cases hd : c = d
      · subst hd
        rw [Function.update_self, Function.update_self, heard_told, hheard,
          Buffer.retrieveAsString_fst (hinput c)]
        rfl
      · rw [Function.update_of_ne hd, Function.update_of_ne hd, hheard]
  | send who d message wr | shutdown who d | close who d => cases who <;> exact hheard
  | _ => exact hheard.trans heard_enter.symm

namespace Serves

theorem fresh (hrun : Serves cfg app as s h) (hfault : s.fault = none) :
    ∀ c, s.nextObj ≤ c → h.events c = [] := by
  have hinv := hrun.invariant (I := fun q => q.1.fault = none →
    ∀ c, q.1.nextObj ≤ c → q.2.events c = []) (fun _ _ _ => rfl) ?_
  · exact hinv hfault
  · rintro bs ⟨u, k⟩ a ⟨t, k'⟩ hprefix hevents - hstep hnone c hc
    obtain ⟨hstep, rfl⟩ := recorded_eq_some_iff.mp hstep
    obtain ⟨hfree, hg, hok | ⟨f, -, rfl⟩⟩ := step_cases hstep
    · have hplaced := placed_of_reach (Serves.reach hprefix)
      rw [record_events hplaced (sited_of_reach (Serves.reach hprefix)) hg hok hc]
      apply hevents hfree c
      exact Nat.le_trans (nextObj_eq_start hplaced hg hok ▸ nextObj_le_start) hc
    · exact absurd hnone (by simp)

theorem input (hrun : Serves cfg app as s h) (hfault : s.fault = none) :
    ∀ c, Received h.traffic s c := by
  have htraffic : Reach (withTraffic cfg) (fun _ a => onlyTakes a = true)
      (State.init, Traffic.init) as (s, h.traffic) :=
    Reach.project Session.traffic hrun (fun s h a => record_traffic)
      fun _ _ => onlyTakes_of_obeys
  exact received_of_reach htraffic hfault

/-- Each callback has been told what it has taken out of the input buffer. -/
theorem heard (hrun : Serves cfg app as s h) (hfault : s.fault = none) :
    ∀ c, h.traffic.consumed c = Bbkgl.heard (h.events c) := by
  have hinv := hrun.invariant (I := fun q => q.1.fault = none →
    ∀ c, q.2.traffic.consumed c = Bbkgl.heard (q.2.events c)) (fun _ _ => rfl) ?_
  · exact hinv hfault
  · rintro bs ⟨u, k⟩ a ⟨t, k'⟩ hprefix hheard hobeys hstep hnone c
    obtain ⟨hstep, rfl⟩ := recorded_eq_some_iff.mp hstep
    obtain ⟨hfree, -, -⟩ := step_cases hstep
    exact record_consumed (fun c => (Serves.input hprefix hfree c).wf)
      (Serves.fresh hprefix hfree _ (Nat.le_refl _)) hobeys (hheard hfree c)

end Serves

end TcpServer
end Bbkgl
