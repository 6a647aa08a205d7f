import Bbkgl.Net.TcpServerLifetime
import Bbkgl.Net.TcpServerRegistered
import Bbkgl.Net.TcpServerTeardown

/-!
# A server that may be destroyed

`~TcpServer` does nothing about open connections. Their channels stay in the
epoll instances of loops that still run, and their close callbacks are bound to
the server. It leaves nothing behind when every connection is `Settled`: no walk
and no epoll instance has it, and either `state_` keeps everything out, or
nobody can get at it any more. What is settled stays so, whatever the loops and
the user do during the destruction and after it.
-/

set_option autoImplicit false

namespace Bbkgl

/-- The connection that a functor is about. -/
def Functor.about : Functor → Option ConnId
  | .connEstablished c | .connDestroyed c | .removeConnectionInLoop c | .writeComplete c
  | .sendInLoop c _ _ | .shutdownInLoop c | .addTimerInLoop c => some c
  | .user => none

namespace TcpServer

open CS CS.Fallible CS.Transition TcpConnection Connection

namespace Lifetime

/-- `ConnEstablished` or `RemoveConnectionInLoop` of `c`. -/
def entersServer (c : ConnId) : Functor → Bool
  | .connEstablished d | .removeConnectionInLoop d => d = c
  | _ => false

/-- The functor is a `SendInLoop` of the connection. -/
def isSend (c : ConnId) : Functor → Bool
  | .sendInLoop d _ _ => d = c
  | _ => false

/-- `ConnDestroyed` is in the user's callback, with `RemoveChannel` to come. -/
def leaving (s : State) (c : ConnId) : Bool :=
  (s.conns c).channel.index = Epoller.kAdded &&
    (s.loops (own s c)).frame.any fun frame => frame.conn = some c && frame.removeChannel

/-- The kernel has no record of the connection, or is about to lose it. -/
def outOfPoller (s : State) (c : ConnId) : Bool :=
  leaving s c || ((s.loops (own s c)).poller.kernel (s.conns c).channel.fd).all fun e => e.2 ≠ c

variable (cfg : Config) (s : State)

/-- A loop has a functor of this kind still to run. -/
def queued (p : Functor → Bool) : Bool := cfg.loops.any fun i => (todo s i).any p

/-- The state keeps calls and timers out, and no call is past the check of it. -/
def isDown (c : ConnId) : Bool :=
  !(s.conns c).isUp && !queued cfg s (isSend c) &&
    cfg.callers.all fun who => (s.calls who).all fun call => call.conn ≠ c || call = .shutdownSet c

/-- Nobody has a pointer, a call or a timer, and only `ConnDestroyed` is queued, or
what does not get into an object that has gone. -/
def unreachable (c : ConnId) : Bool :=
  (s.conns c).refs = 0 && (cfg.loops.all fun i => !givenTo c (s.loops i)) &&
    (cfg.callers.all fun who => (s.calls who).all fun call => call.conn ≠ c) &&
    !queued cfg s (fun f => f.about = some c && f ≠ .connDestroyed c &&
      ((s.conns c).alive || f.owns.isSome)) &&
    (!(s.conns c).alive || (s.conns c).closeTimers = 0)

/-- Every connection is out of the walks and the epoll instances, is neither about to
be established nor about to be removed, and is down or out of reach. -/
def settled : Bool :=
  (cfg.loops.all fun i => (walked (s.loops i).phase).isEmpty) &&
    (List.range s.nextObj).all fun c => outOfPoller s c && !queued cfg s (entersServer c) &&
      (isDown cfg s c || unreachable cfg s c)

/-- The connection is down, and nothing is left that would send on it. -/
structure Down (c : ConnId) : Prop where
  isUp : (s.conns c).isUp = false
  sends : ∀ i ∈ cfg.loops, ∀ f ∈ todo s i, isSend c f = false
  calls : ∀ who call, s.calls who = some call → call.conn = c → call = .shutdownSet c

/-- Nothing outside its own functors leads to the connection. -/
structure Unreachable (c : ConnId) : Prop where
  refs : (s.conns c).refs = 0
  given : ∀ i ∈ cfg.loops, givenTo c (s.loops i) = false
  calls : ∀ who call, s.calls who = some call → call.conn ≠ c
  todo : ∀ i ∈ cfg.loops, ∀ f ∈ todo s i, f.about = some c →
    f = .connDestroyed c ∨ (s.conns c).alive = false ∧ f.owns = none
  closeTimers : (s.conns c).alive = true → (s.conns c).closeTimers = 0

/-- The connection has no record, or `Remove()` is about to be called, and it stays so. -/
structure Settled (c : ConnId) : Prop where
  walk : ∀ i ∈ cfg.loops, walked (s.loops i).phase = []
  record : ∀ i fd, recorded s i fd c → removing s c ∧ i = own s c ∧
    fd = (s.conns c).channel.fd ∧ (s.conns c).channel.index = Epoller.kAdded
  queued : ∀ i ∈ cfg.loops, ∀ f ∈ todo s i, entersServer c f = false
  reach : Down cfg s c ∨ Unreachable cfg s c

/-- From `s` to `t` nothing happens to `c` but what user code with a pointer to it can
do, and not even that unless `p`. -/
structure Rests (cfg : Config) (s t : State) (c : ConnId) (p : Prop) : Prop where
  walk : ∀ i ∈ cfg.loops, walked (s.loops i).phase = [] → walked (t.loops i).phase = []
  loop : (t.conns c).loop = (s.conns c).loop
  fd : (t.conns c).channel.fd = (s.conns c).channel.fd
  state : (t.conns c).state = (s.conns c).state
  alive : (t.conns c).alive = true → (s.conns c).alive = true
  refs : (t.conns c).refs ≤ (s.conns c).refs ∨ p
  closeTimers : (t.conns c).alive = true →
    (t.conns c).closeTimers ≤ (s.conns c).closeTimers ∨ p
  record : ∀ i fd, recorded t i fd c → recorded s i fd c ∧
    (removing s c → removing t c) ∧ (t.conns c).channel.index = (s.conns c).channel.index
  given : ∀ i ∈ cfg.loops, givenTo c (t.loops i) = true → givenTo c (s.loops i) = true ∨ p
  calls : ∀ who call, t.calls who = some call → call.conn = c → s.calls who = some call
  todo : ∀ i ∈ cfg.loops, ∀ f ∈ todo t i, f.about = some c →
    f ∈ todo s i ∨ p ∧ (f = .shutdownInLoop c ∨ f = .addTimerInLoop c)

variable {cfg s} {m t : State} {i : LoopId} {c d : ConnId} {f : Functor} {l : Local}
  {who : Caller} {a : TcpServer.Action} {p : Prop}

/-! ### Rest -/

theorem about_of_entersServer (h : entersServer c f = true) : f.about = some c := by
  cases f with
  | connEstablished d | removeConnectionInLoop d =>
    have hd : d = c := of_decide_eq_true h
    rw [Functor.about, hd]
  | _ => exact absurd h (by simp [entersServer])

theorem about_of_isSend (h : isSend c f = true) : f.about = some c := by
  cases f with
  | sendInLoop d who message =>
    have hd : d = c := of_decide_eq_true h
    rw [Functor.about, hd]
  | _ => exact absurd h (by simp [isSend])

theorem Down.rests (h : Down cfg s c) (hrests : Rests cfg s t c p) : Down cfg t c where
  isUp := by
    rw [TcpConnection.isUp, hrests.state]
    exact h.isUp
  sends i hi f hf := by
    by_contra hsend
    have hsend : isSend c f = true := by simpa using hsend
    rcases hrests.todo i hi f hf (about_of_isSend hsend) with hold | ⟨-, rfl | rfl⟩
    · exact absurd hsend (by simp [h.sends i hi f hold])
    · exact absurd hsend (by simp [isSend])
    · exact absurd hsend (by simp [isSend])
  calls who call hcall hc := h.calls who call (hrests.calls who call hcall hc) hc

theorem Unreachable.rests (h : Unreachable cfg s c) (hrests : Rests cfg s t c p) (hp : ¬ p) :
    Unreachable cfg t c where
  refs := Nat.le_zero.mp (h.refs ▸ hrests.refs.resolve_right hp)
  given i hi := by
    by_contra hgiven
    have hold := (hrests.given i hi (by simpa using hgiven)).resolve_right hp
    exact absurd hold (by simp [h.given i hi])
  calls who call hcall hc := h.calls who call (hrests.calls who call hcall hc) hc
  todo i hi f hf hc := by
    have hold := (hrests.todo i hi f hf hc).resolve_right fun hnew => hp hnew.1
    refine (h.todo i hi f hold hc).imp_right fun ⟨hdead, howns⟩ => ⟨?_, howns⟩
    by_contra halive
    exact absurd (hrests.alive (by simpa using halive)) (by simp [hdead])
  closeTimers halive := by
    have hold := h.closeTimers (hrests.alive halive)
    exact Nat.le_zero.mp (hold ▸ (hrests.closeTimers halive).resolve_right hp)

/-- A change that leaves the connection alone keeps it settled. -/
theorem Settled.rests (h : Settled cfg s c) (hrests : Rests cfg s t c p)
    (hp : p → Down cfg s c) : Settled cfg t c where
  walk i hi := hrests.walk i hi (h.walk i hi)
  record i fd hrecord := by
    obtain ⟨hold, hstill, hsame⟩ := hrests.record i fd hrecord
    obtain ⟨hremoving, hi, hfd, hindex⟩ := h.record i fd hold
    refine ⟨hstill hremoving, ?_, hfd.trans hrests.fd.symm, hsame.trans hindex⟩
    rw [own, hrests.loop]
    exact hi
  queued i hi f hf := by
    by_contra henters
    have henters : entersServer c f = true := by simpa using henters
    rcases hrests.todo i hi f hf (about_of_entersServer henters) with hold | ⟨-, rfl | rfl⟩
    · exact absurd henters (by simp [h.queued i hi f hold])
    · exact absurd henters (by simp [entersServer])
    · exact absurd henters (by simp [entersServer])
  reach := by
    by_cases hsubject : p
    · exact Or.inl ((hp hsubject).rests hrests)
    · rcases h.reach with hdown | hunreachable
      · exact Or.inl (hdown.rests hrests)
      · exact Or.inr (hunreachable.rests hrests hsubject)

namespace Rests

theorem trans (h : Rests cfg s m c p) (h' : Rests cfg m t c p) : Rests cfg s t c p where
  walk i hi := h'.walk i hi ∘ h.walk i hi
  loop := h'.loop.trans h.loop
  fd := h'.fd.trans h.fd
  state := h'.state.trans h.state
  alive := h.alive ∘ h'.alive
  refs := by
    rcases h.refs, h'.refs with ⟨hle | hp, hle' | hp'⟩
    · exact Or.inl (Nat.le_trans hle' hle)
    · exact Or.inr hp'
    · exact Or.inr hp
    · exact Or.inr hp
  closeTimers halive := by
    rcases h.closeTimers (h'.alive halive), h'.closeTimers halive with ⟨hle | hp, hle' | hp'⟩
    · exact Or.inl (Nat.le_trans hle' hle)
    · exact Or.inr hp'
    · exact Or.inr hp
    · exact Or.inr hp
  record i fd hrecord := by
    obtain ⟨hm, hstill', hindex'⟩ := h'.record i fd hrecord
    obtain ⟨hs, hstill, hindex⟩ := h.record i fd hm
    exact ⟨hs, hstill' ∘ hstill, hindex'.trans hindex⟩
  given i hi hgiven := by
    rcases h'.given i hi hgiven with hm | hp
    · exact h.given i hi hm
    · exact Or.inr hp
  calls who call hcall hc := h.calls who call (h'.calls who call hcall hc) hc
  todo i hi f hf hc := by
    rcases h'.todo i hi f hf hc with hm | hp
    · exact h.todo i hi f hm hc
    · exact Or.inr hp

end Rests

/-! ### Elementary changes -/

theorem rests_setLoop {g : Loop → Loop}
    (hwalk : walked (s.loops i).phase = [] → walked (g (s.loops i)).phase = [])
    (hrecord : ∀ fd e, (g (s.loops i)).poller.kernel fd = some e →
      (s.loops i).poller.kernel fd = some e)
    (hremoving : ∀ message, (s.loops i).frame = some ⟨some c, message, true⟩ →
      (g (s.loops i)).frame = some ⟨some c, message, true⟩)
    (hgiven : givenTo c (g (s.loops i)) = true → givenTo c (s.loops i) = true ∨ p)
    (htodo : ∀ f ∈ (g (s.loops i)).functors.todo, f.about = some c →
      f ∈ todo s i ∨ p ∧ (f = .shutdownInLoop c ∨ f = .addTimerInLoop c)) :
    Rests cfg s (setLoop s i g) c p := by
  refine ⟨fun j _ hj => ?_, rfl, rfl, rfl, id, Or.inl (Nat.le_refl _),
    fun _ => Or.inl (Nat.le_refl _),
    fun j fd ⟨mask, hj⟩ => ⟨⟨mask, ?_⟩, fun ⟨message, hc⟩ => ⟨message, ?_⟩, rfl⟩,
    fun j _ hj => ?_, fun _ _ h _ => h, fun j _ f hf hc => ?_⟩
  · rw [loops_setLoop]
    split
    · next h => exact hwalk (h ▸ hj)
    · exact hj
  · rw [loops_setLoop] at hj
    split at hj
    · next h => exact h ▸ hrecord fd _ hj
    · exact hj
  · have hown : own (setLoop s i g) c = own s c := rfl
    rw [hown, loops_setLoop]
    split
    · next h => exact hremoving message (h ▸ hc)
    · exact hc
  · rw [loops_setLoop] at hj
    split at hj
    · next h => exact h ▸ hgiven hj
    · exact Or.inl hj
  · rw [todo, loops_setLoop] at hf
    split at hf
    · next h => exact h ▸ htodo f hf hc
    · exact Or.inl hf

theorem rests_setFunctors {q : Mailbox Functor}
    (hq : ∀ f ∈ q.todo, f.about = some c →
      f ∈ todo s i ∨ p ∧ (f = .shutdownInLoop c ∨ f = .addTimerInLoop c)) :
    Rests cfg s (setFunctors s i q) c p :=
  rests_setLoop id (fun _ _ => id) (fun _ => id) Or.inl hq

theorem rests_push (hf : f.about = some c → p ∧ (f = .shutdownInLoop c ∨ f = .addTimerInLoop c)) :
    Rests cfg s (push s i f) c p := by
  refine rests_setFunctors fun f' hf' hc => ?_
  rw [Mailbox.todo_push, List.mem_append, List.mem_singleton] at hf'
  rcases hf' with hold | rfl
  · exact Or.inl hold
  · exact Or.inr (hf hc)

theorem rests_setPhase {phase : Phase} (hphase : walked phase = []) :
    Rests cfg s (setPhase s i phase) c p :=
  rests_setLoop (fun _ => hphase) (fun _ _ => id) (fun _ => id) Or.inl fun _ hf _ => Or.inl hf

theorem rests_enterUser {frame : Frame} (hfree : (s.loops i).frame = none)
    (hframe : frame.conn = some c → p) : Rests cfg s (enterUser s i frame) c p := by
  refine rests_setLoop id (fun _ _ => id) (fun message h => absurd h (by simp [hfree])) ?_
    fun _ hf _ => Or.inl hf
  intro hgiven
  rw [givenTo, Option.any_some] at hgiven
  exact Or.inr (hframe (of_decide_eq_true hgiven))

theorem rests_setCall {call : Option Call} (hcall : ∀ call', call = some call' → call'.conn ≠ c) :
    Rests cfg s (setCall s who call) c p := by
  refine ⟨fun _ _ => id, rfl, rfl, rfl, id, Or.inl (Nat.le_refl _), fun _ => Or.inl (Nat.le_refl _),
    fun _ _ h => ⟨h, id, rfl⟩, fun _ _ => Or.inl, fun w call' hw hc => ?_,
    fun _ _ _ hf _ => Or.inl hf⟩
  simp only [setCall, Function.update_apply] at hw
  split at hw
  · exact absurd hc (hcall call' hw)
  · exact hw

theorem rests_connections {entries : String → Option ConnId} :
    Rests cfg s { s with connections := entries } c p :=
  ⟨fun _ _ => id, rfl, rfl, rfl, id, Or.inl (Nat.le_refl _), fun _ => Or.inl (Nat.le_refl _),
    fun _ _ h => ⟨h, id, rfl⟩, fun _ _ => Or.inl, fun _ _ h _ => h, fun _ _ _ hf _ => Or.inl hf⟩

/-- The fields of the object that matter are as before, or the step's own to change. -/
theorem rests_conn (hloops : t.loops = s.loops) (hcalls : t.calls = s.calls)
    (hloop : (t.conns c).loop = (s.conns c).loop)
    (hfd : (t.conns c).channel.fd = (s.conns c).channel.fd)
    (hindex : (t.conns c).channel.index = (s.conns c).channel.index)
    (hstate : (t.conns c).state = (s.conns c).state)
    (halive : (t.conns c).alive = true → (s.conns c).alive = true)
    (hrefs : (t.conns c).refs ≤ (s.conns c).refs ∨ p)
    (htimers : (t.conns c).alive = true →
      (t.conns c).closeTimers ≤ (s.conns c).closeTimers ∨ p) : Rests cfg s t c p := by
  refine ⟨fun i _ h => ?_, hloop, hfd, hstate, halive, hrefs, htimers,
    fun i fd ⟨mask, h⟩ => ⟨⟨mask, ?_⟩, fun ⟨message, h'⟩ => ⟨message, ?_⟩, hindex⟩,
    fun i _ h => Or.inl ?_, fun who call h _ => ?_, fun i _ f hf _ => Or.inl ?_⟩
  · rw [hloops]
    exact h
  · rw [hloops] at h
    exact h
  · rw [own, hloop, hloops]
    exact h'
  · rw [hloops] at h
    exact h
  · rw [hcalls] at h
    exact h
  · rw [todo, hloops] at hf
    exact hf

theorem rests_setConn {g : TcpConnection → TcpConnection}
    (hloop : (g (s.conns d)).loop = (s.conns d).loop)
    (hfd : (g (s.conns d)).channel.fd = (s.conns d).channel.fd)
    (hindex : (g (s.conns d)).channel.index = (s.conns d).channel.index)
    (hstate : (g (s.conns d)).state = (s.conns d).state)
    (halive : (g (s.conns d)).alive = true → (s.conns d).alive = true)
    (hrefs : (g (s.conns d)).refs ≤ (s.conns d).refs ∨ (c = d → p))
    (htimers : (g (s.conns d)).alive = true →
      (g (s.conns d)).closeTimers ≤ (s.conns d).closeTimers ∨ (c = d → p)) :
    Rests cfg s (setConn s d g) c p := by
  by_cases hc : c = d
  · subst hc
    have hconn : (setConn s c g).conns c = g (s.conns c) := conns_setConn.trans (if_pos rfl)
    refine rests_conn rfl rfl ?_ ?_ ?_ ?_ ?_ ?_ ?_
    · rw [hconn, hloop]
    · rw [hconn, hfd]
    · rw [hconn, hindex]
    · rw [hconn, hstate]
    · rw [hconn]
      exact halive
    · rw [hconn]
      exact hrefs.imp_right fun h => h rfl
    · rw [hconn]
      exact fun hg => (htimers hg).imp_right fun h => h rfl
  · have hconn : (setConn s d g).conns c = s.conns c := conns_setConn.trans (if_neg hc)
    refine rests_conn rfl rfl ?_ ?_ ?_ ?_ ?_ (Or.inl (Nat.le_of_eq (congrArg _ hconn)))
      fun _ => Or.inl (Nat.le_of_eq (congrArg _ hconn))
    · rw [hconn]
    · rw [hconn]
    · rw [hconn]
    · rw [hconn]
    · rw [hconn]
      exact id

/-! ### Methods -/

/-- A method of another connection. -/
theorem rests_putLocal (hne : c ≠ d) (hrecords : Local.Records d (localOf s d) l)
    (hqueued : ∀ f ∈ l.queued, f = .writeComplete d) : Rests cfg s (putLocal s d l) c p := by
  have hconn : (putLocal s d l).conns c = s.conns c := conns_putLocal.trans (if_neg hne)
  refine ⟨fun i _ h => ?_, ?_, ?_, ?_, ?_, Or.inl (Nat.le_of_eq (congrArg _ hconn)),
    fun _ => Or.inl (Nat.le_of_eq (congrArg _ hconn)),
    fun i fd h => ⟨?_, fun ⟨message, h'⟩ => ⟨message, ?_⟩, ?_⟩,
    fun i _ h => Or.inl ?_, fun _ _ h _ => h, fun i _ f hf hc => Or.inl ?_⟩
  · rw [phase_putLocal.1]
    exact h
  · rw [hconn]
  · rw [hconn]
  · rw [hconn]
  · rw [hconn]
    exact id
  · exact (recorded_putLocal hrecords h).resolve_right fun hown => hne hown.1
  · rw [own, hconn, phase_putLocal.2]
    exact h'
  · rw [hconn]
  · rw [givenTo, phase_putLocal.2] at h
    exact h
  · rw [todo_putLocal] at hf
    split at hf
    · rcases List.mem_append.mp hf with hold | hnew
      · exact hold
      · rw [hqueued f hnew] at hc
        exact absurd (Option.some_inj.mp hc).symm hne
    · exact hf

theorem rests_method (hne : c ≠ d) {site : Access} {g : Local → Except Fault Local}
    {h : Local → Connection → Connection} (hok : method s d site g = .ok t)
    (hacts : ∀ l, g (localOf s d) = .ok l → Local.Acts d (localOf s d) l (h l))
    (hrecords : ∀ l, g (localOf s d) = .ok l → Local.Records d (localOf s d) l) :
    Rests cfg s t c p := by
  obtain ⟨-, l, hl, rfl⟩ := method_eq_ok_iff.mp hok
  obtain ⟨fs, hfs, hall⟩ := (hacts l hl).queued
  have hqueued : l.queued = fs := hfs
  exact rests_putLocal hne (hrecords l hl) (hqueued ▸ hall)

/-- `ShutdownInLoop` records that the socket is shut down, and no more. -/
theorem rests_shutdownInLoop {site : Access}
    (hok : method s d site (fun l => .ok l.shutdownInLoop) = .ok t) : Rests cfg s t c p := by
  obtain ⟨-, l, hl, rfl⟩ := method_eq_ok_iff.mp hok
  obtain rfl := Except.ok.inj hl
  have hlocal : ∃ log, (localOf s d).shutdownInLoop =
      { localOf s d with conn := { s.conns d with log := log } } := by
    rw [Local.shutdownInLoop]
    split
    · exact ⟨_, rfl⟩
    · exact ⟨_, rfl⟩
  obtain ⟨log, hlog⟩ := hlocal
  have hput : putLocal s d (localOf s d).shutdownInLoop =
      setConn s d fun conn => { conn with log := log } := by
    rw [hlog]
    simp [putLocal, setConn, setLoop, localOf]
  rw [hput]
  exact rests_setConn rfl rfl rfl rfl id (Or.inl (Nat.le_refl _)) fun _ => Or.inl (Nat.le_refl _)

/-! ### What settled connections keep from happening -/

theorem mem_loops_of_free (hfree : free cfg s i = true) : i ∈ cfg.loops := by
  simp only [free, Bool.and_eq_true, decide_eq_true_eq] at hfree
  exact hfree.1

/-- No callback of a channel is next. -/
theorem Settled.not_callbackIs (h : Settled cfg s c) {q : ConnId → Channel.Callback → Bool} :
    callbackIs cfg s i q ≠ true := by
  intro hg
  rw [callbackIs] at hg
  split at hg
  · next d cb rest active hphase =>
    rw [Bool.and_eq_true] at hg
    have hwalk := h.walk i (mem_loops_of_free hg.1)
    exact absurd hwalk (by simp [hphase, walked])
  · exact absurd hg (by simp)

/-- With its thread at rest, a settled connection has no record. -/
theorem not_recorded_of_free (h : Settled cfg s c) (hfree : (s.loops (own s c)).frame = none)
    {fd : ℕ} : ¬ recorded s i fd c := by
  intro hrecord
  obtain ⟨⟨message, hframe⟩, -⟩ := h.record i fd hrecord
  exact absurd hframe (by simp [hfree])

/-- A loop that polls is told of no channel. -/
theorem eq_nil_of_poll (h : ∀ c, Settled cfg s c) {active : List (ConnId × EventMask)}
    (hg : TcpServer.guard cfg s (.poll i active) = true) : active = [] := by
  cases active with
  | nil => rfl
  | cons e rest =>
    simp only [TcpServer.guard, Bool.and_eq_true, List.all_cons] at hg
    obtain ⟨⟨⟨hfree, -⟩, -⟩, hreport, -⟩ := hg
    rw [Epoller.mayReport] at hreport
    split at hreport
    · exact absurd hreport (by simp)
    · next mask q hkernel =>
      simp only [Bool.and_eq_true, decide_eq_true_eq] at hreport
      have hrecord : recorded s i (s.conns e.1).channel.fd e.1 := ⟨mask, hreport.1.1 ▸ hkernel⟩
      obtain ⟨-, hi, -⟩ := (h e.1).record i _ hrecord
      have hnone : (s.loops (own s e.1)).frame = none := hi ▸ frame_of_free hfree
      exact absurd hrecord (not_recorded_of_free (h e.1) hnone)

/-- A thread that has a pointer has it to a connection that is down. -/
theorem Settled.down_of_pointer (h : Settled cfg s c) (hcall : canCall cfg s who = true)
    (hpointer : hasPointer s who c = true) : Down cfg s c := by
  rcases h.reach with hdown | hunreachable
  · exact hdown
  · have hrefs := hunreachable.refs
    cases who with
    | user n => exact absurd hpointer (by simp [hasPointer, hrefs])
    | loop i =>
      simp only [canCall, Config.callers, Bool.and_eq_true, decide_eq_true_eq,
        List.mem_append, List.mem_map] at hcall
      obtain ⟨⟨⟨j, hj, heq⟩ | ⟨n, -, heq⟩, -⟩, -⟩ := hcall
      · obtain rfl := Caller.loop.inj heq
        exact absurd hpointer (by simp [hasPointer, hrefs, hunreachable.given j hj])
      · exact absurd heq (by simp)

/-- A functor that is executed, but for `ConnDestroyed`, is of one that is down. -/
theorem Settled.down_of_functor (h : Settled cfg s c) (hi : i ∈ cfg.loops) (hf : f ∈ todo s i)
    (hc : f.about = some c) (hne : f ≠ .connDestroyed c)
    (hruns : f.owns = none → (s.conns c).alive = true) : Down cfg s c := by
  rcases h.reach with hdown | hunreachable
  · exact hdown
  · obtain ⟨hdead, howns⟩ := (hunreachable.todo i hi f hf hc).resolve_left hne
    exact absurd (hruns howns) (by simp [hdead])

/-- No `HandleClose` passes its assertion. -/
theorem Settled.isUp_of_closeTimer (h : Settled cfg s c) (htimers : 0 < (s.conns c).closeTimers)
    (halive : (s.conns c).alive = true) : (s.conns c).isUp = false := by
  rcases h.reach with hdown | hunreachable
  · exact hdown.isUp
  · exact absurd htimers (by simp [hunreachable.closeTimers halive])

/-! ### Every step of the server -/

/-- A method that goes through `UpdateChannel` once makes one record at most. -/
theorem recorded_of_polls (hpolls : Local.Polls d (localOf s d) l)
    (hnone : ∀ i fd, ¬ recorded s i fd d) {fd : ℕ} (h : recorded (putLocal s d l) i fd d) :
    i = own s d ∧ fd = (s.conns d).channel.fd ∧ l.conn.channel.index = Epoller.kAdded := by
  obtain ⟨mask, hrecord⟩ := h
  rw [poller_putLocal] at hrecord
  split at hrecord
  · next hi =>
    rcases hpolls with ⟨-, hpoller⟩ | ⟨ch, ⟨hfd, -⟩, hupdate⟩
    · rw [hpoller] at hrecord
      exact absurd ⟨mask, hrecord⟩ (hnone (own s d) fd)
    · rcases Epoller.updateChannel_record hupdate hrecord with hold | ⟨-, hself, hindex⟩
      · exact absurd ⟨mask, hold⟩ (hnone (own s d) fd)
      · exact ⟨hi, hself.trans hfd, hindex⟩
  · exact absurd ⟨mask, hrecord⟩ (hnone i fd)

/-- `ConnDestroyed` of a connection that nobody can get at. It is down afterwards, and the
record that `DisableAll` may have made again goes with `RemoveChannel`. -/
theorem settled_connDestroyed (h : Settled cfg s d) (hwf : (s.conns d).output.WF)
    (hfree : (s.loops (own s d)).frame = none) (hok : connDestroyed s d = .ok t) :
    Settled cfg t d := by
  obtain ⟨m, hm, hok⟩ := bind_eq_ok_iff.mp hok
  obtain rfl := pure_eq_ok_iff.mp hok
  obtain ⟨halive, l, hl, rfl⟩ := method_eq_ok_iff.mp hm
  obtain ⟨hup, hacts⟩ := Local.connDestroyed_acts hwf hl
  have hunreachable : Unreachable cfg s d := by
    refine h.reach.resolve_left fun hdown => ?_
    have hdown : (localOf s d).conn.isUp = false := hdown.isUp
    exact absurd hup (by simp [hdown])
  obtain ⟨fs, hfs, hall⟩ := hacts.queued
  have hqueued : l.queued = fs := hfs
  obtain ⟨t, ht⟩ : ∃ t, t = enterUser (putLocal s d l) (own s d) ⟨some d, false, true⟩ := ⟨_, rfl⟩
  have hconn : t.conns d = l.conn := by
    rw [ht]
    exact conns_putLocal.trans (if_pos rfl)
  have hloops : ∀ i, (t.loops i).phase = (s.loops i).phase ∧
      (t.loops i).functors = ((putLocal s d l).loops i).functors ∧
      (t.loops i).poller = ((putLocal s d l).loops i).poller := by
    intro i
    rw [ht, enterUser, loops_setLoop]
    split
    · next hi =>
      rw [hi]
      exact ⟨phase_putLocal.1, rfl, rfl⟩
    · exact ⟨phase_putLocal.1, rfl, rfl⟩
  have htodo : ∀ i, ∀ f ∈ todo t i, f ∈ todo s i ∨ f = .writeComplete d := by
    intro i f hf
    have hf : f ∈ todo (putLocal s d l) i := by rwa [todo, (hloops i).2.1] at hf
    rw [todo_putLocal] at hf
    split at hf
    · exact (List.mem_append.mp hf).imp_right fun hnew => hall f (hqueued ▸ hnew)
    · exact Or.inl hf
  have hown : own t d = own s d := by
    rw [own, hconn]
    exact hacts.same.loop
  rw [← ht]
  refine ⟨fun i hi => ?_, fun i fd hrecord => ?_, fun i hi f hf => ?_, Or.inl ⟨?_, ?_, ?_⟩⟩
  · rw [(hloops i).1]
    exact h.walk i hi
  · have hput : recorded (putLocal s d l) i fd d := by
      rwa [recorded, (hloops i).2.2] at hrecord
    obtain ⟨hi, hfd, hindex⟩ := recorded_of_polls (Local.polls_of_connDestroyed hl)
      (fun _ _ => not_recorded_of_free h hfree) hput
    refine ⟨⟨false, ?_⟩, hi.trans hown.symm, ?_, ?_⟩
    · rw [hown, ht, enterUser, loops_setLoop, if_pos rfl]
    · rw [hconn]
      exact hfd.trans hacts.same.fd.symm
    · rw [hconn]
      exact hindex
  · rcases htodo i f hf with hold | rfl
    · exact h.queued i hi f hold
    · rfl
  · have hstate := congrArg Connection.state (hacts.core (view s d))
    have hstate : l.conn.state = .disconnected := hstate
    rw [hconn, TcpConnection.isUp, hstate]
    rfl
  · intro i hi f hf
    by_contra hsend
    have hsend : isSend d f = true := by simpa using hsend
    rcases htodo i f hf with hold | rfl
    · rcases hunreachable.todo i hi f hold (about_of_isSend hsend) with rfl | ⟨hdead, -⟩
      · exact absurd hsend (by simp [isSend])
      · exact absurd halive (by simp [hdead])
    · exact absurd hsend (by simp [isSend])
  · intro who call hcall hc
    rw [ht] at hcall
    exact absurd hc (hunreachable.calls who call hcall)

/-- A functor keeps connections settled. -/
theorem settled_runFunctor (hplaced : Placed cfg s) (h : ∀ c, Settled cfg s c)
    (hi : i ∈ cfg.loops) (hfree : (s.loops i).frame = none) {wr : WriteResult}
    {fs : List Functor} (hrest : (s.loops i).functors.rest = f :: fs)
    (hok : runFunctor (setFunctors s i (s.loops i).functors.advance) i wr f = .ok t)
    (c : ConnId) : Settled cfg t c := by
  have hmem : f ∈ todo s i := mem_todo_of_rest hrest
  have hf := hplaced.functors i f hmem
  obtain ⟨m, hm⟩ : ∃ m, m = setFunctors s i (s.loops i).functors.advance := ⟨_, rfl⟩
  have hrests : ∀ c, Rests cfg s m c False := by
    intro c
    rw [hm]
    refine rests_setFunctors fun f' hf' _ => Or.inl ?_
    exact mem_todo_of_advance hrest hf'
  have hpop : ∀ c, Settled cfg m c := fun c => (h c).rests (hrests c) False.elim
  have hwf : ∀ d, (m.conns d).output.WF := fun d => hm ▸ hplaced.wf d
  have hown : ∀ d, own m d = own s d := fun d => by rw [hm]; rfl
  have hframe : (m.loops i).frame = none := by
    rw [hm, setFunctors, loops_setLoop, if_pos rfl]
    exact hfree
  have halive : ∀ d, (m.conns d).alive = (s.conns d).alive := fun d => by rw [hm]; rfl
  rw [← hm] at hok
  cases f with
  | connEstablished d | removeConnectionInLoop d =>
    have hnone := (h d).queued i hi _ hmem
    exact absurd hnone (by simp [entersServer])
  | connDestroyed d =>
    obtain ⟨-, rfl⟩ := hf
    by_cases hc : c = d
    · subst hc
      exact settled_connDestroyed (hpop c) (hwf c) (hown c ▸ hframe) hok
    · obtain ⟨k, hk, hok⟩ := bind_eq_ok_iff.mp hok
      obtain rfl := pure_eq_ok_iff.mp hok
      have hmethod : Rests cfg m k c False := rests_method hc hk
        (fun l hl => (Local.connDestroyed_acts (hwf d) hl).2)
        fun l hl => Local.records_of_polls (Local.polls_of_connDestroyed hl)
      have henter : Rests cfg k (enterUser k (own m d) ⟨some d, false, true⟩) c False := by
        apply rests_enterUser
        · obtain ⟨-, l, -, rfl⟩ := method_eq_ok_iff.mp hk
          exact phase_putLocal.2.trans (hown d ▸ hframe)
        · intro hd
          exact hc (Option.some_inj.mp hd).symm
      exact (hpop c).rests (hmethod.trans henter) False.elim
  | writeComplete d =>
    obtain rfl := Except.ok.inj hok
    have hdown : Down cfg s d := (h d).down_of_functor hi hmem rfl (by simp) fun howns =>
      absurd howns (by simp [Functor.owns])
    have henter : Rests cfg m (enterUser m i ⟨some d, false, false⟩) c (c = d) :=
      rests_enterUser hframe fun hd => (Option.some_inj.mp hd).symm
    exact (hpop c).rests henter fun hc => hc ▸ hdown.rests (hrests d)
  | sendInLoop d who message =>
    obtain ⟨hd, -⟩ := method_eq_ok_iff.mp hok
    have hdown := (h d).down_of_functor hi hmem rfl (by simp) fun _ => halive d ▸ hd
    exact absurd (hdown.sends i hi _ hmem) (by simp [isSend])
  | shutdownInLoop d =>
    have hrests : Rests cfg m t c False := rests_shutdownInLoop hok
    exact (hpop c).rests hrests False.elim
  | addTimerInLoop d =>
    obtain rfl := Except.ok.inj hok
    have htimer : Rests cfg m (setConn m d fun conn =>
        { conn with closeTimers := conn.closeTimers + 1 }) c (c = d ∧ (m.conns d).alive = true) :=
      rests_setConn rfl rfl rfl rfl id (Or.inl (Nat.le_refl _)) fun hd => Or.inr fun hc => ⟨hc, hd⟩
    refine (hpop c).rests htimer fun hself => ?_
    obtain ⟨hc, hd⟩ := hself
    rw [hc]
    exact ((h d).down_of_functor hi hmem rfl (by simp) fun _ => halive d ▸ hd).rests (hrests d)
  | user =>
    obtain rfl := Except.ok.inj hok
    have hrests : Rests cfg m (enterUser m i ⟨none, false, false⟩) c False :=
      rests_enterUser hframe fun hc => absurd hc (by simp)
    exact (hpop c).rests hrests False.elim

/-- `RemoveChannel` leaves no record. -/
theorem rests_removeChannel (h : Settled cfg s d)
    (hok : method (setLoop s i fun loop => { loop with frame := none }) d .functor
      (Local.removeChannel d) = .ok t) : Rests cfg s t d p := by
  obtain ⟨m, hm⟩ : ∃ m, m = setLoop s i fun loop => { loop with frame := none } := ⟨_, rfl⟩
  have hloops : ∀ j, (m.loops j).phase = (s.loops j).phase ∧
      (m.loops j).functors = (s.loops j).functors ∧ (m.loops j).poller = (s.loops j).poller ∧
      (givenTo d (m.loops j) = true → givenTo d (s.loops j) = true) := by
    intro j
    rw [hm, loops_setLoop]
    split
    · next hj => rw [hj]; exact ⟨rfl, rfl, rfl, fun hnone => absurd hnone (by simp [givenTo])⟩
    · exact ⟨rfl, rfl, rfl, id⟩
  have hself : m.conns = s.conns := by rw [hm]; rfl
  have hcalls : m.calls = s.calls := by rw [hm]; rfl
  rw [← hm] at hok
  obtain ⟨-, l, hl, rfl⟩ := method_eq_ok_iff.mp hok
  obtain ⟨poller, rfl, hold, hnone⟩ := Local.removeChannel_eq_ok hl
  have hconn : (putLocal m d { localOf m d with
      conn.channel.index := Epoller.kNew, poller := poller }).conns d =
        { s.conns d with channel.index := Epoller.kNew } := by
    rw [conns_putLocal, if_pos rfl, ← hself]
    rfl
  refine ⟨fun j _ hj => ?_, ?_, ?_, ?_, ?_, Or.inl (Nat.le_of_eq ?_),
    fun _ => Or.inl (Nat.le_of_eq ?_), fun j fd h' => ?_, fun j _ hj => Or.inl ?_,
    fun who call hcall _ => hcalls ▸ hcall, fun j _ f hf _ => Or.inl ?_⟩
  · rw [phase_putLocal.1, (hloops j).1]
    exact hj
  · rw [hconn]
  · rw [hconn]
  · rw [hconn]
  · rw [hconn]
    exact id
  · rw [hconn]
  · rw [hconn]
  · obtain ⟨mask, hrecord⟩ := h'
    have hfrom : ∀ j, (m.loops j).poller.kernel fd = some (mask, d) → recorded s j fd d :=
      fun j hj => ⟨mask, (hloops j).2.2.1 ▸ hj⟩
    rw [poller_putLocal] at hrecord
    split at hrecord
    · obtain ⟨-, -, hfd, hindex⟩ := h.record _ fd (hfrom _ (hold fd _ hrecord))
      have hgone : poller.kernel (m.conns d).channel.fd = none := hnone (by
        rw [localOf, hself]
        exact hindex)
      rw [hself, ← hfd, hrecord] at hgone
      exact absurd hgone (by simp)
    · next hj =>
      obtain ⟨-, hown, -⟩ := h.record j fd (hfrom j hrecord)
      rw [own, hself] at hj
      exact absurd hown hj
  · rw [givenTo, phase_putLocal.2] at hj
    exact (hloops j).2.2.2 hj
  · rw [todo_putLocal] at hf
    have hf : f ∈ todo m j := by
      split at hf
      · simpa [localOf] using hf
      · exact hf
    rwa [todo, (hloops j).2.1] at hf

/-- `RemoveChannel` keeps connections settled. -/
theorem settled_userReturn (hplaced : Placed cfg s) (h : ∀ c, Settled cfg s c)
    (hok : TcpServer.effect cfg s (.userReturn i) = .ok t) (c : ConnId) : Settled cfg t c := by
  have hreturn : (∀ message, (s.loops i).frame ≠ some ⟨some c, message, true⟩) →
      Rests cfg s (setLoop s i fun loop => { loop with frame := none }) c False := by
    intro hother
    refine rests_setLoop id (fun _ _ => id) (fun message hc => absurd hc (hother message)) ?_
      fun _ hf _ => Or.inl hf
    exact fun hnone => absurd hnone (by simp [givenTo])
  simp only [TcpServer.effect] at hok
  split at hok
  · next d message hframe =>
    by_cases hc : c = d
    · subst hc
      have hrests : Rests cfg s t c False := rests_removeChannel (h c) hok
      exact (h c).rests hrests False.elim
    · have hframe : ∀ message, (s.loops i).frame ≠ some ⟨some c, message, true⟩ := by
        intro message' heq
        rw [hframe] at heq
        simp only [Option.some_inj, Frame.mk.injEq] at heq
        exact hc heq.1.symm
      have hmethod : Rests cfg (setLoop s i fun loop => { loop with frame := none }) t c False :=
        rests_method hc hok (fun l hl => Local.removeChannel_acts (hplaced.wf d) hl)
          fun l hl => Local.records_of_removeChannel hl
      exact (h c).rests ((hreturn hframe).trans hmethod) False.elim
  · next hframe =>
    obtain rfl := Except.ok.inj hok
    refine (h c).rests (hreturn ?_) False.elim
    intro message heq
    exact hframe c message heq

/-- Every step but a new connection keeps connections settled. -/
theorem settled_effect (hplaced : Placed cfg s) (h : ∀ c, Settled cfg s c)
    (hg : TcpServer.guard cfg s a = true) (hnew : isNewConnection a = false)
    (hok : TcpServer.effect cfg s a = .ok t) (c : ConnId) : Settled cfg t c := by
  have hrests : Rests cfg s t c False → Settled cfg t c := fun hr => (h c).rests hr False.elim
  cases a with
  | poll i active =>
    obtain rfl := eq_nil_of_poll h hg
    simp only [TcpServer.effect, List.all_nil] at hok
    obtain rfl := Except.ok.inj hok
    exact hrests (rests_setPhase rfl)
  | handleEvent i | endEvent i =>
    simp only [TcpServer.guard] at hg
    split at hg
    · next hphase =>
      have hwalk := (h c).walk i (mem_loops_of_free hg)
      exact absurd hwalk (by simp [hphase, walked])
    · exact absurd hg (by simp)
  | handleClose i | handleError i | handleRead i readv | handleWrite i wr =>
    exact absurd hg (h c).not_callbackIs
  | newConnection fd => exact absurd hnew (by simp [isNewConnection])
  | closeTimer d =>
    simp only [TcpServer.guard, Bool.and_eq_true, decide_eq_true_eq] at hg
    obtain ⟨m, hm, -⟩ := bind_eq_ok_iff.mp hok
    obtain ⟨halive, l, hl, -⟩ := method_eq_ok_iff.mp hm
    rw [conns_setConn, if_pos rfl] at halive
    have hup := (h d).isUp_of_closeTimer hg.2 halive
    have hconn : (localOf (setConn s d fun conn =>
        { conn with closeTimers := conn.closeTimers - 1 }) d).conn.isUp = (s.conns d).isUp := by
      rw [localOf, conns_setConn, if_pos rfl]
      rfl
    rw [Local.handleClose, TcpConnection.assert, check_bind_eq_ok_iff, hconn, hup] at hl
    exact absurd hl.1 (by simp)
  | userCode i =>
    obtain rfl := Except.ok.inj hok
    simp only [TcpServer.guard, dispatching] at hg
    split at hg
    · exact hrests (rests_enterUser (frame_of_free hg) fun hc => absurd hc (by simp))
    · exact absurd hg (by simp)
  | doPendingFunctors i =>
    obtain rfl := Except.ok.inj hok
    simp only [TcpServer.guard, Bool.and_eq_true, decide_eq_true_eq] at hg
    have hrest : (s.loops i).functors.rest = [] := hplaced.batch i (by simp [hg.2])
    have hswap : Rests cfg s (setFunctors s i (s.loops i).functors.swap) c False :=
      rests_setFunctors fun f hf _ => Or.inl (by
        rw [Mailbox.todo_swap hrest] at hf
        exact hf)
    exact hrests (hswap.trans (rests_setPhase rfl))
  | runFunctor i wr =>
    simp only [TcpServer.guard, Bool.and_eq_true] at hg
    simp only [TcpServer.effect] at hok
    split at hok
    · obtain rfl := Except.ok.inj hok
      exact h c
    · next f fs hrest =>
      exact settled_runFunctor hplaced h (mem_loops_of_free hg.1.1) (frame_of_free hg.1.1) hrest
        hok c
  | finishFunctors i =>
    obtain rfl := Except.ok.inj hok
    simp only [TcpServer.guard, Bool.and_eq_true, List.isEmpty_iff] at hg
    have hfinish : Rests cfg s (setFunctors s i (s.loops i).functors.finish) c False :=
      rests_setFunctors fun f hf _ => Or.inl (by
        rw [Mailbox.todo_finish hg.2] at hf
        exact hf)
    exact hrests (hfinish.trans (rests_setPhase rfl))
  | userReturn i => exact settled_userReturn hplaced h hok c
  | send who d message wr =>
    simp only [TcpServer.guard, Bool.and_eq_true] at hg
    have hdown := (h d).down_of_pointer hg.1.1.1 hg.1.1.2
    simp only [TcpServer.effect, send] at hok
    split at hok
    · next hstate => exact absurd hdown.isUp (by simp [TcpConnection.isUp, hstate])
    · obtain rfl := Except.ok.inj hok
      exact h c
  | shutdown who d =>
    simp only [TcpServer.guard, Bool.and_eq_true] at hg
    have hdown := (h d).down_of_pointer hg.1 hg.2
    simp only [TcpServer.effect, shutdown] at hok
    split at hok
    · next hstate => exact absurd hdown.isUp (by simp [TcpConnection.isUp, hstate])
    · obtain rfl := Except.ok.inj hok
      exact h c
  | close who d =>
    obtain rfl := Except.ok.inj hok
    simp only [TcpServer.guard, Bool.and_eq_true] at hg
    have hdown := (h d).down_of_pointer hg.1 hg.2
    have htimer : Rests cfg s (close s who d) c (c = d) := by
      rw [close]
      split
      · exact rests_setConn rfl rfl rfl rfl id (Or.inl (Nat.le_refl _)) fun _ => Or.inr id
      · refine rests_push fun hc => ?_
        obtain rfl := Option.some_inj.mp hc
        exact ⟨rfl, Or.inr rfl⟩
    exact (h c).rests htimer fun hc => hc ▸ hdown
  | proceed who =>
    simp only [TcpServer.effect] at hok
    split at hok
    · obtain rfl := Except.ok.inj hok
      exact h c
    · next call hcall =>
      obtain rfl := Except.ok.inj hok
      -- the connection of a call under way is down, and the call is at its last step
      have hreach : Down cfg s call.conn := (h call.conn).reach.resolve_right fun hunreachable =>
        hunreachable.calls who call hcall rfl
      have hset := hreach.calls who call hcall rfl
      generalize call.conn = d at hreach hset
      rw [hset]
      have hpush : Rests cfg s (push s (own s d) (.shutdownInLoop d)) c (c = d) := by
        refine rests_push fun hc => ?_
        obtain rfl := Option.some_inj.mp hc
        exact ⟨rfl, Or.inl rfl⟩
      exact (h c).rests (hpush.trans (rests_setCall fun _ hnone => absurd hnone (by simp)))
        fun hc => hc ▸ hreach
  | queueInLoop who i =>
    obtain rfl := Except.ok.inj hok
    exact hrests (rests_push fun hc => absurd hc (by simp [Functor.about]))
  | setWriteComplete who d on =>
    obtain rfl := Except.ok.inj hok
    exact hrests (rests_setConn rfl rfl rfl rfl id (Or.inl (Nat.le_refl _)) fun _ =>
      Or.inl (Nat.le_refl _))
  | inputBuffer i u =>
    simp only [TcpServer.effect] at hok
    split at hok
    · obtain rfl := Except.ok.inj hok
      exact h c
    · split at hok
      · obtain rfl := Except.ok.inj hok
        exact hrests (rests_setConn rfl rfl rfl rfl id (Or.inl (Nat.le_refl _)) fun _ =>
          Or.inl (Nat.le_refl _))
      · exact absurd hok (by simp)
  | keep who d =>
    obtain rfl := Except.ok.inj hok
    simp only [TcpServer.guard, Bool.and_eq_true] at hg
    have hkeep : Rests cfg s (setConn s d fun conn => { conn with refs := conn.refs + 1 }) c
        (c = d) :=
      rests_setConn rfl rfl rfl rfl id (Or.inr id) fun _ => Or.inl (Nat.le_refl _)
    exact (h c).rests hkeep fun hc => hc ▸ (h d).down_of_pointer hg.1 hg.2
  | drop d =>
    obtain rfl := Except.ok.inj hok
    exact hrests (rests_setConn rfl rfl rfl rfl id (Or.inl (Nat.sub_le _ _)) fun _ =>
      Or.inl (Nat.le_refl _))
  | destroy d =>
    simp only [TcpServer.effect] at hok
    split at hok
    · exact absurd hok (by simp)
    · obtain rfl := Except.ok.inj hok
      have hdead : Rests cfg s (setConn s d fun conn => { conn with alive := false }) c False :=
        rests_setConn rfl rfl rfl rfl (fun hd => absurd hd (by simp)) (Or.inl (Nat.le_refl _))
          fun _ => Or.inl (Nat.le_refl _)
      refine hrests (hdead.trans (rests_setLoop id (fun fd e he => ?_) (fun _ => id) Or.inl
        fun _ hf _ => Or.inl hf))
      simp only [Epoller.close, Function.update_apply] at he
      split at he
      · exact absurd he (by simp)
      · exact he

/-! ### The beginning of the destructor -/

theorem queued_eq_false {q : Functor → Bool} :
    queued cfg s q = false ↔ ∀ i ∈ cfg.loops, ∀ f ∈ todo s i, q f = false := by
  simp [queued, List.any_eq_false]

theorem removing_of_leaving (h : leaving s c = true) :
    removing s c ∧ (s.conns c).channel.index = Epoller.kAdded := by
  simp only [leaving, Bool.and_eq_true, decide_eq_true_eq, Option.any_eq_true] at h
  obtain ⟨hindex, ⟨conn, message, removeChannel⟩, hframe, hconn, hremove⟩ := h
  have hconn : conn = some c := hconn
  have hremove : removeChannel = true := hremove
  exact ⟨⟨message, by rw [hframe, hconn, hremove]⟩, hindex⟩

theorem down_of_isDown (hplaced : Placed cfg s) (h : isDown cfg s c = true) : Down cfg s c := by
  simp only [isDown, Bool.and_eq_true, Bool.not_eq_true', queued_eq_false, List.all_eq_true] at h
  obtain ⟨⟨hup, hsends⟩, hcalls⟩ := h
  refine ⟨hup, hsends, fun who call hcall hc => ?_⟩
  have hok := hcalls who (hplaced.calls who call hcall).1
  simpa [hcall, hc] using hok

theorem unreachable_of_unreachable (hplaced : Placed cfg s) (h : unreachable cfg s c = true) :
    Unreachable cfg s c := by
  simp only [unreachable, Bool.and_eq_true, Bool.or_eq_true, Bool.not_eq_true', queued_eq_false,
    List.all_eq_true, decide_eq_true_eq] at h
  obtain ⟨⟨⟨⟨hrefs, hgiven⟩, hcalls⟩, htodo⟩, htimers⟩ := h
  refine ⟨hrefs, hgiven, fun who call hcall hc => ?_, fun i hi f hf hc => ?_, fun halive => ?_⟩
  · have hok := hcalls who (hplaced.calls who call hcall).1
    exact absurd hok (by simp [hcall, hc])
  · have hok := htodo i hi f hf
    by_cases hne : f = .connDestroyed c
    · exact Or.inl hne
    · right
      simpa [hc, hne] using hok
  · exact htimers.resolve_left (by simp [halive])

/-- An address that is not in use yet. -/
theorem settled_fresh (hplaced : Placed cfg s) (hfiled : Filed s)
    (hwalk : ∀ i ∈ cfg.loops, walked (s.loops i).phase = []) (hc : s.nextObj ≤ c) :
    Settled cfg s c := by
  obtain ⟨-, hstate, -⟩ := hplaced.fresh c hc
  refine ⟨hwalk, fun i fd hrecord => ?_, fun i _ f hf => ?_, Or.inl ⟨?_, fun i _ f hf => ?_,
    fun who call hcall heq => ?_⟩⟩
  · exact absurd (hfiled i fd c hrecord).1 (Nat.not_lt.mpr hc)
  · have hplacedf := hplaced.functors i f hf
    by_contra henters
    cases f with
    | connEstablished d | removeConnectionInLoop d =>
      obtain rfl : d = c := by simpa [entersServer] using henters
      exact absurd hplacedf.1 (Nat.not_lt.mpr hc)
    | _ => simp [entersServer] at henters
  · rw [TcpConnection.isUp, hstate]
    rfl
  · have hplacedf := hplaced.functors i f hf
    by_contra hsend
    cases f with
    | sendInLoop d who message =>
      obtain rfl : d = c := by simpa [isSend] using hsend
      exact absurd hplacedf.1.1 (Nat.not_lt.mpr hc)
    | _ => simp [isSend] at hsend
  · have hplacedc := (hplaced.calls who call hcall).2
    have hlt : call.conn < s.nextObj := by
      cases call with
      | send d message => exact hplacedc.1
      | shutdownChecked d | shutdownSet d => exact hplacedc
    exact absurd (heq ▸ hlt) (Nat.not_lt.mpr hc)

/-- What passes the test is settled. -/
theorem settled_of_settled (hplaced : Placed cfg s) (hfiled : Filed s)
    (h : settled cfg s = true) (c : ConnId) : Settled cfg s c := by
  simp only [settled, Bool.and_eq_true, List.all_eq_true, List.isEmpty_iff, List.mem_range,
    Bool.or_eq_true, Bool.not_eq_true', queued_eq_false] at h
  obtain ⟨hwalk, hconns⟩ := h
  rcases Nat.lt_or_ge c s.nextObj with hlt | hge
  · obtain ⟨⟨hout, hqueued⟩, hreach⟩ := hconns c hlt
    refine ⟨hwalk, fun i fd hrecord => ?_, hqueued, ?_⟩
    · obtain ⟨-, hown, hfd⟩ := hfiled i fd c hrecord
      rw [outOfPoller, Bool.or_eq_true] at hout
      rcases hout with hleaving | hnone
      · obtain ⟨hremoving, hindex⟩ := removing_of_leaving hleaving
        exact ⟨hremoving, hown.symm, hfd.symm, hindex⟩
      · obtain ⟨mask, hmask⟩ := hrecord
        rw [hown, hfd, hmask] at hnone
        exact absurd hnone (by simp)
    · exact hreach.imp (down_of_isDown hplaced) (unreachable_of_unreachable hplaced)
  · exact settled_fresh hplaced hfiled hwalk hge

end Lifetime
end TcpServer
end Bbkgl
