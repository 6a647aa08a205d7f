import Bbkgl.Net.TcpServerAnatomy

/-!
# The steps of the server, in moves

With less detail than in its anatomy, a step is a beginning of its own (`Begins`: what
is read, made or destroyed) and, after it, a chain of a few elementary changes (`Move`).
An invariant that does not look at walks, batches and calls is proved of the beginnings
and the moves; then it is one of the steps.
-/

set_option autoImplicit false

namespace Bbkgl
namespace TcpServer

open CS CS.Fallible TcpConnection Relation

/-- One thing that a step can do to a server, the destruction of an object and the creation of one
aside. -/
inductive Move : State → State → Prop
  /-- a thread goes on, or something is queued for it -/
  | setLoop (s : State) (i : LoopId) (g : Loop → Loop)
      (h : (g (s.loops i)).poller = (s.loops i).poller) : Move s (setLoop s i g)
  | setConn (s : State) (c : ConnId) (g : TcpConnection → TcpConnection)
      (h : Edited (s.conns c) (g (s.conns c))) : Move s (setConn s c g)
  | setCall (s : State) (who : Caller) (call : Option Call) : Move s (setCall s who call)
  | connections (s : State) (m : String → Option ConnId) : Move s { s with connections := m }
  | method (s : State) (c : ConnId) (l : Local) (halive : (s.conns c).alive = true)
      (h : Local.Parts c (localOf s c) l) : Move s (putLocal s c l)

/-- What a step does, one move after the other. -/
abbrev Moves : State → State → Prop := ReflTransGen Move

/-- The step is a chain of moves and nothing else. -/
def Action.isPlain : Action → Bool
  | .handleRead _ _ | .newConnection _ | .inputBuffer _ _ | .destroy _ => false
  | _ => true

variable (cfg : Config) in
/-- What a step does first. -/
inductive Begins (s : State) : Action → State → Prop
  | handleRead (i : LoopId) (readv : Option Bytes) (input : Buffer) (n : ℤ)
      (h : (s.conns (handled s i)).input.readFd readv = .ok (input, n)) :
      Begins s (.handleRead i readv)
        (setConn (nextCallback s i) (handled s i) fun conn => { conn with input := input })
  | newConnection (fd : ℕ) : Begins s (.newConnection fd) (withNewObject cfg s fd)
  | inputBuffer (i : LoopId) (u : Buffer.Use) (c : ConnId) (input : Buffer)
      (hc : (s.loops i).frame.bind Frame.conn = some c)
      (h : u.exec (s.conns c).input = .ok input) :
      Begins s (.inputBuffer i u) (setConn s c fun conn => { conn with input := input })
  | destroy (c : ConnId) : Begins s (.destroy c)
      (setLoop (setConn s c fun conn => { conn with alive := false }) (own s c) fun l =>
        { l with poller := l.poller.close (s.conns c).channel.fd })
  | plain (a : Action) (h : a.isPlain = true) : Begins s a s

variable {cfg : Config} {s m t : State} {i : LoopId} {c : ConnId} {f : Functor} {a : Action}
  {who : Caller}

theorem moves_setLoop {g : Loop → Loop} (h : (g (s.loops i)).poller = (s.loops i).poller) :
    Moves s (setLoop s i g) :=
  .single (.setLoop s i g h)

theorem moves_setFunctors {q : Mailbox Functor} : Moves s (setFunctors s i q) := by
  rw [setFunctors]
  exact moves_setLoop rfl

theorem moves_push : Moves s (push s i f) := moves_setFunctors

theorem moves_setPhase {phase : Phase} : Moves s (setPhase s i phase) := by
  rw [setPhase]
  exact moves_setLoop rfl

theorem moves_setConn {g : TcpConnection → TcpConnection}
    (h : Edited (s.conns c) (g (s.conns c))) : Moves s (setConn s c g) :=
  .single (.setConn s c g h)

theorem moves_record {e : ConnEvent} :
    Moves s (setConn s c fun conn => { conn with log := conn.log ++ [e] }) :=
  moves_setConn ⟨⟨rfl, rfl, rfl, rfl, rfl⟩, rfl, rfl, rfl⟩

theorem moves_nextCallback : Moves s (nextCallback s i) := by
  rw [nextCallback]
  split
  · exact moves_setLoop rfl
  · exact .refl

theorem moves_removeConnectionInLoop (hok : removeConnectionInLoop s c = .ok t) : Moves s t := by
  rw [removeConnectionInLoop_eq_ok hok]
  exact (moves_record.tail (.connections _ _)).trans moves_push

theorem moves_proceed {call : Call} : Moves s (proceed s who call) := by
  cases call with
  | send c message | shutdownSet c => exact moves_push.tail (.setCall _ _ _)
  | shutdownChecked c =>
    have hset : Moves s (setConn s c fun conn => { conn with state := .disconnecting }) :=
      moves_setConn ⟨⟨rfl, rfl, rfl, rfl, rfl⟩, rfl, rfl, rfl⟩
    exact hset.tail (.setCall _ _ _)

theorem moves_setEventHandling {b : Bool} : Moves s (setEventHandling s c b) :=
  moves_setConn ⟨⟨rfl, rfl, rfl, rfl, rfl⟩, rfl, rfl, rfl⟩

/-! ### Every step -/

/-- The opening of a step is its beginning and some moves. -/
theorem Opens.begins (h : Opens cfg s a m) : ∃ k, Begins cfg s a k ∧ Moves k m := by
  cases h with
  | handleRead i readv input n hread => exact ⟨_, .handleRead i readv input n hread, .refl⟩
  | newConnection fd => exact ⟨_, .newConnection fd, .refl⟩
  | inputBuffer i u c input hc hexec => exact ⟨_, .inputBuffer i u c input hc hexec, .refl⟩
  | destroy c => exact ⟨_, .destroy c, .refl⟩
  | poll i active => exact ⟨s, .plain _ rfl, moves_setPhase⟩
  | handleEvent | endEvent => exact ⟨s, .plain _ rfl, moves_setEventHandling.trans moves_setPhase⟩
  | handleClose | handleError | handleWrite => exact ⟨s, .plain _ rfl, moves_nextCallback⟩
  | closeTimer | keep | drop =>
    exact ⟨s, .plain _ rfl, moves_setConn ⟨⟨rfl, rfl, rfl, rfl, rfl⟩, rfl, rfl, rfl⟩⟩
  | doPendingFunctors | finishFunctors =>
    exact ⟨s, .plain _ rfl, moves_setFunctors.trans moves_setPhase⟩
  | runFunctor => exact ⟨s, .plain _ rfl, moves_setFunctors⟩
  | userReturn => exact ⟨s, .plain _ rfl, moves_setLoop rfl⟩
  | proceed => exact ⟨s, .plain _ rfl, moves_proceed⟩
  | call a hcall =>
    refine ⟨s, .plain a ?_, .refl⟩
    cases a with
    | handleRead | newConnection | inputBuffer | destroy =>
      exact absurd hcall (by simp [Action.isCall])
    | _ => rfl

/-- What a step does in between are moves. -/
theorem Works.moves (h : Works cfg s a m t) : Moves m t := by
  cases h with
  | push => exact moves_push
  | setConn c g hedited => exact moves_setConn hedited
  | setCall => exact .single (.setCall _ _ _)
  | method c l hc halive hparts => exact .single (.method m c l halive hparts)

theorem moves_pushes {p : Option (LoopId × Entry)} : Moves m (pushes m p) := by
  cases p with
  | none => exact .refl
  | some p =>
    rw [pushes, enterUser]
    exact moves_setLoop rfl

/-- The end of a step are moves. -/
theorem Ends.moves (h : Ends cfg s a m t) : Moves m t := by
  rw [Ends] at h
  split at h
  · exact moves_removeConnectionInLoop h
  · rw [h]
    exact moves_pushes

/-- A step begins, and goes on in moves. -/
theorem moves_effect (hg : guard cfg s a = true) (hok : effect cfg s a = .ok t) :
    ∃ m, Begins cfg s a m ∧ Moves m t := by
  obtain ⟨k, k', hopens, hworks, hends⟩ := anatomy hg hok
  obtain ⟨m, hbegins, hmoves⟩ := hopens.begins
  exact ⟨m, hbegins,
    (works_invariant hworks hmoves fun h hwork => h.trans hwork.moves).trans hends.moves⟩

/-! ### What moves leave alone -/

/-- No object is made, and each is the same, with the same input. -/
structure Keeps (s t : State) : Prop where
  nextObj : t.nextObj = s.nextObj
  next : t.next = s.next
  conn : ∀ c, Local.Fixed (s.conns c) (t.conns c)

theorem Keeps.rfl : Keeps s s := ⟨.refl _, .refl _, fun _ => .rfl⟩

theorem Keeps.trans (h : Keeps s m) (h' : Keeps m t) : Keeps s t :=
  ⟨h'.nextObj.trans h.nextObj, h'.next.trans h.next, fun c => (h.conn c).trans (h'.conn c)⟩

theorem Move.keeps (h : Move s t) : Keeps s t := by
  cases h with
  | setLoop | setCall | connections => exact ⟨rfl, rfl, fun _ => .rfl⟩
  | setConn c g hedited =>
    refine ⟨rfl, rfl, fun d => ?_⟩
    rw [conns_setConn]
    split
    · next hd => exact hd ▸ hedited.fixed
    · exact .rfl
  | method c l _ hparts =>
    refine ⟨rfl, rfl, fun d => ?_⟩
    rw [conns_putLocal]
    split
    · next hd => exact hd ▸ hparts.fixed
    · exact .rfl

/-- Moves make no object, and leave what the objects are. -/
theorem Moves.keeps (h : Moves s t) : Keeps s t := by
  induction h with
  | refl => exact .rfl
  | tail _ hmove ih => exact ih.trans hmove.keeps

/-- The rule for a chain of moves. -/
theorem Moves.invariant {I : State → Prop} (h : Moves s t) (hs : I s)
    (moves : ∀ {s t}, I s → Move s t → I t) : I t := by
  induction h with
  | refl => exact hs
  | tail _ hmove ih => exact moves ih hmove

/-- The invariant rule: what holds at first, is not about the fault, and is kept by
every beginning and every move. -/
theorem moves_invariant {I : State → Prop} {ok : State → Action → Prop} {as : List Action}
    (hrun : Transition.Reach (step cfg) ok State.init as s) (init : I State.init)
    (fault : ∀ {s f}, I s → I { s with fault := f })
    (begins : ∀ {s a m}, Placed cfg s → guard cfg s a = true → I s → Begins cfg s a m → I m)
    (moves : ∀ {s t}, I s → Move s t → I t) : I s := by
  refine hrun.invariant init ?_
  intro bs u a t hreach hinv _ hstep
  obtain ⟨-, hg, hok | ⟨f, -, rfl⟩⟩ := step_cases hstep
  · obtain ⟨m, hbegins, hmoves⟩ := moves_effect hg hok
    exact hmoves.invariant (begins (placed_of_reach hreach) hg hinv hbegins) moves
  · exact fault hinv

/-! ### What moves do to the pollers -/

/-- One `UpdateChannel` or `RemoveChannel`. -/
inductive PollerCall (c : ConnId) (ep : Epoller ConnId) (ch : Channel) :
    Epoller ConnId → Channel → Prop
  | update (change : Channel.Change) {ep' : Epoller ConnId} {ch' : Channel}
      (h : ep.updateChannel c (change.apply ch) = .ok (ep', ch')) : PollerCall c ep ch ep' ch'
  | remove {ep' : Epoller ConnId} {ch' : Channel} (h : ep.removeChannel c ch = .ok (ep', ch')) :
      PollerCall c ep ch ep' ch'

/-- The channels and the pollers are as before, or one connection that exists has made one
call, and its channel and the poller of its loop have changed. -/
inductive Rewires (s t : State) : Prop
  | same (h : Calm s t)
  | call (c : ConnId) (poller : Epoller ConnId) (halive : (s.conns c).alive = true)
      (hnext : t.nextObj = s.nextObj) (hfixed : Local.Fixed (s.conns c) (t.conns c))
      (hother : ∀ d, d ≠ c → t.conns d = s.conns d)
      (hpoller : ∀ i, (t.loops i).poller = if i = own s c then poller else (s.loops i).poller)
      (h : PollerCall c (s.loops (own s c)).poller (s.conns c).channel poller (t.conns c).channel)

variable {l l' : Local}

/-- A part of a method makes one call of the poller at most. -/
theorem rewires_part (halive : l.conn.alive = true) (hloop : l.conn.loop = own s c)
    (hpart : Local.Part c l l') : Rewires (putLocal s c l) (putLocal s c l') := by
  have hself : ∀ l : Local, (putLocal s c l).conns c = l.conn := fun l =>
    conns_putLocal.trans (if_pos rfl)
  have hother : ∀ d, d ≠ c → (putLocal s c l').conns d = (putLocal s c l).conns d := fun d hd => by
    rw [conns_putLocal, conns_putLocal, if_neg hd, if_neg hd]
  have hown : own (putLocal s c l) c = own s c := by rw [own, hself, hloop]
  have hpoller : ∀ i, ((putLocal s c l').loops i).poller =
      if i = own (putLocal s c l) c then l'.poller else ((putLocal s c l).loops i).poller := by
    intro i
    rw [hown, poller_putLocal, poller_putLocal]
    by_cases hi : i = own s c
    · rw [if_pos hi, if_pos hi]
    · rw [if_neg hi, if_neg hi, if_neg hi]
  have hfixed := hpart.fixed
  have same (hp : l'.poller = l.poller) (hch : l'.conn.channel = l.conn.channel) :
      Rewires (putLocal s c l) (putLocal s c l') := by
    refine .same ⟨rfl, fun d => ?_, fun i => ?_⟩
    · by_cases hd : d = c
      · rw [hd, hself, hself]
        exact ⟨hfixed.loop, hfixed.fd, by rw [hch], by rw [hch], hfixed.alive⟩
      · rw [hother d hd]
        exact .rfl
    · rw [poller_putLocal, poller_putLocal, hp]
  have call (h : PollerCall c l.poller l.conn.channel l'.poller l'.conn.channel) :
      Rewires (putLocal s c l) (putLocal s c l') := by
    refine .call c l'.poller ?_ rfl ?_ hother hpoller ?_
    · rw [hself]
      exact halive
    · rw [hself, hself]
      exact hfixed
    · rw [hown, poller_putLocal, if_pos rfl, hself, hself]
      exact h
  cases hpart with
  | record | setState | output | queueWriteComplete | clearWriteComplete => exact same rfl rfl
  | update _ change hok =>
    obtain ⟨poller, index, hupdate, rfl⟩ := Local.update_ok hok
    exact call (.update change hupdate)
  | removeChannel _ hok =>
    obtain ⟨poller, hremove, rfl⟩ := Local.removeChannel_ok hok
    exact call (.remove hremove)

theorem rewires_localOf : Rewires s (putLocal s c (localOf s c)) := by
  refine .same ⟨rfl, fun d => ?_, fun i => ?_⟩
  · rw [conns_putLocal]
    split
    · next hd => exact hd ▸ .rfl
    · exact .rfl
  · rw [poller_putLocal]
    split
    · next hi => rw [hi]; rfl
    · rfl

/-- A move makes its calls of the poller one after the other. -/
theorem Move.rewires (h : Move s t) : ReflTransGen Rewires s t := by
  cases h with
  | setLoop i g hpoller => exact .single (.same (calm_setLoop hpoller))
  | setConn c g hedited =>
    have hfixed := hedited.fixed
    exact .single (.same (calm_setConn
      ⟨hfixed.loop, hfixed.fd, hedited.index, hedited.events, hfixed.alive⟩))
  | setCall => exact .single (.same calm_setCall)
  | connections => exact .single (.same calm_connections)
  | method c l halive hparts =>
    induction hparts with
    | refl => exact .single rewires_localOf
    | tail hparts hpart ih =>
      have hfixed := Local.Parts.fixed hparts
      exact ih.tail (rewires_part (hfixed.alive.trans halive) hfixed.loop hpart)

/-- The invariant rule, for what depends on the channels and the pollers alone. -/
theorem Moves.rewired {I : State → Prop} (h : Moves s t) (hs : I s)
    (rewires : ∀ {s t}, I s → Rewires s t → I t) : I t := by
  refine h.invariant hs fun hI hmove => ?_
  have hchain := hmove.rewires
  clear hmove
  induction hchain with
  | refl => exact hI
  | tail _ hrewires ih => exact rewires ih hrewires

/-- The object has gone, and its descriptor is closed. -/
structure Releases (s t : State) (c : ConnId) : Prop where
  nextObj : t.nextObj = s.nextObj
  self : t.conns c = { s.conns c with alive := false }
  other : ∀ d, d ≠ c → t.conns d = s.conns d
  poller : ∀ i, (t.loops i).poller = if i = own s c then
    (s.loops (own s c)).poller.close (s.conns c).channel.fd else (s.loops i).poller

/-- The destruction ends one object and closes one descriptor. -/
theorem releases_destroy : Releases s
    (setLoop (setConn s c fun conn => { conn with alive := false }) (own s c) fun l =>
      { l with poller := l.poller.close (s.conns c).channel.fd }) c where
  nextObj := rfl
  self := Function.update_self _ _ _
  other _ hd := Function.update_of_ne hd _ _
  poller i := by
    rw [loops_setLoop]
    split
    · rfl
    · rfl

/-- The rule for the beginning of a step, for what depends on channels and pollers alone. -/
theorem Begins.rewired {I : State → Prop} (h : Begins cfg s a m) (hs : I s)
    (rewires : ∀ {s t}, I s → Rewires s t → I t)
    (new : ∀ fd, a = .newConnection fd → I (withNewObject cfg s fd))
    (destroy : ∀ c m, a = .destroy c → Releases s m c → I m) : I m := by
  cases h with
  | handleRead i readv input n hread =>
    exact rewires hs (.same (calm_nextCallback.trans (calm_setConn ⟨rfl, rfl, rfl, rfl, rfl⟩)))
  | newConnection fd => exact new fd rfl
  | inputBuffer i u c input hc hexec =>
    exact rewires hs (.same (calm_setConn ⟨rfl, rfl, rfl, rfl, rfl⟩))
  | destroy c => exact destroy c _ rfl releases_destroy
  | plain => exact hs

/-- Objects that exist have been made. -/
theorem Rewires.lt (h : Rewires s t) (hlt : ∀ c, (s.conns c).alive = true → c < s.nextObj)
    (halive : (t.conns c).alive = true) : c < t.nextObj := by
  cases h with
  | same hcalm =>
    rw [hcalm.nextObj]
    exact hlt c ((hcalm.conn c).alive ▸ halive)
  | call d poller hd hnext hfixed hother =>
    rw [hnext]
    by_cases hcd : c = d
    · exact hlt c (hcd ▸ hd)
    · exact hlt c (hother c hcd ▸ halive)

/-- The kernel gives no descriptor that is open. -/
theorem fd_free_of_guard {fd : ℕ} (hg : guard cfg s (.newConnection fd) = true) :
    ∀ c < s.nextObj, (s.conns c).alive = true → (s.conns c).channel.fd ≠ fd := by
  simp only [guard, Bool.and_eq_true, List.all_eq_true, List.mem_range, Bool.not_eq_true',
    Bool.and_eq_false_imp, decide_eq_false_iff_not] at hg
  exact hg.2

theorem alive_of_guard (hg : guard cfg s (.destroy c) = true) : (s.conns c).alive = true := by
  simp only [guard, Bool.and_eq_true] at hg
  exact hg.1.2

/-- The rule for one step. -/
theorem rewired_effect {I : State → Prop} (hplaced : Placed cfg s) (hg : guard cfg s a = true)
    (hok : effect cfg s a = .ok t) (hs : I s)
    (rewires : ∀ {k m}, (∀ c, (k.conns c).alive = true → c < k.nextObj) → I k → Rewires k m → I m)
    (new : ∀ fd, a = .newConnection fd → I (withNewObject cfg s fd))
    (releases : ∀ c m, a = .destroy c → Releases s m c → I m) : I t := by
  obtain ⟨m, hbegins, hmoves⟩ := moves_effect hg hok
  have hlt : ∀ c, (s.conns c).alive = true → c < s.nextObj :=
    fun c hc => hplaced.lt_nextObj_of_alive hc
  have rewires {k m : State} (hk : I k ∧ ∀ c, (k.conns c).alive = true → c < k.nextObj)
      (h : Rewires k m) : I m ∧ ∀ c, (m.conns c).alive = true → c < m.nextObj :=
    ⟨rewires hk.2 hk.1 h, fun _ hc => h.lt hk.2 hc⟩
  have hm : I m ∧ ∀ c, (m.conns c).alive = true → c < m.nextObj := by
    refine hbegins.rewired ⟨hs, hlt⟩ rewires (fun fd ha => ⟨new fd ha, fun c hc => ?_⟩)
      fun c m ha h => ⟨releases c m ha h, fun d hd => ?_⟩
    · exact (placed_withNewObject hplaced fd).lt_nextObj_of_alive hc
    · rw [h.nextObj]
      refine hlt d ?_
      by_cases hdc : d = c
      · rw [hdc, h.self] at hd
        exact absurd hd (by simp)
      · exact h.other d hdc ▸ hd
  exact (hmoves.rewired hm rewires).1

end TcpServer
end Bbkgl
