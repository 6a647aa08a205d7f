import Bbkgl.Net.TcpServerReuse
import Bbkgl.Net.TcpServerWatching

/-!
# Between `delete channel_` and `close(fd)`

`~TcpConnection` deletes `channel_` before `socket_` closes the descriptor. `step` does
both at once. Here each is a step, with steps of the server in between, and the kernel
gives the descriptor to nobody else until it is closed.

A record of the epoll instance can name a deleted channel only in between, and only if
something has registered the channel after `ConnDestroyed`.
-/

set_option autoImplicit false

namespace Bbkgl
namespace TcpServer

open CS CS.Fallible CS.Transition TcpConnection Connection Relation

/-- The server, and the connections between the two parts of their destruction. -/
structure Destruction where
  server : State
  /-- `channel_` is deleted, and the descriptor is open. -/
  closing : ConnId → Bool

namespace Destruction

/-- No connection is being destroyed. -/
def init : Destruction := ⟨.init, fun _ => false⟩

/-- The actions of the server, with the destruction of a connection in two parts. -/
inductive Action
  /-- any step of the server that is not a destruction -/
  | server (a : TcpServer.Action)
  | deleteChannel (c : ConnId)
  | closeFd (c : ConnId)
  deriving DecidableEq, Repr

/-- The descriptor of an object whose destruction is not over. -/
def takes (s : Destruction) : TcpServer.Action → Bool
  | .newConnection fd => (List.range s.server.nextObj).any fun c =>
      s.closing c && (s.server.conns c).channel.fd = fd
  | _ => false

/-- The destruction of a connection in one step. -/
def isDestroy : TcpServer.Action → Bool
  | .destroy _ => true
  | _ => false

/-- When an action can be taken. -/
def guard (cfg : Config) (s : Destruction) : Action → Bool
  | .server a => TcpServer.guard cfg s.server a && !isDestroy a && !takes s a
  | .deleteChannel c => TcpServer.guard cfg s.server (.destroy c)
  | .closeFd c => s.closing c

/-- The channel is deleted by the destructor of the connection, and is not to be handling an
event. -/
def deleteChannel (s : State) (c : ConnId) : Except Fault State :=
  if (s.conns c).channel.eventHandling then .error (.assertion .channelDestroyed)
  else .ok (setConn s c fun conn => { conn with alive := false })

/-- The destructor of the socket closes the descriptor, and the kernel drops the record. -/
def closeFd (s : State) (c : ConnId) : State :=
  setLoop s (own s c) fun l => { l with poller := l.poller.close (s.conns c).channel.fd }

/-- What an action does. -/
def effect (cfg : Config) (s : Destruction) : Action → Except Fault Destruction
  | .server a => do
    let t ← TcpServer.effect cfg s.server a
    return { s with server := t }
  | .deleteChannel c => do
    let t ← deleteChannel s.server c
    return ⟨t, Function.update s.closing c true⟩
  | .closeFd c => .ok ⟨closeFd s.server c, Function.update s.closing c false⟩

/-- The state after an action, or the fault that it has met. -/
def commit (cfg : Config) (s : Destruction) (a : Action) : Destruction :=
  match effect cfg s a with
  | .ok t => t
  | .error f => { s with server.fault := some f }

/-- One step; none after a fault. -/
def step (cfg : Config) : Destruction → Action → Option Destruction :=
  guarded (fun s a => s.server.fault.isNone && guard cfg s a) (commit cfg)

/-- A condition on the steps of the server. -/
def onServer (p : State → TcpServer.Action → Bool) (s : Destruction) : Action → Bool
  | .server a => p s.server a
  | .deleteChannel _ | .closeFd _ => true

/-- The objects whose descriptor is open are taken to exist. -/
def opened (s : State) (closing : ConnId → Bool) : State :=
  { s with conns := fun c => { s.conns c with alive := (s.conns c).alive || closing c } }

variable {cfg : Config} {s t : Destruction} {u v m : State} {G : ConnId → Bool} {c d : ConnId}
  {i : LoopId} {a : Action} {b : TcpServer.Action}

/-! ### The descriptors that are open -/

theorem opened_setConn {g k : TcpConnection → TcpConnection}
    (hk : k ((opened u G).conns c) =
      { g (u.conns c) with alive := (g (u.conns c)).alive || G c }) :
    opened (setConn u c g) G = setConn (opened u G) c k := by
  simp only [opened, setConn, State.mk.injEq, and_true]
  funext d
  by_cases hd : d = c
  · subst hd
    rw [Function.update_self, Function.update_self]
    exact hk.symm
  · rw [Function.update_of_ne hd, Function.update_of_ne hd]

theorem opened_conn (halive : (u.conns c).alive = true) : (opened u G).conns c = u.conns c := by
  simp only [opened, halive, Bool.true_or]
  rw [← halive]

theorem opened_putLocal {l : Local} (hl : l.conn.alive = true) :
    opened (putLocal u c l) G = putLocal (opened u G) c l := by
  simp only [opened, putLocal, setLoop, State.mk.injEq, and_true]
  funext d
  by_cases hd : d = c
  · subst hd
    rw [Function.update_self, Function.update_self, hl, Bool.true_or, ← hl]
  · rw [Function.update_of_ne hd, Function.update_of_ne hd]

/-- A move does not see which objects are being destroyed. -/
theorem move_opened (h : Move u v) : Move (opened u G) (opened v G) := by
  cases h with
  | setLoop i g hpoller => exact .setLoop (opened u G) i g hpoller
  | setCall who call => exact .setCall (opened u G) who call
  | connections m => exact .connections (opened u G) m
  | setConn c g hedited =>
    rw [opened_setConn (k := fun _ =>
      { g (u.conns c) with alive := (g (u.conns c)).alive || G c }) rfl]
    obtain ⟨hfixed, hevents, hindex, houtput⟩ := hedited
    refine .setConn (opened u G) c _ ⟨⟨hfixed.loop, hfixed.name, hfixed.fd, ?_, hfixed.input⟩,
      hevents, hindex, houtput⟩
    exact congrArg (· || G c) hfixed.alive
  | method c l halive hparts =>
    rw [opened_putLocal ((Local.Parts.fixed hparts).alive.trans halive)]
    have hlocal : localOf (opened u G) c = localOf u c := by
      rw [localOf, localOf, own, opened_conn halive]
      rfl
    exact .method (opened u G) c l (by rw [opened_conn halive]; exact halive) (hlocal ▸ hparts)

theorem moves_opened (h : Moves u v) : Moves (opened u G) (opened v G) :=
  h.lift (fun u => opened u G) fun _ _ => move_opened

theorem opened_nextCallback : opened (nextCallback u i) G = nextCallback (opened u G) i := by
  have hloops : (opened u G).loops = u.loops := rfl
  simp only [nextCallback, hloops]
  split <;> rfl

theorem opened_withNewObject {fd : ℕ} :
    opened (withNewObject cfg u fd) G = withNewObject cfg (opened u G) fd := by
  simp only [opened, withNewObject, State.mk.injEq, and_true]
  refine ⟨?_, trivial, trivial, trivial, trivial, trivial, rfl⟩
  funext d
  by_cases hd : d = u.nextObj
  · subst hd
    rw [Function.update_self, Function.update_self]
    rfl
  · rw [Function.update_of_ne hd, Function.update_of_ne hd]

/-- The beginning of a step does not see it either, unless it is a destruction. -/
theorem begins_opened (hb : isDestroy b = false) (h : Begins cfg u b m) :
    Begins cfg (opened u G) b (opened m G) := by
  cases h with
  | handleRead i readv input n hread =>
    rw [opened_setConn (k := fun conn => { conn with input := input }) rfl, opened_nextCallback]
    exact .handleRead i readv input n hread
  | newConnection fd =>
    rw [opened_withNewObject]
    exact .newConnection fd
  | inputBuffer i w c input hc hexec =>
    rw [opened_setConn (k := fun conn => { conn with input := input }) rfl]
    exact .inputBuffer i w c input hc hexec
  | destroy c => exact absurd hb (by simp [isDestroy])
  | plain _ hplain => exact .plain _ hplain

/-! ### Every step -/

/-- The descriptor of a connection that is being destroyed is still open, and to the pollers the
channel is as it was. -/
structure Tracked (cfg : Config) (s : Destruction) : Prop where
  placed : Placed cfg s.server
  closing : ∀ c, s.closing c = true →
    c < s.server.nextObj ∧ (s.server.conns c).alive = false
  watching : Watching (opened s.server s.closing)

theorem tracked_init : Tracked cfg init where
  placed := placed_init
  closing _ h := absurd h (by simp [init])
  watching := watching_init

/-- No object comes back. -/
theorem dead_of_effect (hb : isDestroy b = false) (hg : TcpServer.guard cfg u b = true)
    (hok : TcpServer.effect cfg u b = .ok v) (hc : c < u.nextObj)
    (hdead : (u.conns c).alive = false) : c < v.nextObj ∧ (v.conns c).alive = false := by
  obtain ⟨m, hbegins, hmoves⟩ := moves_effect hg hok
  have hkeeps := Moves.keeps hmoves
  rw [hkeeps.nextObj, (hkeeps.conn c).alive]
  cases hbegins with
  | handleRead i readv input n hread =>
    have hwalk : Keeps u (nextCallback u i) := moves_nextCallback.keeps
    refine ⟨hwalk.nextObj ▸ hc, ?_⟩
    rw [conns_setConn, ← hdead, ← (hwalk.conn c).alive]
    split
    · next h => rw [h]
    · rfl
  | newConnection fd =>
    refine ⟨Nat.lt_succ_of_lt hc, ?_⟩
    rw [show (withNewObject cfg u fd).conns c = u.conns c from
      Function.update_of_ne (Nat.ne_of_lt hc) _ _]
    exact hdead
  | inputBuffer i w d input hd hexec =>
    refine ⟨hc, ?_⟩
    rw [conns_setConn, ← hdead]
    split
    · next h => rw [h]
    · rfl
  | destroy d => exact absurd hb (by simp [isDestroy])
  | plain => exact ⟨hc, hdead⟩

theorem placed_opened (h : Tracked cfg s) : Placed cfg (opened s.server s.closing) where
  fresh := by
    intro c hc
    obtain ⟨hdead, hrest⟩ := h.placed.fresh c hc
    refine ⟨?_, hrest⟩
    have hopen : s.closing c = false := by
      by_contra hclosing
      exact Nat.not_lt_of_le hc (h.closing c (by simpa using hclosing)).1
    simp [opened, hdead, hopen]
  own_mem := h.placed.own_mem
  next := h.placed.next
  functors := h.placed.functors
  calls := h.placed.calls
  wf := h.placed.wf
  batch := h.placed.batch

/-- A step of the server keeps track. -/
theorem tracked_server (h : Tracked cfg s) (hfault : s.server.fault = none)
    (hg : guard cfg s (.server b) = true) (hok : TcpServer.effect cfg s.server b = .ok v) :
    Tracked cfg { s with server := v } := by
  simp only [guard, Bool.and_eq_true, Bool.not_eq_true'] at hg
  obtain ⟨⟨hg, hdestroy⟩, htakes⟩ := hg
  have hstep : TcpServer.step cfg s.server b = some v :=
    guarded_eq_some_iff.mpr ⟨by simp [hfault, hg], by rw [TcpServer.commit, hok]⟩
  refine ⟨placed_step h.placed hstep, fun c hc => ?_, ?_⟩
  · obtain ⟨hlt, hdead⟩ := h.closing c hc
    exact dead_of_effect hdestroy hg hok hlt hdead
  · obtain ⟨m, hbegins, hmoves⟩ := moves_effect hg hok
    refine Watching.moves ?_ (moves_opened hmoves)
    refine h.watching.begins (placed_opened h) ?_ ?_ (begins_opened hdestroy hbegins)
    · rintro fd rfl c hc hopen
      rcases Bool.or_eq_true_iff.mp hopen with halive | hclosing
      · exact fd_free_of_guard hg c hc halive
      · simp only [takes, List.any_eq_false, List.mem_range] at htakes
        have hfd := htakes c hc
        rw [hclosing, Bool.true_and, decide_eq_true_eq] at hfd
        exact hfd
    · rintro c rfl
      exact absurd hdestroy (by simp [isDestroy])

/-- Nothing but the existence of `c` has changed. -/
theorem placed_deleted (h : Placed cfg u) (hc : c < u.nextObj) :
    Placed cfg (setConn u c fun conn => { conn with alive := false }) :=
  h.setConn rfl (fun hfresh => absurd hc (Nat.not_lt_of_le hfresh)) (h.wf c)

/-- The deletion of the channel keeps track. -/
theorem tracked_deleteChannel (h : Tracked cfg s)
    (hg : TcpServer.guard cfg s.server (.destroy c) = true)
    (hok : deleteChannel s.server c = .ok v) :
    Tracked cfg ⟨v, Function.update s.closing c true⟩ := by
  have halive := alive_of_guard hg
  have hc := h.placed.lt_nextObj_of_alive halive
  rw [deleteChannel] at hok
  split at hok
  · exact absurd hok (by simp)
  obtain rfl := Except.ok.inj hok
  refine ⟨placed_deleted h.placed hc, fun d hd => ?_, ?_⟩
  · have hd : Function.update s.closing c true d = true := hd
    show d < s.server.nextObj ∧ _
    rw [conns_setConn]
    by_cases hdc : d = c
    · rw [if_pos hdc, hdc]
      exact ⟨hc, rfl⟩
    · rw [Function.update_of_ne hdc] at hd
      rw [if_neg hdc]
      exact h.closing d hd
  · refine h.watching.congr (fun _ _ => rfl) fun d => ?_
    have hconn : ∀ d, (opened (setConn s.server c fun conn => { conn with alive := false })
        (Function.update s.closing c true)).conns d = (opened s.server s.closing).conns d := by
      intro d
      simp only [opened, conns_setConn]
      by_cases hd : d = c
      · simp [hd, halive]
      · simp [hd]
    rw [hconn]
    exact .rfl

theorem placed_closed (h : Placed cfg u) : Placed cfg (closeFd u c) := by
  rw [closeFd]
  exact h.setLoop_frame rfl fun hphase => hphase

/-- The close takes the descriptor out of the one poller. -/
theorem poller_closeFd : ((closeFd u c).loops i).poller = if i = own u c then
    (u.loops (own u c)).poller.close (u.conns c).channel.fd else (u.loops i).poller := by
  rw [closeFd, loops_setLoop]
  split <;> rfl

/-- The close of the descriptor keeps track. -/
theorem tracked_closeFd (h : Tracked cfg s) (hc : s.closing c = true) :
    Tracked cfg ⟨closeFd s.server c, Function.update s.closing c false⟩ := by
  refine ⟨placed_closed h.placed, fun d hd => ?_, ?_⟩
  · have hd : Function.update s.closing c false d = true := hd
    by_cases hdc : d = c
    · rw [hdc, Function.update_self] at hd
      exact absurd hd (by simp)
    · rw [Function.update_of_ne hdc] at hd
      exact h.closing d hd
  · have hopen : ((opened s.server s.closing).conns c).alive = true := by
      simp [opened, hc]
    refine h.watching.releases hopen ⟨rfl, ?_, fun d hd => ?_, fun i => ?_⟩
    · simp [opened, closeFd, setLoop, (h.closing c hc).2]
    · simp [opened, closeFd, setLoop, hd]
    · exact poller_closeFd (u := s.server)

/-- The step lemma of `Tracked`. -/
theorem tracked_step (h : Tracked cfg s) (hstep : step cfg s a = some t) : Tracked cfg t := by
  obtain ⟨hg, rfl⟩ := guarded_eq_some_iff.mp hstep
  simp only [Bool.and_eq_true, Option.isNone_iff_eq_none] at hg
  obtain ⟨hfault, hg⟩ := hg
  rw [commit]
  split
  · next t hok =>
    cases a with
    | server b =>
      obtain ⟨v, hv, hok⟩ := bind_eq_ok_iff.mp hok
      obtain rfl := pure_eq_ok_iff.mp hok
      exact tracked_server h hfault hg hv
    | deleteChannel c =>
      obtain ⟨v, hv, hok⟩ := bind_eq_ok_iff.mp hok
      obtain rfl := pure_eq_ok_iff.mp hok
      exact tracked_deleteChannel h hg hv
    | closeFd c =>
      obtain rfl := Except.ok.inj hok
      exact tracked_closeFd h hg
  · exact ⟨placed_fault h.placed, h.closing, h.watching.congr (fun _ _ => rfl) fun _ => .rfl⟩

theorem tracked_of_reach {ok : Destruction → Action → Prop} {as : List Action}
    (hrun : Reach (step cfg) ok init as s) : Tracked cfg s :=
  hrun.invariant tracked_init fun _ h _ hstep => tracked_step h hstep

/-! ### A run in which no channel comes back into its poller -/

/-- A channel that has left its poller has no record. -/
theorem kernel_of_isNew (h : Tracked cfg s)
    (hopen : (s.server.conns c).alive = true ∨ s.closing c = true) (hnew : isNew s.server c) :
    (s.server.loops (own s.server c)).poller.kernel (s.server.conns c).channel.fd = none := by
  have hopen : ((opened s.server s.closing).conns c).alive = true := Bool.or_eq_true_iff.mpr hopen
  have hne : Epoller.kNew ≠ Epoller.kAdded := by decide
  refine (h.watching.kernelAt_own hopen).trans (if_neg fun hadded => ?_)
  have hindex : (s.server.conns c).channel.index = Epoller.kAdded := hadded
  rw [isNew] at hnew
  exact hne (hnew.symm.trans hindex)

/-- Without a record there is nothing for the close to take away. -/
theorem closeFd_eq_self
    (hnone : (u.loops (own u c)).poller.kernel (u.conns c).channel.fd = none) :
    closeFd u c = u := by
  rw [closeFd, setLoop, Epoller.close, ← hnone, Function.update_eq_self, Function.update_eq_self]

/-- The server makes the step `b`, or none. -/
def label : Action → Option TcpServer.Action
  | .server b => some b
  | .deleteChannel c => some (.destroy c)
  | .closeFd _ => none

/-- A step of the server in between is one of the server. -/
theorem step_server (hstep : step cfg s (.server b) = some t) :
    TcpServer.step cfg s.server b = some t.server := by
  obtain ⟨hg, rfl⟩ := guarded_eq_some_iff.mp hstep
  simp only [guard, Bool.and_eq_true] at hg
  refine guarded_eq_some_iff.mpr ⟨by rw [hg.1, hg.2.1.1, Bool.true_and], ?_⟩
  rw [TcpServer.commit, commit, effect]
  cases TcpServer.effect cfg s.server b with
  | ok v => rfl
  | error f => rfl

/-- Without a record there is nothing that the closing could take away. -/
theorem effect_destroy
    (hnone : (u.loops (own u c)).poller.kernel (u.conns c).channel.fd = none) :
    TcpServer.effect cfg u (.destroy c) = deleteChannel u c := by
  rw [TcpServer.effect, deleteChannel]
  split
  · rfl
  · exact congrArg (fun v => Except.ok (setConn v c fun conn => { conn with alive := false }))
      (closeFd_eq_self hnone)

/-- Where the channel is out of its poller, the destruction is over with its deletion. -/
theorem step_deleteChannel (h : Tracked cfg s) (hnew : isNew s.server c)
    (hstep : step cfg s (.deleteChannel c) = some t) :
    TcpServer.step cfg s.server (.destroy c) = some t.server := by
  obtain ⟨hg, rfl⟩ := guarded_eq_some_iff.mp hstep
  refine guarded_eq_some_iff.mpr ⟨hg, ?_⟩
  simp only [Bool.and_eq_true] at hg
  have hnone := kernel_of_isNew h (Or.inl (alive_of_guard hg.2)) hnew
  rw [TcpServer.commit, effect_destroy hnone, commit, effect]
  cases deleteChannel s.server c with
  | ok v => rfl
  | error f => rfl

/-- A run in which no channel comes back is one in which objects go at once. -/
theorem reach_server {as : List Action}
    (hrun : Reach (step cfg) (fun s a => onServer (staysOut cfg) s a = true) init as s) :
    Reach (TcpServer.step cfg) (fun u b => staysOut cfg u b = true) State.init
      (as.filterMap label) s.server := by
  induction hrun with
  | nil => exact .nil
  | @snoc as a s t hprefix hok hstep ih =>
    have htracked := tracked_of_reach hprefix
    have hgone := gone_of_reach ih
    rw [List.filterMap_append]
    cases a with
    | server b => exact .snoc ih hok (step_server hstep)
    | deleteChannel c =>
      have hg : TcpServer.guard cfg s.server (.destroy c) = true := by
        obtain ⟨hg, -⟩ := guarded_eq_some_iff.mp hstep
        exact (Bool.and_eq_true_iff.mp hg).2
      have hkept := kept_of_reach keepsEntries_of_staysOut ih
      have hnew := isNew_of_destroy htracked.placed hkept hgone hg
      exact .snoc ih rfl (step_deleteChannel htracked hnew hstep)
    | closeFd c =>
      obtain ⟨hg, rfl⟩ := guarded_eq_some_iff.mp hstep
      have hclosing : s.closing c = true := (Bool.and_eq_true_iff.mp hg).2
      obtain ⟨hc, hdead⟩ := htracked.closing c hclosing
      have hnone := kernel_of_isNew htracked (Or.inr hclosing) ((hgone c hc).dead hdead)
      have hsame : (commit cfg s (.closeFd c)).server = s.server := closeFd_eq_self hnone
      rw [hsame, List.filterMap_cons_none rfl, List.filterMap_nil, List.append_nil]
      exact ih

/-- A record in the epoll instance of a loop is about a connection of that loop, under its
own descriptor and with its own interest. Its channel exists, or it is deleted and the
descriptor is about to be closed; and it exists if no channel has come back into its poller. -/
theorem records_live {as : List Action} (hrun : Reach (step cfg) Always init as s) {fd : ℕ}
    {mask : EventMask} (hrecord : (s.server.loops i).poller.kernel fd = some (mask, c)) :
    ((s.server.conns c).alive = true ∨ s.closing c = true) ∧
      (own s.server c = i ∧ (s.server.conns c).channel.fd = fd) ∧
      mask = (s.server.conns c).channel.events ∧
      (Reach (step cfg) (fun s a => onServer (staysOut cfg) s a = true) init as s →
        (s.server.conns c).alive = true) := by
  have h := tracked_of_reach hrun
  obtain ⟨hplace, hopen, hindex, hmask⟩ := h.watching.record i fd mask c hrecord
  have hopen : (s.server.conns c).alive = true ∨ s.closing c = true :=
    Bool.or_eq_true_iff.mp hopen
  refine ⟨hopen, hplace, hmask, fun hstays => hopen.resolve_right fun hclosing => ?_⟩
  obtain ⟨hc, hdead⟩ := h.closing c hclosing
  have hgone := gone_of_reach (reach_server hstays)
  have hnew : (s.server.conns c).channel.index = Epoller.kNew := (hgone c hc).dead hdead
  have hindex : (s.server.conns c).channel.index = Epoller.kAdded := hindex
  exact absurd (hnew.symm.trans hindex) (by decide)

/-! ### Runs -/

/-- Connection 0 has been closed by its peer, connection 1 is open, and the last pointer to
connection 0 goes. -/
def deleted : List Action :=
  closedByPeer.map .server ++ [.server (.poll 0 []), .server (.newConnection 8),
    .server (.poll 1 []), .server (.doPendingFunctors 1), .server (.runFunctor 1 none),
    .server (.userReturn 1), .server (.finishFunctors 1), .server (.drop 0), .deleteChannel 0]

/-- The channel of connection 0 is deleted, its descriptor is not closed yet, and connection 1
exists. -/
theorem records_live_deleted :
    ∃ s, run (step oneThread) init deleted = some s ∧ s.closing 0 = true ∧
      (s.server.conns 0).alive = false ∧ (s.server.conns 1).alive = true := by
  have hend : (runIf (step oneThread) (fun s a => onServer (staysOut oneThread) s a = true) init
      deleted).map (fun s => ((s.closing 0, (s.server.conns 0).alive),
        (s.server.loops 1).poller.kernel 8)) =
          some ((true, false), some (Channel.readEvent, 1)) := by decide +kernel
  obtain ⟨s, hs, heq⟩ := Option.map_eq_some_iff.mp hend
  obtain ⟨hzero, hrecord⟩ := Prod.mk.inj heq
  obtain ⟨hclosing, hdead⟩ := Prod.mk.inj hzero
  have hrun := reach_of_runIf hs
  obtain ⟨-, -, -, hlive⟩ := records_live (reach_of_run hrun.run_eq) hrecord
  exact ⟨s, hrun.run_eq, hclosing, hdead, hlive hrun⟩

/-- A `SendInLoop` after `ConnDestroyed` leaves a byte over, and so a record. -/
def leftOver : List TcpServer.Action :=
  established ++ [.send (.user 0) 0 [1, 2] none, .poll 1 [(0, pollIn)], .handleEvent 1,
    .handleRead 1 (some []), .endEvent 1] ++ removedAndDestroyed ++
    [.proceed (.user 0), .poll 1 [], .doPendingFunctors 1, .runFunctor 1 (some 1),
      .finishFunctors 1, .drop 0]

/-- A connection that was registered again after its removal, up to the deletion of its channel.
-/
def deletedWithRecord : List Action := leftOver.map .server ++ [.deleteChannel 0]

/-- The kernel reports the deleted channel. -/
theorem record_of_deletedWithRecord :
    (run (step oneThread) init deletedWithRecord).map (fun s =>
      ((s.server.conns 0).alive, (s.server.loops 1).poller.kernel 7)) =
        some (false, some (Channel.writeEvent, 0)) ∧
    (run (step oneThread) init (deletedWithRecord ++
      [.server (.poll 1 [(0, pollOut)]), .server (.handleEvent 1)])).map (fun s => s.server.fault) =
        some (some (.useAfterFree .handleEvent)) := by
  decide +kernel

end Destruction
end TcpServer
end Bbkgl
