import Bbkgl.Net.TcpConnectionPolls
import Bbkgl.Net.TcpServerCalm
import Bbkgl.Net.TcpServerRefines

/-!
# How a run ends in a fault

`Cause s a e` says what in the state `s` makes the action `a` run into `e`, for
the assertions and the dangling pointers around the end of a connection, and for
the assertion about a new channel in `UpdateChannel`. The other faults are only
named.
-/

set_option autoImplicit false

namespace Bbkgl

open CS.Fallible CS.Transition

namespace TcpServer

open TcpConnection

/-- The connection whose `HandleClose` the step enters. -/
def closes (s : State) : Action → Option ConnId
  | .handleClose i => some (handled s i)
  | .handleRead i readv => if readv = some [] then some (handled s i) else none
  | .closeTimer d => some d
  | _ => none

/-- The functor that the step executes. -/
def runs (s : State) : Action → Option Functor
  | .runFunctor i _ => (s.loops i).functors.rest.head?
  | _ => none

/-- The connection whose `RemoveConnectionInLoop` the step enters. -/
def removes (s : State) (a : Action) : Option ConnId :=
  match runs s a with
  | some (.removeConnectionInLoop d) => some d
  | _ => (closes s a).filter fun d => own s d = 0

/-- The channel of `d` is new, and the poller has a channel at its descriptor. -/
def Clashes (s : State) (d : ConnId) : Prop :=
  (s.conns d).alive = true ∧ (s.conns d).channel.index = Epoller.kNew ∧
    (s.loops (own s d)).poller.channels (s.conns d).channel.fd ≠ none

/-- What the state before a step is like, for each fault that the step can meet. -/
inductive Cause (s : State) (a : Action) : Fault → Prop
  | low {e : Fault} : e.isLow = true → (e = .epoller .updateNew → ∃ d, Clashes s d) → Cause s a e
  | newConnection {fd : ℕ} : a = .newConnection fd → (s.loops 0).poller.channels fd ≠ none →
      Cause s a (.epoller .updateNew)
  | handleEvent {i : LoopId} {d : ConnId} : d ∈ walked (s.loops i).phase →
      (s.conns d).alive = false → Cause s a (.useAfterFree .handleEvent)
  | functor : Cause s a (.useAfterFree .functor)
  | connEstablished : Cause s a (.assertion .connEstablished)
  | channelDestroyed {d : ConnId} : a = .destroy d → (s.conns d).channel.eventHandling = true →
      Cause s a (.assertion .channelDestroyed)
  | closeTimer {d : ConnId} : closes s a = some d → (s.conns d).alive = false →
      Cause s a (.useAfterFree .closeTimer)
  | handleClose {d : ConnId} : closes s a = some d → (s.conns d).isUp = false →
      Cause s a (.assertion .handleClose)
  | closed {d : ConnId} : closes s a = some d → s.connections (s.conns d).name = none →
      Cause s a (.assertion .removeConnection)
  | removed {d : ConnId} : runs s a = some (.removeConnectionInLoop d) →
      s.connections (s.conns d).name = none → Cause s a (.assertion .removeConnection)
  | connDestroyed {d : ConnId} : runs s a = some (.connDestroyed d) →
      (s.conns d).isUp = false → Cause s a (.assertion .connDestroyed)

variable {cfg : Config} {s s' t : State} {i : LoopId} {d : ConnId} {e : Fault} {a : Action}

/-- On the base loop `HandleClose` goes on to the removal. -/
theorem removes_of_closes (hcloses : closes s a = some d) (hruns : runs s a = none)
    (hbase : own s d = 0) : removes s a = some d := by
  rw [removes, hruns, hcloses]
  exact Option.filter_some_pos (decide_eq_true hbase)

theorem frame_of_free (hg : free cfg s i = true) : (s.loops i).frame = none := by
  simp only [free, Bool.and_eq_true, Option.isNone_iff_eq_none] at hg
  exact hg.2

/-- The callback of a channel of the walk is next. -/
theorem handled_of_callbackIs {p : ConnId → Channel.Callback → Bool}
    (hg : callbackIs cfg s i p = true) :
    handled s i ∈ walked (s.loops i).phase ∧ (s.loops i).frame = none := by
  rw [callbackIs] at hg
  split at hg
  · next c cb rest active hphase =>
    simp only [Bool.and_eq_true] at hg
    rw [handled, hphase]
    exact ⟨List.mem_cons_self, frame_of_free hg.1⟩
  · exact absurd hg (by simp)

/-- A method fails as it does by itself, or because the object has gone. -/
theorem method_eq_error {site : Access} {u : Local → Except Fault Local}
    (h : method s d site u = .error e) :
    ((s.conns d).alive = false ∧ e = .useAfterFree site) ∨
      ((s.conns d).alive = true ∧ u (localOf s d) = .error e) := by
  rcases check_bind_eq_error_iff.mp h with ⟨hdead, rfl⟩ | ⟨halive, h⟩
  · exact Or.inl ⟨hdead, rfl⟩
  · rcases bind_eq_error_iff.mp h with hu | ⟨l, -, h⟩
    · exact Or.inr ⟨halive, hu⟩
    · exact absurd h (by simp [pure, Except.pure])

/-- What leaves channels and pollers alone makes no clash. -/
theorem Calm.clashes (h : Calm s s') (hclash : Clashes s' d) : Clashes s d := by
  obtain ⟨halive, hindex, htaken⟩ := hclash
  refine ⟨(h.conn d).alive ▸ halive, (h.conn d).index ▸ hindex, ?_⟩
  rwa [h.poller, h.own, (h.conn d).fd] at htaken

/-- A method that fails inside a buffer or the poller, after calm steps. -/
theorem Cause.of_fails (hcalm : Calm s s') (halive : (s'.conns d).alive = true)
    (h : Local.Fails (localOf s' d) e) : Cause s a e :=
  .low h.low fun he => ⟨d, hcalm.clashes ⟨halive, h.clash he⟩⟩

theorem removeConnectionInLoop_eq_error (h : removeConnectionInLoop s d = .error e) :
    s.connections (s.conns d).name = none ∧ e = .assertion .removeConnection := by
  simp only [removeConnectionInLoop] at h
  split at h
  · exact absurd h (by simp)
  · next hnone =>
    exact ⟨by simpa using hnone, (Except.error.inj h).symm⟩

/-- `HandleClose` in a state that differs from `s` in nothing it looks at. -/
theorem Cause.of_handleClose (hplaced : Placed cfg s') (hcalm : Calm s s') {site : Access}
    (hcloses : closes s a = some d)
    (hsite : site = .handleEvent ∧ (∃ i, d ∈ walked (s.loops i).phase) ∨ site = .closeTimer)
    (hstate : (s'.conns d).state = (s.conns d).state)
    (hname : (s'.conns d).name = (s.conns d).name) (hmap : s'.connections = s.connections)
    (h : TcpServer.handleClose s' d site = .error e) : Cause s a e := by
  rcases bind_eq_error_iff.mp h with h | ⟨m, hm, h⟩
  · rcases method_eq_error h with ⟨hdead, rfl⟩ | ⟨halive, h⟩
    · have hdead : (s.conns d).alive = false := (hcalm.conn d).alive ▸ hdead
      rcases hsite with ⟨rfl, i, hwalked⟩ | rfl
      · exact .handleEvent hwalked hdead
      · exact .closeTimer hcloses hdead
    · rcases Local.handleClose_error h with hfails | ⟨rfl, hup⟩
      · exact .of_fails hcalm halive hfails
      · refine .handleClose hcloses ?_
        rw [isUp, ← hstate]
        exact hup
  · split at h
    · obtain ⟨hnone, rfl⟩ := removeConnectionInLoop_eq_error h
      obtain ⟨-, l, -, rfl⟩ := method_eq_ok_iff.mp hm
      obtain ⟨-, htouches⟩ := touches_handleClose hplaced hm
      refine .closed hcloses ?_
      rw [← hname, ← htouches.name d, ← hmap]
      exact hnone
    · exact absurd h (by simp [pure, Except.pure])

theorem nextCallback_frame : (nextCallback s i).conns = s.conns ∧
    (nextCallback s i).connections = s.connections := by
  rw [nextCallback]
  split <;> exact ⟨rfl, rfl⟩

/-- A `HandleRead` fails in its buffer, or by `HandleClose` after end of file. -/
theorem Cause.of_handleRead (h : Placed cfg s) {readv : Option Bytes}
    (hwalked : handled s i ∈ walked (s.loops i).phase)
    (herr : TcpServer.handleRead (nextCallback s i) (handled s i) readv = .error e) :
    Cause s (.handleRead i readv) e := by
  have hwalk : Unseen cfg s (nextCallback s i) := unseen_nextCallback h
  obtain ⟨hconns, hmap⟩ := nextCallback_frame (s := s) (i := i)
  rcases check_bind_eq_error_iff.mp herr with ⟨hdead, rfl⟩ | ⟨-, herr⟩
  · rw [hconns] at hdead
    exact .handleEvent hwalked hdead
  · split at herr
    · obtain rfl := Except.error.inj herr
      exact .low rfl fun he => absurd he (by simp)
    · next input n hread =>
      have hn := Buffer.readFd_eq_ok hread
      split at herr
      · exact absurd herr (by simp [pure, Except.pure])
      · split at herr
        · next hzero =>
          have heof : readv = some [] := by
            cases readv with
            | none => simp [hn] at hzero
            | some data => simpa [hn] using hzero
          have hinput : Unseen cfg (nextCallback s i)
              (setConn (nextCallback s i) (handled s i) fun conn => { conn with input := input }) :=
            unseen_setConn hwalk.placed rfl rfl rfl rfl rfl fun _ => rfl
          have hself : ∀ u : TcpConnection → TcpConnection,
              (setConn (nextCallback s i) (handled s i) u).conns (handled s i) =
                u (s.conns (handled s i)) := fun u => by
            rw [conns_setConn, if_pos rfl, hconns]
          have hcalm : Calm s (setConn (nextCallback s i) (handled s i) fun conn =>
              { conn with input := input }) :=
            calm_nextCallback.trans (calm_setConn ⟨rfl, rfl, rfl, rfl, rfl⟩)
          refine .of_handleClose hinput.placed hcalm (d := handled s i) ?_
            (Or.inl ⟨rfl, i, hwalked⟩) ?_ ?_
            hmap herr
          · rw [closes, if_pos heof]
          · rw [hself]
          · rw [hself]
        · exact absurd herr (by simp [pure, Except.pure])

/-- The ways in which `ConnEstablished` fails. -/
theorem connEstablished_eq_error (herr : TcpServer.connEstablished s d = .error e) :
    (s.conns d).alive = true ∧ Local.Fails (localOf s d) e ∨
      e = .useAfterFree .functor ∨ e = .assertion .connEstablished := by
  rcases bind_eq_error_iff.mp herr with hm | ⟨m, -, h⟩
  · rcases method_eq_error hm with ⟨-, rfl⟩ | ⟨halive, h⟩
    · exact Or.inr (Or.inl rfl)
    · rcases Local.connEstablished_error h with hfails | rfl
      · exact Or.inl ⟨halive, hfails⟩
      · exact Or.inr (Or.inr rfl)
  · exact absurd h (by simp [pure, Except.pure])

/-- A failure of a functor has a cause. -/
theorem cause_of_runFunctor {f : Functor} {fs : List Functor} {wr : WriteResult}
    (hrest : (s.loops i).functors.rest = f :: fs)
    (herr : runFunctor (setFunctors s i (s.loops i).functors.advance) i wr f = .error e) :
    Cause s (.runFunctor i wr) e := by
  have hruns : runs s (.runFunctor i wr) = some f := by rw [runs, hrest]; rfl
  have hcalm : Calm s (setFunctors s i (s.loops i).functors.advance) := calm_setFunctors
  cases f with
  | connEstablished d =>
    rcases connEstablished_eq_error herr with ⟨halive, hfails⟩ | rfl | rfl
    · exact .of_fails hcalm halive hfails
    · exact .functor
    · exact .connEstablished
  | connDestroyed d =>
    rcases bind_eq_error_iff.mp herr with hm | ⟨m, -, h⟩
    · rcases method_eq_error hm with ⟨-, rfl⟩ | ⟨halive, h⟩
      · exact .functor
      · rcases Local.connDestroyed_error h with hfails | ⟨rfl, hup⟩
        · exact .of_fails hcalm halive hfails
        · exact .connDestroyed hruns hup
    · exact absurd h (by simp [pure, Except.pure])
  | removeConnectionInLoop d =>
    obtain ⟨hnone, rfl⟩ := removeConnectionInLoop_eq_error herr
    exact .removed hruns hnone
  | sendInLoop d who message =>
    rcases method_eq_error herr with ⟨-, rfl⟩ | ⟨halive, h⟩
    · exact .functor
    · exact .of_fails hcalm halive (Local.fails_of_sendInLoop h)
  | shutdownInLoop d =>
    rcases method_eq_error (u := fun l => .ok l.shutdownInLoop) herr with ⟨-, rfl⟩ | ⟨-, h⟩
    · exact .functor
    · exact absurd h (by simp)
  | writeComplete d | addTimerInLoop d | user => exact absurd herr (by simp [runFunctor])

/-- A failure of a step has a cause. -/
theorem cause_of_error (h : Placed cfg s) (hg : guard cfg s a = true)
    (herr : effect cfg s a = .error e) : Cause s a e := by
  obtain ⟨hconns, hmap⟩ : (∀ i, (nextCallback s i).conns = s.conns) ∧
      ∀ i, (nextCallback s i).connections = s.connections :=
    ⟨fun _ => nextCallback_frame.1, fun _ => nextCallback_frame.2⟩
  cases a with
  | poll i active =>
    simp only [effect] at herr
    split at herr
    · exact absurd herr (by simp)
    · obtain rfl := Except.error.inj herr
      exact .low rfl fun he => absurd he (by simp)
  | handleEvent i | endEvent i =>
    simp only [effect] at herr
    split at herr
    · next hphase =>
      rcases check_bind_eq_error_iff.mp herr with ⟨hdead, rfl⟩ | ⟨-, herr⟩
      · refine .handleEvent (i := i) ?_ hdead
        rw [hphase]
        exact List.mem_cons_self
      · exact absurd herr (by simp [pure, Except.pure])
    · exact absurd herr (by simp)
  | handleClose i =>
    have hwalk : Unseen cfg s (nextCallback s i) := unseen_nextCallback h
    refine .of_handleClose hwalk.placed calm_nextCallback (d := handled s i) rfl
      (Or.inl ⟨rfl, i, (handled_of_callbackIs hg).1⟩) ?_ ?_ (hmap i) herr
    · rw [hconns]
    · rw [hconns]
  | handleRead i readv => exact .of_handleRead h (handled_of_callbackIs hg).1 herr
  | handleWrite i wr =>
    rcases method_eq_error herr with ⟨hdead, rfl⟩ | ⟨halive, h⟩
    · rw [hconns] at hdead
      exact .handleEvent (handled_of_callbackIs hg).1 hdead
    · exact .of_fails calm_nextCallback halive (Local.fails_of_handleWrite h)
  | newConnection fd =>
    have herr : newConnection cfg s fd = .error e := herr
    rw [newConnection_eq] at herr
    split at herr
    · next hbase =>
      rcases connEstablished_eq_error herr with ⟨-, hfails⟩ | rfl | rfl
      -- the new channel clashes with an entry at the descriptor that was accepted
      · by_cases he : e = .epoller .updateNew
        · obtain ⟨-, htaken⟩ := hfails.clash he
          rw [he]
          refine .newConnection rfl ?_
          simpa [localOf, own, withNewObject, TcpConnection.new, Channel.new, hbase] using htaken
        · exact .low hfails.low fun hnew => absurd hnew he
      · exact .functor
      · exact .connEstablished
    · exact absurd herr (by simp)
  | closeTimer d =>
    have hexpired : Unseen cfg s
      (setConn s d fun conn => { conn with closeTimers := conn.closeTimers - 1 }) :=
        unseen_setConn h rfl rfl rfl rfl rfl fun _ => rfl
    have hself : ∀ u : TcpConnection → TcpConnection, (setConn s d u).conns d = u (s.conns d) :=
      fun u => by rw [conns_setConn, if_pos rfl]
    refine .of_handleClose hexpired.placed (calm_setConn ⟨rfl, rfl, rfl, rfl, rfl⟩) (d := d) rfl
      (Or.inr rfl) ?_ ?_ rfl herr
    · rw [hself]
    · rw [hself]
  | runFunctor i wr =>
    simp only [effect] at herr
    split at herr
    · exact absurd herr (by simp)
    · next f fs hrest => exact cause_of_runFunctor hrest herr
  | userReturn i =>
    simp only [effect] at herr
    split at herr
    · next d message hframe =>
      rcases method_eq_error herr with ⟨-, rfl⟩ | ⟨-, h⟩
      · exact .functor
      · obtain ⟨hlow, hne⟩ := Local.removeChannel_eq_error h
        exact .low hlow fun he => absurd he hne
    · exact absurd herr (by simp)
  | send who d message wr =>
    simp only [effect, send] at herr
    split at herr
    · split at herr
      · rcases method_eq_error herr with ⟨-, rfl⟩ | ⟨halive, h⟩
        · exact .functor
        · exact .of_fails (calm_setConn ⟨rfl, rfl, rfl, rfl, rfl⟩) halive
            (Local.fails_of_sendInLoop h)
      · exact absurd herr (by simp)
    · exact absurd herr (by simp)
  | shutdown who d =>
    simp only [effect, shutdown] at herr
    split at herr
    · split at herr
      · rcases method_eq_error herr with ⟨-, rfl⟩ | ⟨-, h⟩
        · exact .functor
        · exact absurd h (by simp)
      · exact absurd herr (by simp)
    · exact absurd herr (by simp)
  | inputBuffer i u =>
    simp only [effect] at herr
    split at herr
    · exact absurd herr (by simp)
    · split at herr
      · exact absurd herr (by simp)
      · obtain rfl := Except.error.inj herr
        exact .low rfl fun he => absurd he (by simp)
  | proceed who =>
    simp only [effect] at herr
    split at herr <;> exact absurd herr (by simp)
  | destroy d =>
    simp only [effect] at herr
    split at herr
    · next hhandling =>
      obtain rfl := Except.error.inj herr
      exact .channelDestroyed rfl hhandling
    · exact absurd herr (by simp)
  | handleError i | userCode i | doPendingFunctors i | finishFunctors i | close who d
  | queueInLoop who i | setWriteComplete who d on | keep who d | drop d =>
    exact absurd herr (by simp [effect])

theorem fault_of_ok (h : Placed cfg s) (hg : guard cfg s a = true) (hok : effect cfg s a = .ok t) :
    t.fault = s.fault := by
  by_cases hnew : ∃ fd, a = .newConnection fd
  · obtain ⟨fd, rfl⟩ := hnew
    exact (creates_newConnection h hok).fault
  · exact (follows_effect h hg hok fun fd ha => hnew ⟨fd, ha⟩).fault

/-- The step that a fault comes from, and its cause there. -/
theorem cause_of_reach {ok : State → Action → Prop} {as : List Action}
    (hrun : Reach (step cfg) ok State.init as s) (hfault : s.fault = some e) :
    ∃ bs s' b, Reach (step cfg) ok State.init bs s' ∧ ok s' b ∧ guard cfg s' b = true ∧
      Cause s' b e := by
  induction hrun with
  | nil => exact absurd hfault (by simp [State.init])
  | snoc hrun hok hstep ih =>
    have hplaced := placed_of_reach hrun
    obtain ⟨hnone, hg, heff | ⟨f, herr, rfl⟩⟩ := step_cases hstep
    · rw [fault_of_ok hplaced hg heff, hnone] at hfault
      exact absurd hfault (by simp)
    · obtain rfl := Option.some_inj.mp hfault
      exact ⟨_, _, _, hrun, hok, hg, cause_of_error hplaced hg herr⟩

end TcpServer
end Bbkgl
