import Bbkgl.Net.ConnectionRest
import Bbkgl.Net.TcpServerShutdown
import Bbkgl.Net.TcpServerTeardown

/-!
# Connections at rest

Between two states of a run of the server, every connection has made a run of its
own machine. What is left to be done for it is queued, or in the hands of a thread,
or waits for the socket: when nothing is, a shutdown has half-closed the socket, and
the connection is open altogether or torn down altogether.
-/

set_option autoImplicit false

namespace Bbkgl
namespace TcpServer

open CS.Transition TcpConnection Connection

/-- Nothing is queued about `c`, but perhaps callbacks and timers, and no thread is in
a call on it. -/
def atRest (cfg : Config) (s : State) (c : ConnId) : Bool :=
  (todo s (own s c)).all (fun f => (taskOf c f).isNone) &&
    (todo s 0).all (fun f => f ≠ .removeConnectionInLoop c) &&
    cfg.callers.all fun who => (s.calls who).all fun call => call.conn ≠ c

variable {cfg : Config} {s t : State} {c : ConnId} {a : Action} {as bs : List Action}

theorem atRest_view (h : Placed cfg s) (hrest : atRest cfg s c = true) : AtRest (view s c) := by
  simp only [atRest, Bool.and_eq_true, List.all_eq_true] at hrest
  obtain ⟨⟨htasks, hremovals⟩, hcalls⟩ := hrest
  refine ⟨?_, ?_, fun who => ?_⟩
  · apply List.filterMap_eq_nil_iff.mpr
    intro f hf
    exact Option.isNone_iff_eq_none.mp (htasks f hf)
  · apply List.count_eq_zero.mpr
    intro hmem
    exact absurd rfl (of_decide_eq_true (hremovals _ hmem))
  · apply Option.bind_eq_none_iff.mpr
    intro call hcall
    have hne := hcalls who (h.calls who call hcall).1
    rw [hcall, Option.all_some, decide_eq_true_eq] at hne
    cases call with
    | send d message | shutdownChecked d | shutdownSet d => exact if_neg hne

/-! ### Between two states of a run -/

/-- What a step of the server is for the connection `c`, its machine does. -/
theorem run_labels (h : Placed cfg s) (hg : guard cfg s a = true) (hok : effect cfg s a = .ok t)
    (hc : c < s.nextObj) : c < t.nextObj ∧
      run Connection.step (view s c) (labels cfg s c a) = some (view t c) := by
  by_cases hnew : ∃ fd, a = .newConnection fd
  · obtain ⟨fd, rfl⟩ := hnew
    have hcreates := creates_newConnection h hok
    exact ⟨hcreates.nextObj ▸ Nat.lt_succ_of_lt hc, hcreates.views c hc⟩
  · have hfollows := follows_effect h hg hok fun fd ha => hnew ⟨fd, ha⟩
    exact ⟨hfollows.nextObj ▸ hc, hfollows.views c hc⟩

/-- A step of the server is a run of the machine of each connection. -/
theorem view_step (h : Placed cfg s) (hstep : step cfg s a = some t) (hc : c < s.nextObj) :
    c < t.nextObj ∧ ∃ steps, run Connection.step (view s c) steps = some (view t c) := by
  obtain ⟨-, hg, hok | ⟨f, -, rfl⟩⟩ := step_cases hstep
  · obtain ⟨hlt, hrun⟩ := run_labels h hg hok hc
    exact ⟨hlt, _, hrun⟩
  · exact ⟨hc, [], rfl⟩

/-- A run of the server is a run of each connection. -/
theorem view_run {ok : State → Action → Prop} (hrun : Reach (step cfg) Always State.init as s)
    (hrest : Reach (step cfg) ok s bs t) (hc : c < s.nextObj) :
    c < t.nextObj ∧ ∃ steps, run Connection.step (view s c) steps = some (view t c) := by
  refine hrest.invariant (I := fun t => c < t.nextObj ∧
    ∃ steps, run Connection.step (view s c) steps = some (view t c)) ⟨hc, [], rfl⟩ ?_
  rintro cs u a u' hreach ⟨hu, steps, hsteps⟩ - hstep
  have hplaced : Placed cfg u := placed_of_reach (hrun.append hreach.always)
  obtain ⟨hu', steps', hsteps'⟩ := view_step hplaced hstep hu
  exact ⟨hu', steps ++ steps', by rw [run_append, hsteps]; exact hsteps'⟩

/-- A connection never goes back to a state of lower rank and stays on its loop, what has
happened to it is not forgotten, and an object that is gone stays gone. A late `Shutdown` may
take it from `k_disconnected` to `k_disconnecting`, which have one rank. -/
theorem connection_advances (hrun : Reach (step cfg) Always State.init as s)
    (hrest : Reach (step cfg) Always s bs t) (hc : c < s.nextObj) :
    rank (s.conns c).state ≤ rank (t.conns c).state ∧
      (s.conns c).log <+: (t.conns c).log ∧ own t c = own s c ∧
      ((s.conns c).alive = false → (t.conns c).alive = false) := by
  obtain ⟨-, steps, hsteps⟩ := view_run hrun hrest hc
  have hlater := later_run hsteps
  refine ⟨hlater.rank, hlater.log, Caller.loop.inj hlater.owner, fun hdead => ?_⟩
  apply Bool.eq_false_iff.mpr
  intro halive
  exact Bool.eq_false_iff.mp hdead (hlater.alive halive)

/-- The end of an established connection, whose peer closes. -/
def peerCloses : List Action :=
  [.poll 1 [(0, pollIn)], .handleEvent 1, .handleRead 1 (some []), .endEvent 1] ++
    removedAndDestroyed

/-- The peer closes an open connection. -/
theorem connection_advances_peerCloses :
    ∃ s t, run (step oneThread) State.init established = some s ∧
      run (step oneThread) s peerCloses = some t ∧
      (s.conns 0).state = .connected ∧ (t.conns 0).state = .disconnected ∧
      rank (s.conns 0).state ≤ rank (t.conns 0).state := by
  have hend : (run (step oneThread) State.init established).map
      (fun s => (s.nextObj, (s.conns 0).state, (run (step oneThread) s peerCloses).map fun t =>
        (t.conns 0).state)) = some (1, .connected, some .disconnected) := by decide +kernel
  obtain ⟨s, hs, heq⟩ := Option.map_eq_some_iff.mp hend
  simp only [Prod.mk.injEq, Option.map_eq_some_iff] at heq
  obtain ⟨hnext, hconnected, t, ht, hdisconnected⟩ := heq
  have hadvances := connection_advances (c := 0) (reach_of_run hs) (reach_of_run ht)
    (by rw [hnext]; exact Nat.one_pos)
  exact ⟨s, t, hs, ht, hconnected, hdisconnected, hadvances.1⟩

/-! ### At rest -/

theorem draining_of_reach {ok : State → Action → Prop}
    (hrun : Reach (step cfg) ok State.init as s) : ∀ c, c < s.nextObj → Draining (view s c) := by
  refine views_invariant (p := Always) hrun draining_init (fun _ => trivial) ?_ ?_
  · exact fun h _ hstep => draining_step h hstep
  · exact fun _ _ _ _ _ _ => admits_always

theorem subscribed_of_reach {ok : State → Action → Prop}
    (hrun : Reach (step cfg) ok State.init as s) :
    ∀ c, c < s.nextObj → Tokens (view s c) ∧ Subscribed (view s c) := by
  refine views_invariant (I := fun v => Tokens v ∧ Subscribed v) (p := Always) hrun
    (fun owner => ⟨tokens_init owner, subscribed_init owner⟩) (fun _ => trivial) ?_ ?_
  · exact fun h _ hstep => ⟨tokens_step h.1 hstep, subscribed_step h.1 h.2 hstep⟩
  · exact fun _ _ _ _ _ _ => admits_always

/-- A connection that was asked to shut down, and that no `HandleClose` has closed,
has half-closed its socket, or waits for the rest of the output buffer, or
`ShutdownInLoop` is still to come. So at rest with its output buffer empty it has
half-closed, and all that was sent has been accepted. -/
theorem shutdown_not_lost (hrun : Reach (step cfg) Always State.init as s) (hc : c < s.nextObj)
    (hdisc : (s.conns c).state = .disconnecting) (h0 : (s.conns c).log.count .closed = 0) :
    (.halfClosed ∈ (s.conns c).log ∨ (s.conns c).channel.isWriting = true ∨
      .shutdownInLoop c ∈ todo s (own s c) ∨ ∃ who, s.calls who = some (.shutdownSet c)) ∧
    (atRest cfg s c = true → (s.conns c).output.readable = [] →
      .halfClosed ∈ (s.conns c).log ∧
        accepted (s.conns c).log = executedBytes (s.conns c).log ∧
        ∀ who, executedBy who (s.conns c).log = sentBy who (s.conns c).log) := by
  have hdraining := draining_of_reach hrun c hc
  refine ⟨?_, fun hrest hempty => ?_⟩
  · apply (hdraining.waits hdisc h0).imp_right (Or.imp_right _)
    rintro (hmem | ⟨who, hcall⟩)
    · obtain ⟨f, hf, hft⟩ := List.mem_filterMap.mp hmem
      cases f with
      | shutdownInLoop d =>
        simp only [taskOf, Option.ite_none_right_eq_some] at hft
        exact Or.inl (hft.1 ▸ hf)
      | connEstablished d | connDestroyed d | sendInLoop d w m => simp [taskOf] at hft
      | removeConnectionInLoop d | writeComplete d | addTimerInLoop d | user =>
        simp [taskOf] at hft
    · obtain ⟨call, hwho, hpending⟩ := Option.bind_eq_some_iff.mp hcall
      cases call with
      | shutdownSet d =>
        simp only [pendingOf, Option.ite_none_right_eq_some] at hpending
        exact Or.inr ⟨who, hpending.1 ▸ hwho⟩
      | send d m | shutdownChecked d => simp [pendingOf] at hpending
  · obtain ⟨-, hstream⟩ := stream_of_reach hrun c hc
    exact hdraining.halfClosed hstream (atRest_view (placed_of_reach hrun) hrest) hdisc h0 hempty

/-- The half-close that had to wait for the last byte. -/
theorem shutdown_not_lost_shutdownBehind :
    ∃ s, run (step oneThread) State.init shutdownBehind = some s ∧
      (s.conns 0).state = .disconnecting ∧ atRest oneThread s 0 = true ∧
      .halfClosed ∈ (s.conns 0).log := by
  have hend : (run (step oneThread) State.init shutdownBehind).map
      (fun s => (s.nextObj, (s.conns 0).state, (s.conns 0).log.count .closed,
        atRest oneThread s 0, (s.conns 0).output.readable)) =
        some (1, .disconnecting, 0, true, []) := by decide +kernel
  obtain ⟨s, hs, heq⟩ := Option.map_eq_some_iff.mp hend
  simp only [Prod.mk.injEq] at heq
  obtain ⟨hnext, hdisc, h0, hrest, hempty⟩ := heq
  have hlast := shutdown_not_lost (c := 0) (reach_of_run hs) (by rw [hnext]; exact Nat.one_pos)
    hdisc h0
  exact ⟨s, hs, hdisc, hrest, (hlast.2 hrest hempty).1⟩

end TcpServer
end Bbkgl
