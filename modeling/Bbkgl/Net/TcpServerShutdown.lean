import Bbkgl.Net.ConnectionShutdown
import Bbkgl.Net.TcpServerStream

/-!
# Graceful shutdown

`Shutdown` on the thread of the connection's loop half-closes at once, and a
message that another thread has sent before may still be in the queue. That is
the only way in which a half-close cuts off what was sent: `graceful_shutdown` is
about the runs in which every half-close finds no message on its way.
-/

set_option autoImplicit false

namespace Bbkgl
namespace TcpServer

open CS.Fallible CS.Transition TcpConnection Connection

/-- The connection whose socket the step half-closes. -/
def halfCloses (s : State) : Action → Option ConnId
  | .runFunctor i _ => match (s.loops i).functors.rest with
    | .shutdownInLoop c :: _ => if (s.conns c).channel.isWriting then none else some c
    | _ => none
  | .shutdown who c =>
    if (s.conns c).state = .connected ∧ who = .loop (own s c) ∧
      (s.conns c).channel.isWriting = false then some c else none
  | .handleWrite i wr =>
    let conn := s.conns (handled s i)
    -- `write()` accepts the rest of the output buffer
    if conn.channel.isWriting = true ∧ conn.state = .disconnecting ∧ 0 < wr.getD 0 ∧
      conn.output.readableBytes ≤ wr.getD 0 then some (handled s i) else none
  | _ => none

/-- The functor is a `SendInLoop` of the connection. -/
def functorSends (c : ConnId) : Functor → Bool
  | .sendInLoop d _ _ => d = c
  | _ => false

/-- The call is a `Send` on the connection. -/
def callSends (c : ConnId) : Call → Bool
  | .send d _ => d = c
  | _ => false

/-- No `SendInLoop` of `c` is queued, and no thread is about to queue one. -/
def noSends (cfg : Config) (s : State) (c : ConnId) : Bool :=
  (todo s (own s c)).all (fun f => !functorSends c f) &&
    cfg.callers.all fun who => (s.calls who).all fun call => !callSends c call

/-- If the step half-closes, then with no message on its way. -/
def halfClosesQuietly (cfg : Config) (s : State) (a : Action) : Bool :=
  (halfCloses s a).all (noSends cfg s)

variable {cfg : Config} {s : State} {c : ConnId} {a : Action} {as : List Action}

/-- No `Send` is under way for the connection's machine either. -/
theorem noSends_view (h : Placed cfg s) (hnone : noSends cfg s c = true) : NoSends (view s c) := by
  simp only [noSends, Bool.and_eq_true, List.all_eq_true] at hnone
  constructor
  · intro who message hmem
    obtain ⟨f, hf, hft⟩ := List.mem_filterMap.mp hmem
    have hsends := hnone.1 f hf
    cases f with
    | sendInLoop d w m =>
      simp only [taskOf, Option.ite_none_right_eq_some] at hft
      simp [functorSends, hft.1] at hsends
    | connEstablished d | connDestroyed d | shutdownInLoop d =>
      simp [taskOf] at hft
    | removeConnectionInLoop d | writeComplete d | addTimerInLoop d | user =>
      simp [taskOf] at hft
  · intro who message hcall
    obtain ⟨call, hwho, hpending⟩ := Option.bind_eq_some_iff.mp hcall
    have hsends := hnone.2 who (h.calls who call hwho).1
    rw [hwho] at hsends
    cases call with
    | send d m =>
      simp only [pendingOf, Option.ite_none_right_eq_some] at hpending
      simp [callSends, hpending.1] at hsends
    | shutdownChecked d | shutdownSet d => simp [pendingOf] at hpending

/-- A list of one action that half-closes only if the step does. -/
theorem admits_singleton {b : Connection.Action} (h : Placed cfg s)
    (hok : halfClosesQuietly cfg s a = true)
    (hhalf : HalfCloses (view s c) b → halfCloses s a = some c) :
    Admits Connection.step HalfClosesClean (view s c) [b] := by
  refine ⟨fun hb => ?_, fun _ _ => trivial⟩
  rw [halfClosesQuietly, hhalf hb] at hok
  exact noSends_view h hok

/-- Actions that half-close nothing. -/
theorem admits_of_not_halfCloses {bs : List Connection.Action} {v : Connection}
    (hbs : ∀ b ∈ bs, ∀ v, ¬ HalfCloses v b) : Admits Connection.step HalfClosesClean v bs :=
  admits_of_forall fun b hb v hhalf => absurd hhalf (hbs b hb v)

theorem removal_not_halfCloses {d : ConnId} : ∀ b ∈ removal s c d, ∀ v, ¬ HalfCloses v b := by
  intro b hb v
  rw [removal] at hb
  split at hb
  · obtain rfl := List.mem_singleton.mp hb
    exact id
  · split at hb
    · obtain rfl := List.mem_singleton.mp hb
      exact id
    · exact absurd hb List.not_mem_nil

theorem closing_not_halfCloses {d : ConnId} : ∀ b ∈ closing s c d, ∀ v, ¬ HalfCloses v b := by
  intro b hb v
  rcases List.mem_append.mp hb with hb | hb
  · split at hb
    · obtain rfl := List.mem_singleton.mp hb
      exact id
    · exact absurd hb List.not_mem_nil
  · split at hb
    · exact removal_not_halfCloses b hb v
    · exact absurd hb List.not_mem_nil

theorem admits_functorLabels {f : Functor} {fs : List Functor} {i : LoopId} {wr : WriteResult}
    (h : Placed cfg s) (hrest : (s.loops i).functors.rest = f :: fs)
    (hok : halfClosesQuietly cfg s (.runFunctor i wr) = true) :
    Admits Connection.step HalfClosesClean (view s c) (functorLabels s c wr f) := by
  cases f with
  | connEstablished d | connDestroyed d | sendInLoop d who message =>
    apply admits_of_not_halfCloses
    intro b hb v
    rw [functorLabels] at hb
    split at hb
    · obtain rfl := List.mem_singleton.mp hb
      exact id
    · exact absurd hb List.not_mem_nil
  | removeConnectionInLoop d => exact admits_of_not_halfCloses removal_not_halfCloses
  | shutdownInLoop d =>
    rw [functorLabels]
    split
    · next hc =>
      subst hc
      apply admits_singleton h hok
      intro hwriting
      have hwriting : (s.conns c).channel.isWriting = false := hwriting
      simp [halfCloses, hrest, hwriting]
    · trivial
  | writeComplete d | addTimerInLoop d | user => trivial

theorem admits_callLabels {call : Call} {who : Caller} :
    Admits Connection.step HalfClosesClean (view s c) (callLabels c who call) := by
  apply admits_of_not_halfCloses
  intro b hb v
  cases call with
  | send d message | shutdownChecked d | shutdownSet d =>
    rw [callLabels] at hb
    split at hb
    · obtain rfl := List.mem_singleton.mp hb
      exact id
    · exact absurd hb List.not_mem_nil

/-- A step that half-closes quietly is one that half-closes cleanly. -/
theorem admits_labels (h : Placed cfg s) (hok : halfClosesQuietly cfg s a = true) :
    Admits Connection.step HalfClosesClean (view s c) (labels cfg s c a) := by
  cases a with
  | handleClose i | closeTimer d => exact admits_of_not_halfCloses closing_not_halfCloses
  | handleRead i readv =>
    rw [labels]
    split
    · exact admits_of_not_halfCloses closing_not_halfCloses
    · trivial
  | handleWrite i wr =>
    rw [labels]
    split
    · next hc =>
      subst hc
      apply admits_singleton h hok
      rintro ⟨hwriting, hempties, hstate⟩
      have hwriting : (s.conns (handled s i)).channel.isWriting = true := hwriting
      have hstate : (s.conns (handled s i)).state = .disconnecting := hstate
      simp only [Connection.empties, view, Bool.and_eq_true, decide_eq_true_eq,
        List.isEmpty_iff, List.drop_eq_nil_iff, (h.wf (handled s i)).length_readable] at hempties
      simp only [halfCloses, hwriting, hstate, hempties.1, hempties.2, and_self, ↓reduceIte]
    · trivial
  | newConnection fd | destroy d =>
    rw [labels]
    split
    · exact ⟨fun hb => hb.elim, fun _ _ => trivial⟩
    · trivial
  | runFunctor i wr =>
    rw [labels]
    split
    · trivial
    · next f fs hrest => exact admits_functorLabels h hrest hok
  | send who d message wr =>
    rw [labels]
    split
    · apply admits_of_not_halfCloses
      intro b hb v
      obtain rfl := List.mem_singleton.mp hb
      split <;> exact id
    · trivial
  | shutdown who d =>
    rw [labels]
    split
    · next hc =>
      obtain ⟨rfl, hstate⟩ := hc
      apply admits_singleton h hok
      split
      · next hwho =>
        intro hwriting
        have hwriting : (s.conns c).channel.isWriting = false := hwriting
        exact if_pos ⟨hstate, hwho, hwriting⟩
      · exact False.elim
    · trivial
  | proceed who =>
    rw [labels]
    split
    · trivial
    · exact admits_callLabels
  | poll i active | handleEvent i | handleError i | endEvent i | userCode i | doPendingFunctors i
  | finishFunctors i | userReturn i | close who d | queueInLoop who i | setWriteComplete who d on
  | inputBuffer i u | keep who d | drop d => trivial

/-- In runs in which every half-close finds no message on its way: until
`HandleClose`, what was sent before a half-close has been accepted by then, and
nothing is written after it. -/
theorem graceful_shutdown
    (hrun : Reach (step cfg) (fun s a => halfClosesQuietly cfg s a = true) State.init as s)
    (hc : c < s.nextObj) (hclosed : (s.conns c).log.count .closed = 0) :
    Clean (s.conns c).log := by
  have hinv := views_invariant (I := fun v => (Tokens v ∧ Stream v) ∧ HalfInv v)
    (p := HalfClosesClean) hrun ?_ ?_ ?_ ?_ c hc
  · exact hinv.2.clean hclosed
  · intro owner
    exact ⟨⟨tokens_init owner, stream_init owner⟩, halfInv_init owner⟩
  · intro owner hb
    exact hb.elim
  · rintro v b v' ⟨⟨htokens, hstream⟩, hhalf⟩ hb hstep
    exact ⟨⟨tokens_step htokens hstep, stream_step htokens hstream hstep⟩,
      halfInv_step hstream hhalf hb hstep⟩
  · intro s a t hplaced _ hok _ c _
    exact admits_labels hplaced hok

/-! ### Two runs -/

/-- `Send` from another thread has returned; the loop's thread, in a handler of
its own, calls `Shutdown` before it gets to the queue. -/
def shutdownAhead : List Action :=
  established ++ [.send (.user 0) 0 [1, 2] none, .proceed (.user 0), .poll 1 [], .userCode 1,
    .shutdown (.loop 1) 0, .userReturn 1, .doPendingFunctors 1, .runFunctor 1 (some 2)]

/-- What was sent first is written after the half-close. -/
theorem written_after_shutdownAhead :
    ∃ s, run (step oneThread) State.init shutdownAhead = some s ∧ s.fault = none ∧
      (s.conns 0).log = [.up, .sent (.user 0) [1, 2], .halfClosed,
        .executed (.user 0) [1, 2], .write [1, 2]] ∧
      ¬ Clean (s.conns 0).log := by
  have hend : (run (step oneThread) State.init shutdownAhead).map
      (fun s => (s.fault, (s.conns 0).log)) = some (none, [.up, .sent (.user 0) [1, 2], .halfClosed,
        .executed (.user 0) [1, 2], .write [1, 2]]) := by decide +kernel
  obtain ⟨s, hs, heq⟩ := Option.map_eq_some_iff.mp hend
  obtain ⟨hfault, hlog⟩ := Prod.mk.inj heq
  refine ⟨s, hs, hfault, hlog, fun hclean => ?_⟩
  obtain ⟨-, -, hnone⟩ := hclean [.up, .sent (.user 0) [1, 2]] _ hlog
  exact hnone [1, 2] (by simp)

/-- `Shutdown` from the thread that has sent, with one byte still in the output buffer. -/
def shutdownBehind : List Action :=
  established ++ [.send (.user 0) 0 [1, 2] none, .proceed (.user 0), .shutdown (.user 0) 0,
    .proceed (.user 0), .proceed (.user 0), .poll 1 [], .doPendingFunctors 1,
    .runFunctor 1 (some 1), .runFunctor 1 none, .finishFunctors 1, .poll 1 [(0, pollOut)],
    .handleEvent 1, .handleWrite 1 (some 1)]

/-- A `Shutdown` behind a `Send`. -/
theorem graceful_shutdown_shutdownBehind :
    ∃ s, run (step oneThread) State.init shutdownBehind = some s ∧
      .halfClosed ∈ (s.conns 0).log ∧ Clean (s.conns 0).log := by
  have hend : (runIf (step oneThread) (fun s a => halfClosesQuietly oneThread s a = true) State.init
      shutdownBehind).map (fun s => (s.nextObj, (s.conns 0).log)) = some (1, [.up,
        .sent (.user 0) [1, 2], .executed (.user 0) [1, 2], .write [1], .write [2],
        .halfClosed]) := by decide +kernel
  obtain ⟨s, hs, heq⟩ := Option.map_eq_some_iff.mp hend
  obtain ⟨hnext, hlog⟩ := Prod.mk.inj heq
  have hrun := reach_of_runIf hs
  refine ⟨s, hrun.run_eq, by simp [hlog], ?_⟩
  exact graceful_shutdown hrun (by rw [hnext]; exact Nat.one_pos) (by rw [hlog]; decide)

end TcpServer
end Bbkgl
