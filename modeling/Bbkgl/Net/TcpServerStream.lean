import Bbkgl.Net.ConnectionStream
import Bbkgl.Net.TcpServerRefines

/-!
# The output streams of the server

What one connection keeps of its stream, for every connection in every run of
the server. `established` is the beginning of the example runs here and in the
modules about the end of a connection.
-/

set_option autoImplicit false

namespace Bbkgl
namespace TcpServer

open CS.Transition TcpConnection Connection

variable {cfg : Config} {s : State} {c : ConnId} {as : List Action}

/-- The bookkeeping of the hops and the stream of every connection. -/
theorem stream_of_reach {ok : State → Action → Prop}
    (hrun : Reach (step cfg) ok State.init as s) :
    ∀ c, c < s.nextObj → Tokens (view s c) ∧ Stream (view s c) := by
  refine views_invariant (I := fun v => Tokens v ∧ Stream v) (p := Always) hrun ?_ ?_ ?_ ?_
  · intro owner
    exact ⟨tokens_init owner, stream_init owner⟩
  · intro owner
    trivial
  · intro v b v' h _ hstep
    exact ⟨tokens_step h.1 hstep, stream_step h.1 h.2 hstep⟩
  · intro s a t _ _ _ _ c _
    exact admits_always

/-- What `write()` has accepted, followed by the output buffer, is what the
executed `SendInLoop`s were given, in their order. Every thread's messages are
executed in the order it sent them, with those still queued or in its hands
behind them. Until `HandleClose`, the channel is subscribed for writing exactly
while the output buffer holds something. -/
theorem output_stream (hrun : Reach (step cfg) Always State.init as s) (hc : c < s.nextObj) :
    accepted (s.conns c).log ++ (s.conns c).output.readable = executedBytes (s.conns c).log ∧
    (∀ who, executedBy who (s.conns c).log ++
        (queuedBy who (view s c).tasks ++ inFlight ((view s c).calls who)) =
      sentBy who (s.conns c).log) ∧
    ((s.conns c).log.count .closed = 0 →
      ((s.conns c).output.readable ≠ [] ↔ (s.conns c).channel.isWriting = true)) := by
  obtain ⟨-, hstream⟩ := stream_of_reach hrun c hc
  refine ⟨hstream.conserved.1, fun who => ?_, hstream.conserved.2⟩
  rw [← List.append_assoc]
  exact hstream.order who

/-! ### A run -/

/-- One loop beside the base loop, one thread of the user. -/
def oneThread : Config := ⟨"s", 1, 1, false⟩

/-- Connection 0 is established on loop 1 and user code keeps a pointer to it. -/
def established : List Action :=
  [.poll 0 [], .newConnection 7, .poll 1 [], .doPendingFunctors 1, .runFunctor 1 none,
    .keep (.loop 1) 0, .userReturn 1, .finishFunctors 1]

/-- A message from another thread goes out one byte at a time. -/
def sentInParts : List Action :=
  established ++ [.send (.user 0) 0 [1, 2, 3] none, .proceed (.user 0), .poll 1 [],
    .doPendingFunctors 1, .runFunctor 1 (some 1), .finishFunctors 1, .poll 1 [(0, pollOut)],
    .handleEvent 1, .handleWrite 1 (some 1)]

/-- A message is written in two parts, and a byte is left. -/
theorem output_stream_sentInParts :
    ∃ s, run (step oneThread) State.init sentInParts = some s ∧
      (s.conns 0).output.readable = [3] ∧
      accepted (s.conns 0).log ++ (s.conns 0).output.readable = executedBytes (s.conns 0).log := by
  have hend : (run (step oneThread) State.init sentInParts).map
      (fun s => (s.nextObj, (s.conns 0).output.readable)) = some (1, [3]) := by decide +kernel
  obtain ⟨s, hs, heq⟩ := Option.map_eq_some_iff.mp hend
  obtain ⟨hnext, hreadable⟩ := Prod.mk.inj heq
  have hstream := output_stream (c := 0) (reach_of_run hs) (by rw [hnext]; exact Nat.one_pos)
  exact ⟨s, hs, hreadable, hstream.1⟩

end TcpServer
end Bbkgl
