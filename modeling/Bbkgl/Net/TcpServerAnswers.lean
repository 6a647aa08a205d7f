import Bbkgl.Net.Programs
import Bbkgl.Net.TcpServerDialogue
import Bbkgl.Net.TcpServerShutdown

/-!
# The answers of an application

What holds of a server with an application, whatever the kernel and the other
connections do: in which order the callbacks of a connection come, that they are told
all that was delivered, and that all they answer, and nothing else, is written.
-/

set_option autoImplicit false

namespace Bbkgl
namespace TcpServer

open CS CS.Transition TcpConnection Connection

variable {cfg : Config} {app : Application} {s : State} {h : Session} {c : ConnId}
  {as : List Action} {greeting : Bytes}

/-! ### What is known of a dialogue -/

/-- The dialogue of a connection keeps its laws in every run. -/
theorem Serves.laws (hrun : Serves cfg app as s h) (hfault : s.fault = none)
    (hc : c < s.nextObj) :
    (dialogue s h c).Orderly ∧ (dialogue s h c).Hears ∧ ∃ made, (dialogue s h c).Says app made := by
  obtain ⟨bs, hbs⟩ := hrun.dialogue_run hfault hc
  exact Dialogue.says_of_run hbs

/-- What the kernel has accepted, and what is left in the output buffer, was said. -/
theorem Serves.said (hrun : Serves cfg app as s h) (hc : c < s.nextObj) :
    accepted (s.conns c).log ++ (s.conns c).output.readable = (dialogue s h c).said :=
  (stream_of_reach hrun.reach c hc).2.conserved.1

theorem noSends_of_noTraffic {v : Connection} (hv : NoTraffic v) : NoSends v := by
  refine ⟨fun who message hmem => ?_, fun who message hcall => ?_⟩
  · exact absurd (hv.2 _ hmem) (by simp)
  · rw [hv.1] at hcall
    exact absurd hcall (by simp)

/-- No half-close overtakes a message. -/
theorem Serves.halfInv (hrun : Serves cfg app as s h) (hc : c < s.nextObj) :
    Stream (view s c) ∧ HalfInv (view s c) := by
  have hviews := hrun.views (I := fun v => (Tokens v ∧ Stream v) ∧ HalfInv v) ?_ ?_ c hc
  · exact ⟨hviews.2.1.2, hviews.2.2⟩
  · exact fun owner => ⟨⟨tokens_init owner, stream_init owner⟩, halfInv_init owner⟩
  · rintro v b v' hv - ⟨⟨htokens, hstream⟩, hhalf⟩ hstep
    exact ⟨⟨tokens_step htokens hstep, stream_step htokens hstream hstep⟩,
      halfInv_step hstream hhalf (fun _ => noSends_of_noTraffic hv) hstep⟩

theorem dialogue_quiet (hidle : givenTo c (s.loops (own s c)) = false) :
    (dialogue s h c).script = none :=
  if_neg (Bool.eq_false_iff.mp hidle)

/-! ### Callbacks -/

/-- A connection's callbacks come in their order: one that it is up, then messages and
write-completes, then one that it is down, and after that write-completes at most. -/
theorem callbacks_in_order (hrun : Serves cfg app as s h) (hfault : s.fault = none)
    (hc : c < s.nextObj) :
    ((s.conns c).state = .connecting → h.events c = []) ∧
    ((s.conns c).isUp = true → ∃ mid,
      h.events c = .connection true :: mid ∧ mid.all Dialogue.isTraffic = true) ∧
    ((s.conns c).state = .disconnected → ∃ mid late,
      h.events c = .connection true :: mid ++ .connection false :: late ∧
        mid.all Dialogue.isTraffic = true ∧ late.all (· = .writeComplete) = true) := by
  obtain ⟨horderly, -⟩ := hrun.laws hfault hc
  exact ⟨fun hstate => (horderly.before hstate).1, horderly.up, fun hstate =>
    (horderly.down hstate).2⟩

/-- With a write-complete callback. -/
def completing : Config := ⟨"s", 1, 1, true⟩

/-- The connection is established on loop 1, and its callback is running. -/
def accept : List Action :=
  [.poll 0 [], .newConnection 7, .poll 1 [], .doPendingFunctors 1, .runFunctor 1 none]

/-- The message, and the one of the write-complete callback, are written at once. Then
the peer closes. -/
def generatedOnce : List Action :=
  accept ++ [.send (.loop 1) 0 [9] (some 1), .userReturn 1, .finishFunctors 1, .poll 1 [],
    .doPendingFunctors 1, .runFunctor 1 none, .send (.loop 1) 0 [9] (some 1), .userReturn 1,
    .finishFunctors 1, .poll 1 [(0, pollIn)], .handleEvent 1, .handleRead 1 (some []),
    .endEvent 1] ++ removedAndDestroyed

/-- A connection is up, completes a write, and is down. -/
theorem callbacks_in_order_generatedOnce :
    ∃ q, run (serves completing (.test11 [9])) (State.init, Session.init) generatedOnce = some q ∧
      q.2.events 0 = [.connection true, .writeComplete, .connection false] ∧
      ∃ mid late, q.2.events 0 = .connection true :: mid ++ .connection false :: late ∧
        mid.all Dialogue.isTraffic = true ∧ late.all (· = .writeComplete) = true := by
  have hend : (runIf (serves completing (.test11 [9])) (fun q a => obeys q.1 q.2 a = true)
      (State.init, Session.init) generatedOnce).map
      (fun q => (q.1.fault, q.1.nextObj, (q.1.conns 0).state, q.2.events 0)) =
        some (none, 1, .disconnected, [.connection true, .writeComplete, .connection false]) := by
    decide +kernel
  obtain ⟨⟨s, h⟩, hs, heq⟩ := Option.map_eq_some_iff.mp hend
  simp only [Prod.mk.injEq] at heq
  obtain ⟨hfault, hnext, hstate, hevents⟩ := heq
  have hrun := reach_of_runIf hs
  have horder := callbacks_in_order (c := 0) hrun hfault (by rw [hnext]; exact Nat.one_pos)
  exact ⟨(s, h), hrun.run_eq, hevents, horder.2.2 hstate⟩

/-- No `OnMessage` is called for nothing. What they are told is what the kernel has
delivered, in its order, and when none is running it is all of it. -/
theorem told_what_is_received (hrun : Serves cfg app as s h) (hfault : s.fault = none)
    (hc : c < s.nextObj) :
    .message [] ∉ h.events c ∧ heard (h.events c) <+: h.traffic.received c ∧
    (givenTo c (s.loops (own s c)) = false →
      heard (h.events c) = h.traffic.received c ∧ (s.conns c).input.readable = []) := by
  obtain ⟨-, hhears, -⟩ := hrun.laws hfault hc
  refine ⟨hhears.nonempty, hhears.sofar, fun hidle => ?_⟩
  have hall : heard (h.events c) = h.traffic.received c :=
    hhears.all (by simp [dialogue_quiet hidle])
  refine ⟨hall, ?_⟩
  have hbytes := (hrun.input hfault c).bytes
  rw [hrun.heard hfault, hall] at hbytes
  exact List.append_right_eq_self.mp hbytes

/-- Two deliveries, and two callbacks that echo them. -/
def echoedTwice : List Action :=
  accept ++ [.userReturn 1, .finishFunctors 1, .poll 1 [(0, pollIn)], .handleEvent 1,
    .handleRead 1 (some [1, 2]), .inputBuffer 1 (.call .retrieveAsString),
    .send (.loop 1) 0 [1, 2] (some 1), .userReturn 1, .endEvent 1, .doPendingFunctors 1,
    .finishFunctors 1, .poll 1 [(0, pollIn)], .handleEvent 1, .handleRead 1 (some [3]),
    .inputBuffer 1 (.call .retrieveAsString), .send (.loop 1) 0 [3] none, .userReturn 1]

/-- Two reads are told one after the other. -/
theorem told_what_is_received_echoedTwice :
    ∃ q, run (serves oneThread .test9) (State.init, Session.init) echoedTwice = some q ∧
      q.2.traffic.received 0 = [1, 2, 3] ∧ heard (q.2.events 0) = [1, 2, 3] := by
  have hend : (runIf (serves oneThread .test9) (fun q a => obeys q.1 q.2 a = true)
      (State.init, Session.init) echoedTwice).map
      (fun q => (q.1.fault, q.1.nextObj, givenTo 0 (q.1.loops (own q.1 0)),
        q.2.traffic.received 0)) = some (none, 1, false, [1, 2, 3]) := by decide +kernel
  obtain ⟨⟨s, h⟩, hs, heq⟩ := Option.map_eq_some_iff.mp hend
  simp only [Prod.mk.injEq] at heq
  obtain ⟨hfault, hnext, hidle, hreceived⟩ := heq
  have hrun := reach_of_runIf hs
  have htold := told_what_is_received (c := 0) hrun hfault (by rw [hnext]; exact Nat.one_pos)
  exact ⟨(s, h), hrun.run_eq, hreceived, (htold.2.2 hidle).1.trans hreceived⟩

/-! ### Answers -/

/-- What the kernel has accepted, followed by the output buffer, is what the application
sends when it answers what it was told about this connection: up to where a callback that
is running has got, and all of it when none is. -/
theorem says_its_answers (hrun : Serves cfg app as s h) (hfault : s.fault = none)
    (hc : c < s.nextObj) :
    accepted (s.conns c).log ++ (s.conns c).output.readable <+:
      delivered (app.spoken (h.events c)) ∧
    (givenTo c (s.loops (own s c)) = false →
      accepted (s.conns c).log ++ (s.conns c).output.readable =
        delivered (app.spoken (h.events c))) := by
  obtain ⟨-, -, made, hanswers⟩ := hrun.laws hfault hc
  rw [hrun.said (h := h) hc]
  refine ⟨hanswers.all_said.1, fun hidle => hanswers.all_said.2 ?_⟩
  rw [Dialogue.left, dialogue_quiet hidle]
  rfl

/-- The greeting goes out in part, and a message is answered behind the rest. -/
def greeted : List Action :=
  accept ++ [.send (.loop 1) 0 Application.hello (some 2), .userReturn 1, .finishFunctors 1,
    .poll 1 [(0, pollIn)], .handleEvent 1, .handleRead 1 (some [1, 2]),
    .inputBuffer 1 (.call .retrieveAsString), .send (.loop 1) 0 [1, 2] none, .close (.loop 1) 0,
    .userReturn 1]

/-- A greeting and an echo. -/
theorem says_its_answers_greeted :
    ∃ q, run (serves oneThread .exampleMain) (State.init, Session.init) greeted = some q ∧
      q.2.events 0 = [.connection true, .message [1, 2]] ∧
      accepted (q.1.conns 0).log ++ (q.1.conns 0).output.readable =
        delivered (Application.exampleMain.spoken [.connection true, .message [1, 2]]) := by
  have hend : (runIf (serves oneThread .exampleMain) (fun q a => obeys q.1 q.2 a = true)
      (State.init, Session.init) greeted).map
      (fun q => (q.1.fault, q.1.nextObj, givenTo 0 (q.1.loops (own q.1 0)), q.2.events 0)) =
        some (none, 1, false, [.connection true, .message [1, 2]]) := by decide +kernel
  obtain ⟨⟨s, h⟩, hs, heq⟩ := Option.map_eq_some_iff.mp hend
  simp only [Prod.mk.injEq] at heq
  obtain ⟨hfault, hnext, hidle, hevents⟩ := heq
  have hrun := reach_of_runIf hs
  have hanswers := says_its_answers (c := 0) hrun hfault (by rw [hnext]; exact Nat.one_pos)
  refine ⟨(s, h), hrun.run_eq, hevents, ?_⟩
  rw [← hevents]
  exact hanswers.2 hidle

/-- What the peer has got when it reads the end of the stream is all that the application
answers up to its `Shutdown`, and nothing is left in the output buffer: unless a
`HandleClose` came first, or in between. -/
theorem half_closes_after_its_answers (hrun : Serves cfg app as s h) (hfault : s.fault = none)
    (hc : c < s.nextObj) (hclosed : (s.conns c).log.count .closed = 0)
    (hhalf : .halfClosed ∈ (s.conns c).log) :
    accepted (s.conns c).log = delivered (app.spoken (h.events c)) ∧
      (s.conns c).output.readable = [] := by
  obtain ⟨-, -, made, hanswers⟩ := hrun.laws hfault hc
  obtain ⟨hstream, hinv⟩ := hrun.halfInv hc
  obtain ⟨hsends, ⟨hnew, hconnected⟩, hwriting⟩ := hinv.quiet hclosed hhalf
  have hacc : accepted (s.conns c).log = (dialogue s h c).said :=
    (hstream.all_accepted hsends hclosed hwriting).1
  have hstate : (dialogue s h c).state = .disconnecting ∨
      (dialogue s h c).state = .disconnected := by
    cases hstate : (dialogue s h c).state with
    | connecting => exact absurd hstate hnew
    | connected => exact absurd hstate hconnected
    | disconnecting => exact Or.inl rfl
    | disconnected => exact Or.inr rfl
  refine ⟨hacc.trans (hanswers.said_of_shut hstate), ?_⟩
  have hall := hrun.said (h := h) hc
  rw [hacc] at hall
  exact List.append_right_eq_self.mp hall

/-- The half-close waits for what `write()` has not taken. -/
def sentBoth : List Action :=
  accept ++ [.send (.loop 1) 0 [1, 2] (some 1), .send (.loop 1) 0 [3] none, .shutdown (.loop 1) 0,
    .userReturn 1, .finishFunctors 1, .poll 1 [(0, pollOut)], .handleEvent 1,
    .handleWrite 1 (some 2)]

/-- Two messages, and then the half-close. -/
theorem half_closes_after_its_answers_sentBoth :
    ∃ q, run (serves oneThread (.test10 [1, 2] [3])) (State.init, Session.init) sentBoth = some q ∧
      .halfClosed ∈ (q.1.conns 0).log ∧
      accepted (q.1.conns 0).log =
        delivered ((Application.test10 [1, 2] [3]).spoken [.connection true]) := by
  have hend : (runIf (serves oneThread (.test10 [1, 2] [3])) (fun q a => obeys q.1 q.2 a = true)
      (State.init, Session.init) sentBoth).map
      (fun q => (q.1.fault, q.1.nextObj, (q.1.conns 0).log.count .closed,
        decide (.halfClosed ∈ (q.1.conns 0).log), q.2.events 0)) =
        some (none, 1, 0, true, [.connection true]) := by decide +kernel
  obtain ⟨⟨s, h⟩, hs, heq⟩ := Option.map_eq_some_iff.mp hend
  simp only [Prod.mk.injEq, decide_eq_true_eq] at heq
  obtain ⟨hfault, hnext, hclosed, hhalf, hevents⟩ := heq
  have hrun := reach_of_runIf hs
  have hlast := half_closes_after_its_answers (c := 0) hrun hfault
    (by rw [hnext]; exact Nat.one_pos) hclosed hhalf
  exact ⟨(s, h), hrun.run_eq, hhalf, hevents ▸ hlast.1⟩

/-! ### Echoes -/

/-- An application that echoes: what is written is the greeting and what was received,
as far as the callback that is running has got. -/
theorem echo_stream (happ : app.Echoes greeting) (hrun : Serves cfg app as s h)
    (hfault : s.fault = none) (hc : c < s.nextObj) :
    accepted (s.conns c).log ++ (s.conns c).output.readable <+:
      greeting ++ h.traffic.received c ∧
    ((s.conns c).state ≠ .connecting → givenTo c (s.loops (own s c)) = false →
      accepted (s.conns c).log ++ (s.conns c).output.readable =
        greeting ++ h.traffic.received c) := by
  obtain ⟨horderly, hhears, made, hanswers⟩ := hrun.laws hfault hc
  rw [hrun.said (h := h) hc]
  by_cases hstate : (dialogue s h c).state = .connecting
  · have hmade : made = [] := hanswers.fresh hstate
    refine ⟨?_, fun hne => absurd hstate hne⟩
    rw [hanswers.said, hmade]
    exact List.nil_prefix
  · have hdelivered := horderly.delivered_of_echoes happ hstate
    obtain ⟨hsofar, hall⟩ := hanswers.all_said
    rw [hdelivered] at hsofar hall
    refine ⟨hsofar.trans ((List.prefix_append_right_inj greeting).mpr hhears.sofar), ?_⟩
    intro _ hidle
    have hscript := dialogue_quiet (h := h) hidle
    rw [hall (by rw [Dialogue.left, hscript]; rfl), hhears.all (by simp [hscript])]
    rfl

/-- A greeting and an echo, as bytes. -/
theorem echo_stream_greeted :
    ∃ q, run (serves oneThread .exampleMain) (State.init, Session.init) greeted = some q ∧
      accepted (q.1.conns 0).log ++ (q.1.conns 0).output.readable =
        Application.hello ++ [1, 2] := by
  have hend : (runIf (serves oneThread .exampleMain) (fun q a => obeys q.1 q.2 a = true)
      (State.init, Session.init) greeted).map
      (fun q => (q.1.fault, q.1.nextObj, (q.1.conns 0).state, givenTo 0 (q.1.loops (own q.1 0)),
        q.2.traffic.received 0)) = some (none, 1, .connected, false, [1, 2]) := by decide +kernel
  obtain ⟨⟨s, h⟩, hs, heq⟩ := Option.map_eq_some_iff.mp hend
  simp only [Prod.mk.injEq] at heq
  obtain ⟨hfault, hnext, hstate, hidle, hreceived⟩ := heq
  have hrun := reach_of_runIf hs
  have hecho := echo_stream (c := 0) Application.exampleMain_echoes hrun hfault
    (by rw [hnext]; exact Nat.one_pos)
  refine ⟨(s, h), hrun.run_eq, ?_⟩
  rw [← hreceived]
  exact hecho.2 (by simp [hstate]) hidle

end TcpServer
end Bbkgl
