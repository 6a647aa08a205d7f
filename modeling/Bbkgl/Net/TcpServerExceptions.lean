import Bbkgl.CS.Exception
import Bbkgl.Net.TcpServerAttentive

/-!
# What can stop a server

An assertion that fails, an object that is gone and the `std::length_error` of a buffer
are the `fault` of a state. Two more exceptions are thrown outside the model of a step:
`std::bad_alloc`, which any step may run into, since each pushes, copies or grows
something or calls what does, and the `std::bad_function_call` of a callback that the
program has not set. Nothing in the source catches them.
-/

set_option autoImplicit false

namespace Bbkgl
namespace TcpServer

open CS CS.Transition TcpConnection

/-- The exceptions of the standard library that are no fault of the server's own. -/
inductive Exception
  | badAlloc
  | badFunctionCall
  deriving DecidableEq, Repr

/-- Which of `conn_callback_` and `msg_callback` the program has set. -/
structure Callbacks where
  connection : Bool
  message : Bool
  deriving DecidableEq, Repr

/-- The call finds an empty `std::function`. `write_complete__callback_` is tested
before it is queued. -/
def Callbacks.unset (cbs : Callbacks) : Entry → Bool
  | .connection _ _ => !cbs.connection
  | .message _ => !cbs.message
  | .writeComplete _ | .user => false

/-- What the step from `s` to `t` throws, if `noMemory` says that an allocation fails. -/
def raises (cfg : Config) (cbs : Callbacks) (s : State) (a : Action) (noMemory : Bool)
    (t : State) : Option Exception :=
  if noMemory then some .badAlloc
  else if t.fault.isNone && (enters cfg s a).any fun p => cbs.unset p.2 then
    some .badFunctionCall
  else none

variable {cfg : Config} {cbs : Callbacks} {app : Application} {s t : State} {h : Session}
  {a : Action} {b : Bool} {e : Option Exception} {xs : List (Action × Bool)}

/-- Only a callback that is not set makes a bad call. -/
theorem unset_of_raises (hraises : raises cfg cbs s a b t = some .badFunctionCall) :
    cbs.connection = false ∨ cbs.message = false := by
  simp only [raises] at hraises
  split at hraises
  · exact absurd hraises (by simp)
  · split at hraises
    · next hunset =>
      simp only [Bool.and_eq_true, Option.any_eq_true] at hunset
      obtain ⟨-, ⟨i, entry⟩, -, hunset⟩ := hunset
      cases entry with
      | connection c up => exact Or.inl (by simpa [Callbacks.unset] using hunset)
      | message c => exact Or.inr (by simpa [Callbacks.unset] using hunset)
      | writeComplete c | user => exact absurd hunset (by simp [Callbacks.unset])
    · exact absurd hraises (by simp)

/-- A run that is careful stops only where a buffer cannot grow, where there is no
memory, or where the program has left out a callback. -/
theorem careful_stops
    (hrun : Reach (throwing (step cfg) (raises cfg cbs))
      (fun q x => careful cfg q.1 x.1 = true) (State.init, none) xs (s, e)) :
    (s.fault = none ∨ s.fault = some (.buffer .lengthError)) ∧
      (e = some .badFunctionCall → cbs.connection = false ∨ cbs.message = false) := by
  constructor
  · obtain ⟨as, hreach⟩ := reach_of_throwing (fun s a => careful cfg s a = true) hrun
    cases hfault : s.fault with
    | none => exact Or.inl rfl
    | some f => exact Or.inr (congrArg some (lengthError_of_fault hreach hfault))
  · rintro rfl
    obtain ⟨as, a, b, t, -, -, -, hraises⟩ :=
      raises_of_throwing (fun s a => careful cfg s a = true) hrun
    exact unset_of_raises hraises

/-- A server with a harmless application, which has set its callbacks, stops only where
a buffer cannot grow or there is no memory, and ends each connection once. -/
theorem harmless_stops (happ : app.Harmless)
    (hrun : Reach (throwing (serves cfg app) fun q a b q' => raises cfg ⟨true, true⟩ q.1 a b q'.1)
      (fun q x => obeys q.1.1 q.1.2 x.1 = true ∧ spared cfg q.1.1 x.1 = true)
      ((State.init, Session.init), none) xs ((s, h), e)) :
    (s.fault = none ∨ s.fault = some (.buffer .lengthError)) ∧
      (e = none ∨ e = some .badAlloc) ∧ ∀ c, c < s.nextObj →
        (s.conns c).log.count .closed ≤ 1 ∧ (s.conns c).log.count .removed ≤ 1 ∧
          (s.conns c).log.count .destroyed ≤ 1 := by
  obtain ⟨as, hreach⟩ := reach_of_throwing
    (fun (q : State × Session) a => obeys q.1 q.2 a = true ∧ spared cfg q.1 a = true) hrun
  have hcareful := (attentive_of_reach happ hreach).1
  refine ⟨?_, ?_, fun c hc => ?_⟩
  · cases hfault : s.fault with
    | none => exact Or.inl rfl
    | some f => exact Or.inr (congrArg some (lengthError_of_fault hcareful hfault))
  · rcases e with _ | _ | _
    · exact Or.inl rfl
    · exact Or.inr rfl
    · obtain ⟨bs, a, b, q, -, -, -, hraises⟩ := raises_of_throwing
        (fun (q : State × Session) a => obeys q.1 q.2 a = true ∧ spared cfg q.1 a = true) hrun
      exact absurd (unset_of_raises hraises) (by simp)
  · have honce := once_of_reach (handlesSafely_of_careful hcareful).1 c hc
    exact ⟨honce.closed_le, honce.counts_le.1, honce.counts_le.2.1⟩

/-! ### Two runs -/

/-- A message is read, and its buffer shrunk; what is sent on the connection's loop goes
out in two parts. The peer closes, the object goes, and the next connection has its
descriptor. -/
def answeredThenReused : List Action :=
  established ++ [.poll 1 [(0, pollIn)], .handleEvent 1, .handleRead 1 (some [5, 6]),
    .inputBuffer 1 (.shrink 16), .inputBuffer 1 (.call .retrieveAll),
    .send (.loop 1) 0 [1, 2, 3] (some 1), .userReturn 1, .endEvent 1,
    .doPendingFunctors 1, .finishFunctors 1, .poll 1 [(0, pollOut)], .handleEvent 1,
    .handleWrite 1 (some 2), .endEvent 1, .doPendingFunctors 1, .finishFunctors 1] ++
    peerCloses ++ reused

/-- There is no memory for the next connection. -/
theorem careful_stops_answeredThenReused :
    ∃ s, run (throwing (step oneThread) (raises oneThread ⟨true, true⟩)) (State.init, none)
        (answeredThenReused.map (·, false) ++ [(.newConnection 8, true)]) =
          some (s, some .badAlloc) ∧
      (s.conns 0).alive = false ∧ (s.conns 1).state = .connected ∧
      (s.fault = none ∨ s.fault = some (.buffer .lengthError)) := by
  have hend : (runIf (throwing (step oneThread) (raises oneThread ⟨true, true⟩))
      (fun q x => careful oneThread q.1 x.1 = true) (State.init, none)
      (answeredThenReused.map (·, false) ++ [(.newConnection 8, true)])).map
        (fun q => ((q.1.conns 0).alive, (q.1.conns 1).state, q.2)) =
          some (false, .connected, some .badAlloc) := by decide +kernel
  obtain ⟨⟨s, e⟩, hs, heq⟩ := Option.map_eq_some_iff.mp hend
  obtain ⟨hdead, hstate, rfl⟩ := by simpa using heq
  have hrun := reach_of_runIf hs
  exact ⟨s, hrun.run_eq, hdead, hstate, (careful_stops hrun).1⟩

/-- A message is sent back in part, and the peer closes before the rest can be written. -/
def echoedThenClosed : List Action :=
  accept ++ [.userReturn 1, .finishFunctors 1, .poll 1 [(0, pollIn)], .handleEvent 1,
    .handleRead 1 (some [1, 2]), .inputBuffer 1 (.call .retrieveAsString),
    .send (.loop 1) 0 [1, 2] (some 1), .userReturn 1, .endEvent 1, .doPendingFunctors 1,
    .finishFunctors 1, .poll 1 [(0, pollIn ||| pollOut)], .handleEvent 1, .handleRead 1 (some []),
    .handleWrite 1 (some 1), .endEvent 1] ++ removedAndDestroyed ++ [.destroy 0]

/-- A peer is echoed to and closes; no call throws. -/
theorem harmless_stops_echoedThenClosed :
    ∃ q, run (throwing (serves oneThread .test9)
          fun q a b q' => raises oneThread ⟨true, true⟩ q.1 a b q'.1)
        ((State.init, Session.init), none) (echoedThenClosed.map (·, false)) = some q ∧
      (q.1.1.conns 0).log.count .closed = 1 ∧ (q.1.1.conns 0).alive = false ∧
      (q.1.1.fault = none ∨ q.1.1.fault = some (.buffer .lengthError)) := by
  have hend : (runIf (throwing (serves oneThread .test9)
        fun q a b q' => raises oneThread ⟨true, true⟩ q.1 a b q'.1)
      (fun q x => obeys q.1.1 q.1.2 x.1 = true ∧ spared oneThread q.1.1 x.1 = true)
      ((State.init, Session.init), none) (echoedThenClosed.map (·, false))).map
        (fun q => ((q.1.1.conns 0).log.count .closed, (q.1.1.conns 0).alive)) =
          some (1, false) := by
    decide +kernel
  obtain ⟨⟨⟨s, h⟩, e⟩, hs, heq⟩ := Option.map_eq_some_iff.mp hend
  obtain ⟨hclosed, hdead⟩ := Prod.mk.inj heq
  have hrun := reach_of_runIf hs
  exact ⟨((s, h), e), hrun.run_eq, hclosed, hdead,
    (harmless_stops Application.test9_harmless hrun).1⟩

end TcpServer
end Bbkgl
