import Bbkgl.Net.TcpServerSettled

/-!
# What the destructor leaves behind

In a run whose `~TcpServer` begins with every connection settled, no event is
handled for a destroyed connection, and nothing calls the server that is going
or has gone. With one open connection on a loop of the pool both happen.
-/

set_option autoImplicit false

namespace Bbkgl
namespace TcpServer

open CS CS.Fallible CS.Transition TcpConnection

namespace Lifetime

/-- The server is destroyed when every connection is settled. -/
def destroysSettled (cfg : Config) (s : Lifetime) : Action → Bool
  | .destructor => settled cfg s.server
  | _ => true

/-- What is known of the server at every point of its life; more of it once the destructor has
begun. -/
structure Sound (cfg : Config) (s : Lifetime) : Prop where
  placed : Placed cfg s.server
  filed : Filed s.server
  settled : s.stage ≠ .serving → ∀ c, Settled cfg s.server c

variable {cfg : Config} {s t : Lifetime} {a : Action} {b : TcpServer.Action} {as : List Action}

theorem sound_init : Sound cfg init := ⟨placed_init, filed_init, fun h => absurd rfl h⟩

/-- A step of the server keeps `Sound`. -/
theorem sound_server (h : Sound cfg s) (hfault : s.server.fault = none)
    (hg : guard cfg s (.server b) = true) :
    Sound cfg { s with server := commit cfg s.server b } := by
  simp only [guard, Bool.and_eq_true, Bool.or_eq_true, decide_eq_true_eq, Bool.not_eq_true'] at hg
  obtain ⟨⟨hg, -⟩, hnew⟩ := hg
  have hstep : TcpServer.step cfg s.server b = some (commit cfg s.server b) :=
    guarded_eq_some_iff.mpr ⟨by simp [hfault, hg], rfl⟩
  refine ⟨placed_step h.placed hstep, filed_step h.placed h.filed hstep, fun hstage c => ?_⟩
  have hsettled := h.settled hstage
  obtain ⟨-, -, hok | ⟨e, -, heq⟩⟩ := step_cases hstep
  · exact settled_effect h.placed hsettled hg (hnew.resolve_left hstage) hok c
  · have hrests : Rests cfg s.server (commit cfg s.server b) c False := by
      rw [heq]
      exact rests_conn rfl rfl rfl rfl rfl rfl id (Or.inl (Nat.le_refl _))
        fun _ => Or.inl (Nat.le_refl _)
    exact (hsettled c).rests hrests False.elim

/-- The end of a loop's thread keeps `Sound`. -/
theorem sound_joinThread (h : Sound cfg s) {joined : ℕ} (hstage : s.stage ≠ .serving)
    (htop : atTop cfg s.server (joined + 1) = true) :
    Sound cfg ⟨endLoop s.server (joined + 1), .threadPool (joined + 1)⟩ := by
  rw [atTop, Bool.and_eq_true] at htop
  have hfree := frame_of_free htop.1
  refine ⟨?_, ?_, fun _ c => ?_⟩
  · exact Placed.setLoop h.placed (u := fun _ => ⟨.empty, .poll, none, .empty⟩)
      (fun f hf => absurd hf List.not_mem_nil) fun _ => rfl
  · refine h.filed.of_records rfl (fun _ => rfl) (fun _ => rfl) fun i fd c ⟨mask, hc⟩ => ⟨mask, ?_⟩
    simp only [endLoop, loops_setLoop] at hc
    split at hc
    · exact absurd hc (by simp [Epoller.empty])
    · exact hc
  have hend : Rests cfg s.server (endLoop s.server (joined + 1)) c False := by
    rw [endLoop]
    refine rests_setLoop (fun _ => rfl) (fun fd e he => ?_) (fun message hc => ?_) (fun hc => ?_)
      fun f hf _ => absurd hf List.not_mem_nil
    · exact absurd he (by simp [Epoller.empty])
    · exact absurd hc (by simp [hfree])
    · exact absurd hc (by simp [givenTo])
  exact (h.settled hstage c).rests hend False.elim

/-- The step lemma of `Sound`. -/
theorem sound_step (h : Sound cfg s) (hok : destroysSettled cfg s a = true)
    (hstep : step cfg s a = some t) : Sound cfg t := by
  obtain ⟨hg, rfl⟩ := guarded_eq_some_iff.mp hstep
  simp only [Bool.and_eq_true, Option.isNone_iff_eq_none] at hg
  obtain ⟨hfault, hg⟩ := hg
  cases a with
  | server b => exact sound_server h hfault hg
  | destructor =>
    exact ⟨h.placed, h.filed, fun _ => settled_of_settled h.placed h.filed hok⟩
  | eraseEntry c =>
    simp only [guard, Bool.and_eq_true, decide_eq_true_eq] at hg
    have hstage : s.stage ≠ .serving := by simp [hg.1]
    refine ⟨h.placed.connections, h.filed.of_records rfl (fun _ => rfl) (fun _ => rfl)
      fun _ _ _ => id, fun _ d => ?_⟩
    have hrests : Rests cfg s.server
        { s.server with
          connections := Function.update s.server.connections (s.server.conns c).name none }
        d False :=
      rests_connections
    exact (h.settled hstage d).rests hrests False.elim
  | connectionsGone =>
    simp only [guard, Bool.and_eq_true, decide_eq_true_eq] at hg
    exact ⟨h.placed, h.filed, fun _ => h.settled (by simp [hg.1])⟩
  | joinThread =>
    simp only [guard] at hg
    simp only [effect]
    split at hg
    · next joined hstage =>
      rw [Bool.and_eq_true] at hg
      exact sound_joinThread h (by simp [hstage]) hg.2
    · exact absurd hg (by simp)
  | threadPoolGone =>
    simp only [guard, decide_eq_true_eq] at hg
    exact ⟨h.placed, h.filed, fun _ => h.settled (by simp [hg])⟩

theorem sound_of_reach
    (hrun : Reach (step cfg) (fun s a => destroysSettled cfg s a = true) init as s) :
    Sound cfg s :=
  hrun.invariant sound_init fun _ h hok hstep => sound_step h hok hstep

/-- Of a settled connection no event is left to handle. -/
theorem not_handlesDestroyed {s : State} (h : ∀ c, Settled cfg s c)
    (hg : TcpServer.guard cfg s b = true) : handlesDestroyed s b = false := by
  cases b with
  | handleEvent i =>
    simp only [TcpServer.guard] at hg
    split at hg
    · next e active hphase =>
      have hwalk := (h 0).walk i (mem_loops_of_free hg)
      exact absurd hwalk (by simp [hphase, walked])
    · exact absurd hg (by simp)
  | _ => rfl

/-- Of a settled connection nothing is left that enters the server. -/
theorem not_callsServer {s : State} (h : ∀ c, Settled cfg s c)
    (hg : TcpServer.guard cfg s b = true) : callsServer s b = false := by
  rw [callsServer, Bool.or_eq_false_iff]
  cases b with
  | handleClose i | handleRead i readv => exact absurd hg (h 0).not_callbackIs
  | closeTimer d =>
    simp only [TcpServer.guard, Bool.and_eq_true, decide_eq_true_eq] at hg
    refine ⟨?_, rfl⟩
    rw [closes, Option.any_some, Bool.and_eq_false_imp]
    exact fun halive => (h d).isUp_of_closeTimer hg.2 halive
  | runFunctor i wr =>
    simp only [TcpServer.guard, Bool.and_eq_true] at hg
    refine ⟨rfl, ?_⟩
    rw [runs]
    cases hrest : (s.loops i).functors.rest with
    | nil => rfl
    | cons f fs =>
      have hmem : f ∈ todo s i := mem_todo_of_rest hrest
      cases f with
      | removeConnectionInLoop d =>
        have hnone := (h d).queued i (mem_loops_of_free hg.1.1) _ hmem
        exact absurd hnone (by simp [entersServer])
      | _ => rfl
  | _ => exact ⟨rfl, rfl⟩

/-- From the beginning of `~TcpServer` on, no `HandleEvent` of a destroyed connection is
dispatched, and no close callback and no functor calls the server. -/
theorem nothing_left_behind
    (hrun : Reach (step cfg) (fun s a => destroysSettled cfg s a = true) init as s)
    (hstage : s.stage ≠ .serving) (hg : guard cfg s (.server b) = true) :
    handlesDestroyed s.server b = false ∧ callsServer s.server b = false := by
  have hsettled := (sound_of_reach hrun).settled hstage
  simp only [guard, Bool.and_eq_true] at hg
  exact ⟨not_handlesDestroyed hsettled hg.1.1, not_callsServer hsettled hg.1.1⟩

/-! ### Runs -/

/-- Actions of the server, as actions of a server with an end. -/
def onServer (bs : List TcpServer.Action) : List Action := bs.map .server

/-- The base loop is at its top again. -/
def atRest : List TcpServer.Action := [.doPendingFunctors 0, .finishFunctors 0]

/-- The peer has closed, the removal is through, and `ConnDestroyed` waits in the queue of
loop 1 when the server is destroyed; `ConnDestroyed` is executed while its thread is waited for. -/
def closedBefore : List Action :=
  onServer (established ++ [.drop 0, .poll 1 [(0, pollIn)], .handleEvent 1,
    .handleRead 1 (some []), .endEvent 1, .doPendingFunctors 0, .runFunctor 0 none,
    .finishFunctors 0]) ++ [.destructor, .connectionsGone, .server (.doPendingFunctors 1)]

/-- A connection is closed and removed, and its `ConnDestroyed` waits when the destructor begins.
-/
theorem nothing_left_behind_closedBefore :
    ∃ s, run (step oneThread) init closedBefore = some s ∧
      s.stage = .threadPool 0 ∧ runs s.server (.runFunctor 1 none) = some (.connDestroyed 0) ∧
      callsServer s.server (.runFunctor 1 none) = false := by
  have hend : (runIf (step oneThread) (fun s a => destroysSettled oneThread s a = true) init
      closedBefore).map (fun s => (s.stage, runs s.server (.runFunctor 1 none),
        guard oneThread s (.server (.runFunctor 1 none)))) =
          some (.threadPool 0, some (.connDestroyed 0), true) := by decide +kernel
  obtain ⟨s, hs, heq⟩ := Option.map_eq_some_iff.mp hend
  obtain ⟨hstage, heq⟩ := Prod.mk.inj heq
  obtain ⟨hruns, hg⟩ := Prod.mk.inj heq
  have hrun := reach_of_runIf hs
  exact ⟨s, hrun.run_eq, hstage, hruns, (nothing_left_behind hrun (by simp [hstage]) hg).2⟩

/-- Loop 1 has been told of the connection when `connections_` drops the last pointer. -/
def destroyedOpen : List Action :=
  onServer (established ++ atRest ++ [.drop 0, .poll 1 [(0, pollIn)]]) ++
    [.destructor, .eraseEntry 0, .server (.destroy 0)]

/-- The user keeps the connection, and the peer closes while `connections_` goes. -/
def keptOpen : List Action :=
  onServer (established ++ atRest ++ [.poll 1 [(0, pollIn)], .handleEvent 1]) ++
    [.destructor, .eraseEntry 0, .connectionsGone, .server (.handleRead 1 (some [])),
      .server (.endEvent 1), .server (.doPendingFunctors 1), .server (.finishFunctors 1),
      .joinThread, .threadPoolGone, .server (.poll 0 []), .server (.doPendingFunctors 0)]

/-- `HandleEvent` of a connection that has gone is next in the first run, and in the second
`RemoveConnectionInLoop` of a server that has gone. -/
theorem left_behind_of_open :
    (run (step oneThread) init destroyedOpen).map (fun s =>
      (guard oneThread s (.server (.handleEvent 1)), handlesDestroyed s.server (.handleEvent 1))) =
        some (true, true) ∧
    (run (step oneThread) init keptOpen).map (fun s => (s.stage,
      guard oneThread s (.server (.runFunctor 0 none)),
      callsServer s.server (.runFunctor 0 none))) = some (.destroyed, true, true) := by
  decide +kernel

end Lifetime
end TcpServer
end Bbkgl
