import Bbkgl.Net.ConnectionShutdown

/-!
# A connection with nothing under way

What a shutdown and a close leave to be done is always in somebody's hands: in a
thread's, on the queue, or with the output buffer that is still to be written. So
a connection about which nothing is queued and nothing is called has no shutdown
and no teardown half done. And the states come in their order: what is past
`k_connected` does not return to it.
-/

set_option autoImplicit false

namespace Bbkgl
namespace Connection

open CS.Transition

variable {v v' : Connection} {a : Action} {who : Caller}

/-- A shutdown whose `ShutdownInLoop` is still to run. -/
def ShutdownUnderWay (v : Connection) : Prop :=
  .shutdown ∈ v.tasks ∨ ∃ who, v.calls who = some .shutdownSet

/-- Nothing about the connection is queued or called, of what teardown and shutdown
hand from thread to thread. -/
structure AtRest (v : Connection) : Prop where
  tasks : v.tasks = []
  removals : v.removals = 0
  calls : ∀ who, v.calls who = none

/-- At rest no `Shutdown` is under way. -/
theorem AtRest.not_underWay (h : AtRest v) : ¬ ShutdownUnderWay v := by
  rintro (hmem | ⟨who, hcall⟩)
  · simp [h.tasks] at hmem
  · simp [h.calls] at hcall

theorem AtRest.noSends (h : AtRest v) : NoSends v :=
  ⟨fun _ _ hmem => by simp [h.tasks] at hmem, fun _ _ hcall => by simp [h.calls] at hcall⟩

/-! ### Shutdown -/

/-- A shutdown that was asked for, and has not half-closed, is under way or waits
for the backlog. -/
structure Draining (v : Connection) : Prop where
  leaving : ShutdownUnderWay v ∨ .halfClosed ∈ v.log → Leaving v
  waits : v.state = .disconnecting → v.log.count .closed = 0 →
    .halfClosed ∈ v.log ∨ v.writing = true ∨ ShutdownUnderWay v

theorem draining_init (owner : Caller) : Draining (init owner) := by
  constructor <;> simp [init, ShutdownUnderWay]

/-- A step that asks for no shutdown and leaves none to be done. -/
theorem Draining.congr (h : Draining v) (hstate : v'.state = v.state)
    (hunder : ShutdownUnderWay v' ↔ ShutdownUnderWay v)
    (hhalf : .halfClosed ∈ v'.log ↔ .halfClosed ∈ v.log)
    (hwaits : v'.log.count .closed = 0 → v.log.count .closed = 0 ∧
      (v.writing = true → v'.writing = true)) : Draining v' where
  leaving h' := by
    rw [hunder, hhalf] at h'
    obtain ⟨hconnecting, hconnected⟩ := h.leaving h'
    exact ⟨hstate ▸ hconnecting, hstate ▸ hconnected⟩
  waits hdisc h0 := by
    obtain ⟨hclosed, hwriting⟩ := hwaits h0
    rw [hhalf, hunder]
    exact (h.waits (hstate ▸ hdisc) hclosed).imp_right (Or.imp_left hwriting)

/-- Of a call that is no shutdown, before or after. -/
theorem underWay_setCall {call : Option Pending} (hold : v.calls who ≠ some .shutdownSet)
    (hnew : call ≠ some .shutdownSet) :
    ShutdownUnderWay (v.setCall who call) ↔ ShutdownUnderWay v := by
  apply or_congr_right
  apply exists_congr
  intro w
  by_cases hw : w = who
  · subst hw
    simp [setCall, hold, hnew]
  · simp [setCall, hw]

/-- `SendInLoop` half-closes nothing. -/
theorem halfClosed_mem_sendInLoop {message : Bytes} {wr : WriteResult} :
    .halfClosed ∈ (v.sendInLoop who message wr).log ↔ .halfClosed ∈ v.log := by
  rw [sendInLoop, List.mem_append]
  apply or_iff_left
  split <;> simp

/-- `ShutdownInLoop` half-closes, or leaves that to `HandleWrite`. -/
theorem draining_shutdownInLoop (hleaving : Leaving v) : Draining v.shutdownInLoop := by
  rw [shutdownInLoop]
  split
  · next hwriting => exact ⟨fun _ => hleaving, fun _ _ => Or.inr (Or.inl hwriting)⟩
  · exact ⟨fun _ => hleaving, fun _ _ => Or.inl (by simp [record])⟩

/-- The step lemma of `Draining`. -/
theorem draining_step (h : Draining v) (hstep : step v a = some v') : Draining v' := by
  obtain ⟨hg, rfl⟩ := guarded_eq_some_iff.mp hstep
  cases a with
  | establish =>
    simp only [guard, Bool.and_eq_true, decide_eq_true_eq] at hg
    have hnone : ¬ (ShutdownUnderWay v ∨ .halfClosed ∈ v.log) := fun hs => (h.leaving hs).1 hg.2
    rw [not_or] at hnone
    refine ⟨?_, fun hdisc => by simp [effect] at hdisc⟩
    rintro ((hmem | ⟨who, hcall⟩) | hhalf)
    · exact absurd (Or.inl (List.mem_of_mem_tail hmem)) hnone.1
    · exact absurd (Or.inr ⟨who, hcall⟩) hnone.1
    · exact absurd (by simpa [effect, popTask, record] using hhalf) hnone.2
  | close =>
    have hclosed : (v.log ++ [ConnEvent.closed]).count .closed ≠ 0 := by simp
    refine ⟨fun hs => h.leaving (hs.imp_right fun hhalf => ?_), fun _ h0 => absurd h0 hclosed⟩
    simpa [effect, record] using hhalf
  | remove =>
    refine h.congr rfl ?_ ?_ fun h0 => ⟨?_, id⟩
    · simp [ShutdownUnderWay, effect, record]
    · simp [effect, record]
    · simpa [effect, record] using h0
  | evict | die => exact h.congr rfl Iff.rfl Iff.rfl fun h0 => ⟨h0, id⟩
  | destroy =>
    exact ⟨fun _ => ⟨by simp [effect], by simp [effect]⟩, fun hdisc => by simp [effect] at hdisc⟩
  | callSend who message =>
    simp only [guard, Bool.and_eq_true, Option.isNone_iff_eq_none] at hg
    refine h.congr rfl ?_ ?_ fun h0 => ⟨?_, id⟩
    · exact underWay_setCall (v := v.record (.sent who message)) (by simp [record, hg.2]) (by simp)
    · simp [effect, setCall, record]
    · simpa [effect, setCall, record] using h0
  | pushSend who =>
    simp only [guard] at hg
    split at hg
    · next message hcall =>
      simp only [effect, hcall]
      refine h.congr rfl ?_ Iff.rfl fun h0 => ⟨h0, id⟩
      have hidle : ShutdownUnderWay (v.setCall who none) ↔ ShutdownUnderWay v :=
        underWay_setCall (by simp [hcall]) (by simp)
      rw [← hidle]
      simp [ShutdownUnderWay, setCall]
    · simp at hg
  | runSend wr =>
    simp only [guard] at hg
    split at hg
    · next who message ts hts =>
      simp only [effect, hts]
      refine h.congr rfl ?_ ?_ fun h0 => ⟨?_, fun hw => ?_⟩
      · simp [ShutdownUnderWay, sendInLoop, popTask, hts]
      · exact halfClosed_mem_sendInLoop
      · rwa [Streamed.sendInLoop.count (by simp)] at h0
      · simp [sendInLoop, popTask, hw]
    · simp at hg
  | sendDirect who message wr =>
    refine h.congr rfl Iff.rfl ?_ fun h0 => ⟨?_, fun hw => ?_⟩
    · rw [effect, halfClosed_mem_sendInLoop]
      simp [record]
    · rwa [effect, (Streamed.sent.trans Streamed.sendInLoop).count (by simp)] at h0
    · simp [effect, sendInLoop, record, hw]
  | callShutdown who =>
    simp only [guard, Bool.and_eq_true, Option.isNone_iff_eq_none] at hg
    exact h.congr rfl (underWay_setCall (by simp [hg.2]) (by simp)) Iff.rfl fun h0 => ⟨h0, id⟩
  | setDisconnecting who =>
    refine ⟨fun _ => ⟨by simp [effect], by simp [effect]⟩, fun _ _ => Or.inr (Or.inr (Or.inr ?_))⟩
    exact ⟨who, by simp [effect, setCall]⟩
  | pushShutdown who =>
    simp only [guard, decide_eq_true_eq] at hg
    have hleaving : Leaving v := h.leaving (Or.inl (Or.inr ⟨who, hg⟩))
    exact ⟨fun _ => hleaving, fun _ _ => Or.inr (Or.inr (Or.inl (by simp [effect])))⟩
  | runShutdown =>
    simp only [guard, decide_eq_true_eq] at hg
    have hleaving : Leaving v := h.leaving (Or.inl (Or.inl (List.mem_of_mem_head? hg)))
    exact draining_shutdownInLoop (v := v.popTask) hleaving
  | shutdownDirect =>
    exact draining_shutdownInLoop (v := { v with state := .disconnecting }) ⟨by simp, by simp⟩
  | handleWrite wr =>
    simp only [effect, handleWrite]
    split
    · next hwriting =>
      split
      · split
        · next hstate =>
          -- the backlog is gone, and the half-close that waited for it is performed
          exact draining_shutdownInLoop (v := { v.written (wr.getD 0) with writing := false })
            ⟨by simp [written, hstate], by simp [written, hstate]⟩
        · next hstate =>
          refine ⟨fun hs => h.leaving (hs.imp_right fun hhalf => ?_),
            fun hdisc => absurd hdisc hstate⟩
          simpa [written] using hhalf
      · refine h.congr rfl Iff.rfl ?_ fun h0 => ⟨?_, id⟩
        · simp [written]
        · simpa [written] using h0
    · exact h

/-- At rest, with its backlog gone, a connection that was asked to shut down has
half-closed, and everything that was sent has been accepted. -/
theorem Draining.halfClosed (h : Draining v) (hstream : Stream v) (hrest : AtRest v)
    (hdisc : v.state = .disconnecting) (h0 : v.log.count .closed = 0) (hbacklog : v.backlog = []) :
    .halfClosed ∈ v.log ∧ accepted v.log = executedBytes v.log ∧
      ∀ who, executedBy who v.log = sentBy who v.log := by
  have hwriting : v.writing = false := by
    by_contra hw
    exact (hstream.conserved.2 h0).mpr (by simpa using hw) hbacklog
  refine ⟨?_, hstream.all_accepted hrest.noSends h0 hwriting⟩
  rcases h.waits hdisc h0 with hhalf | hw | hunder
  · exact hhalf
  · exact absurd hw (by simp [hwriting])
  · exact absurd hunder hrest.not_underWay

/-! ### What a step does to the state -/

/-- The state after an action. -/
def stateAfter (v : Connection) : Action → StateE
  | .establish => .connected
  | .destroy => .disconnected
  | .setDisconnecting _ | .shutdownDirect => .disconnecting
  | _ => v.state

/-- Whether the connection is subscribed for reading after an action. -/
def readingAfter (v : Connection) : Action → Bool
  | .establish => true
  | .close | .destroy => false
  | _ => v.reading

/-- The state and the subscription change in a few steps only, and what has happened
is not forgotten. -/
structure Steps (v : Connection) (state : StateE) (reading : Bool) (v' : Connection) : Prop where
  state : v'.state = state
  reading : v'.reading = reading
  owner : v'.owner = v.owner
  alive : v'.alive = true → v.alive = true
  log : v.log <+: v'.log

theorem Steps.streamed {state : StateE} {reading : Bool} {w : Connection}
    (h : Steps v state reading w) (hs : Streamed w v') : Steps v state reading v' where
  state := hs.state.trans h.state
  reading := hs.reading.trans h.reading
  owner := hs.owner.trans h.owner
  alive halive := h.alive (hs.alive ▸ halive)
  log := by
    obtain ⟨es, hes, -⟩ := hs.log
    exact h.log.trans ⟨es, hes.symm⟩

/-- The state and the interest after a step are those of `stateAfter` and `readingAfter`. -/
theorem steps_step (hstep : step v a = some v') :
    Steps v (v.stateAfter a) (v.readingAfter a) v' := by
  obtain ⟨hg, rfl⟩ := guarded_eq_some_iff.mp hstep
  have same : Steps v v.state v.reading v := ⟨rfl, rfl, rfl, id, List.prefix_rfl⟩
  cases a with
  | establish | close | remove => exact ⟨rfl, rfl, rfl, id, List.prefix_append _ _⟩
  | destroy =>
    exact ⟨rfl, rfl, rfl, id, (List.prefix_append _ _).trans (List.prefix_append _ _)⟩
  | evict | callShutdown who | setDisconnecting who | pushShutdown who =>
    exact ⟨rfl, rfl, rfl, id, List.prefix_rfl⟩
  | die =>
    exact ⟨rfl, rfl, rfl, fun halive => absurd halive (by simp [effect]), List.prefix_rfl⟩
  | callSend who message => exact ⟨rfl, rfl, rfl, id, List.prefix_append _ _⟩
  | pushSend who =>
    simp only [effect]
    split
    · exact ⟨rfl, rfl, rfl, id, List.prefix_rfl⟩
    · exact same
  | runSend wr =>
    simp only [effect]
    split
    · have hpop : Steps v v.state v.reading v.popTask := ⟨rfl, rfl, rfl, id, List.prefix_rfl⟩
      exact hpop.streamed Streamed.sendInLoop
    · exact same
  | sendDirect who message wr => exact same.streamed (Streamed.sent.trans Streamed.sendInLoop)
  | runShutdown =>
    have hpop : Steps v v.state v.reading v.popTask := ⟨rfl, rfl, rfl, id, List.prefix_rfl⟩
    exact hpop.streamed Streamed.shutdownInLoop
  | shutdownDirect =>
    have hset : Steps v .disconnecting v.reading { v with state := .disconnecting } :=
      ⟨rfl, rfl, rfl, id, List.prefix_rfl⟩
    exact hset.streamed Streamed.shutdownInLoop
  | handleWrite wr => exact same.streamed Streamed.handleWrite

/-! ### Teardown -/

/-- At rest every close has led to one removal and one `ConnDestroyed`. -/
theorem Tokens.counts_eq (h : Tokens v) (hrest : AtRest v) :
    v.log.count .up = 1 ∧ v.log.count .closed = v.log.count .removed ∧
      v.log.count .removed = v.log.count .destroyed ∧
      v.log.count .destroyed = v.log.count .down := by
  have hup := h.established
  have hclosed := h.closed
  have hremoved := h.removed
  rw [hrest.tasks, List.count_nil, Nat.add_zero] at hup hremoved
  rw [hrest.removals, Nat.add_zero] at hclosed
  exact ⟨hup, hclosed, hremoved, h.down.symm⟩

/-- Established and not closed, so subscribed for reading. -/
def Subscribed (v : Connection) : Prop :=
  v.log.count .up ≠ 0 → v.log.count .closed = 0 → v.reading = true

theorem subscribed_init (owner : Caller) : Subscribed (init owner) :=
  fun hup => absurd rfl hup

/-- The step lemma of `Subscribed`. -/
theorem subscribed_step (htokens : Tokens v) (h : Subscribed v) (hstep : step v a = some v') :
    Subscribed v' := by
  intro hup h0
  rw [count_step hstep (by simp)] at hup h0
  rw [(steps_step hstep).reading]
  cases a with
  | establish => rfl
  | close => exact absurd h0 (by simp [lifeEvents])
  | destroy =>
    obtain ⟨hg, -⟩ := guarded_eq_some_iff.mp hstep
    simp only [guard, Bool.and_eq_true, decide_eq_true_eq, List.head?_eq_some_iff] at hg
    obtain ⟨⟨ts, hts⟩, -⟩ := hg
    have hclosed := htokens.closed
    have hremoved := htokens.removed
    rw [hts, List.count_cons_self] at hremoved
    omega
  | _ => exact h hup h0

/-- At rest and closed at most once, a connection is open altogether, or torn down altogether. -/
theorem Once.settled (h : Once v) (hsubscribed : Subscribed v) (hrest : AtRest v) :
    (v.log.count .closed = 0 ∧ v.isUp = true ∧ v.reading = true ∧ v.inMap = true ∧
      v.alive = true) ∨
    (v.log.count .closed = 1 ∧ v.log.count .removed = 1 ∧ v.log.count .destroyed = 1 ∧
      v.log.count .down = 1 ∧ v.reading = false ∧ v.inMap = false) := by
  obtain ⟨hup, hclosed, hremoved, hdown⟩ := h.tokens.counts_eq hrest
  rcases Nat.le_one_iff_eq_zero_or_eq_one.mp h.closed_le with h0 | h1
  · have hreading := hsubscribed (by omega) h0
    obtain ⟨hisUp, hmap, halive⟩ := h.of_reading hreading
    exact Or.inl ⟨h0, hisUp, hreading, hmap, halive⟩
  · have hreading : v.reading = false := by
      by_contra hread
      have := (h.tokens.reading (by simpa using hread)).2
      omega
    have hmap : v.inMap = false := by
      by_contra hm
      have := h.mapped.inMap.mp (by simpa using hm)
      omega
    exact Or.inr ⟨h1, by omega, by omega, by omega, hreading, hmap⟩

/-! ### The order of the states -/

/-- `k_connected` comes after `k_connecting`, and the other two after both. -/
def rank : StateE → ℕ
  | .connecting => 0
  | .connected => 1
  | .disconnecting | .disconnected => 2

theorem rank_eq_zero_iff {state : StateE} : rank state = 0 ↔ state = .connecting := by
  cases state with
  | connecting | connected | disconnecting | disconnected => simp [rank]

/-- `v'` may come after `v` in the life of one connection. -/
structure Later (v v' : Connection) : Prop where
  rank : rank v.state ≤ rank v'.state
  owner : v'.owner = v.owner
  alive : v'.alive = true → v.alive = true
  log : v.log <+: v'.log

theorem Later.rfl : Later v v := ⟨Nat.le_refl _, .refl _, id, List.prefix_rfl⟩

theorem Later.trans {w : Connection} (h : Later v v') (h' : Later v' w) : Later v w where
  rank := Nat.le_trans h.rank h'.rank
  owner := h'.owner.trans h.owner
  alive halive := h.alive (h'.alive halive)
  log := h.log.trans h'.log

/-- No step takes the state back. -/
theorem rank_le_stateAfter (hg : guard v a = true) : rank v.state ≤ rank (v.stateAfter a) := by
  cases a with
  | establish =>
    simp only [guard, Bool.and_eq_true, decide_eq_true_eq] at hg
    simp [stateAfter, hg.2, rank]
  | destroy | setDisconnecting who | shutdownDirect =>
    cases hs : v.state <;> simp [stateAfter, rank]
  | _ => exact Nat.le_refl _

/-- After a step it is later. -/
theorem later_step (hstep : step v a = some v') : Later v v' := by
  obtain ⟨hg, -⟩ := guarded_eq_some_iff.mp hstep
  have hsteps := steps_step hstep
  exact ⟨hsteps.state ▸ rank_le_stateAfter hg, hsteps.owner, hsteps.alive, hsteps.log⟩

theorem isUp_iff : v.isUp = true ↔ v.state = .connected ∨ v.state = .disconnecting := by
  simp [isUp]

/-- Only `ConnDestroyed` takes an established connection out of `isUp`. -/
theorem isUp_step (hup : v.isUp = true) (ha : a ≠ .destroy) (hstep : step v a = some v') :
    v'.isUp = true := by
  rw [isUp_iff] at hup ⊢
  rw [(steps_step hstep).state]
  cases a with
  | establish => exact Or.inl rfl
  | destroy => exact absurd rfl ha
  | setDisconnecting who | shutdownDirect => exact Or.inr rfl
  | _ => exact hup

/-- Only `ConnDestroyed` takes a connection down. -/
theorem isUp_run {as : List Action} (hup : v.isUp = true) (has : .destroy ∉ as)
    (hrun : run step v as = some v') : v'.isUp = true := by
  induction as generalizing v with
  | nil =>
    obtain rfl := Option.some_inj.mp hrun
    exact hup
  | cons a as ih =>
    obtain ⟨u, hu, hrun⟩ := Option.bind_eq_some_iff.mp hrun
    rw [List.mem_cons, not_or] at has
    exact ih (isUp_step hup (fun h => has.1 h.symm) hu) has.2 hrun

/-- After a run it is later. -/
theorem later_run {as : List Action} (hrun : run step v as = some v') : Later v v' := by
  induction as generalizing v with
  | nil =>
    obtain rfl := Option.some_inj.mp hrun
    exact Later.rfl
  | cons a as ih =>
    obtain ⟨u, hu, hrun⟩ := Option.bind_eq_some_iff.mp hrun
    exact (later_step hu).trans (ih hrun)

end Connection
end Bbkgl
