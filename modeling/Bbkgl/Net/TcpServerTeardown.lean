import Bbkgl.Net.TcpServerFaults
import Bbkgl.Net.TcpServerStream

/-!
# The end of a connection

`HandleClose` does not change `state_`, so a second `HandleClose` passes its
assertion and queues a second removal. It comes from a channel that a queued
`SendInLoop` has subscribed again, from two callbacks of one event, or from a
timer of `Close`. In runs without one, and without two connections of one name,
the end of a connection comes once: `torn_down_once` for the removal itself and
`close_safe` for the timers.
-/

set_option autoImplicit false

namespace Bbkgl
namespace TcpServer

open CS.Fallible CS.Transition TcpConnection Connection

/-- `HandleClose` is entered only while the channel is subscribed for reading. -/
def closesWhileReading (s : State) (a : Action) : Bool :=
  (closes s a).all fun d => (s.conns d).channel.isReading

/-- The name for a new connection is not in `connections_`. -/
def nameFree (cfg : Config) (s : State) : Action → Bool
  | .newConnection _ => (s.connections (connName cfg (s.nextConnId + 1))).isNone
  | _ => true

/-- The condition on a step: it closes only a connection that reads, and takes no name that is in
use. -/
def closesOnce (cfg : Config) (s : State) (a : Action) : Bool :=
  closesWhileReading s a && nameFree cfg s a

variable {cfg : Config} {s t : State} {c d : ConnId} {a : Action} {as : List Action}

/-- The entry of a connection of the same name is this connection's own. -/
theorem not_evicted (hd : (view s d).inMap = true) (hne : c ≠ d)
    (hname : (s.conns c).name = (s.conns d).name) : (view s c).inMap = false := by
  have hd : s.connections (s.conns d).name = some d := of_decide_eq_true hd
  have hc : s.connections (s.conns c).name ≠ some c := by
    rw [hname, hd]
    exact fun h => hne (Option.some_inj.mp h).symm
  exact decide_eq_false hc

theorem admits_removal {v : Connection} (hd : c ≠ d → (view s d).inMap = true) :
    Admits Connection.step ClosesOnce v (removal s c d) := by
  rw [removal]
  split
  · exact ⟨⟨trivial, by simp⟩, fun _ _ => trivial⟩
  · next hne =>
    rw [if_neg fun h => by simp [not_evicted (hd hne) hne h.1] at h]
    trivial

theorem admits_closing (hinv : ∀ c, c < s.nextObj → Once (view s c)) (hd : d < s.nextObj)
    (hreading : (s.conns d).channel.isReading = true) :
    Admits Connection.step ClosesOnce (view s c) (closing s c d) := by
  obtain ⟨-, hmap, -⟩ := (hinv d hd).of_reading hreading
  have hrest : ∀ v, Admits Connection.step ClosesOnce v
      (if own s d = 0 then removal s c d else []) := by
    intro v
    split
    · exact admits_removal fun _ => hmap
    · trivial
  rw [closing]
  split
  · next hc => exact ⟨⟨hc ▸ hreading, by simp⟩, fun v' _ => hrest v'⟩
  · exact hrest _

/-- A condition on closes, removals and evictions. The other labels of a step come one at
a time, and it admits them all. -/
theorem admits_of_endings {p : Connection → Connection.Action → Prop}
    (hother : ∀ v b, b ≠ .close → b ≠ .remove → b ≠ .evict → p v b)
    (hclosing : ∀ d, closes s a = some d → Admits Connection.step p (view s c) (closing s c d))
    (hremoval : ∀ d, runs s a = some (.removeConnectionInLoop d) →
      Admits Connection.step p (view s c) (removal s c d))
    (hfree : nameFree cfg s a = true) :
    Admits Connection.step p (view s c) (labels cfg s c a) := by
  have hone : ∀ b : Connection.Action, b ≠ .close → b ≠ .remove → b ≠ .evict →
      Admits Connection.step p (view s c) [b] :=
    fun b hclose hremove hevict => ⟨hother _ b hclose hremove hevict, fun _ _ => trivial⟩
  cases a with
  | handleClose i => exact hclosing _ rfl
  | closeTimer d => exact hclosing d rfl
  | handleRead i readv =>
    rw [labels]
    split
    · next heof => exact hclosing _ (if_pos heof)
    · trivial
  | newConnection fd =>
    rw [labels, if_neg]
    · trivial
    · rintro ⟨hname, hmap⟩
      have hmap : s.connections (s.conns c).name = some c := of_decide_eq_true hmap
      rw [nameFree, ← hname, hmap] at hfree
      exact absurd hfree (by simp)
  | runFunctor i wr =>
    rw [labels]
    split
    · trivial
    · next f fs hrest =>
      cases f with
      | removeConnectionInLoop d =>
        apply hremoval
        rw [runs, hrest]
        rfl
      | connEstablished d | connDestroyed d | sendInLoop d who message | shutdownInLoop d =>
        rw [functorLabels]
        split
        · exact hone _ (by simp) (by simp) (by simp)
        · trivial
      | writeComplete d | addTimerInLoop d | user => trivial
  | handleWrite i wr | destroy d =>
    rw [labels]
    split
    · exact hone _ (by simp) (by simp) (by simp)
    · trivial
  | send who d message wr | shutdown who d =>
    rw [labels]
    split
    · split
      · exact hone _ (by simp) (by simp) (by simp)
      · exact hone _ (by simp) (by simp) (by simp)
    · trivial
  | proceed who =>
    rw [labels]
    split
    · trivial
    · next call hcall =>
      cases call with
      | send d message | shutdownChecked d | shutdownSet d =>
        rw [callLabels]
        split
        · exact hone _ (by simp) (by simp) (by simp)
        · trivial
  | _ => trivial

/-- The head of a batch is one of the functors still to be executed. -/
theorem mem_todo_of_runs {f : Functor} (hruns : runs s a = some f) : ∃ i, f ∈ todo s i := by
  cases a with
  | runFunctor i wr =>
    obtain ⟨fs, hrest⟩ := List.head?_eq_some_iff.mp hruns
    exact ⟨i, mem_todo_of_rest hrest⟩
  | _ => exact absurd hruns (by simp [runs])

/-- A removal that is executed finds the entry, if `HandleClose` has run once. -/
theorem inMap_of_runs (hplaced : Placed cfg s) (hinv : ∀ c, c < s.nextObj → Once (view s c))
    (hruns : runs s a = some (.removeConnectionInLoop d)) : (view s d).inMap = true := by
  obtain ⟨i, hmem⟩ := mem_todo_of_runs hruns
  obtain ⟨hd, rfl⟩ := hplaced.functors i _ hmem
  have honce := hinv d hd
  exact inMap_of_removals honce.tokens honce.mapped honce.closed_le (List.count_pos_iff.mpr hmem)

/-- A step that closes once closes each connection once. -/
theorem admits_closesOnce (hplaced : Placed cfg s) (hinv : ∀ c, c < s.nextObj → Once (view s c))
    (hok : closesOnce cfg s a = true) :
    Admits Connection.step ClosesOnce (view s c) (labels cfg s c a) := by
  simp only [closesOnce, Bool.and_eq_true, closesWhileReading, Option.all_eq_true] at hok
  obtain ⟨hreading, hfree⟩ := hok
  apply admits_of_endings _ _ _ hfree
  · intro v b hclose _ hevict
    refine ⟨?_, hevict⟩
    cases b with
    | close => exact absurd rfl hclose
    | _ => trivial
  · intro d hd
    exact admits_closing hinv (hplaced.lt_nextObj_of_reading (hreading d hd)) (hreading d hd)
  · intro d hruns
    exact admits_removal fun _ => inMap_of_runs hplaced hinv hruns

/-- In such a run every connection is torn down once at most. -/
theorem once_of_reach
    (hrun : Reach (step cfg) (fun s a => closesOnce cfg s a = true) State.init as s) :
    ∀ c, c < s.nextObj → Once (view s c) := by
  refine views_invariant (p := ClosesOnce) hrun ?_ ?_ ?_ ?_
  · exact once_init
  · intro owner
    exact ⟨trivial, by simp⟩
  · intro v b v' h hb hstep
    exact once_step h hb hstep
  · intro s a t hplaced hinv hok _ c _
    exact admits_closesOnce hplaced hinv hok

/-- The faults that a `HandleClose` or a removal too many would run into. -/
theorem not_cause (hplaced : Placed cfg s) (hinv : ∀ c, c < s.nextObj → Once (view s c))
    (hok : closesOnce cfg s a = true) {e : Fault} (hcause : Cause s a e) :
    e ≠ .assertion .removeConnection ∧ e ≠ .assertion .connDestroyed ∧
      e ≠ .assertion .handleClose ∧ e ≠ .useAfterFree .closeTimer := by
  simp only [closesOnce, Bool.and_eq_true, closesWhileReading, Option.all_eq_true] at hok
  have hfirst : ∀ d, closes s a = some d →
      (view s d).isUp = true ∧ (view s d).inMap = true ∧ (view s d).alive = true := by
    intro d hd
    have hreading := hok.1 d hd
    exact (hinv d (hplaced.lt_nextObj_of_reading hreading)).of_reading hreading
  have hentry : ∀ d, (view s d).inMap = true → s.connections (s.conns d).name ≠ none := by
    intro d hmap hnone
    have hmap : s.connections (s.conns d).name = some d := of_decide_eq_true hmap
    exact absurd (hmap.symm.trans hnone) (by simp)
  cases hcause with
  | low hlow hclash =>
    refine ⟨?_, ?_, ?_, ?_⟩ <;>
      · rintro rfl
        exact absurd hlow (by simp [Fault.isLow])
  | newConnection | handleEvent | functor | connEstablished | channelDestroyed => simp
  | @closeTimer d hd hdead => exact absurd (hfirst d hd).2.2 (by simp [view, hdead])
  | @handleClose d hd hup =>
    have hup : (view s d).isUp = false := hup
    exact absurd (hfirst d hd).1 (by simp [hup])
  | @closed d hd hnone => exact absurd hnone (hentry d (hfirst d hd).2.1)
  | @removed d hruns hnone => exact absurd hnone (hentry d (inMap_of_runs hplaced hinv hruns))
  | @connDestroyed d hruns hup =>
    obtain ⟨i, hmem⟩ := mem_todo_of_runs hruns
    obtain ⟨hd, rfl⟩ := hplaced.functors i _ hmem
    have hup : (view s d).isUp = false := hup
    have hqueued : .destroy ∈ (view s d).tasks :=
      List.mem_filterMap.mpr ⟨_, hmem, if_pos rfl⟩
    exact absurd ((hinv d hd).isUp_of_destroy hqueued) (by simp [hup])

/-- In such a run no assertion about the teardown fails. -/
theorem fault_ne (hrun : Reach (step cfg) (fun s a => closesOnce cfg s a = true) State.init as s)
    {e : Fault} (hfault : s.fault = some e) :
    e ≠ .assertion .removeConnection ∧ e ≠ .assertion .connDestroyed ∧
      e ≠ .assertion .handleClose ∧ e ≠ .useAfterFree .closeTimer := by
  obtain ⟨bs, s', b, hprefix, hok, -, hcause⟩ := cause_of_reach hrun hfault
  exact not_cause (placed_of_reach hprefix) (once_of_reach hprefix) hok hcause

/-- Every connection is removed, destroyed, and reported up and down at most
once, and neither `assert(n == 1)` nor the assertion of `ConnDestroyed` fails. -/
theorem torn_down_once
    (hrun : Reach (step cfg) (fun s a => closesOnce cfg s a = true) State.init as s) :
    s.fault ≠ some (.assertion .removeConnection) ∧ s.fault ≠ some (.assertion .connDestroyed) ∧
      ∀ c, c < s.nextObj →
        (s.conns c).log.count .removed ≤ 1 ∧ (s.conns c).log.count .destroyed ≤ 1 ∧
        (s.conns c).log.count .up ≤ 1 ∧ (s.conns c).log.count .down ≤ 1 := by
  refine ⟨fun hfault => (fault_ne hrun hfault).1 rfl, fun hfault => (fault_ne hrun hfault).2.1 rfl,
    fun c hc => ?_⟩
  exact (once_of_reach hrun c hc).counts_le

/-- A timer of `Close` finds its connection alive and up, and the connection is
closed and removed at most once. -/
theorem close_safe
    (hrun : Reach (step cfg) (fun s a => closesOnce cfg s a = true) State.init as s) :
    s.fault ≠ some (.useAfterFree .closeTimer) ∧ s.fault ≠ some (.assertion .handleClose) ∧
      s.fault ≠ some (.assertion .removeConnection) ∧
      ∀ c, c < s.nextObj →
        (s.conns c).log.count .closed ≤ 1 ∧ (s.conns c).log.count .removed ≤ 1 := by
  refine ⟨fun hfault => (fault_ne hrun hfault).2.2.2 rfl,
    fun hfault => (fault_ne hrun hfault).2.2.1 rfl, fun hfault => (fault_ne hrun hfault).1 rfl,
    fun c hc => ?_⟩
  have honce := once_of_reach hrun c hc
  exact ⟨honce.closed_le, honce.counts_le.1⟩

/-! ### Runs -/

/-- The removal and destruction of connection 0, whose loop 1 has nothing else to do. -/
def removedAndDestroyed : List Action :=
  [.doPendingFunctors 0, .runFunctor 0 none, .finishFunctors 0, .doPendingFunctors 1,
    .runFunctor 1 none, .userReturn 1, .finishFunctors 1]

/-- The peer closes. -/
def closedByPeer : List Action :=
  established ++ [.poll 1 [(0, pollIn)], .handleEvent 1, .handleRead 1 (some []), .endEvent 1] ++
    removedAndDestroyed

/-- The peer closes. -/
theorem torn_down_once_closedByPeer :
    ∃ s, run (step oneThread) State.init closedByPeer = some s ∧
      (s.conns 0).log = [.up, .closed, .removed, .destroyed, .down] ∧
      s.fault ≠ some (.assertion .removeConnection) ∧ (s.conns 0).log.count .removed ≤ 1 := by
  have hend : (runIf (step oneThread) (fun s a => closesOnce oneThread s a = true) State.init
      closedByPeer).map (fun s => (s.nextObj, (s.conns 0).log)) =
        some (1, [.up, .closed, .removed, .destroyed, .down]) := by decide +kernel
  obtain ⟨s, hs, heq⟩ := Option.map_eq_some_iff.mp hend
  obtain ⟨hnext, hlog⟩ := Prod.mk.inj heq
  have hrun := reach_of_runIf hs
  obtain ⟨hremove, -, hcounts⟩ := torn_down_once hrun
  exact ⟨s, hrun.run_eq, hlog, hremove, (hcounts 0 (by rw [hnext]; exact Nat.one_pos)).1⟩

/-- The peer has closed, and a `SendInLoop` subscribes the channel again. -/
def sentAfterClose : List Action :=
  established ++ [.poll 1 [(0, pollIn)], .handleEvent 1, .handleRead 1 (some []), .endEvent 1,
    .send (.user 0) 0 [1, 2] none, .proceed (.user 0), .doPendingFunctors 1, .runFunctor 1 (some 1),
    .finishFunctors 1, .poll 1 [(0, pollHup)], .handleEvent 1, .handleClose 1, .endEvent 1,
    .doPendingFunctors 0, .runFunctor 0 none, .runFunctor 0 none]

/-- `HandleClose` runs twice, and so does `RemoveConnectionInLoop`, which erases nothing. -/
theorem erase_fails_of_sentAfterClose :
    (run (step oneThread) State.init sentAfterClose).map
      (fun s => (s.fault, (s.conns 0).log.count .closed)) =
        some (some (.assertion .removeConnection), 2) := by
  decide +kernel

/-- A timer of `Close` is what closes the connection. -/
def closedByTimer : List Action :=
  established ++ [.close (.user 0) 0, .poll 1 [], .doPendingFunctors 1, .runFunctor 1 none,
    .finishFunctors 1, .poll 1 [], .closeTimer 0] ++ removedAndDestroyed

/-- The timer of `Close` closes. -/
theorem close_safe_closedByTimer :
    ∃ s, run (step oneThread) State.init closedByTimer = some s ∧
      (s.conns 0).log = [.up, .closed, .removed, .destroyed, .down] ∧
      s.fault ≠ some (.useAfterFree .closeTimer) ∧ (s.conns 0).log.count .closed ≤ 1 := by
  have hend : (runIf (step oneThread) (fun s a => closesOnce oneThread s a = true) State.init
      closedByTimer).map (fun s => (s.nextObj, (s.conns 0).log)) =
        some (1, [.up, .closed, .removed, .destroyed, .down]) := by decide +kernel
  obtain ⟨s, hs, heq⟩ := Option.map_eq_some_iff.mp hend
  obtain ⟨hnext, hlog⟩ := Prod.mk.inj heq
  have hrun := reach_of_runIf hs
  obtain ⟨hfree, -, -, hcounts⟩ := close_safe hrun
  exact ⟨s, hrun.run_eq, hlog, hfree, (hcounts 0 (by rw [hnext]; exact Nat.one_pos)).1⟩

/-- `Close`, then the peer closes, and the object is gone when the timer expires. -/
def closedBeforeTimer : List Action :=
  established ++ [.close (.user 0) 0, .drop 0, .poll 1 [(0, pollIn)], .handleEvent 1,
    .handleRead 1 (some []), .endEvent 1, .doPendingFunctors 1, .runFunctor 1 none,
    .finishFunctors 1, .poll 1 []] ++ removedAndDestroyed ++
    [.destroy 0, .poll 1 [], .closeTimer 0]

/-- `HandleClose` of an object that no longer exists. -/
theorem dangling_of_closedBeforeTimer :
    (run (step oneThread) State.init closedBeforeTimer).map
      (fun s => (s.fault, (s.conns 0).log)) = some (some (.useAfterFree .closeTimer),
        [.up, .closed, .removed, .destroyed, .down]) := by
  decide +kernel

end TcpServer
end Bbkgl
