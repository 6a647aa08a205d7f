import Mathlib.Data.Int.CardIntervalMod
import Bbkgl.Net.TcpServerMoves
import Bbkgl.Net.TcpServerStream

/-!
# The loops of the thread pool

`GetNextLoop` deals the connections out in turn. So whatever else the server does in
between, the loops of the pool have been given equally many connections, up to one,
and the base loop has been given none, unless there is no pool.
-/

set_option autoImplicit false

namespace Bbkgl
namespace TcpServer

open CS.Transition

/-- The `c`-th connection is on the loop whose turn it was, and `next_` has gone round
as often as connections were made. -/
structure Dealt (cfg : Config) (s : State) : Prop where
  next : 0 < cfg.numThreads → s.next = s.nextObj % cfg.numThreads
  own : ∀ c < s.nextObj, own s c = if cfg.numThreads = 0 then 0 else c % cfg.numThreads + 1

/-- How many connections the loop has been given. -/
def load (s : State) (i : LoopId) : ℕ := s.nextObj.count fun c => own s c = i

variable {cfg : Config} {s m t : State} {i j : LoopId} {c : ConnId} {a : Action}
  {as : List Action}

theorem Dealt.congr (h : Dealt cfg s) (hnext : t.next = s.next) (hnextObj : t.nextObj = s.nextObj)
    (hown : ∀ c, TcpServer.own t c = TcpServer.own s c) : Dealt cfg t where
  next := by
    rw [hnext, hnextObj]
    exact h.next
  own := by
    intro c hc
    rw [hown]
    exact h.own c (hnextObj ▸ hc)

/-- `next_` after `GetNextLoop`. -/
theorem getNextLoop_eq (hpool : 0 < cfg.numThreads)
    (hnext : s.next = s.nextObj % cfg.numThreads) :
    getNextLoop cfg s = (s.nextObj % cfg.numThreads + 1, (s.nextObj + 1) % cfg.numThreads) := by
  have hlt : s.nextObj % cfg.numThreads < cfg.numThreads := Nat.mod_lt _ hpool
  rw [getNextLoop, if_neg (Nat.pos_iff_ne_zero.mp hpool), hnext, ← Nat.mod_add_mod s.nextObj]
  congr 1
  split
  · next hlast =>
    have hround : s.nextObj % cfg.numThreads + 1 = cfg.numThreads := Nat.le_antisymm hlt hlast
    rw [hround, Nat.mod_self]
  · next hmore => exact (Nat.mod_eq_of_lt (Nat.lt_of_not_le hmore)).symm

theorem Dealt.withNewObject (h : Dealt cfg s) {fd : ℕ} : Dealt cfg (withNewObject cfg s fd) := by
  have hown : ∀ c, TcpServer.own (TcpServer.withNewObject cfg s fd) c =
      if c = s.nextObj then (getNextLoop cfg s).1 else TcpServer.own s c := by
    intro c
    rw [TcpServer.own, TcpServer.own]
    by_cases hc : c = s.nextObj
    · simp [TcpServer.withNewObject, TcpConnection.new, hc]
    · simp [TcpServer.withNewObject, hc]
  refine ⟨fun hpool => ?_, fun c hc => ?_⟩
  · exact congrArg Prod.snd (getNextLoop_eq hpool (h.next hpool))
  · rw [hown]
    rcases Nat.lt_succ_iff_lt_or_eq.mp hc with hlt | rfl
    · rw [if_neg (Nat.ne_of_lt hlt)]
      exact h.own c hlt
    · rw [if_pos rfl]
      split
      · next hzero => rw [getNextLoop, if_pos hzero]
      · next hpool =>
        have hpool : 0 < cfg.numThreads := Nat.pos_iff_ne_zero.mpr hpool
        rw [getNextLoop_eq hpool (h.next hpool)]

theorem Dealt.begins (h : Dealt cfg s) (hbegins : Begins cfg s a m) : Dealt cfg m := by
  have hsetConn : ∀ {s : State} {g : TcpConnection → TcpConnection} {d : ConnId}, Dealt cfg s →
      (g (s.conns d)).loop = (s.conns d).loop → Dealt cfg (setConn s d g) := by
    intro s g d h hloop
    refine h.congr rfl rfl fun c => ?_
    rw [TcpServer.own, conns_setConn]
    split
    · next hc => rw [hc, hloop]
    · rfl
  cases hbegins with
  | handleRead i readv input n hread =>
    have hwalk : Keeps s (nextCallback s i) := moves_nextCallback.keeps
    exact hsetConn (h.congr hwalk.next hwalk.nextObj fun c => (hwalk.conn c).loop) rfl
  | inputBuffer i u d input hd hexec => exact hsetConn h rfl
  | newConnection fd => exact h.withNewObject
  | destroy d =>
    have hdead : Dealt cfg (setConn s d fun conn => { conn with alive := false }) :=
      hsetConn h rfl
    exact hdead.congr rfl rfl fun _ => rfl
  | plain => exact h

theorem dealt_of_reach {ok : State → Action → Prop}
    (hrun : Reach (step cfg) ok State.init as s) : Dealt cfg s := by
  refine moves_invariant hrun ⟨fun _ => (Nat.zero_mod _).symm, fun _ hc => absurd hc (by
    simp [State.init])⟩ ?_ ?_ ?_
  · exact fun h => h.congr rfl rfl fun _ => rfl
  · exact fun _ _ h hbegins => h.begins hbegins
  · intro s t h hmove
    have hkeeps := hmove.keeps
    exact h.congr hkeeps.next hkeeps.nextObj fun c => (hkeeps.conn c).loop

/-- Each loop has its share of the connections, and the first ones have one more. -/
theorem load_eq (h : Dealt cfg s) (hi : i < cfg.numThreads) :
    load s (i + 1) =
      s.nextObj / cfg.numThreads + if i < s.nextObj % cfg.numThreads then 1 else 0 := by
  have hpool : 0 < cfg.numThreads := Nat.zero_lt_of_lt hi
  have hturn : load s (i + 1) = s.nextObj.count (· ≡ i [MOD cfg.numThreads]) := by
    rw [load, Nat.count_eq_card_filter_range, Nat.count_eq_card_filter_range]
    congr 1
    apply Finset.filter_congr
    intro c hc
    rw [h.own c (Finset.mem_range.mp hc), if_neg (Nat.pos_iff_ne_zero.mp hpool), Nat.ModEq,
      Nat.mod_eq_of_lt hi]
    exact Nat.succ_inj
  rw [hturn, Nat.count_modEq_card _ hpool, Nat.mod_eq_of_lt hi]

/-- No loop of the pool has been given more connections than another, but perhaps one,
and with a pool the base loop has been given none. -/
theorem round_robin (hrun : Reach (step cfg) Always State.init as s) :
    (∀ i j, i ∈ cfg.loops → j ∈ cfg.loops → i ≠ 0 → j ≠ 0 → load s i ≤ load s j + 1) ∧
      (0 < cfg.numThreads → load s 0 = 0) := by
  have hdealt := dealt_of_reach hrun
  refine ⟨fun i j hi hj hi0 hj0 => ?_, fun hpool => ?_⟩
  · obtain ⟨i, rfl⟩ := Nat.exists_eq_succ_of_ne_zero hi0
    obtain ⟨j, rfl⟩ := Nat.exists_eq_succ_of_ne_zero hj0
    simp only [Config.loops, List.mem_range, Nat.succ_lt_succ_iff] at hi hj
    rw [load_eq hdealt hi, load_eq hdealt hj]
    split <;> split <;> omega
  · rw [load, Nat.count_eq_card_filter_range, Finset.card_eq_zero, Finset.filter_eq_empty_iff]
    intro c hc
    rw [hdealt.own c (Finset.mem_range.mp hc), if_neg (Nat.pos_iff_ne_zero.mp hpool)]
    exact Nat.succ_ne_zero _

/-- Two loops in the pool, three connections. -/
theorem round_robin_three : ∃ s,
    run (step ⟨"s", 2, 0, false⟩) State.init
      [.poll 0 [], .newConnection 7, .newConnection 8, .newConnection 9] = some s ∧
      load s 1 ≤ load s 2 + 1 ∧ load s 0 = 0 := by
  have hend : (run (step ⟨"s", 2, 0, false⟩) State.init
      [.poll 0 [], .newConnection 7, .newConnection 8, .newConnection 9]).isSome = true := by
    decide +kernel
  obtain ⟨s, hs⟩ := Option.isSome_iff_exists.mp hend
  obtain ⟨hbalanced, hbase⟩ := round_robin (reach_of_run hs)
  exact ⟨s, hs, hbalanced 1 2 (by decide) (by decide) (by decide) (by decide), hbase (by decide)⟩

end TcpServer
end Bbkgl
