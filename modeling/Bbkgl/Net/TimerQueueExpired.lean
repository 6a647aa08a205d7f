import Bbkgl.Net.TimerQueue

/-!
# What GetExpired takes

The cut is made at the pair of `now` and the address of the first timer. Times
come first in the order of the entries, so all that is earlier than `now` is taken
and all that is later stays; of the entries at `now` itself, only those whose
address is below that of the first entry are taken.
-/

set_option autoImplicit false

namespace Bbkgl
namespace TimerQueue

open CS

variable {timers : OrderedSet Entry} {now : Timestamp} {e first : Entry} {p : Ptr}

/-- `it == timers_.end() || now < it->first`, where `it` is the first entry that stays. -/
def assertExpired (rest : OrderedSet Entry) (now : Timestamp) : Bool :=
  rest.first?.all fun e => now < e.when

/-- The expired entries, each once and in order, are taken from the others. -/
structure Exact (timers : OrderedSet Entry) (now : Timestamp) (expired : List Entry)
    (rest : OrderedSet Entry) : Prop where
  taken : ∀ e, e ∈ expired ↔ e ∈ timers ∧ e.when ≤ now
  nodup : expired.Nodup
  order : expired.Pairwise (·.when ≤ ·.when)
  stays : ∀ e, e ∈ rest ↔ e ∈ timers ∧ now < e.when
  assertion : assertExpired rest now = true

theorem entry_lt_mk : e < Entry.mk now p ↔ e.when < now ∨ e.when = now ∧ e.ptr < p := by
  rw [Prod.Lex.lt_iff]
  rfl

theorem when_le_of_lt {e' : Entry} (h : e < e') : e.when ≤ e'.when := by
  rcases Prod.Lex.lt_iff.mp h with hlt | ⟨heq, -⟩
  · exact le_of_lt hlt
  · exact le_of_eq heq

/-- The cut falls between what has expired and what has not. -/
def Splits (timers : OrderedSet Entry) (now : Timestamp) (first : Entry) : Prop :=
  ∀ e ∈ timers, e < Entry.mk now first.ptr ↔ e.when ≤ now

/-- The condition, timer by timer. -/
theorem splits_iff :
    Splits timers now first ↔ ∀ e ∈ timers, e.when = now → e.ptr < first.ptr := by
  constructor
  · intro h e he hnow
    rcases entry_lt_mk.mp ((h e he).mpr (le_of_eq hnow)) with hlt | ⟨-, hptr⟩
    · exact absurd hnow (ne_of_lt hlt)
    · exact hptr
  · intro h e he
    rw [entry_lt_mk, le_iff_lt_or_eq]
    -- an entry at `now` is below the cut by its address alone
    exact or_congr_right ⟨And.left, fun hnow => ⟨hnow, h e he hnow⟩⟩

/-- Under the condition the split is exact. -/
theorem exact_of_splits (h : Splits timers now first) :
    Exact timers now (timers.below (Entry.mk now first.ptr))
      (timers.eraseBelow (Entry.mk now first.ptr)) := by
  have hrest : ∀ e, e ∈ timers.eraseBelow (Entry.mk now first.ptr) ↔ e ∈ timers ∧ now < e.when := by
    intro e
    rw [OrderedSet.mem_eraseBelow, and_congr_right_iff]
    intro he
    rw [← not_lt, h e he, not_le]
  refine ⟨fun e => ?_, ?_, ?_, hrest, ?_⟩
  · rw [OrderedSet.mem_below, and_congr_right_iff]
    exact h e
  · exact OrderedSet.pairwise_below.imp fun hlt => ne_of_lt hlt
  · exact OrderedSet.pairwise_below.imp when_le_of_lt
  · rw [assertExpired, Option.all_eq_true]
    intro e he
    exact decide_eq_true ((hrest e).mp (OrderedSet.first?_mem he)).2

/-- **GetExpired is exact** if no entry expires at `now` itself, but for addresses
below that of the first entry. -/
theorem getExpired_exact_iff (hfirst : timers.first? = some first) :
    (∃ expired rest, getExpired timers now = some (expired, rest) ∧
      Exact timers now expired rest) ↔
    ∀ e ∈ timers, e.when = now → e.ptr < first.ptr := by
  have hcut : getExpired timers now = some (timers.below (Entry.mk now first.ptr),
      timers.eraseBelow (Entry.mk now first.ptr)) := by
    rw [getExpired, hfirst, Option.map_some]
  rw [hcut, ← splits_iff]
  constructor
  · rintro ⟨expired, rest, heq, hexact⟩ e he
    obtain ⟨rfl, rfl⟩ := Prod.mk.inj (Option.some_inj.mp heq)
    have hmem := hexact.taken e
    rw [OrderedSet.mem_below, and_congr_right_iff] at hmem
    exact hmem he
  · exact fun hsplits => ⟨_, _, rfl, exact_of_splits hsplits⟩

/-- One timer before `now`, and one at `now` with a lower address. -/
def lowAddress : OrderedSet Entry :=
  (OrderedSet.empty.insert (Entry.mk 900 7)).insert (Entry.mk 1000 3)

/-- A timer that is due now, at a lower address than the first. -/
theorem getExpired_exact_lowAddress :
    ∃ expired rest, getExpired lowAddress 1000 = some (expired, rest) ∧
      Exact lowAddress 1000 expired rest := by
  have hfirst : lowAddress.first? = some (Entry.mk 900 7) := by decide
  refine (getExpired_exact_iff hfirst).mpr fun e he hnow => ?_
  rcases OrderedSet.mem_insert.mp he with rfl | he
  · decide
  · rcases OrderedSet.mem_insert.mp he with rfl | he
    · exact absurd hnow (by decide)
    · exact absurd he OrderedSet.notMem_empty

/-- The only timer expires at `now`: it is not taken, and the assertion fails. -/
theorem getExpired_not_exact_atNow :
    ¬ ∃ expired rest, getExpired (OrderedSet.empty.insert (Entry.mk 1000 1)) 1000 =
      some (expired, rest) ∧
        Exact (OrderedSet.empty.insert (Entry.mk 1000 1)) 1000 expired rest := by
  rintro ⟨expired, rest, heq, hexact⟩
  obtain ⟨-, rfl⟩ := Prod.mk.inj (Option.some_inj.mp heq)
  exact absurd hexact.assertion (by decide)

end TimerQueue
end Bbkgl
