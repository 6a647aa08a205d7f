import Mathlib.Data.List.Nodup

/-!
# Removal by exchange with the last element

An element of an array is removed in constant time by exchanging it with the last
one and shortening the array. The others keep their places, except the last one,
which is found where the removed element was.
-/

set_option autoImplicit false

namespace CS
namespace SwapRemove

variable {α β : Type*} {xs : List α} {x : α} {i j k : ℕ} {f : α → β}

/-- Exchange two elements. -/
def swap (xs : List α) (i j : ℕ) : List α :=
  match xs[i]?, xs[j]? with
  | some x, some y => (xs.set i y).set j x
  | _, _ => xs

/-- The list without its element at `i`, into whose place the last one has moved. -/
def swapRemove (xs : List α) (i : ℕ) : List α := (swap xs i (xs.length - 1)).dropLast

/-- The place from which the element at `k` has come. -/
def origin (xs : List α) (i k : ℕ) : ℕ := if k = i then xs.length - 1 else k

@[simp] theorem length_swap : (swap xs i j).length = xs.length := by
  unfold swap
  split
  · simp
  · rfl

theorem getElem?_swap (hi : i < xs.length) (hj : j < xs.length) :
    (swap xs i j)[k]? = if k = j then xs[i]? else if k = i then xs[j]? else xs[k]? := by
  rw [swap, List.getElem?_eq_getElem hi, List.getElem?_eq_getElem hj]
  simp only [List.getElem?_set, List.length_set]
  grind

theorem length_swapRemove : (swapRemove xs i).length = xs.length - 1 := by
  rw [swapRemove, List.length_dropLast, length_swap]

/-- The last element is removed by itself. -/
theorem swapRemove_last (hpos : 0 < xs.length) : swapRemove xs (xs.length - 1) = xs.dropLast := by
  have hlast : xs.length - 1 < xs.length := Nat.sub_lt hpos Nat.one_pos
  have hself : swap xs (xs.length - 1) (xs.length - 1) = xs := by
    apply List.ext_getElem?
    intro k
    rw [getElem?_swap hlast hlast]
    split
    · next hk => rw [hk]
    · rfl
  rw [swapRemove, hself]

/-- Each place has the element that `origin` says. -/
theorem getElem?_swapRemove (hi : i < xs.length) :
    (swapRemove xs i)[k]? = if k < xs.length - 1 then xs[origin xs i k]? else none := by
  have hlast : xs.length - 1 < xs.length := by omega
  rw [swapRemove, List.getElem?_dropLast, length_swap, getElem?_swap hi hlast, origin]
  grind

theorem map_swap : (swap xs i j).map f = swap (xs.map f) i j := by
  rw [swap, swap, List.getElem?_map, List.getElem?_map]
  cases xs[i]? <;> cases xs[j]? <;> simp [List.map_set]

/-- Removal by swap commutes with `map`. -/
theorem map_swapRemove : (swapRemove xs i).map f = swapRemove (xs.map f) i := by
  rw [swapRemove, swapRemove, List.map_dropLast, map_swap, List.length_map]

section Nodup

variable (hnodup : xs.Nodup) (hi : i < xs.length)
include hnodup hi

/-- No element comes up twice afterwards. -/
theorem nodup_swapRemove : (swapRemove xs i).Nodup := by
  rw [List.nodup_iff_getElem?_ne_getElem?]
  intro j k hjk hk
  rw [length_swapRemove] at hk
  rw [getElem?_swapRemove hi, getElem?_swapRemove hi, if_pos (by omega), if_pos hk]
  intro heq
  have horigin := (List.getElem?_inj (by unfold origin; grind) hnodup).mp heq
  unfold origin at horigin
  grind

/-- Exactly the element at the place has gone. -/
theorem mem_swapRemove : x ∈ swapRemove xs i ↔ x ∈ xs ∧ xs[i]? ≠ some x := by
  rw [List.mem_iff_getElem?, List.mem_iff_getElem?]
  constructor
  · rintro ⟨k, hk⟩
    rw [getElem?_swapRemove hi] at hk
    split at hk
    · refine ⟨⟨_, hk⟩, fun hx => ?_⟩
      have horigin := (List.getElem?_inj hi hnodup).mp (hx.trans hk.symm)
      unfold origin at horigin
      grind
    · exact absurd hk (by simp)
  · rintro ⟨⟨k, hk⟩, hx⟩
    have hlt : k < xs.length := (List.getElem?_eq_some_iff.mp hk).1
    have hne : k ≠ i := fun h => hx (h ▸ hk)
    by_cases hlast : k = xs.length - 1
    · refine ⟨i, ?_⟩
      rw [getElem?_swapRemove hi, if_pos (by omega), origin, if_pos rfl, ← hlast, hk]
    · refine ⟨k, ?_⟩
      rw [getElem?_swapRemove hi, if_pos (by omega), origin, if_neg hne, hk]

end Nodup

end SwapRemove
end CS
