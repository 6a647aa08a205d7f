import Mathlib.Data.List.Basic

/-!
# Regions of an array

An array is a list of fixed length that is changed one element at a time.
`writeAt` stores a block and `moveWithin` copies a block to a lower or equal
index of the same array, both from left to right, as a loop over the elements
does; `slice` reads a block. Each of the three is determined by its elements
(`getElem?_slice`, `getElem?_writeAt`, `getElem?_moveWithin`), and the other
lemmas follow from these.
-/

set_option autoImplicit false

namespace CS
namespace Region

variable {α : Type*} {v xs : List α} {x : α} {i j k n m src dst : ℕ}

/-- The `n` elements from index `i` on. -/
def slice (v : List α) (i n : ℕ) : List α := (v.drop i).take n

/-- Store `xs` from index `i` on, one element after the other. -/
def writeAt (v : List α) (i : ℕ) : List α → List α
  | [] => v
  | x :: xs => writeAt (v.set i x) (i + 1) xs

/-- Copy `n` elements from index `src` to index `dst`, one element after the
other, each read after the earlier ones have been stored. -/
def moveWithin (v : List α) (src dst : ℕ) : ℕ → List α
  | 0 => v
  | n + 1 => moveWithin ((v[src]?).elim v (v.set dst ·)) (src + 1) (dst + 1) n

/-- Element by element, a slice is the list from `i` on. -/
theorem getElem?_slice : (slice v i n)[k]? = if k < n then v[i + k]? else none := by
  simp [slice, List.getElem?_take, List.getElem?_drop]

@[simp] theorem length_writeAt : (writeAt v i xs).length = v.length := by
  induction xs generalizing v i with
  | nil => rfl
  | cons x xs ih => simp [writeAt, ih]

@[simp] theorem length_moveWithin : (moveWithin v src dst n).length = v.length := by
  induction n generalizing v src dst with
  | zero => rfl
  | succ n ih => cases h : v[src]? <;> simp [moveWithin, ih, h]

theorem length_slice (h : i + n ≤ v.length) : (slice v i n).length = n := by
  simp [slice]
  omega

/-- Element by element, a write changes the region it is made to. -/
theorem getElem?_writeAt (h : i + xs.length ≤ v.length) :
    (writeAt v i xs)[k]? = if i ≤ k ∧ k < i + xs.length then xs[k - i]? else v[k]? := by
  induction xs generalizing v i with
  | nil =>
    rw [if_neg (by simp only [List.length_nil]; omega)]
    rfl
  | cons x xs ih =>
    simp only [List.length_cons] at h
    rw [writeAt, ih (by simp; omega), List.getElem?_set]
    rcases Nat.lt_trichotomy k i with hk | rfl | hk
    · grind
    · grind
    · have hcons : (x :: xs)[k - i]? = xs[k - (i + 1)]? := by
        rw [show k - i = (k - (i + 1)) + 1 by omega, List.getElem?_cons_succ]
      grind

/-- Element by element, a move to the left. -/
theorem getElem?_moveWithin (hle : dst ≤ src) (h : src + n ≤ v.length) :
    (moveWithin v src dst n)[k]? =
      if dst ≤ k ∧ k < dst + n then v[src + (k - dst)]? else v[k]? := by
  induction n generalizing v src dst with
  | zero =>
    rw [if_neg (by omega)]
    rfl
  | succ n ih =>
    obtain ⟨x, hx⟩ : ∃ x, v[src]? = some x := ⟨_, List.getElem?_eq_getElem (by omega)⟩
    rw [moveWithin, hx, Option.elim_some, ih (by omega) (by simp; omega)]
    have hread : (v.set dst x)[src + 1 + (k - (dst + 1))]? = v[src + 1 + (k - (dst + 1))]? :=
      List.getElem?_set_ne (by omega)
    rw [hread, List.getElem?_set]
    clear ih hread
    -- left of the target, the element just stored, or one that is stored later
    rcases Nat.lt_trichotomy k dst with hk | rfl | hk
    · grind
    · grind
    · rw [show src + 1 + (k - (dst + 1)) = src + (k - dst) by omega]
      grind

theorem slice_zero : slice v i 0 = [] := by simp [slice]

/-- Neighbouring slices make one. -/
theorem slice_append :
    slice v i n ++ slice v (i + n) m = slice v i (n + m) := by
  simp [slice, List.take_add, List.drop_drop]

theorem drop_slice : (slice v i n).drop k = slice v (i + k) (n - k) := by
  simp [slice, List.drop_take, List.drop_drop]

/-- What has been written can be read. -/
theorem slice_writeAt_self (h : i + xs.length ≤ v.length) :
    slice (writeAt v i xs) i xs.length = xs := by
  apply List.ext_getElem?
  intro k
  rw [getElem?_slice, getElem?_writeAt h]
  by_cases hk : k < xs.length <;> grind

/-- A block that the stored one does not meet is unchanged. -/
theorem slice_writeAt_of_disjoint (h : i + xs.length ≤ v.length)
    (hd : j + n ≤ i ∨ i + xs.length ≤ j) : slice (writeAt v i xs) j n = slice v j n := by
  apply List.ext_getElem?
  intro k
  rw [getElem?_slice, getElem?_slice, getElem?_writeAt h]
  by_cases hk : k < n <;> grind

/-- What has been moved can be read where it has been moved to. -/
theorem slice_moveWithin (hle : dst ≤ src) (h : src + n ≤ v.length) :
    slice (moveWithin v src dst n) dst n = slice v src n := by
  apply List.ext_getElem?
  intro k
  rw [getElem?_slice, getElem?_slice, getElem?_moveWithin hle h]
  by_cases hk : k < n <;> grind

/-- Growing the array keeps the blocks it had. -/
theorem slice_append_right (h : i + n ≤ v.length) : slice (v ++ xs) i n = slice v i n := by
  apply List.ext_getElem?
  intro k
  rw [getElem?_slice, getElem?_slice]
  by_cases hk : k < n
  · simp [hk, List.getElem?_append_left (show i + k < v.length by omega)]
  · simp [hk]

end Region
end CS
