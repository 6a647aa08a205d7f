import Mathlib.Order.Lattice
import Mathlib.Data.List.TakeWhile

/-!
# Ordered sets

A set kept as the list of its elements in increasing order, with the operations
of an ordered container: the least element, insertion, and the split at a bound
into the elements below it and the others.
-/

set_option autoImplicit false

namespace CS

/-- A finite set, kept as its elements in increasing order. -/
structure OrderedSet (α : Type*) [LinearOrder α] where
  toList : List α
  sorted : toList.Pairwise (· < ·)
  deriving DecidableEq, Repr

namespace OrderedSet

variable {α : Type*} [LinearOrder α] {s : OrderedSet α} {a b : α} {l : List α}

instance : Membership α (OrderedSet α) := ⟨fun s a => a ∈ s.toList⟩

theorem mem_toList : a ∈ s.toList ↔ a ∈ s := Iff.rfl

/-- The set without elements. -/
def empty : OrderedSet α := ⟨[], .nil⟩

theorem notMem_empty : a ∉ (empty : OrderedSet α) := List.not_mem_nil

/-- The least element. -/
def first? (s : OrderedSet α) : Option α := s.toList.head?

/-- Insertion into an increasing list. An element that is there already stays. -/
def insertSorted (a : α) : List α → List α
  | [] => [a]
  | b :: l => if a < b then a :: b :: l else if b < a then b :: insertSorted a l else b :: l

theorem mem_insertSorted : b ∈ insertSorted a l ↔ b = a ∨ b ∈ l := by
  induction l with
  | nil => simp [insertSorted]
  | cons c l ih =>
    rw [insertSorted]
    rcases lt_trichotomy a c with h | rfl | h
    · simp [if_pos h]
    · simp
    · simp only [if_neg h.asymm, if_pos h, List.mem_cons, ih]
      exact or_left_comm

/-- The insertion keeps the list strictly sorted. -/
theorem pairwise_insertSorted (h : l.Pairwise (· < ·)) : (insertSorted a l).Pairwise (· < ·) := by
  induction l with
  | nil => exact List.pairwise_singleton _ _
  | cons c l ih =>
    obtain ⟨hc, hl⟩ := List.pairwise_cons.mp h
    rw [insertSorted]
    split
    · next hac =>
      refine h.cons fun d hd => ?_
      rcases List.mem_cons.mp hd with rfl | hd
      · exact hac
      · exact hac.trans (hc d hd)
    · split
      -- `a` goes into the tail, all of which stays above `c`
      · next hca =>
        refine (ih hl).cons fun d hd => ?_
        rcases mem_insertSorted.mp hd with rfl | hd
        · exact hca
        · exact hc d hd
      · exact h

/-- The set with `a` in its place; nothing changes if it was there. -/
def insert (s : OrderedSet α) (a : α) : OrderedSet α :=
  ⟨insertSorted a s.toList, pairwise_insertSorted s.sorted⟩

/-- The elements below a bound, in increasing order. -/
def below (s : OrderedSet α) (a : α) : List α := s.toList.takeWhile (· < a)

/-- The set without the elements below a bound. -/
def eraseBelow (s : OrderedSet α) (a : α) : OrderedSet α :=
  ⟨s.toList.dropWhile (· < a), s.sorted.sublist (List.dropWhile_sublist _)⟩

theorem mem_insert : b ∈ s.insert a ↔ b = a ∨ b ∈ s := mem_insertSorted

/-- What is below and what is left make up the set. -/
theorem below_append_eraseBelow : s.below a ++ (s.eraseBelow a).toList = s.toList :=
  List.takeWhile_append_dropWhile

theorem nodup : s.toList.Nodup := s.sorted.imp fun h => h.ne

theorem first?_mem (h : s.first? = some a) : a ∈ s := List.mem_of_mem_head? h

/-- The first element is the least. -/
theorem first?_le (h : s.first? = some a) (hb : b ∈ s) : a ≤ b := by
  obtain ⟨l, hl⟩ := List.head?_eq_some_iff.mp h
  have hsorted := s.sorted
  rw [hl, List.pairwise_cons] at hsorted
  rw [← mem_toList, hl, List.mem_cons] at hb
  rcases hb with rfl | hb
  · exact le_refl _
  · exact (hsorted.1 b hb).le

theorem first?_eq_none_iff : s.first? = none ↔ ∀ b, b ∉ s := by
  rw [first?, List.head?_eq_none_iff, List.eq_nil_iff_forall_not_mem]
  rfl

theorem first?_insert_ne_none : (s.insert a).first? ≠ none := by
  intro h
  exact first?_eq_none_iff.mp h a (mem_insert.mpr (Or.inl rfl))

theorem lt_of_mem_below (h : b ∈ s.below a) : b < a := by
  simpa using List.mem_takeWhile_imp h

/-- What is not below the bound stays. -/
theorem mem_eraseBelow : b ∈ s.eraseBelow a ↔ b ∈ s ∧ a ≤ b := by
  have hsplit := s.below_append_eraseBelow (a := a)
  have hsorted := s.sorted
  constructor
  · intro hb
    refine ⟨(List.dropWhile_sublist _).subset hb, ?_⟩
    by_contra hlt
    cases hrest : (s.eraseBelow a).toList with
    | nil => exact absurd hb (by rw [← mem_toList, hrest]; exact List.not_mem_nil)
    | cons c l =>
      have hc : ¬ c < a := by
        have := List.head?_dropWhile_not (fun x => decide (x < a)) s.toList
        rw [show s.toList.dropWhile (fun x => decide (x < a)) = c :: l from hrest] at this
        simpa using this
      have hcb : c ≤ b := first?_le (by rw [first?, hrest]; rfl) hb
      exact hc (hcb.trans_lt (not_le.mp hlt))
  · rintro ⟨hb, hle⟩
    rw [← mem_toList, ← hsplit, List.mem_append] at hb
    exact hb.resolve_left fun h => absurd (lt_of_mem_below h) (not_lt.mpr hle)

/-- What is below `a` are the elements less than `a`. -/
theorem mem_below : b ∈ s.below a ↔ b ∈ s ∧ b < a := by
  constructor
  · intro hb
    exact ⟨(List.takeWhile_sublist _).subset hb, lt_of_mem_below hb⟩
  · rintro ⟨hb, hlt⟩
    rw [← mem_toList, ← s.below_append_eraseBelow (a := a), List.mem_append] at hb
    exact hb.resolve_right fun h => absurd (mem_eraseBelow.mp h).2 (not_le.mpr hlt)

theorem pairwise_below : (s.below a).Pairwise (· < ·) := s.sorted.sublist (List.takeWhile_sublist _)

/-- A new element is added, and nothing else changes. -/
theorem toList_insert_perm (h : a ∉ s) : (s.insert a).toList.Perm (a :: s.toList) := by
  refine (List.perm_ext_iff_of_nodup (s.insert a).nodup ?_).mpr fun b => ?_
  · exact List.nodup_cons.mpr ⟨h, s.nodup⟩
  · rw [List.mem_cons]
    exact mem_insert

end OrderedSet
end CS
