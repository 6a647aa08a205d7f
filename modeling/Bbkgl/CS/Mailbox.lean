import Mathlib.Data.List.Basic

/-!
# A queue drained in batches

Many parties push at the back of `pending`. The one consumer takes the whole of
`pending` at once (`swap`) and then works through that batch in order; what is
pushed meanwhile waits for the next batch. `todo` is everything still to be
executed, oldest first.
-/

set_option autoImplicit false

namespace CS

/-- `done ++ rest` is the batch the consumer has taken, executed up to `rest`. -/
structure Mailbox (α : Type*) where
  pending : List α
  done : List α
  rest : List α
  deriving DecidableEq, Repr

namespace Mailbox

variable {α : Type*} {m : Mailbox α} {a : α}

/-- Nothing pushed, no batch taken. -/
def empty : Mailbox α := ⟨[], [], []⟩

/-- A value enters at the end of what is pending. -/
def push (m : Mailbox α) (a : α) : Mailbox α := { m with pending := m.pending ++ [a] }

/-- Take everything pending as the next batch. -/
def swap (m : Mailbox α) : Mailbox α := ⟨[], [], m.pending⟩

/-- Move past the first element of the batch that is not executed yet. -/
def advance (m : Mailbox α) : Mailbox α :=
  { m with done := m.done ++ m.rest.take 1, rest := m.rest.tail }

/-- Drop the executed batch. -/
def finish (m : Mailbox α) : Mailbox α := ⟨m.pending, [], []⟩

/-- Everything still to be executed, in the order in which it will be. -/
def todo (m : Mailbox α) : List α := m.rest ++ m.pending

@[simp] theorem pending_swap : m.swap.pending = [] := rfl

@[simp] theorem pending_advance : m.advance.pending = m.pending := rfl

@[simp] theorem pending_finish : m.finish.pending = m.pending := rfl

@[simp] theorem rest_push : (m.push a).rest = m.rest := rfl

@[simp] theorem rest_swap : m.swap.rest = m.pending := rfl

@[simp] theorem rest_advance : m.advance.rest = m.rest.tail := rfl

@[simp] theorem rest_finish : m.finish.rest = [] := rfl

/-- What is pushed comes last. -/
@[simp] theorem todo_push : (m.push a).todo = m.todo ++ [a] := by
  simp [todo, push]

/-- A swap into an empty batch loses nothing and keeps the order. -/
theorem todo_swap (h : m.rest = []) : m.swap.todo = m.todo := by
  simp [todo, swap, h]

/-- The head of the batch is what comes first. -/
theorem todo_advance {rest : List α} (h : m.rest = a :: rest) :
    m.todo = a :: m.advance.todo := by
  simp [todo, advance, h]

theorem todo_finish (h : m.rest = []) : m.finish.todo = m.todo := by
  simp [todo, finish, h]

/-! ### Elements that outlast others

An executed element stays in its batch until the batch is dropped. So an element
of `q` is still there when one of `p` is executed, if it was pushed behind it or
taken in the same batch. -/

/-- What of `p` waits is executed while `held`, or while an element of `q` is there. -/
structure Sheltered (m : Mailbox α) (p q : α → Bool) (held : Prop) : Prop where
  pending : (∃ a ∈ m.pending, p a = true) → held ∨ ∃ b ∈ m.pending, q b = true
  rest : (∃ a ∈ m.rest, p a = true) → held ∨ ∃ b ∈ m.pending ++ (m.done ++ m.rest), q b = true

namespace Sheltered

variable {p q : α → Bool} {held held' : Prop} {as : List α}

/-- What is held shelters everything. -/
theorem of_held (h : held) : m.Sheltered p q held := ⟨fun _ => Or.inl h, fun _ => Or.inl h⟩

/-- An element of `q` that no batch has taken yet outlasts everything. -/
theorem of_pending {b : α} (hb : b ∈ m.pending) (hq : q b = true) : m.Sheltered p q held :=
  ⟨fun _ => Or.inr ⟨b, hb, hq⟩, fun _ => Or.inr ⟨b, List.mem_append_left _ hb, hq⟩⟩

theorem mono (h : m.Sheltered p q held) (hheld : held → held') : m.Sheltered p q held' :=
  ⟨fun ha => (h.pending ha).imp_left hheld, fun ha => (h.rest ha).imp_left hheld⟩

/-- A push keeps the shelter, if what is pushed is sheltered itself. -/
theorem push (h : m.Sheltered p q held)
    (ha : p a = true → held ∨ ∃ b ∈ m.pending, q b = true) : (m.push a).Sheltered p q held where
  pending := by
    rintro ⟨a', hmem, hp⟩
    have hold : held ∨ ∃ b ∈ m.pending, q b = true := by
      rcases List.mem_append.mp hmem with hmem | hmem
      · exact h.pending ⟨a', hmem, hp⟩
      · exact ha (List.mem_singleton.mp hmem ▸ hp)
    exact hold.imp_right fun ⟨b, hb, hq⟩ => ⟨b, List.mem_append_left _ hb, hq⟩
  rest := by
    intro hrest
    refine (h.rest hrest).imp_right fun ⟨b, hb, hq⟩ => ⟨b, ?_, hq⟩
    rcases List.mem_append.mp hb with hb | hb
    · exact List.mem_append_left _ (List.mem_append_left _ hb)
    · exact List.mem_append_right _ hb

/-- Pushes of what needs no shelter. -/
theorem foldl_push (h : m.Sheltered p q held) (has : ∀ a ∈ as, p a = false) :
    (as.foldl Mailbox.push m).Sheltered p q held := by
  induction as generalizing m with
  | nil => exact h
  | cons a as ih =>
    apply ih
    · exact h.push fun hp => absurd hp (by simp [has a List.mem_cons_self])
    · intro a' ha'
      exact has a' (List.mem_cons_of_mem a ha')

theorem swap (h : m.Sheltered p q held) : m.swap.Sheltered p q held where
  pending := fun ⟨_, ha, _⟩ => absurd ha List.not_mem_nil
  rest := by
    intro ha
    refine (h.pending ha).imp_right fun ⟨b, hb, hq⟩ => ⟨b, ?_, hq⟩
    exact List.mem_append_right _ (List.mem_append_right _ hb)

theorem advance (h : m.Sheltered p q held) : m.advance.Sheltered p q held where
  pending := h.pending
  rest := by
    rintro ⟨a, ha, hp⟩
    have hbatch : m.advance.done ++ m.advance.rest = m.done ++ m.rest := by
      rw [Mailbox.advance, List.append_assoc]
      cases m.rest with
      | nil => rfl
      | cons b bs => rfl
    rw [hbatch]
    exact h.rest ⟨a, List.mem_of_mem_tail ha, hp⟩

theorem finish (h : m.Sheltered p q held) : m.finish.Sheltered p q held where
  pending := h.pending
  rest := fun ⟨_, ha, _⟩ => absurd ha List.not_mem_nil

end Sheltered
end Mailbox
end CS
