import Bbkgl.CS.History
import Bbkgl.Net.TimerQueueServed

/-!
# Every timer and every run of one

The runs of a timer queue with a record of them. Timers are numbered in the order
in which `AddTimerInLoop` gets them, since the address of a timer that is gone may
be used again. The record has each timer as it was made, each call of
`HandleRead`, and each callback with the call that made it.

`HandleRead` is called here at any time outside itself, with any clock reading.
-/

set_option autoImplicit false

namespace Bbkgl
namespace TimerQueue

open CS CS.Transition

/-- As `guard`, except that nobody waits for the timerfd. -/
def freeGuard (s : State) : Action → Bool
  | .handleRead _ => s.phase = .idle
  | a => guard s a

/-- One step of the queue, with a `HandleRead` that need not wait for the timerfd. -/
def freeStep : State → Action → Option State := guarded freeGuard effect

theorem freeStep_of_step {s s' : State} {a : Action} (h : step s a = some s') :
    freeStep s a = some s' := by
  obtain ⟨hguard, heffect⟩ := guarded_eq_some_iff.mp h
  refine guarded_eq_some_iff.mpr ⟨?_, heffect⟩
  cases a with
  | handleRead wall => exact (Bool.and_eq_true _ _ ▸ hguard).1
  | tick | poll | addTimerInLoop | run | reset => exact hguard

/-- One run of a timer's callback. -/
structure Run where
  number : ℕ
  /-- the call of `HandleRead`, and its clock reading -/
  call : ℕ
  now : Timestamp
  /-- `Expiration()` of the timer when it ran -/
  expiration : Timestamp
  deriving DecidableEq, Repr

/-- `number p` is the timer at the address `p`, `made n` the timer `n` as it was
added, `birth n` the number of calls of `HandleRead` until then. `inserted`: no
`Insert` has found its entry in the set. -/
structure History where
  added : ℕ
  number : Ptr → ℕ
  made : ℕ → Timer
  birth : ℕ → ℕ
  calls : List Timestamp
  runs : List Run
  inserted : Bool

namespace History

/-- No timer has been added and no call made. -/
def init : History where
  added := 0
  number := fun _ => 0
  made := fun _ => ⟨.invalid, 0, false⟩
  birth := fun _ => 0
  calls := []
  runs := []
  inserted := true

variable (h : History)

/-- The timer gets the next number. -/
def add (p : Ptr) (t : Timer) : History :=
  { h with
    added := h.added + 1
    number := Function.update h.number p h.added
    made := Function.update h.made h.added t
    birth := Function.update h.birth h.added h.calls.length }

/-- One more run of a timer, in the call under way. -/
def ran (now : Timestamp) (p : Ptr) (t : Timer) : History :=
  { h with runs := h.runs ++ [⟨h.number p, h.calls.length - 1, now, t.expiration⟩] }

end History

/-- `assert(result.second)` in each `Insert` of `Reset`. -/
def insertsNew (now : Timestamp) : List Entry → State → Bool
  | [], _ => true
  | e :: es, s =>
    if (s.timer e.ptr).repeats then
      let t := (s.timer e.ptr).restart now
      Entry.mk t.expiration e.ptr ∉ s.timers.toList &&
        insertsNew now es
          { s with
            timer := Function.update s.timer e.ptr t
            timers := s.timers.insert (Entry.mk t.expiration e.ptr) }
    else insertsNew now es s

/-- What a step adds to the history. -/
def record (s : State) (h : History) : Action → History
  | .tick _ | .poll => h
  | .addTimerInLoop p t _ =>
    { h.add p t with inserted := h.inserted && Entry.mk t.expiration p ∉ s.timers.toList }
  | .handleRead now => { h with calls := h.calls ++ [now] }
  | .run => match s.phase with
    | .handling now _ (e :: _) => h.ran now e.ptr (s.timer e.ptr)
    | .handling _ _ [] | .idle => h
  | .reset _ => match s.phase with
    | .handling now expired _ => { h with inserted := h.inserted && insertsNew now expired s }
    | .idle => h

/-- The queue with its record. -/
def recordedStep : State × History → Action → Option (State × History) :=
  recorded freeStep record

/-! ### The record alone -/

variable {h : History} {now when : Timestamp} {p q : Ptr} {t : Timer} {n : ℕ} {e : Entry}
  {es rest : List Entry}

namespace History

/-- The runs are of timers that were added and are due, with their interval between them and in
the order of their expirations. -/
structure Lawful (h : History) : Prop where
  number_lt : ∀ r ∈ h.runs, r.number < h.added
  reading : ∀ r ∈ h.runs, h.calls[r.call]? = some r.now
  due : ∀ r ∈ h.runs, r.expiration ≤ r.now
  born : ∀ r ∈ h.runs, h.birth r.number ≤ r.call
  spaced : h.runs.Pairwise fun r r' => r.number = r'.number →
    (h.made r.number).repeats = true ∧ r.now.addTime (h.made r.number).interval ≤ r'.now
  ordered : h.runs.Pairwise fun r r' => r.call = r'.call →
    r.expiration ≤ r'.expiration ∧ r.number ≠ r'.number

/-- The timer `n` may run at `when`: it has not run yet, or it repeats and its
interval has passed by then. -/
def Waits (h : History) (n : ℕ) (when : Timestamp) : Prop :=
  ∀ r ∈ h.runs, r.number = n → (h.made n).repeats = true ∧ r.now.addTime (h.made n).interval ≤ when

/-- Inside `HandleRead`. -/
structure Handles (h : History) (now : Timestamp) (es rest : List Entry) : Prop where
  split : ∃ done, es = done ++ rest
  last : h.calls.getLast? = some now
  sorted : es.Pairwise fun e f => e.when ≤ f.when
  due : ∀ e ∈ es, e.when ≤ now
  born : ∀ e ∈ es, h.birth (h.number e.ptr) < h.calls.length
  waits : ∀ e ∈ rest, h.Waits (h.number e.ptr) e.when
  before : ∀ e ∈ es, ∀ r ∈ h.runs, r.number = h.number e.ptr → r.now ≤ now
  current : ∀ r ∈ h.runs, r.call + 1 = h.calls.length → ∀ e ∈ rest,
    r.expiration ≤ e.when ∧ r.number ≠ h.number e.ptr
  ran : ∀ e ∈ es, e ∈ rest ∨ ∃ r ∈ h.runs, r.number = h.number e.ptr

theorem lawful_init : init.Lawful where
  number_lt _ hr := absurd hr List.not_mem_nil
  reading _ hr := absurd hr List.not_mem_nil
  due _ hr := absurd hr List.not_mem_nil
  born _ hr := absurd hr List.not_mem_nil
  spaced := .nil
  ordered := .nil

/-- `inserted` is read by nothing else. -/
theorem Lawful.setInserted (hl : h.Lawful) (b : Bool) :
    ({ h with inserted := b } : History).Lawful :=
  ⟨hl.number_lt, hl.reading, hl.due, hl.born, hl.spaced, hl.ordered⟩

theorem Handles.setInserted (hh : h.Handles now es rest) (b : Bool) :
    ({ h with inserted := b } : History).Handles now es rest :=
  ⟨hh.split, hh.last, hh.sorted, hh.due, hh.born, hh.waits, hh.before, hh.current, hh.ran⟩

theorem add_number (hq : q ≠ p) : (h.add p t).number q = h.number q :=
  Function.update_of_ne hq _ _

theorem add_made (hn : n < h.added) : (h.add p t).made n = h.made n :=
  Function.update_of_ne hn.ne _ _

theorem add_birth (hn : n < h.added) : (h.add p t).birth n = h.birth n :=
  Function.update_of_ne hn.ne _ _

/-- A new timer breaks no law. -/
theorem Lawful.add (hl : h.Lawful) : (h.add p t).Lawful where
  number_lt r hr := (hl.number_lt r hr).trans (Nat.lt_succ_self _)
  reading := hl.reading
  due := hl.due
  born r hr := by
    rw [add_birth (hl.number_lt r hr)]
    exact hl.born r hr
  spaced := hl.spaced.imp_of_mem fun {r} r' hr _ hspaced heq => by
    rw [add_made (hl.number_lt r hr)]
    exact hspaced heq
  ordered := hl.ordered

theorem Waits.add (hw : h.Waits n when) (hn : n < h.added) : (h.add p t).Waits n when := by
  intro r hr heq
  rw [add_made hn]
  exact hw r hr heq

/-- A new timer waits for whatever it is made for. -/
theorem Lawful.waits_new (hl : h.Lawful) : (h.add p t).Waits h.added when := by
  intro r hr heq
  exact absurd heq (hl.number_lt r hr).ne

theorem Handles.add (hh : h.Handles now es rest)
    (hes : ∀ e ∈ es, e.ptr ≠ p ∧ h.number e.ptr < h.added) :
    (h.add p t).Handles now es rest := by
  obtain ⟨done, hsplit⟩ := hh.split
  have hrest : ∀ e ∈ rest, e ∈ es := fun e he => hsplit ▸ List.mem_append_right done he
  refine ⟨hh.split, hh.last, hh.sorted, hh.due, fun e he => ?_, fun e he => ?_, fun e he => ?_,
    fun r hr hcall e he => ?_, fun e he => ?_⟩
  · obtain ⟨hp, hlt⟩ := hes e he
    rw [add_number hp, add_birth hlt]
    exact hh.born e he
  · obtain ⟨hp, hlt⟩ := hes e (hrest e he)
    rw [add_number hp]
    exact (hh.waits e he).add hlt
  · rw [add_number (hes e he).1]
    exact hh.before e he
  · rw [add_number (hes e (hrest e he)).1]
    exact hh.current r hr hcall e he
  · rw [add_number (hes e he).1]
    exact hh.ran e he

/-- A call of `HandleRead` breaks no law. -/
theorem Lawful.call (hl : h.Lawful) : ({ h with calls := h.calls ++ [now] } : History).Lawful where
  number_lt := hl.number_lt
  reading r hr := by
    have hlt : r.call < h.calls.length := (List.getElem?_eq_some_iff.mp (hl.reading r hr)).1
    rw [List.getElem?_append_left hlt]
    exact hl.reading r hr
  due := hl.due
  born := hl.born
  spaced := hl.spaced
  ordered := hl.ordered

/-! A callback runs: that of the first entry that is left. -/

/-- A callback that is run from the list of the expired breaks no law. -/
theorem Handles.lawful_ran (hh : h.Handles now es (e :: rest)) (hl : h.Lawful)
    (hlt : h.number e.ptr < h.added) (ht : t.expiration = e.when) :
    (h.ran now e.ptr t).Lawful := by
  obtain ⟨done, hsplit⟩ := hh.split
  have he : e ∈ es := hsplit ▸ List.mem_append_right done (List.mem_cons_self)
  have hpos : 0 < h.calls.length := Nat.zero_lt_of_lt (hh.born e he)
  constructor
  · exact List.forall_mem_append.mpr ⟨hl.number_lt, List.forall_mem_singleton.mpr hlt⟩
  · refine List.forall_mem_append.mpr ⟨hl.reading, List.forall_mem_singleton.mpr ?_⟩
    rw [← hh.last, List.getLast?_eq_getElem?]
    rfl
  · refine List.forall_mem_append.mpr ⟨hl.due, List.forall_mem_singleton.mpr ?_⟩
    rw [ht]
    exact hh.due e he
  · refine List.forall_mem_append.mpr ⟨hl.born, List.forall_mem_singleton.mpr ?_⟩
    exact Nat.le_sub_one_of_lt (hh.born e he)
  · refine List.pairwise_append.mpr ⟨hl.spaced, List.pairwise_singleton _ _, ?_⟩
    rintro r hr r' hr' heq
    obtain rfl := List.mem_singleton.mp hr'
    have hn : r.number = h.number e.ptr := heq
    obtain ⟨hrepeats, hle⟩ := hh.waits e List.mem_cons_self r hr hn
    rw [hn]
    exact ⟨hrepeats, hle.trans (hh.due e he)⟩
  · refine List.pairwise_append.mpr ⟨hl.ordered, List.pairwise_singleton _ _, ?_⟩
    rintro r hr r' hr' heq
    obtain rfl := List.mem_singleton.mp hr'
    have hcall : r.call + 1 = h.calls.length := by
      have heq : r.call = h.calls.length - 1 := heq
      omega
    simp only [ht]
    exact hh.current r hr hcall e List.mem_cons_self

theorem Waits.ran (hw : h.Waits n when) (hn : h.number p ≠ n) :
    (h.ran now p t).Waits n when := by
  refine List.forall_mem_append.mpr ⟨hw, List.forall_mem_singleton.mpr fun heq => ?_⟩
  exact absurd heq hn

theorem Handles.ran_cons (hh : h.Handles now es (e :: rest))
    (hinj : ∀ f ∈ rest, h.number e.ptr ≠ h.number f.ptr) (ht : t.expiration = e.when) :
    (h.ran now e.ptr t).Handles now es rest := by
  obtain ⟨done, hsplit⟩ := hh.split
  have he : e ∈ es := hsplit ▸ List.mem_append_right done (List.mem_cons_self)
  have hsorted : (e :: rest).Pairwise fun e f => e.when ≤ f.when :=
    (List.pairwise_append.mp (hsplit ▸ hh.sorted)).2.1
  refine ⟨⟨done ++ [e], by rw [hsplit, List.append_assoc]; rfl⟩, hh.last, hh.sorted, hh.due,
    hh.born, fun f hf => ?_, fun f hf => ?_, ?_, fun f hf => ?_⟩
  · exact (hh.waits f (List.mem_cons_of_mem e hf)).ran (hinj f hf)
  · refine List.forall_mem_append.mpr ⟨hh.before f hf, List.forall_mem_singleton.mpr fun _ => ?_⟩
    exact le_refl now
  · refine List.forall_mem_append.mpr ⟨fun r hr hcall f hf => ?_, List.forall_mem_singleton.mpr ?_⟩
    · exact hh.current r hr hcall f (List.mem_cons_of_mem e hf)
    · intro _ f hf
      refine ⟨?_, hinj f hf⟩
      simp only [ht]
      exact (List.pairwise_cons.mp hsorted).1 f hf
  · rcases hh.ran f hf with hmem | ⟨r, hr, heq⟩
    · rcases List.mem_cons.mp hmem with rfl | hmem
      · exact Or.inr ⟨_, List.mem_append_right _ (List.mem_singleton_self _), rfl⟩
      · exact Or.inl hmem
    · exact Or.inr ⟨r, List.mem_append_left _ hr, heq⟩

end History

end TimerQueue
end Bbkgl
