import Bbkgl.Net.TimerQueue

/-!
# The timer queue when it is read

`GetExpired` reads the first entry. A `Poll` reports the timerfd only if it is
armed, and outside `HandleRead` an armed timerfd stands for an entry, with one
exception: another handler of the same batch of events may arm the timerfd again
after `Poll` has reported it. `HandleRead` then fails to read it, expires every
entry, and `Reset` leaves the timerfd armed with an empty queue.
-/

set_option autoImplicit false

namespace Bbkgl
namespace TimerQueue

open CS CS.Transition

variable {s s' : State} {as : List Action}

/-- No `Reset` is left with an empty queue while the timerfd is armed. -/
def DisarmedWhenEmpty (s : State) : Action → Prop
  | .reset _ => s.timers.first? = none → (∀ e ∈ expired s, (s.timer e.ptr).repeats = false) →
      s.timerfd = none
  | _ => True

instance (s : State) (a : Action) : Decidable (DisarmedWhenEmpty s a) :=
  match a with
  | .reset _ => inferInstanceAs (Decidable (_ → _ → _))
  | .tick _ | .poll | .addTimerInLoop _ _ _ | .handleRead _ | .run => .isTrue trivial

/-- Outside `HandleRead`, a timerfd that is armed or has been reported stands
for an entry; inside, it has not been reported again. -/
def Backed (s : State) : Prop :=
  match s.phase with
  | .idle => s.timerfd.isSome ∨ s.reported = true → s.timers.first? ≠ none
  | .handling _ _ _ => s.reported = false

theorem backed_init {clock : ℤ} : Backed (State.init clock) := by
  simp [Backed, State.init]

theorem readable_isSome (h : readable s = true) : s.timerfd.isSome := by
  cases hfd : s.timerfd with
  | none => simp [readable, hfd] at h
  | some d => rfl

/-- The queue is empty after the loop of `Reset` only if it was before, and no
expired timer repeats. -/
theorem reinsert_first?_eq_none {now : Timestamp} {es : List Entry}
    (h : (reinsert now es s).timers.first? = none) :
    s.timers.first? = none ∧ ∀ e ∈ es, (s.timer e.ptr).repeats = false := by
  induction es generalizing s with
  | nil => exact ⟨h, by simp⟩
  | cons e es ih =>
    rw [reinsert] at h
    split at h
    · exact absurd (ih h).1 OrderedSet.first?_insert_ne_none
    · next hrep =>
      obtain ⟨hnone, hes⟩ := ih h
      refine ⟨hnone, ?_⟩
      rintro f (_ | ⟨_, hf⟩)
      · simpa using hrep
      · exact hes f hf

/-- There is no next expiration in an empty queue. -/
theorem rearm_of_first?_eq_none {wall : Timestamp} (h : s.timers.first? = none) :
    rearm s wall = s := by
  simp [rearm, h, Timestamp.valid, Timestamp.invalid]

/-- The step lemma of `Backed`. -/
theorem backed_step {a : Action} (h : Backed s) (hok : DisarmedWhenEmpty s a)
    (hstep : step s a = some s') : Backed s' := by
  obtain ⟨hg, rfl⟩ := guarded_eq_some_iff.mp hstep
  cases a with
  | tick d => exact h
  | poll =>
    simp only [guard, Bool.and_eq_true, decide_eq_true_eq, Bool.not_eq_true'] at hg
    obtain ⟨⟨hidle, -⟩, hread⟩ := hg
    simp only [Backed, hidle] at h
    simp only [Backed, effect, hidle]
    exact fun _ => h (Or.inl (readable_isSome hread))
  | addTimerInLoop p t wall =>
    obtain ⟨htimers, -, hphase, hrep, -⟩ := addTimerInLoop_frame (s := s) p t wall
    rw [Backed] at h ⊢
    simp only [effect, hphase, hrep]
    split
    · exact fun _ => htimers ▸ OrderedSet.first?_insert_ne_none
    · next hs => rw [hs] at h; exact h
  | handleRead wall =>
    rw [effect, handleRead]
    split <;> rfl
  | run =>
    simp only [guard] at hg
    split at hg
    · simp at hg
    · next hphase =>
      rw [Backed, hphase] at h
      simp only [effect, hphase, Backed]
      exact h
  | reset wall =>
    simp only [guard] at hg
    split at hg
    · simp at hg
    · next now es rest hphase =>
      rw [Backed, hphase] at h
      -- an empty queue has nothing to arm for, so the timerfd is as the condition found it
      have hfd : (reinsert now es s).timers.first? = none →
          (rearm (reinsert now es s) wall).timerfd = none := by
        intro hnone
        obtain ⟨hbefore, hnorep⟩ := reinsert_first?_eq_none hnone
        rw [rearm_of_first?_eq_none hnone, (reinsert_frame now es).1]
        exact hok hbefore (by simpa only [expired, hphase] using hnorep)
      simp only [effect, hphase, Backed]
      rw [(rearm_frame wall).1, (rearm_frame wall).2.2.1, (reinsert_frame now es).2.1, h]
      rintro (hsome | hrep) hnone
      · rw [hfd hnone] at hsome
        exact absurd hsome (by simp)
      · exact absurd hrep (by simp)

/-- **The timer queue is not empty when it is read**, as long as no `Reset` is
left with an empty queue while the timerfd is armed. -/
theorem getExpired_isSome {clock : ℤ}
    (hrun : Reach step DisarmedWhenEmpty (State.init clock) as s) {now : Timestamp}
    (hcall : guard s (.handleRead now) = true) : (getExpired s.timers now).isSome := by
  have hbacked : Backed s :=
    hrun.invariant backed_init fun _ h hok hstep => backed_step h hok hstep
  simp only [guard, Bool.and_eq_true, decide_eq_true_eq] at hcall
  obtain ⟨hidle, hrep⟩ := hcall
  rw [Backed, hidle] at hbacked
  rw [getExpired, Option.isSome_map]
  exact Option.isSome_iff_ne_none.mpr (hbacked (Or.inr hrep))

/-- Timers that do not repeat are not put back. -/
theorem reinsert_of_not_repeats {now : Timestamp} {es : List Entry}
    (h : ∀ e ∈ es, (s.timer e.ptr).repeats = false) : reinsert now es s = s := by
  induction es with
  | nil => rfl
  | cons e es ih =>
    rw [reinsert, if_neg (by simp [h e])]
    exact ih fun f hf => h f (List.mem_cons_of_mem e hf)

/-- The condition leaves nothing out: a `Reset` that does not meet it arms the
read of an empty set, which the next `Poll` after the deadline sets off. -/
theorem getExpired_none_of_not_disarmed {wall now : Timestamp} (hrep : s.reported = false)
    (hcall : guard s (.reset wall) = true) (hbad : ¬ DisarmedWhenEmpty s (.reset wall)) :
    ∃ (d : ℕ) (t : State), run step s [.reset wall, .tick d, .poll] = some t ∧
      guard t (.handleRead now) = true ∧ getExpired t.timers now = none := by
  simp only [DisarmedWhenEmpty, Classical.not_imp] at hbad
  obtain ⟨hempty, hnorep, harmed⟩ := hbad
  obtain ⟨deadline, hfd⟩ := Option.ne_none_iff_exists'.mp harmed
  cases hphase : s.phase with
  | idle => simp [guard, hphase] at hcall
  | handling began es rest =>
    have heff : effect s (.reset wall) = { s with phase := .idle } := by
      simp only [effect, hphase]
      rw [reinsert_of_not_repeats (by simpa only [expired, hphase] using hnorep),
        rearm_of_first?_eq_none hempty]
    refine ⟨(deadline - s.clock).toNat, { s with
      phase := .idle, clock := s.clock + (deadline - s.clock).toNat, reported := true }, ?_, ?_, ?_⟩
    · simp [run, step, guarded, hcall, heff]
      simp [guard, effect, readable, hfd, hrep]
      omega
    · simp [guard]
    · simp [getExpired, hempty]

/-- A timer is due and reported, and another handler of the same batch adds one
that is due as well: both expire, and the timerfd stays armed. -/
def rearmedRun : List Action :=
  [.addTimerInLoop 1 ⟨1200, 0, false⟩ 1000, .tick 300, .poll,
    .addTimerInLoop 2 ⟨1100, 0, false⟩ 1300, .handleRead 1300, .run, .run, .reset 1300, .tick 100,
    .poll]

/-- The source reads the first entry of an empty set when `HandleRead` is called next. -/
theorem getExpired_of_rearmed :
    ∃ s : State, Reach step Always (State.init 1000) rearmedRun s ∧
      guard s (.handleRead s.clock) = true ∧ getExpired s.timers s.clock = none := by
  have hrun : Reach step Always (State.init 1000) rearmedRun _ := reach_of_run rfl
  exact ⟨_, hrun, rfl, rfl⟩

/-- One timer, whose `Reset` leaves the set empty and finds the timerfd disarmed, and a
later one that is due and reported. -/
def drainedRun : List Action :=
  [.addTimerInLoop 1 ⟨1200, 0, false⟩ 1000, .tick 300, .poll, .handleRead 1300, .run,
    .reset 1300, .addTimerInLoop 2 ⟨1500, 0, false⟩ 1300, .tick 300, .poll]

/-- The queue runs empty and is disarmed; a later timer is found due. -/
theorem getExpired_isSome_due :
    ∃ s : State, Reach step DisarmedWhenEmpty (State.init 1000) drainedRun s ∧
      (getExpired s.timers 1600).isSome := by
  have hend : (runIf step DisarmedWhenEmpty (State.init 1000) drainedRun).map
      (fun s => guard s (.handleRead 1600)) = some true := by decide +kernel
  obtain ⟨s, hs, hcall⟩ := Option.map_eq_some_iff.mp hend
  have hrun := reach_of_runIf hs
  exact ⟨s, hrun, getExpired_isSome hrun hcall⟩

end TimerQueue
end Bbkgl
