import Mathlib.Order.MinMax
import Bbkgl.Net.TimerQueue

/-!
# No timer is stranded

Outside `HandleRead` the timerfd is armed for the first entry, give or take the
100 microseconds below which `HowMuchTimeFormNow` does not go. Inside, nothing
of the kind holds, except for entries whose expiration is not valid: `Reset` does
not arm the timerfd for these, and the `AddTimerInLoop` that added the first of
them has.
-/

set_option autoImplicit false

namespace Bbkgl
namespace TimerQueue

open CS CS.Transition

variable {s s' : State} {as : List Action} {timers : OrderedSet Entry} {timer : Ptr → Timer}
  {held : List Entry}

/-- One clock for `Timestamp::now()` and the timerfd. -/
def CommonClock (s : State) : Action → Prop
  | .addTimerInLoop _ _ wall | .handleRead wall | .reset wall => wall = s.clock
  | .tick _ | .poll | .run => True

instance (s : State) (a : Action) : Decidable (CommonClock s a) :=
  match a with
  | .addTimerInLoop _ _ wall | .handleRead wall | .reset wall =>
    inferInstanceAs (Decidable (wall = s.clock))
  | .tick _ | .poll | .run => .isTrue trivial

/-- The timerfd is readable, or armed early enough for every entry. -/
def Served (s : State) : Prop :=
  ∃ d, s.timerfd = some d ∧
    (d ≤ s.clock ∨ ∀ e ∈ s.timers, d ≤ max e.when (s.lastArm + 100))

/-- The key of every entry is its timer's expiration, and a timer that the queue
keeps alive is there once. -/
structure Keyed (timers : OrderedSet Entry) (timer : Ptr → Timer) (held : List Entry) : Prop where
  key : ∀ e ∈ timers, (timer e.ptr).expiration = e.when
  distinct : ((timers.toList ++ held).map Entry.ptr).Nodup

/-! ### Entries and keys -/

theorem Entry.when_le {e f : Entry} (h : e ≤ f) : e.when ≤ f.when := by
  rcases Prod.Lex.le_iff.mp h with hlt | ⟨heq, -⟩
  · exact Int.le_of_lt hlt
  · exact Int.le_of_eq heq

theorem Keyed.drop {e : Entry} (h : Keyed timers timer (e :: held)) : Keyed timers timer held where
  key := h.key
  distinct := h.distinct.sublist
    (((List.sublist_cons_self e held).append_left timers.toList).map Entry.ptr)

/-- The first of the timers held is not in the queue, nor held once more. -/
theorem Keyed.notMem {e : Entry} (h : Keyed timers timer (e :: held)) :
    e.ptr ∉ (timers.toList ++ held).map Entry.ptr := by
  have hperm : (timers.toList ++ e :: held).Perm (e :: (timers.toList ++ held)) :=
    List.perm_middle
  exact (List.nodup_cons.mp ((hperm.map Entry.ptr).nodup_iff.mp h.distinct)).1

/-- A timer whose address is not in use enters the queue. -/
theorem Keyed.insert {p : Ptr} {t : Timer} (h : Keyed timers timer held)
    (hp : p ∉ (timers.toList ++ held).map Entry.ptr) :
    Keyed (timers.insert (Entry.mk t.expiration p)) (Function.update timer p t) held := by
  have hfresh : ∀ e ∈ timers, e.ptr ≠ p := by
    intro e he heq
    exact hp (List.mem_map.mpr ⟨e, List.mem_append_left _ he, heq⟩)
  constructor
  · intro e he
    rcases OrderedSet.mem_insert.mp he with rfl | he
    · exact congrArg Timer.expiration (Function.update_self p t timer)
    · rw [← h.key e he]
      exact congrArg Timer.expiration (Function.update_of_ne (hfresh e he) t timer)
  · have hnew : Entry.mk t.expiration p ∉ timers := fun he => hfresh _ he rfl
    have hperm := ((OrderedSet.toList_insert_perm hnew).append_right held).map Entry.ptr
    exact hperm.nodup_iff.mpr (List.nodup_cons.mpr ⟨hp, h.distinct⟩)

theorem Keyed.reinsert {now : Timestamp} {es : List Entry} (h : Keyed s.timers s.timer es) :
    Keyed (reinsert now es s).timers (reinsert now es s).timer [] := by
  induction es generalizing s with
  | nil => exact h
  | cons e es ih =>
    rw [TimerQueue.reinsert]
    split
    · exact ih (h.drop.insert h.notMem)
    · exact ih h.drop

/-- A restarted timer expires at `now` at the earliest. -/
theorem mem_reinsert {now : Timestamp} {es : List Entry} {f : Entry}
    (hf : f ∈ (reinsert now es s).timers) : f ∈ s.timers ∨ now ≤ f.when := by
  induction es generalizing s with
  | nil => exact Or.inl hf
  | cons e es ih =>
    rw [reinsert] at hf
    split at hf
    · next hrep =>
      rcases ih hf with hmem | hle
      · rcases OrderedSet.mem_insert.mp hmem with rfl | hmem
        · apply Or.inr
          have hexp : ((s.timer e.ptr).restart now).expiration =
              now + ((s.timer e.ptr).interval : ℤ) := by
            simp [Timer.restart, hrep, Timestamp.addTime]
          change now ≤ ((s.timer e.ptr).restart now).expiration
          rw [hexp]
          exact Int.le_add_of_nonneg_right (Int.natCast_nonneg _)
        · exact Or.inl hmem
      · exact Or.inr hle
    · exact ih hf

/-! ### Arming -/

theorem resetTimerfd_timerfd {expiration : Timestamp} :
    (resetTimerfd s expiration s.clock).timerfd = some (max expiration (s.clock + 100)) := by
  rw [resetTimerfd, deadline_howMuchTimeFormNow_self]

theorem lt_of_earliestChanged {when : Timestamp}
    (h : earliestChanged timers when = true) : ∀ e ∈ timers, when < e.when := by
  intro e he
  rw [earliestChanged] at h
  split at h
  · next hnone => exact absurd he (OrderedSet.first?_eq_none_iff.mp hnone e)
  · next f hf =>
    have hlt : when < f.when := by simpa using h
    exact hlt.trans_le (Entry.when_le (OrderedSet.first?_le hf he))

theorem le_of_not_earliestChanged {when : Timestamp}
    (h : ¬ earliestChanged timers when = true) : ∃ e ∈ timers, e.when ≤ when := by
  rw [earliestChanged] at h
  split at h
  · exact absurd rfl h
  · next f hf => exact ⟨f, OrderedSet.first?_mem hf, by simpa using h⟩

/-- What is left in the set is not due before now. -/
theorem le_when_of_getExpired {timers' : OrderedSet Entry} {now : Timestamp}
    {es : List Entry} (h : getExpired timers now = some (es, timers')) :
    ∀ e ∈ timers', now ≤ e.when := by
  intro e he
  obtain ⟨f, -, hf⟩ := Option.map_eq_some_iff.mp h
  obtain ⟨-, rfl⟩ := Prod.mk.inj hf
  exact Entry.when_le (OrderedSet.mem_eraseBelow.mp he).2

/-- `Reset` arms the timerfd for the first entry, if its expiration is valid. -/
theorem rearm_eq {e : Entry} {wall : Timestamp}
    (hkey : ∀ e ∈ s.timers, (s.timer e.ptr).expiration = e.when)
    (hfirst : s.timers.first? = some e) :
    rearm s wall = if 0 < e.when then resetTimerfd s e.when wall else s := by
  simp [rearm, hfirst, hkey e (OrderedSet.first?_mem hfirst), Timestamp.valid]

/-- A queue that has just been armed for its first timer is served. -/
theorem served_of_first {e : Entry} (hfirst : s.timers.first? = some e) :
    Served (resetTimerfd s e.when s.clock) := by
  refine ⟨_, resetTimerfd_timerfd, Or.inr fun f hf => ?_⟩
  exact max_le_max (Entry.when_le (OrderedSet.first?_le hfirst hf)) (Int.le_refl _)

/-! ### The invariant -/

/-- An entry that is not valid can only be in the queue during `HandleRead`, and
the timerfd is then armed for 100 microseconds at most. -/
def InvalidServed (s : State) : Prop :=
  ∀ e ∈ s.timers, e.when ≤ 0 → ∃ d, s.timerfd = some d ∧ d ≤ s.lastArm + 100

/-- Outside `HandleRead` each entry is served; inside, those whose expiration is not valid are. -/
structure ServedInv (s : State) : Prop where
  clock_pos : 0 < s.clock
  keyed : Keyed s.timers s.timer (expired s)
  idle : s.phase = .idle → ∀ e ∈ s.timers, Served s
  handling : ∀ now es rest, s.phase = .handling now es rest → 0 < now ∧ InvalidServed s

theorem servedInv_init {clock : ℤ} (h : 0 < clock) : ServedInv (State.init clock) where
  clock_pos := h
  keyed := ⟨fun e he => absurd he OrderedSet.notMem_empty, List.nodup_nil⟩
  idle _ e he := absurd he OrderedSet.notMem_empty
  handling _ _ _ hphase := by simp [State.init] at hphase

/-- A new entry is either the first one, and the timerfd is armed for it, or not
before one that is served already. -/
theorem served_addTimerInLoop {p : Ptr} {t : Timer} (h : ∀ e ∈ s.timers, Served s) :
    Served (addTimerInLoop s p t s.clock) := by
  rw [addTimerInLoop]
  split
  · next hearly =>
    refine ⟨_, resetTimerfd_timerfd, Or.inr fun e he => max_le_max ?_ (Int.le_refl _)⟩
    rcases OrderedSet.mem_insert.mp he with rfl | he
    · exact Int.le_refl _
    · exact Int.le_of_lt (lt_of_earliestChanged hearly e he)
  · next hlate =>
    obtain ⟨f, hf, hle⟩ := le_of_not_earliestChanged hlate
    obtain ⟨d, hfd, hd⟩ := h f hf
    refine ⟨d, hfd, hd.imp_right fun hall e he => ?_⟩
    rcases OrderedSet.mem_insert.mp he with rfl | he
    · exact (hall f hf).trans (max_le_max hle (Int.le_refl _))
    · exact hall e he

theorem invalidServed_addTimerInLoop {p : Ptr} {t : Timer} (hclock : 0 < s.clock)
    (h : InvalidServed s) : InvalidServed (addTimerInLoop s p t s.clock) := by
  rw [addTimerInLoop]
  split
  · next hearly =>
    intro e he hinvalid
    refine ⟨_, resetTimerfd_timerfd, ?_⟩
    -- the new entry is the earliest, so it is the one that is not valid
    have hle : t.expiration ≤ 0 := by
      rcases OrderedSet.mem_insert.mp he with rfl | he
      · exact hinvalid
      · exact (Int.le_of_lt (lt_of_earliestChanged hearly e he)).trans hinvalid
    have hnonneg : 0 ≤ s.clock + 100 := by omega
    exact Int.le_of_eq (max_eq_right (hle.trans hnonneg))
  · next hlate =>
    obtain ⟨f, hf, hle⟩ := le_of_not_earliestChanged hlate
    intro e he hinvalid
    rcases OrderedSet.mem_insert.mp he with rfl | he
    · exact h f hf (hle.trans hinvalid)
    · exact h e he hinvalid

theorem handleRead_cases (now : Timestamp) :
    ∃ es timers, handleRead s now =
        { readTimerfd s with
          reported := false, timers := timers, phase := .handling now es es } ∧
      es ++ timers.toList = s.timers.toList ∧ ∀ e ∈ timers, now ≤ e.when := by
  rw [handleRead]
  split
  -- the read of an empty set, modelled as one that expires nothing
  · next hnone =>
    have hempty : s.timers.first? = none := by simpa [getExpired] using hnone
    refine ⟨[], s.timers, ?_, rfl, fun e he => ?_⟩
    · rw [readTimerfd]
      split <;> rfl
    · exact absurd he (OrderedSet.first?_eq_none_iff.mp hempty e)
  · next es timers hsome =>
    refine ⟨es, timers, rfl, ?_, le_when_of_getExpired hsome⟩
    obtain ⟨f, -, hf⟩ := Option.map_eq_some_iff.mp hsome
    obtain ⟨rfl, rfl⟩ := Prod.mk.inj hf
    exact OrderedSet.below_append_eraseBelow

/-- The expired timers leave the set and are held by the call. -/
theorem Keyed.handleRead (h : Keyed s.timers s.timer []) (now : Timestamp) :
    Keyed (handleRead s now).timers (handleRead s now).timer (expired (handleRead s now)) := by
  obtain ⟨es, timers, heq, hsplit, -⟩ := handleRead_cases (s := s) now
  rw [heq]
  refine ⟨fun e he => ?_, ?_⟩
  · simp only [readTimerfd_frame.2.1]
    exact h.key e (OrderedSet.mem_toList.mp (hsplit ▸ List.mem_append_right es he))
  · have hperm : (timers.toList ++ es).Perm (s.timers.toList ++ []) := by
      rw [List.append_nil, ← hsplit]
      exact List.perm_append_comm
    exact (hperm.map Entry.ptr).nodup_iff.mpr h.distinct

/-- `HandleRead` keeps the queue served. -/
theorem servedInv_handleRead (h : ServedInv s) (hidle : s.phase = .idle) :
    ServedInv (handleRead s s.clock) := by
  have hkeyed := h.keyed
  rw [expired, hidle] at hkeyed
  have hkeyed' := hkeyed.handleRead s.clock
  obtain ⟨es, timers, heq, -, hle⟩ := handleRead_cases (s := s) s.clock
  obtain ⟨-, -, hclock⟩ := readTimerfd_frame (s := s)
  rw [heq] at hkeyed' ⊢
  refine ⟨hclock.symm ▸ h.clock_pos, hkeyed', by simp, ?_⟩
  · rintro now es' rest hphase
    obtain ⟨rfl, -, -⟩ := Phase.handling.inj hphase
    -- what stays in the set expires at `now` or later, which is positive
    refine ⟨h.clock_pos, fun e he hinvalid => ?_⟩
    exact absurd (hle e he) (Int.not_le.mpr (Int.lt_of_le_of_lt hinvalid h.clock_pos))

/-- `Reset` keeps the queue served. -/
theorem servedInv_reset {now : Timestamp} {es rest : List Entry} (h : ServedInv s)
    (hphase : s.phase = .handling now es rest) :
    ServedInv { rearm (reinsert now es s) s.clock with phase := .idle } := by
  obtain ⟨hnow, hinvalid⟩ := h.handling now es rest hphase
  have hkeyed := h.keyed
  rw [expired, hphase] at hkeyed
  have hre : Keyed (reinsert now es s).timers (reinsert now es s).timer [] := hkeyed.reinsert
  obtain ⟨hfd, -, hclock, harm⟩ := reinsert_frame (s := s) now es
  obtain ⟨htimers, htimer, -, hclock'⟩ := rearm_frame (s := reinsert now es s) s.clock
  refine ⟨by simp only [hclock', hclock]; exact h.clock_pos, ?_, fun _ e he => ?_, by simp⟩
  · simp only [expired, htimers, htimer]
    exact hre
  · rw [htimers] at he
    obtain ⟨f, hf⟩ : ∃ f, (reinsert now es s).timers.first? = some f := by
      by_contra hnone
      have hempty := Option.eq_none_iff_forall_ne_some.mpr fun f hf => hnone ⟨f, hf⟩
      exact OrderedSet.first?_eq_none_iff.mp hempty e he
    rw [rearm_eq hre.key hf]
    split
    · rw [← hclock]
      exact served_of_first hf
    · next hle =>
      have hle := Int.not_lt.mp hle
      have hmem : f ∈ s.timers := by
        refine (mem_reinsert (OrderedSet.first?_mem hf)).resolve_right fun hlate => ?_
        exact absurd (Int.lt_of_lt_of_le hnow (hlate.trans hle)) (Int.lt_irrefl _)
      obtain ⟨d, hd, hdle⟩ := hinvalid f hmem hle
      refine ⟨d, hfd.trans hd, Or.inr fun g _ => ?_⟩
      exact (hdle.trans (Int.le_of_eq (by rw [harm]))).trans (le_max_right _ _)

/-- The step lemma of `ServedInv`. -/
theorem servedInv_step {a : Action} (h : ServedInv s) (hok : CommonClock s a)
    (hstep : step s a = some s') : ServedInv s' := by
  obtain ⟨hg, rfl⟩ := guarded_eq_some_iff.mp hstep
  cases a with
  | tick d =>
    refine ⟨by have := h.clock_pos; simp only [effect]; omega, h.keyed, fun hidle e he => ?_,
      h.handling⟩
    obtain ⟨d', hfd, hd⟩ := h.idle hidle e he
    have hlater : s.clock ≤ s.clock + (d : ℤ) := Int.le_add_of_nonneg_right (Int.natCast_nonneg _)
    exact ⟨d', hfd, hd.imp_left fun hle => hle.trans hlater⟩
  | poll => exact ⟨h.clock_pos, h.keyed, h.idle, h.handling⟩
  | addTimerInLoop p t wall =>
    obtain rfl : wall = s.clock := hok
    obtain ⟨htimers, htimer, hphase, -, hclock⟩ := addTimerInLoop_frame (s := s) p t s.clock
    have hfresh : p ∉ live s := by simpa [guard] using hg
    have hkeyed := h.keyed.insert (t := t) hfresh
    refine ⟨hclock.symm ▸ h.clock_pos, ?_, ?_, ?_⟩
    · simp only [effect, expired, hphase, htimers, htimer]
      exact hkeyed
    · intro hidle _ _
      exact served_addTimerInLoop (h.idle (hphase ▸ hidle))
    · intro now es rest hhandling
      obtain ⟨hnow, hinvalid⟩ := h.handling now es rest (hphase ▸ hhandling)
      exact ⟨hnow, invalidServed_addTimerInLoop h.clock_pos hinvalid⟩
  | handleRead wall =>
    obtain rfl : wall = s.clock := hok
    simp only [guard, Bool.and_eq_true, decide_eq_true_eq] at hg
    exact servedInv_handleRead h hg.1
  | run =>
    simp only [guard] at hg
    split at hg
    · simp at hg
    · next now es rest hphase =>
      have hkeyed := h.keyed
      rw [expired, hphase] at hkeyed
      simp only [effect, hphase]
      refine ⟨h.clock_pos, hkeyed, by simp, fun now' es' rest' heq => ?_⟩
      obtain ⟨rfl, -, -⟩ := Phase.handling.inj heq
      exact h.handling _ _ _ hphase
  | reset wall =>
    obtain rfl : wall = s.clock := hok
    simp only [guard] at hg
    split at hg
    · simp at hg
    · next now es rest hphase =>
      simp only [effect, hphase]
      exact servedInv_reset h hphase

/-- **No timer is stranded.** With one positive clock for all, whenever the
loop's thread is outside `HandleRead` and the queue is not empty, the timerfd is
readable or armed for a deadline that is no later than each expiration, or than
100 microseconds after it was last armed. -/
theorem served_of_idle {clock : ℤ} (hclock : 0 < clock)
    (hrun : Reach step CommonClock (State.init clock) as s) (hidle : s.phase = .idle)
    (hne : s.timers.toList ≠ []) :
    ∃ d, s.timerfd = some d ∧
      (d ≤ s.clock ∨ ∀ e ∈ s.timers.toList, d ≤ max e.when (s.lastArm + 100)) := by
  have hinv : ServedInv s :=
    hrun.invariant (servedInv_init hclock) fun _ h hok hstep => servedInv_step h hok hstep
  obtain ⟨e, he⟩ := List.exists_mem_of_ne_nil _ hne
  exact hinv.idle hidle e he

/-- A callback adds a timer with an invalid expiration. -/
theorem served_of_idle_invalid :
    ∃ s : State,
      Reach step CommonClock (State.init 1000)
        [.addTimerInLoop 1 ⟨1200, 0, false⟩ 1000, .tick 300, .poll, .handleRead 1300, .run,
          .addTimerInLoop 2 ⟨-5, 0, false⟩ 1300, .reset 1300] s ∧
      ∃ d, s.timerfd = some d ∧
        (d ≤ s.clock ∨ ∀ e ∈ s.timers.toList, d ≤ max e.when (s.lastArm + 100)) := by
  have hrun : Reach step CommonClock (State.init 1000)
      [.addTimerInLoop 1 ⟨1200, 0, false⟩ 1000, .tick 300, .poll, .handleRead 1300, .run,
        .addTimerInLoop 2 ⟨-5, 0, false⟩ 1300, .reset 1300] _ := reach_of_runIf rfl
  exact ⟨_, hrun, served_of_idle (by decide) hrun rfl (by decide)⟩

end TimerQueue
end Bbkgl
