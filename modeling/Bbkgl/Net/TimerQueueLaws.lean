import Mathlib.Data.List.Nodup
import Bbkgl.Net.TimerQueueHistory

/-!
# The firing law, and the conservation of timers

Between two calls of `HandleRead` every timer that was added is in the set once,
unless it has run for the only time. During a call the expired timers are in a
vector of the call; their keys stay what they were until `Reset`.
-/

set_option autoImplicit false

namespace Bbkgl
namespace TimerQueue

open CS CS.Transition

variable {s s' : State} {h : History} {q : State × History} {now wall : Timestamp} {p : Ptr}
  {t : Timer} {n : ℕ} {e f : Entry} {es rest : List Entry} {a : Action} {as : List Action}

theorem le_addTime {interval : ℕ} : now ≤ now.addTime interval :=
  Int.le_add_of_nonneg_right (Int.natCast_nonneg _)

/-! ### The loop of `Reset` -/

/-- A restart changes the expiration alone. -/
theorem update_restart (now : Timestamp) (p p' : Ptr) :
    (Function.update s.timer p ((s.timer p).restart now) p').repeats = (s.timer p').repeats ∧
      (Function.update s.timer p ((s.timer p).restart now) p').interval =
        (s.timer p').interval := by
  by_cases hp : p' = p
  · rw [hp, Function.update_self]
    exact ⟨rfl, rfl⟩
  · rw [Function.update_of_ne hp]
    exact ⟨rfl, rfl⟩

theorem restart_expiration (ht : t.repeats = true) :
    (t.restart now).expiration = now.addTime t.interval := by
  rw [Timer.restart]
  exact if_pos ht

theorem reinsert_timer (now : Timestamp) (es : List Entry) (p' : Ptr) :
    ((reinsert now es s).timer p').repeats = (s.timer p').repeats ∧
      ((reinsert now es s).timer p').interval = (s.timer p').interval := by
  induction es generalizing s with
  | nil => exact ⟨rfl, rfl⟩
  | cons e es ih =>
    rw [reinsert]
    split
    · obtain ⟨hrepeats, hinterval⟩ := update_restart (s := s) now e.ptr p'
      exact ⟨ih.1.trans hrepeats, ih.2.trans hinterval⟩
    · exact ih

/-- What `Reset` leaves in the set: what was there, and the expired timers that
repeat, each an interval later than the clock reading. -/
theorem mem_reinsert_iff :
    f ∈ (reinsert now es s).timers ↔ f ∈ s.timers ∨ ∃ e ∈ es, (s.timer e.ptr).repeats = true ∧
      f = Entry.mk (now.addTime (s.timer e.ptr).interval) e.ptr := by
  induction es generalizing s with
  | nil => simp [reinsert]
  | cons e es ih =>
    rw [reinsert]
    simp only [List.mem_cons, or_and_right, exists_or, exists_eq_left]
    split
    · next hrep =>
      -- a timer restarted by this round keeps its interval for the later ones
      rw [ih, OrderedSet.mem_insert, restart_expiration hrep]
      simp only [update_restart, hrep, true_and]
      rw [or_assoc, or_left_comm]
    · next hrep =>
      rw [ih]
      simp only [hrep, Bool.false_eq_true, false_and, false_or]

/-- `Insert` finds none of the timers that it is given in the set. -/
theorem insertsNew_of_keyed (hkeyed : Keyed s.timers s.timer es) : insertsNew now es s = true := by
  induction es generalizing s with
  | nil => rfl
  | cons e es ih =>
    rw [insertsNew]
    split
    · rw [Bool.and_eq_true, decide_eq_true_eq]
      refine ⟨fun hmem => ?_, ih (hkeyed.drop.insert hkeyed.notMem)⟩
      exact hkeyed.notMem (List.mem_map.mpr ⟨_, List.mem_append_left _ hmem, rfl⟩)
    · exact ih hkeyed.drop

/-! ### The invariant -/

/-- The timers of the queue and the numbers of the history agree, and each of them waits for its
next run. -/
structure HistoryInv (s : State) (h : History) : Prop where
  keyed : Keyed s.timers s.timer (expired s)
  held : ∀ e ∈ expired s, (s.timer e.ptr).expiration = e.when
  number_lt : ∀ p ∈ live s, h.number p < h.added
  inj : ∀ p ∈ live s, ∀ p' ∈ live s, h.number p = h.number p' → p = p'
  made : ∀ p ∈ live s, (s.timer p).repeats = (h.made (h.number p)).repeats ∧
    (s.timer p).interval = (h.made (h.number p)).interval
  lawful : h.Lawful
  born : ∀ e ∈ s.timers, h.birth (h.number e.ptr) ≤ h.calls.length
  waits : ∀ e ∈ s.timers, h.Waits (h.number e.ptr) e.when
  conserved : ∀ n < h.added, ((h.made n).repeats = true ∨ ∀ r ∈ h.runs, r.number ≠ n) →
    ∃ p ∈ live s, h.number p = n
  handling : ∀ now es rest, s.phase = .handling now es rest → h.Handles now es rest
  inserted : h.inserted = true

theorem mem_live : p ∈ live s ↔ (∃ e ∈ s.timers, e.ptr = p) ∨ ∃ e ∈ expired s, e.ptr = p := by
  rw [live, List.map_append, List.mem_append, List.mem_map, List.mem_map]
  rfl

theorem historyInv_init {clock : ℤ} : HistoryInv (State.init clock) .init where
  keyed := ⟨fun e he => absurd he OrderedSet.notMem_empty, List.nodup_nil⟩
  held e he := absurd he List.not_mem_nil
  number_lt p hp := absurd hp List.not_mem_nil
  inj p hp := absurd hp List.not_mem_nil
  made p hp := absurd hp List.not_mem_nil
  lawful := History.lawful_init
  born e he := absurd he OrderedSet.notMem_empty
  waits e he := absurd he OrderedSet.notMem_empty
  conserved n hn := absurd hn (Nat.not_lt_zero n)
  handling _ _ _ hphase := by simp [State.init] at hphase
  inserted := rfl

theorem live_addTimerInLoop {p' : Ptr} :
    p' ∈ live (addTimerInLoop s p t wall) ↔ p' = p ∨ p' ∈ live s := by
  obtain ⟨htimers, -, hphase, -⟩ := addTimerInLoop_frame (s := s) p t wall
  have hexpired : expired (addTimerInLoop s p t wall) = expired s := by
    rw [expired, expired, hphase]
  rw [mem_live, mem_live, hexpired, htimers, ← or_assoc]
  refine or_congr_left ?_
  constructor
  · rintro ⟨e, he, rfl⟩
    rcases OrderedSet.mem_insert.mp he with rfl | he
    · exact Or.inl rfl
    · exact Or.inr ⟨e, he, rfl⟩
  · rintro (rfl | ⟨e, he, rfl⟩)
    · exact ⟨_, OrderedSet.mem_insert.mpr (Or.inl rfl), rfl⟩
    · exact ⟨e, OrderedSet.mem_insert.mpr (Or.inr he), rfl⟩

theorem ne_of_mem_live {p' : Ptr} (hp : p ∉ live s) (hp' : p' ∈ live s) : p' ≠ p :=
  fun heq => hp (heq ▸ hp')

/-- A new timer keeps the history. -/
theorem historyInv_addTimerInLoop (hi : HistoryInv s h) (hp : p ∉ live s) :
    HistoryInv (addTimerInLoop s p t wall) (record s h (.addTimerInLoop p t wall)) := by
  obtain ⟨htimers, htimer, hphase, -⟩ := addTimerInLoop_frame (s := s) p t wall
  have hexpired : expired (addTimerInLoop s p t wall) = expired s := by
    rw [expired, expired, hphase]
  have hnumber {p' : Ptr} (hp' : p' ∈ live s) : (h.add p t).number p' = h.number p' :=
    History.add_number (ne_of_mem_live hp hp')
  have hnew : (h.add p t).number p = h.added := Function.update_self ..
  have hmade : (h.add p t).made h.added = t := Function.update_self ..
  constructor
  · rw [hexpired, htimers, htimer]
    exact hi.keyed.insert hp
  · intro e he
    rw [hexpired] at he
    have hlive : e.ptr ∈ live s := mem_live.mpr (Or.inr ⟨e, he, rfl⟩)
    rw [htimer, Function.update_of_ne (ne_of_mem_live hp hlive)]
    exact hi.held e he
  · intro p' hp'
    rcases live_addTimerInLoop.mp hp' with rfl | hp'
    · exact hnew ▸ Nat.lt_succ_self _
    · exact hnumber hp' ▸ (hi.number_lt p' hp').trans (Nat.lt_succ_self _)
  · intro p' hp' p'' hp'' heq
    simp only [record] at heq
    rcases live_addTimerInLoop.mp hp' with rfl | hold
    · rcases live_addTimerInLoop.mp hp'' with rfl | hold'
      · rfl
      · rw [hnew, hnumber hold'] at heq
        exact absurd heq.symm (hi.number_lt p'' hold').ne
    · rcases live_addTimerInLoop.mp hp'' with rfl | hold'
      · rw [hnew, hnumber hold] at heq
        exact absurd heq (hi.number_lt p' hold).ne
      · rw [hnumber hold, hnumber hold'] at heq
        exact hi.inj p' hold p'' hold' heq
  · intro p' hp'
    simp only [record]
    rcases live_addTimerInLoop.mp hp' with rfl | hold
    · rw [hnew, hmade, htimer, Function.update_self]
      exact ⟨rfl, rfl⟩
    · rw [hnumber hold, History.add_made (hi.number_lt p' hold), htimer,
        Function.update_of_ne (ne_of_mem_live hp hold)]
      exact hi.made p' hold
  · exact hi.lawful.add.setInserted _
  · intro e he
    rw [htimers] at he
    simp only [record]
    rcases OrderedSet.mem_insert.mp he with rfl | he
    · exact Nat.le_of_eq ((congrArg _ hnew).trans (Function.update_self ..))
    · have hlive : e.ptr ∈ live s := mem_live.mpr (Or.inl ⟨e, he, rfl⟩)
      rw [hnumber hlive, History.add_birth (hi.number_lt _ hlive)]
      exact hi.born e he
  · intro e he
    rw [htimers] at he
    rcases OrderedSet.mem_insert.mp he with rfl | he
    · have hwaits : (h.add p t).Waits ((h.add p t).number p) t.expiration :=
        hnew.symm ▸ hi.lawful.waits_new
      exact hwaits
    · have hlive : e.ptr ∈ live s := mem_live.mpr (Or.inl ⟨e, he, rfl⟩)
      have hwaits : (h.add p t).Waits ((h.add p t).number e.ptr) e.when :=
        (hnumber hlive).symm ▸ (hi.waits e he).add (hi.number_lt _ hlive)
      exact hwaits
  · intro n hn hruns
    rcases Nat.lt_succ_iff_lt_or_eq.mp hn with hlt | rfl
    · have hmade : (h.add p t).made n = h.made n := History.add_made hlt
      obtain ⟨p', hp', heq⟩ := hi.conserved n hlt (hruns.imp_left fun hrep => hmade ▸ hrep)
      exact ⟨p', live_addTimerInLoop.mpr (Or.inr hp'), (hnumber hp').trans heq⟩
    · exact ⟨p, live_addTimerInLoop.mpr (Or.inl rfl), hnew⟩
  · intro now es rest hhandling
    rw [hphase] at hhandling
    have hes : ∀ e ∈ es, e.ptr ≠ p ∧ h.number e.ptr < h.added := by
      intro e he
      have hlive : e.ptr ∈ live s :=
        mem_live.mpr (Or.inr ⟨e, by rw [expired, hhandling]; exact he, rfl⟩)
      exact ⟨ne_of_mem_live hp hlive, hi.number_lt _ hlive⟩
    exact ((hi.handling now es rest hhandling).add hes).setInserted _
  · simp only [record, hi.inserted, Bool.true_and, decide_eq_true_eq]
    exact fun hmem => hp (mem_live.mpr (Or.inl ⟨_, hmem, rfl⟩))

/-! `HandleRead` begins: nothing is added or lost, and each expired timer is due. -/

/-- `HandleRead` splits the set. -/
theorem mem_handleRead :
    e ∈ s.timers ↔ e ∈ expired (handleRead s now) ∨ e ∈ (handleRead s now).timers := by
  obtain ⟨es, timers, heq, hsplit, -⟩ := handleRead_cases (s := s) now
  rw [heq, ← OrderedSet.mem_toList, ← hsplit, List.mem_append]
  exact Iff.rfl

theorem live_handleRead (hidle : s.phase = .idle) : p ∈ live (handleRead s now) ↔ p ∈ live s := by
  have hexpired : expired s = [] := by rw [expired, hidle]
  rw [mem_live, mem_live, hexpired]
  constructor
  · rintro (⟨e, he, hp⟩ | ⟨e, he, hp⟩)
    · exact Or.inl ⟨e, mem_handleRead.mpr (Or.inr he), hp⟩
    · exact Or.inl ⟨e, mem_handleRead.mpr (Or.inl he), hp⟩
  · rintro (⟨e, he, hp⟩ | ⟨e, he, -⟩)
    · rcases mem_handleRead.mp he with he | he
      · exact Or.inr ⟨e, he, hp⟩
      · exact Or.inl ⟨e, he, hp⟩
    · exact absurd he List.not_mem_nil

theorem expired_handleRead_sorted :
    (expired (handleRead s now)).Pairwise fun e f => e.when ≤ f.when := by
  obtain ⟨es, timers, heq, hsplit, -⟩ := handleRead_cases (s := s) now
  have hsorted := s.timers.sorted
  rw [← hsplit] at hsorted
  rw [heq]
  exact (List.pairwise_append.mp hsorted).1.imp fun hlt => Entry.when_le hlt.le

/-- What it takes out is due. -/
theorem expired_handleRead_due (he : e ∈ expired (handleRead s now)) : e.when ≤ now := by
  rw [handleRead] at he
  split at he
  · exact absurd he List.not_mem_nil
  · next es timers hsome =>
    obtain ⟨f, -, hf⟩ := Option.map_eq_some_iff.mp hsome
    obtain ⟨rfl, rfl⟩ := Prod.mk.inj hf
    exact Entry.when_le (OrderedSet.lt_of_mem_below he).le

/-- The split keeps the history. -/
theorem historyInv_handleRead (hi : HistoryInv s h) (hidle : s.phase = .idle) :
    HistoryInv (handleRead s now) (record s h (.handleRead now)) := by
  have hexpired : expired s = [] := by rw [expired, hidle]
  have hkeyed := (hexpired ▸ hi.keyed).handleRead now
  obtain ⟨es, timers, heq, -⟩ := handleRead_cases (s := s) now
  have htimer : (handleRead s now).timer = s.timer := by
    rw [heq]
    exact readTimerfd_frame.2.1
  have hlive {p : Ptr} : p ∈ live (handleRead s now) ↔ p ∈ live s := live_handleRead hidle
  have hold {e : Entry} (he : e ∈ expired (handleRead s now)) : e ∈ s.timers :=
    mem_handleRead.mpr (Or.inl he)
  have hphase : (handleRead s now).phase = .handling now es es := by rw [heq]
  have hes : expired (handleRead s now) = es := by rw [expired, hphase]
  constructor
  · exact hkeyed
  · intro e he
    rw [htimer]
    exact hi.keyed.key e (hold he)
  · exact fun p hp => hi.number_lt p (hlive.mp hp)
  · exact fun p hp p' hp' => hi.inj p (hlive.mp hp) p' (hlive.mp hp')
  · intro p hp
    rw [htimer]
    exact hi.made p (hlive.mp hp)
  · exact hi.lawful.call
  · intro e he
    refine (hi.born e (mem_handleRead.mpr (Or.inr he))).trans ?_
    simp [record]
  · exact fun e he => hi.waits e (mem_handleRead.mpr (Or.inr he))
  · intro n hn hruns
    obtain ⟨p, hp, hnumber⟩ := hi.conserved n hn hruns
    exact ⟨p, hlive.mpr hp, hnumber⟩
  · intro now' es' rest hhandling
    obtain ⟨rfl, rfl, rfl⟩ := Phase.handling.inj (hphase.symm.trans hhandling)
    have hlength : (h.calls ++ [now]).length = h.calls.length + 1 := List.length_append
    refine ⟨⟨[], rfl⟩, List.getLast?_concat, hes ▸ expired_handleRead_sorted,
      fun e he => expired_handleRead_due (hes.symm ▸ he), fun e he => ?_,
      fun e he => hi.waits e (hold (hes.symm ▸ he)), fun e he r hr hnumber => ?_,
      fun r hr hcall => ?_, fun e he => Or.inl he⟩
    · simp only [record, hlength]
      exact Nat.lt_succ_of_le (hi.born e (hold (hes.symm ▸ he)))
    · obtain ⟨-, hle⟩ := hi.waits e (hold (hes.symm ▸ he)) r hr hnumber
      have hdue : e.when ≤ now := expired_handleRead_due (hes.symm ▸ he)
      exact le_addTime.trans (hle.trans hdue)
    · have hlt := (List.getElem?_eq_some_iff.mp (hi.lawful.reading r hr)).1
      simp only [record, hlength] at hcall
      omega
  · exact hi.inserted

/-! A callback runs. -/

/-- The timers held are others than those in the set, and each is held once. -/
theorem HistoryInv.number_ne (hi : HistoryInv s h) (hphase : s.phase = .handling now es (e :: rest))
    (hf : f ∈ s.timers ∨ f ∈ rest) : h.number e.ptr ≠ h.number f.ptr := by
  obtain ⟨done, hsplit⟩ := (hi.handling now es _ hphase).split
  have hexpired : expired s = es := by rw [expired, hphase]
  have hrest : f ∈ rest → f ∈ es := fun hf =>
    hsplit ▸ List.mem_append_right done (List.mem_cons_of_mem e hf)
  have he : e ∈ es := hsplit ▸ List.mem_append_right done List.mem_cons_self
  have hlive : e.ptr ∈ live s := mem_live.mpr (Or.inr ⟨e, hexpired ▸ he, rfl⟩)
  have hlive' : f.ptr ∈ live s := mem_live.mpr <| hf.imp (fun hf => ⟨f, hf, rfl⟩)
    fun hf => ⟨f, hexpired ▸ hrest hf, rfl⟩
  have hdistinct := hi.keyed.distinct
  rw [hexpired, List.map_append, List.nodup_append] at hdistinct
  obtain ⟨-, hes, hdisjoint⟩ := hdistinct
  intro hnumber
  have hptr : e.ptr = f.ptr := hi.inj _ hlive _ hlive' hnumber
  rcases hf with hf | hf
  · exact hdisjoint f.ptr (List.mem_map.mpr ⟨f, hf, rfl⟩) e.ptr (List.mem_map.mpr ⟨e, he, rfl⟩)
      hptr.symm
  · rw [hsplit, List.map_append, List.nodup_append, List.map_cons, List.nodup_cons] at hes
    exact hes.2.1.1 (List.mem_map.mpr ⟨f, hf, hptr.symm⟩)

/-- A callback keeps the history. -/
theorem historyInv_run (hi : HistoryInv s h) (hphase : s.phase = .handling now es (e :: rest)) :
    HistoryInv { s with phase := .handling now es rest } (h.ran now e.ptr (s.timer e.ptr)) := by
  have hh := hi.handling now es _ hphase
  obtain ⟨done, hsplit⟩ := hh.split
  have hexpired : expired s = es := by rw [expired, hphase]
  have he : e ∈ expired s := hexpired ▸ hsplit ▸ List.mem_append_right done List.mem_cons_self
  have hlive : live { s with phase := .handling now es rest } = live s := by
    rw [live, live, hexpired]
    rfl
  have hkey := hi.held e he
  have hnumber := hi.number_lt e.ptr (mem_live.mpr (Or.inr ⟨e, he, rfl⟩))
  constructor
  · exact hexpired ▸ hi.keyed
  · exact hexpired ▸ hi.held
  · exact hlive ▸ hi.number_lt
  · exact hlive ▸ hi.inj
  · exact hlive ▸ hi.made
  · exact hh.lawful_ran hi.lawful hnumber hkey
  · exact hi.born
  · exact fun f hf => (hi.waits f hf).ran (hi.number_ne hphase (Or.inl hf))
  · intro n hn hruns
    refine hlive ▸ hi.conserved n hn (hruns.imp_right fun hall r hr => ?_)
    exact hall r (List.mem_append_left _ hr)
  · intro now' es' rest' hhandling
    obtain ⟨rfl, rfl, rfl⟩ := Phase.handling.inj hhandling
    exact hh.ran_cons (fun f hf => hi.number_ne hphase (Or.inr hf)) hkey
  · exact hi.inserted

/-! `Reset`: the expired timers have all run, and those that repeat return. -/

/-- The re-insertion keeps the history. -/
theorem historyInv_reset (hi : HistoryInv s h) (hphase : s.phase = .handling now es []) :
    HistoryInv { rearm (reinsert now es s) wall with phase := .idle }
      { h with inserted := h.inserted && insertsNew now es s } := by
  have hh := hi.handling now es _ hphase
  have hexpired : expired s = es := by rw [expired, hphase]
  have hkeyed : Keyed s.timers s.timer es := hexpired ▸ hi.keyed
  obtain ⟨htimers, htimer, -⟩ := rearm_frame (s := reinsert now es s) wall
  have hlive {p : Ptr} (hp : p ∈ live { rearm (reinsert now es s) wall with phase := .idle }) :
      p ∈ live s := by
    rcases mem_live.mp hp with ⟨f, hf, rfl⟩ | ⟨f, hf, -⟩
    · simp only [htimers] at hf
      rcases mem_reinsert_iff.mp hf with hf | ⟨e, he, -, rfl⟩
      · exact mem_live.mpr (Or.inl ⟨f, hf, rfl⟩)
      · exact mem_live.mpr (Or.inr ⟨e, hexpired ▸ he, rfl⟩)
    · exact absurd hf List.not_mem_nil
  have hmade {e : Entry} (he : e ∈ es) :=
    hi.made e.ptr (mem_live.mpr (Or.inr ⟨e, hexpired ▸ he, rfl⟩))
  constructor
  · simp only [htimers, htimer]
    exact hkeyed.reinsert
  · exact fun e he => absurd he List.not_mem_nil
  · exact fun p hp => hi.number_lt p (hlive hp)
  · exact fun p hp p' hp' => hi.inj p (hlive hp) p' (hlive hp')
  · intro p hp
    obtain ⟨hrepeats, hinterval⟩ := reinsert_timer (s := s) now es p
    simp only [htimer]
    rw [hrepeats, hinterval]
    exact hi.made p (hlive hp)
  · exact hi.lawful.setInserted _
  · intro f hf
    simp only [htimers] at hf
    rcases mem_reinsert_iff.mp hf with hf | ⟨e, he, -, rfl⟩
    · exact hi.born f hf
    · exact (hh.born e he).le
  · intro f hf r hr hnumber
    simp only [htimers] at hf
    rcases mem_reinsert_iff.mp hf with hf | ⟨e, he, hrep, rfl⟩
    · exact hi.waits f hf r hr hnumber
    · obtain ⟨hrepeats, hinterval⟩ := hmade he
      refine ⟨hrepeats.symm.trans hrep, ?_⟩
      have hle : r.now ≤ now := hh.before e he r hr hnumber
      exact Int.add_le_add hle (Int.le_of_eq (congrArg Int.ofNat hinterval.symm))
  · intro n hn hruns
    obtain ⟨p, hp, hnumber⟩ := hi.conserved n hn hruns
    refine ⟨p, mem_live.mpr (Or.inl ?_), hnumber⟩
    simp only [htimers]
    rcases mem_live.mp hp with ⟨f, hf, rfl⟩ | ⟨e, he, rfl⟩
    · exact ⟨f, mem_reinsert_iff.mpr (Or.inl hf), rfl⟩
    · have he : e ∈ es := hexpired ▸ he
      obtain ⟨r, hr, hran⟩ := (hh.ran e he).resolve_left List.not_mem_nil
      have hrep : (h.made n).repeats = true :=
        hruns.resolve_right fun hall => hall r hr (hran.trans hnumber)
      have hrep : (s.timer e.ptr).repeats = true := by
        rw [(hmade he).1, hnumber]
        exact hrep
      exact ⟨_, mem_reinsert_iff.mpr (Or.inr ⟨e, he, hrep, rfl⟩), rfl⟩
  · exact fun now es rest hhandling => Phase.noConfusion hhandling
  · simp only [hi.inserted, Bool.true_and]
    exact insertsNew_of_keyed hkeyed

/-- The step lemma of `HistoryInv`. -/
theorem historyInv_step {q' : State × History} (hi : HistoryInv q.1 q.2)
    (hstep : recordedStep q a = some q') : HistoryInv q'.1 q'.2 := by
  obtain ⟨hstep, hrecord⟩ := recorded_eq_some_iff.mp hstep
  obtain ⟨hguard, heffect⟩ := guarded_eq_some_iff.mp hstep
  rw [← hrecord, ← heffect]
  cases a with
  | tick d =>
    exact ⟨hi.keyed, hi.held, hi.number_lt, hi.inj, hi.made, hi.lawful, hi.born, hi.waits,
      hi.conserved, hi.handling, hi.inserted⟩
  | poll =>
    exact ⟨hi.keyed, hi.held, hi.number_lt, hi.inj, hi.made, hi.lawful, hi.born, hi.waits,
      hi.conserved, hi.handling, hi.inserted⟩
  | addTimerInLoop p t wall => exact historyInv_addTimerInLoop hi (of_decide_eq_true hguard)
  | handleRead wall => exact historyInv_handleRead hi (of_decide_eq_true hguard)
  | run =>
    simp only [freeGuard, guard] at hguard
    split at hguard
    · cases hguard
    · next now es rest hphase =>
      obtain _ | ⟨e, rest⟩ := rest
      · cases hguard
      · simp only [record, effect, hphase]
        exact historyInv_run hi hphase
  | reset wall =>
    simp only [freeGuard, guard] at hguard
    split at hguard
    · cases hguard
    · next now es rest hphase =>
      obtain rfl := List.isEmpty_iff.mp hguard
      simp only [record, effect, hphase]
      exact historyInv_reset hi hphase

theorem historyInv_of_reach {clock : ℤ}
    (hrun : Reach recordedStep Always (State.init clock, .init) as (s, h)) : HistoryInv s h :=
  hrun.invariant (I := fun q => HistoryInv q.1 q.2) historyInv_init
    fun _ hi _ hstep => historyInv_step hi hstep

/-- Every run of the queue in its loop has a record. -/
theorem exists_history {clock : ℤ} {ok : State → Action → Prop}
    (hrun : Reach step ok (State.init clock) as s) :
    ∃ h, Reach recordedStep Always (State.init clock, .init) as (s, h) := by
  have hfree : Reach freeStep Always (State.init clock) as s :=
    hrun.mono fun _ _ _ _ hstep => ⟨trivial, freeStep_of_step hstep⟩
  exact hfree.exists_record History.init

/-! ### The two laws -/

/-- **Firing.** A callback runs in a `HandleRead` whose clock reading is not before
the expiration; a timer that does not repeat runs at most once, and one that does
runs an interval later each time, by the readings; and within one `HandleRead`
callbacks run in the order of their expirations, each at most once, and only those
of timers added before the call. -/
theorem firing_law {clock : ℤ}
    (hrun : Reach recordedStep Always (State.init clock, .init) as (s, h)) :
    (∀ r ∈ h.runs, h.calls[r.call]? = some r.now ∧ r.expiration ≤ r.now) ∧
    (∀ n, (h.made n).repeats = false → (h.runs.map Run.number).count n ≤ 1) ∧
    (h.runs.Pairwise fun r r' => r.number = r'.number →
      r.now.addTime (h.made r.number).interval ≤ r'.now) ∧
    (h.runs.Pairwise fun r r' => r.call = r'.call →
      r.expiration ≤ r'.expiration ∧ r.number ≠ r'.number) ∧
    ∀ r ∈ h.runs, h.birth r.number ≤ r.call := by
  have hl := (historyInv_of_reach hrun).lawful
  refine ⟨fun r hr => ⟨hl.reading r hr, hl.due r hr⟩, fun n hn => ?_,
    hl.spaced.imp fun hspaced heq => (hspaced heq).2, hl.ordered, hl.born⟩
  by_contra hcount
  have htwice : [n, n].Sublist (h.runs.map Run.number) :=
    List.replicate_sublist_iff.mpr (Nat.lt_of_not_le hcount)
  have hspaced : (h.runs.map Run.number).Pairwise fun n n' =>
      n = n' → (h.made n).repeats = true :=
    List.pairwise_map.mpr (hl.spaced.imp fun hspaced heq => (hspaced heq).1)
  have hrepeats := List.pairwise_pair.mp (hspaced.sublist htwice) rfl
  rw [hn] at hrepeats
  cases hrepeats

/-- A repeating timer and a one-shot timer that its first run adds, with a clock
that goes back in between. -/
def backwardsRun : List Action :=
  [.addTimerInLoop 1 ⟨1200, 50, true⟩ 1000, .handleRead 1300, .run,
    .addTimerInLoop 2 ⟨-5, 0, false⟩ 1300, .reset 1300, .handleRead 1100, .run, .reset 1100,
    .handleRead 1400, .run, .reset 1400]

/-- The clock goes back between two calls. -/
theorem firing_law_backwardsRun :
    ∃ s h, Reach recordedStep Always (State.init 1000, .init) backwardsRun (s, h) ∧
      h.runs.map Run.number = [0, 1, 0] ∧ ∀ r ∈ h.runs, h.birth r.number ≤ r.call := by
  have hrun : Reach recordedStep Always (State.init 1000, .init) backwardsRun _ := reach_of_run rfl
  obtain ⟨-, -, -, -, hborn⟩ := firing_law hrun
  exact ⟨_, _, hrun, rfl, hborn⟩

/-- **Conservation.** Outside `HandleRead` every timer that was added is in the set
exactly once if it repeats or has not run yet, and otherwise not at all. Every
entry of the set has the expiration of its timer for its key, at all times, and no
`Insert` finds its entry there. -/
theorem timers_conserved {clock : ℤ}
    (hrun : Reach recordedStep Always (State.init clock, .init) as (s, h)) :
    (s.phase = .idle → ∀ n < h.added,
      (s.timers.toList.map fun e => h.number e.ptr).count n =
        if (h.made n).repeats = true ∨ ∀ r ∈ h.runs, r.number ≠ n then 1 else 0) ∧
    (∀ e ∈ s.timers.toList, e.when = (s.timer e.ptr).expiration) ∧ h.inserted = true := by
  have hi := historyInv_of_reach hrun
  refine ⟨fun hidle n hn => ?_, fun e he => (hi.keyed.key e he).symm, hi.inserted⟩
  have hexpired : expired s = [] := by rw [expired, hidle]
  have hmem {e : Entry} (he : e ∈ s.timers) : e.ptr ∈ live s := mem_live.mpr (Or.inl ⟨e, he, rfl⟩)
  have hptrs : (s.timers.toList.map Entry.ptr).Nodup := by
    have hdistinct := hi.keyed.distinct
    rwa [hexpired, List.append_nil] at hdistinct
  have hnodup : (s.timers.toList.map fun e => h.number e.ptr).Nodup := by
    refine s.timers.nodup.map_on fun e he f hf hnumber => ?_
    exact List.inj_on_of_nodup_map hptrs he hf (hi.inj _ (hmem he) _ (hmem hf) hnumber)
  rw [hnodup.count]
  refine if_congr ?_ rfl rfl
  rw [List.mem_map]
  constructor
  · rintro ⟨e, he, rfl⟩
    by_cases hruns : ∀ r ∈ h.runs, r.number ≠ h.number e.ptr
    · exact Or.inr hruns
    · push Not at hruns
      obtain ⟨r, hr, hnumber⟩ := hruns
      exact Or.inl (hi.waits e he r hr hnumber).1
  · intro hruns
    obtain ⟨p, hp, hnumber⟩ := hi.conserved n hn hruns
    rcases mem_live.mp hp with ⟨e, he, rfl⟩ | ⟨e, he, -⟩
    · exact ⟨e, he, hnumber⟩
    · exact absurd he (hexpired ▸ List.not_mem_nil)

/-- One timer repeats and stays, and the other has gone. -/
theorem timers_conserved_backwardsRun :
    ∃ s h, Reach recordedStep Always (State.init 1000, .init) backwardsRun (s, h) ∧
      ((s.timers.toList.map fun e => h.number e.ptr).count 0 = 1 ∧
        (s.timers.toList.map fun e => h.number e.ptr).count 1 = 0) ∧ h.inserted = true := by
  have hrun : Reach recordedStep Always (State.init 1000, .init) backwardsRun _ := reach_of_run rfl
  obtain ⟨hcount, -, hinserted⟩ := timers_conserved hrun
  exact ⟨_, _, hrun, ⟨hcount rfl 0 (by decide), hcount rfl 1 (by decide)⟩, hinserted⟩

end TimerQueue
end Bbkgl
