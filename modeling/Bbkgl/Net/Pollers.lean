import Bbkgl.Net.PollerWatch

/-!
# The two pollers side by side

A `Poller` and an `Epoller` are given the same operations of the same channels. The
epoll instance always has the interest of the channels. The slots of the `Poller`
have it as long as no channel gets back an interest that it had lost, none is
registered without interest, and none is registered for a second time.
-/

set_option autoImplicit false

namespace Bbkgl

open CS.Transition CS.Fallible

universe u

variable {P : Type u}

/-- The same channels under a `Poller` and under an `Epoller`. -/
structure Pollers (P : Type u) where
  /-- an assertion that fails ends the run -/
  polled : Except Poller.Fault (Polled P)
  watch : Watch P

namespace Pollers

/-- Both without channels. -/
def init (fd : P → ℕ) : Pollers P := ⟨.ok (.init fd), .init fd⟩

section Step

variable [DecidableEq P]

/-- The `Poller` has not failed, and the caller keeps to what its assertions require. -/
def guard (b : Pollers P) (a : Watch.Action P) : Bool :=
  match b.polled with
  | .error _ => false
  | .ok s => s.allows a

/-- The action on both pollers. -/
def effect (b : Pollers P) (a : Watch.Action P) : Pollers P :=
  ⟨b.polled.bind fun s => s.call a, b.watch.effect a⟩

/-- One step of both pollers. -/
def step : Pollers P → Watch.Action P → Option (Pollers P) := guarded guard effect

/-- The same condition on the `Poller`, as long as it has not failed. -/
def showable (b : Pollers P) (a : Watch.Action P) : Bool :=
  match b.polled with
  | .error _ => false
  | .ok s => s.showable a

end Step

/-- No assertion has failed; each registered channel has the slot that its index says,
with its events and with its descriptor as its interest wants it; and `::poll` watches
the descriptors of the channels with interest, as the epoll instance does, with the same
events. -/
def Watches (fd : P → ℕ) (b : Pollers P) : Prop :=
  ∃ s, b.polled = .ok s ∧
    (∀ p, s.poller.channels (fd p) = some p →
      ∃ (i : ℕ) (pfd : PollFd), (s.channel p).index = i ∧ s.poller.pollfds[i]? = some pfd ∧
        pfd.Shows (s.channel p)) ∧
    (∀ n : ℕ, (∃ pfd ∈ s.poller.pollfds, pfd.fd = n) ↔
      ∃ p, fd p = n ∧ (s.channel p).isNoneEvent = false) ∧
    ∀ n m p, m ≠ Channel.noneEvent →
      (b.watch.poller.kernel n = some (m, p) ↔ fd p = n ∧ (s.channel p).events = m)

variable [DecidableEq P] {fd : P → ℕ} {b b' : Pollers P} {q : Interest P} {s t : Polled P}
  {as : List (Watch.Action P)} {a : Watch.Action P} {p : P}

theorem step_eq_some_iff :
    step b a = some b' ↔ ∃ s, b.polled = .ok s ∧ s.allows a = true ∧
      ⟨s.call a, b.watch.effect a⟩ = b' := by
  rw [step, guarded_eq_some_iff, guard, effect]
  cases b.polled with
  | error e => simp
  | ok s => simp [Except.bind]

/-! ### Both against the model -/

/-- The channels of both pollers are registered as the model says, for what it says. -/
structure Refines (fd : P → ℕ) (b : Pollers P) (q : Interest P) : Prop where
  possible : q.Possible
  polled : ∀ s, b.polled = .ok s →
    Polled.Slotted fd s ∧ Keeps fd (fun n => s.poller.channels n) s.channel q
  agrees : Watch.Agrees fd b.watch
  watch : Keeps fd b.watch.poller.channels b.watch.channel q
  idle : ∀ p, (b.watch.channel p).index = Epoller.kDeleted →
    (b.watch.channel p).isNoneEvent = true

omit [DecidableEq P] in
theorem refines_init : Refines fd (init fd) (fun _ => none) where
  possible _ := List.mem_cons_self
  polled s hs := by
    obtain rfl := Except.ok.inj hs
    exact ⟨Polled.slotted_init, keeps_init⟩
  agrees := Watch.agrees_init
  watch := keeps_init
  idle _ h := absurd (show Epoller.kNew = Epoller.kDeleted from h) (by decide)

/-- What the `Poller` is asked to do, the `Epoller` can do. -/
theorem Refines.watch_step (h : Refines fd b q) (hs : b.polled = .ok s)
    (hallows : s.allows a = true) : Watch.step b.watch a = some (b.watch.effect a) := by
  rw [Watch.step, guarded_eq_some_iff]
  refine ⟨?_, rfl⟩
  obtain ⟨hslotted, hkeeps⟩ := h.polled s hs
  cases a with
  | update change p => rw [Watch.guard, h.agrees.fault, decide_eq_true rfl]
  | removeChannel p =>
    rw [Polled.allows, Bool.and_eq_true, decide_eq_true_eq, hslotted.fd_eq] at hallows
    obtain ⟨hknown, hquiet⟩ := hallows
    have hknown' := (h.watch.registered p).mpr ((hkeeps.registered p).mp hknown)
    rw [Channel.isNoneEvent, hkeeps.events, ← h.watch.events] at hquiet
    rw [Watch.guard, h.agrees.fault, h.agrees.fd_eq, hknown', Channel.isNoneEvent, hquiet]
    simp

/-- One call of either poller is the one call of the interface. -/
theorem refines_call (hslotted : Polled.Slotted fd s) (hfd : Function.Injective fd)
    (hkeeps : Keeps fd (fun n => s.poller.channels n) s.channel q) (hok : s.call a = .ok t) :
    Polled.Slotted fd t ∧ Keeps fd (fun n => t.poller.channels n) t.channel (q.after a) := by
  cases a with
  | update change p =>
    obtain ⟨new, hupdated⟩ := hslotted.updated hok
    exact ⟨hslotted.updateChannel hfd hok, hupdated.keeps hfd hkeeps⟩
  | removeChannel p =>
    exact ⟨hslotted.removeChannel hok, (hslotted.removed hok).keeps hfd hkeeps⟩

/-- The step lemma of `Refines`. -/
theorem refines_step (hfd : Function.Injective fd) (h : Refines fd b q)
    (hstep : step b a = some b') : Refines fd b' (q.after a) := by
  obtain ⟨s, hs, hallows, rfl⟩ := step_eq_some_iff.mp hstep
  obtain ⟨hslotted, hkeeps⟩ := h.polled s hs
  have hwatch := h.watch_step hs hallows
  have hagrees := h.agrees.of_step hfd hwatch
  exact {
    possible := Interest.possible_after h.possible
    polled := fun t ht => refines_call hslotted hfd hkeeps ht
    agrees := hagrees
    watch := h.agrees.keeps_step hagrees hfd h.watch hwatch
    idle := fun p => h.agrees.idle_step hwatch h.idle }

/-- In every run both pollers keep the interest asked for. -/
theorem refines_of_reach {ok : Pollers P → Watch.Action P → Prop} (hfd : Function.Injective fd)
    (hrun : Reach step ok (init fd) as b) :
    Refines fd b (as.foldl Interest.after fun _ => none) :=
  hrun.simulation refines_init fun h _ hstep => refines_step hfd h hstep

/-! ### What the slots show -/

omit [DecidableEq P] in
/-- Both pollers watch the same exactly if the slots show the interest. -/
theorem Refines.watches_iff (h : Refines fd b q) (hfd : Function.Injective fd) :
    Watches fd b ↔ ∃ s, b.polled = .ok s ∧ Polled.Shown fd s := by
  constructor
  · rintro ⟨s, hs, hslots, -⟩
    obtain ⟨hslotted, -⟩ := h.polled s hs
    refine ⟨s, hs, fun p pfd hpfd hdecoded => ?_⟩
    obtain ⟨i, pfd', hi, hget, hshows⟩ := hslots p (hslotted.known_of_mem hfd hpfd hdecoded)
    have hdecoded' := hshows.decoded
    rw [hslotted.fd_eq p] at hdecoded'
    rwa [hslotted.eq_of_decoded hpfd (List.mem_of_getElem? hget)
      (hdecoded.trans hdecoded'.symm)]
  · rintro ⟨s, hs, hshown⟩
    obtain ⟨hslotted, hkeeps⟩ := h.polled s hs
    refine ⟨s, hs, fun p hknown => ?_, fun n => hslotted.watched_iff hshown hkeeps,
      fun n m p hm => ?_⟩
    · obtain ⟨i, pfd, hi, hget, hdecoded⟩ := hslotted.slot_eq hknown
      exact ⟨i, pfd, hi, hget, hshown p pfd (List.mem_of_getElem? hget) hdecoded⟩
    · rw [hkeeps.events]
      exact h.agrees.kernel_iff h.watch h.idle hm

/-- An operation is shown in the slots exactly if it is `showable`. -/
theorem Refines.watches_step_iff (h : Refines fd b q) (hfd : Function.Injective fd)
    (hwatches : Watches fd b) (hstep : step b a = some b') :
    Watches fd b' ↔ b.showable a = true := by
  rw [(refines_step hfd h hstep).watches_iff hfd]
  obtain ⟨s, hs, hshown⟩ := (h.watches_iff hfd).mp hwatches
  obtain ⟨s', hs', hallows, rfl⟩ := step_eq_some_iff.mp hstep
  obtain rfl := Except.ok.inj (hs.symm.trans hs')
  obtain ⟨hslotted, hkeeps⟩ := h.polled s hs
  rw [showable, hs]
  cases a with
  | update change p =>
    -- no bit of the interest is lost in the slot
    have hmem : (change.apply (s.channel p)).events ∈ Channel.subscriptions := by
      rw [Channel.Change.apply_eq_mask, hkeeps.events]
      exact Channel.mask_mem_subscriptions (h.possible p)
    refine (hslotted.update_shown_iff hfd hshown (Channel.ofShort_toShort hmem)).trans ?_
    simp only [Polled.showable, hslotted.fd_eq, Channel.isNoneEvent]
    split
    · simp
    · simp [imp_iff_not_or]
  | removeChannel p =>
    rw [Polled.allows, Bool.and_eq_true, decide_eq_true_eq, hslotted.fd_eq] at hallows
    obtain ⟨t, hok⟩ := hslotted.removeChannel_isOk hshown hallows.1 hallows.2
    exact iff_of_true ⟨t, hok, (hslotted.removed hok).shown hshown⟩ rfl

omit [DecidableEq P] in
theorem watches_init (hfd : Function.Injective fd) : Watches fd (init fd) :=
  (refines_init.watches_iff hfd).mpr ⟨_, rfl, fun _ _ h => absurd h List.not_mem_nil⟩

/-- They watch the same as long as no slot goes wrong. -/
theorem watches_of_reach (hfd : Function.Injective fd)
    (hrun : Reach step (fun b a => b.showable a = true) (init fd) as b) : Watches fd b :=
  hrun.invariant (watches_init hfd) fun hrun hwatches hshowable hstep =>
    ((refines_of_reach hfd hrun).watches_step_iff hfd hwatches hstep).mpr hshowable

/-- A run shows the interest of the channels after every operation exactly if every
operation is `showable`. -/
theorem interest_watched_iff (hfd : Function.Injective fd) :
    (Reach step (fun b a => ∀ b', step b a = some b' → Watches fd b') (init fd) as b ↔
      Reach step (fun b a => b.showable a = true) (init fd) as b) ∧
    (Reach step (fun b a => b.showable a = true) (init fd) as b → Watches fd b) := by
  refine ⟨reach_iff_of_step (watches_init hfd) ?_, watches_of_reach hfd⟩
  intro as b a b' hrun hwatches hstep
  exact (refines_of_reach hfd hrun).watches_step_iff hfd hwatches hstep

/-- Two channels, one of which is removed in the end. -/
theorem interest_watched_removed : ∃ b : Pollers ℕ,
    Reach step (fun b a => b.showable a = true) (init id)
      [.update .enableReading 3, .update .enableWriting 4, .update .disableWriting 3,
        .update .disableAll 3, .removeChannel 3, .update .enableReading 4] b ∧
    Watches id b ∧ b.watch.poller.kernel 4 = some (7#32, 4) := by
  have hrun : Reach step (fun b a => b.showable a = true) (init (id : ℕ → ℕ))
      [.update .enableReading 3, .update .enableWriting 4, .update .disableWriting 3,
        .update .disableAll 3, .removeChannel 3, .update .enableReading 4] _ :=
    reach_of_runIf rfl
  exact ⟨_, hrun, (interest_watched_iff Function.injective_id).2 hrun, rfl⟩

/-- A channel gets its interest back, which the epoll instance knows and the slot does
not show; a channel that was removed is registered again, which the `Poller` refuses. -/
theorem interest_lost :
    (∃ b : Pollers ℕ,
      Reach step Always (init id)
        [.update .enableReading 3, .update .disableAll 3, .update .enableReading 3] b ∧
      b.watch.poller.kernel 3 = some (Channel.readEvent, 3) ∧ ¬ Watches id b) ∧
    ∃ b : Pollers ℕ,
      Reach step Always (init id)
        [.update .enableReading 3, .update .disableAll 3, .removeChannel 3,
          .update .enableReading 3] b ∧
      b.watch.poller.kernel 3 = some (Channel.readEvent, 3) ∧ ¬ Watches id b := by
  constructor
  · have hrun : Reach step Always (init (id : ℕ → ℕ))
        [.update .enableReading 3, .update .disableAll 3, .update .enableReading 3] _ :=
      reach_of_run rfl
    refine ⟨_, hrun, rfl, ?_⟩
    rintro ⟨s, hs, -, hwatched, -⟩
    obtain rfl := Except.ok.inj hs
    obtain ⟨pfd, hpfd, hfd⟩ := (hwatched 3).mpr ⟨3, rfl, rfl⟩
    obtain rfl := List.mem_singleton.mp (show pfd ∈ [(⟨-4, 3, 0⟩ : PollFd)] from hpfd)
    exact absurd hfd (by decide)
  · have hrun : Reach step Always (init (id : ℕ → ℕ))
        [.update .enableReading 3, .update .disableAll 3, .removeChannel 3,
          .update .enableReading 3] _ := reach_of_run rfl
    refine ⟨_, hrun, rfl, ?_⟩
    rintro ⟨s, hs, -⟩
    cases hs

end Pollers
end Bbkgl
