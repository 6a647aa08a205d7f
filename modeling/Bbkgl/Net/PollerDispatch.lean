import Bbkgl.Net.Pollers

/-!
# What a Poller dispatches

`FillActiveChannels` gives a channel the events that its slot asks for in place of
those that `::poll` reports, and it takes a slot for active only if `revents` is
positive as a signed number. An `Epoller` gives every channel what is reported. The
two agree when each channel with something to report is reported just what it asks
for.
-/

set_option autoImplicit false

namespace Bbkgl

open CS.Fallible CS.Transition

universe u

variable {P : Type u}

/-- The slot belongs to the channel, whose interest may have any bits. -/
structure PollFd.Serves (pfd : PollFd) (ch : Channel) : Prop where
  events : pfd.events = Poller.toShort ch.events
  fd : pfd.fd = if ch.isNoneEvent then -(ch.fd : ℤ) - 1 else ch.fd

/-- A `short` survives the conversion to `int` and back. -/
theorem Poller.toShort_ofShort {m : BitVec 16} : toShort (ofShort m) = m := by
  ext i hi
  simp [toShort, ofShort, BitVec.getLsbD_signExtend, hi]
  omega

theorem Poller.ofShort_inj {m m' : BitVec 16} : ofShort m = ofShort m' ↔ m = m' := by
  constructor
  · intro h
    rw [← toShort_ofShort (m := m), h, toShort_ofShort]
  · exact congrArg ofShort

/-- A slot that shows the channel serves it. -/
theorem PollFd.Shows.serves {pfd : PollFd} {ch : Channel} (h : pfd.Shows ch) : pfd.Serves ch where
  events := by rw [← h.events, Poller.toShort_ofShort]
  fd := h.fd

namespace Poller

/-- What a slot contributes to the active channels. -/
def active (po : Poller P) (pfd : PollFd) : Option (P × EventMask) :=
  if 0 < pfd.revents.toInt then (po.channels pfd.fd).map fun p => (p, ofShort pfd.events) else none

/-- `FillActiveChannels` enters a slot with something in `revents`, and its `events` with it. -/
theorem active_eq_some_iff {po : Poller P} {pfd : PollFd} {p : P} {m : EventMask} :
    po.active pfd = some (p, m) ↔
      0 < pfd.revents.toInt ∧ po.channels pfd.fd = some p ∧ m = ofShort pfd.events := by
  rw [active]
  split
  · next h => simp [h, eq_comm]
  · next h => simp [h]

/-- `poll()` reports what is ready. -/
theorem report_revents {ready : ℕ → BitVec 16} {pfd : PollFd} {n : ℕ} (h : pfd.fd = n) :
    (report ready pfd).revents = ready n := by
  rw [report, h, if_pos (Int.natCast_nonneg n), Int.toNat_natCast]

variable {po : Poller P} {fd : P → ℕ} {pfds : List PollFd}

/-- No assertion fails if every active slot is that of a channel. -/
theorem fillActiveChannels_eq
    (h : ∀ pfd ∈ pfds, 0 < pfd.revents.toInt →
      ∃ p, po.channels pfd.fd = some p ∧ (fd p : ℤ) = pfd.fd) :
    po.fillActiveChannels fd pfds = .ok (pfds.filterMap po.active) := by
  induction pfds with
  | nil => rfl
  | cons pfd pfds ih =>
    rw [List.forall_mem_cons] at h
    rw [fillActiveChannels, ih h.2]
    by_cases hpos : 0 < pfd.revents.toInt
    · obtain ⟨p, hp, hfd⟩ := h.1 hpos
      rw [if_pos hpos, hp, List.filterMap_cons_some (active_eq_some_iff.mpr ⟨hpos, hp, rfl⟩)]
      simp [assert, check, hfd, bind, Except.bind, pure, Except.pure]
    · rw [if_neg hpos, List.filterMap_cons_none (by rw [active, if_neg hpos])]

end Poller

namespace Polled

variable {fd : P → ℕ} {s : Polled P} {p : P} {pfd : PollFd} {ready : ℕ → BitVec 16}
  {l : List (P × EventMask)} {m : EventMask}

/-- The slots are those of the channels, whatever these are interested in. -/
structure Consistent (fd : P → ℕ) (s : Polled P) : Prop extends Slotted fd s where
  serves : ∀ p, ∀ pfd ∈ s.poller.pollfds, pfd.decoded = fd p → pfd.Serves (s.channel p)

theorem Slotted.consistent (h : Slotted fd s) (hs : Shown fd s) : Consistent fd s where
  toSlotted := h
  serves p pfd hpfd hdecoded := (hs p pfd hpfd hdecoded).serves

/-- The runs in which the slots show the interest of the channels. -/
theorem consistent_of_reach [DecidableEq P] (hfd : Function.Injective fd)
    {as : List (Watch.Action P)} {b : Pollers P}
    (hrun : Reach Pollers.step (fun b a => b.showable a = true) (Pollers.init fd) as b) :
    ∃ s, b.polled = .ok s ∧ Consistent fd s := by
  have hrefines := Pollers.refines_of_reach hfd hrun
  obtain ⟨s, hs, hshown⟩ := (hrefines.watches_iff hfd).mp (Pollers.watches_of_reach hfd hrun)
  exact ⟨s, hs, (hrefines.polled s hs).1.consistent hshown⟩

/-- The channel is in `channels_`, and has interest. -/
def Watched (fd : P → ℕ) (s : Polled P) (p : P) : Prop :=
  s.poller.channels (fd p) = some p ∧ (s.channel p).isNoneEvent = false

/-- Each watched channel that has something to report is in the list once, with that
for its `revents_`, and no other channel is. -/
structure Reports (fd : P → ℕ) (s : Polled P) (ready : ℕ → BitVec 16)
    (l : List (P × EventMask)) : Prop where
  nodup : (l.map Prod.fst).Nodup
  mem_iff : ∀ p m, (p, m) ∈ l ↔
    Watched fd s p ∧ ready (fd p) ≠ 0 ∧ m = Poller.ofShort (ready (fd p))

/-- An active channel, and what its `HandleEvent` calls. -/
def handled (e : P × EventMask) : P × List Channel.Callback := (e.1, Channel.handleEvent e.2)

/-- `Poll` enters what is reported, which is what an `Epoller` with the same channels
enters for it, so that the same callbacks are invoked. -/
def Dispatches [DecidableEq P] (fd : P → ℕ) (s : Polled P) (ready : ℕ → BitVec 16) : Prop :=
  ∃ po l, s.poller.poll fd ready = .ok (po, l) ∧ Reports fd s ready l ∧
    ∀ (ep : Epoller P) (events : List (P × EventMask)),
      (∀ p, ep.channels (fd p) = some p ↔ s.poller.channels (fd p) = some p) →
      Reports fd s ready events →
      ∃ l', ep.fillActiveChannels fd events = .ok l' ∧ l.Perm l' ∧
        (l.map handled).Perm (l'.map handled)

/-- Two reports of the same readiness are the same but for the order. -/
theorem Reports.perm {l' : List (P × EventMask)} (h : Reports fd s ready l)
    (h' : Reports fd s ready l') : l.Perm l' := by
  rw [List.perm_ext_iff_of_nodup h.nodup.of_map h'.nodup.of_map]
  rintro ⟨p, m⟩
  rw [h.mem_iff, h'.mem_iff]

/-- An entry with other events than the reported ones is enough. -/
theorem not_dispatches [DecidableEq P] {po : Poller P}
    (hpoll : s.poller.poll fd ready = .ok (po, l)) (hmem : (p, m) ∈ l)
    (hother : m ≠ Poller.ofShort (ready (fd p))) : ¬ Dispatches fd s ready := by
  rintro ⟨po', l', hpoll', hreports, -⟩
  obtain ⟨-, rfl⟩ := Prod.mk.inj (Except.ok.inj (hpoll.symm.trans hpoll'))
  exact hother ((hreports.mem_iff p m).mp hmem).2.2

/-- What `Poll` enters. -/
def entered (s : Polled P) (ready : ℕ → BitVec 16) : List (P × EventMask) :=
  (s.poller.pollfds.map (Poller.report ready)).filterMap s.poller.active

section Consistent

variable (h : Consistent fd s)
include h

/-- The slot of a watched channel has its descriptor, and that of another does not. -/
theorem Consistent.fd_eq_iff (hpfd : pfd ∈ s.poller.pollfds) (hdecoded : pfd.decoded = fd p) :
    pfd.fd = fd p ↔ (s.channel p).isNoneEvent = false := by
  rw [(h.serves p pfd hpfd hdecoded).fd, h.fd_eq p]
  cases (s.channel p).isNoneEvent with
  | false => simp
  | true => simp only [if_true, reduceCtorEq, iff_false]; omega

/-- Who is entered is watched and ready, and gets the mask of its own interest. -/
theorem Consistent.mem_entered_iff :
    (p, m) ∈ s.entered ready ↔
      Watched fd s p ∧ 0 < (ready (fd p)).toInt ∧
        m = Poller.ofShort (Poller.toShort (s.channel p).events) := by
  rw [entered, List.mem_filterMap]
  constructor
  · rintro ⟨_, hmem, hactive⟩
    obtain ⟨pfd, hpfd, rfl⟩ := List.mem_map.mp hmem
    obtain ⟨hpos, hchannel, rfl⟩ := Poller.active_eq_some_iff.mp hactive
    have hfd : pfd.fd = fd p := h.key pfd.fd p hchannel
    have hdecoded := decoded_iff.mpr (Or.inl hfd)
    rw [Poller.report_revents hfd] at hpos
    refine ⟨⟨hfd ▸ hchannel, (h.fd_eq_iff hpfd hdecoded).mp hfd⟩, hpos, ?_⟩
    rw [← (h.serves p pfd hpfd hdecoded).events]
    rfl
  · rintro ⟨⟨hknown, hinterest⟩, hpos, rfl⟩
    obtain ⟨i, pfd, -, hget, hdecoded⟩ := h.slot_eq hknown
    have hpfd := List.mem_of_getElem? hget
    have hfd := (h.fd_eq_iff hpfd hdecoded).mpr hinterest
    refine ⟨_, List.mem_map_of_mem hpfd, Poller.active_eq_some_iff.mpr ⟨?_, ?_, ?_⟩⟩
    · rwa [Poller.report_revents hfd]
    · exact hfd ▸ hknown
    · rw [← (h.serves p pfd hpfd hdecoded).events]
      rfl

/-- No channel is entered twice. -/
theorem Consistent.nodup_entered : ((s.entered ready).map Prod.fst).Nodup := by
  have hslots : (s.poller.pollfds.map (Poller.report ready)).Pairwise
      fun pfd pfd' => pfd.decoded ≠ pfd'.decoded :=
    List.pairwise_map.mpr (List.pairwise_map.mp h.nodup)
  -- two active slots of one channel would be for one descriptor
  refine List.pairwise_map.mpr (hslots.filterMap _ ?_)
  rintro pfd pfd' hne ⟨p, m⟩ hactive ⟨p', m'⟩ hactive' rfl
  obtain ⟨-, hchannel, -⟩ := Poller.active_eq_some_iff.mp hactive
  obtain ⟨-, hchannel', -⟩ := Poller.active_eq_some_iff.mp hactive'
  refine hne ((decoded_iff.mpr (Or.inl (h.key _ _ hchannel))).trans ?_)
  exact (decoded_iff.mpr (Or.inl (h.key _ _ hchannel'))).symm

/-- `Poll` returns. -/
theorem Consistent.poll_eq : ∃ po, s.poller.poll fd ready = .ok (po, s.entered ready) := by
  let po : Poller P := { s.poller with pollfds := s.poller.pollfds.map (Poller.report ready) }
  have hfill : po.fillActiveChannels fd po.pollfds = .ok (s.entered ready) := by
    refine Poller.fillActiveChannels_eq fun pfd' hmem hpos => ?_
    obtain ⟨pfd, hpfd, rfl⟩ := List.mem_map.mp hmem
    have hwatched : 0 ≤ pfd.fd := by
      by_contra hneg
      simp [Poller.report, hneg] at hpos
    have hdecoded : pfd.decoded = pfd.fd := if_neg (Int.not_lt.mpr hwatched)
    obtain ⟨p, hp⟩ := h.entry pfd.fd (hdecoded ▸ List.mem_map_of_mem hpfd)
    exact ⟨p, hp, (h.key _ _ hp).symm⟩
  refine ⟨po, ?_⟩
  by_cases hsome : 0 < po.pollfds.countP fun pfd => pfd.revents != 0
  · exact (if_pos hsome).trans (bind_eq_ok_iff.mpr ⟨_, hfill, rfl⟩)
  · refine (if_neg hsome).trans (congrArg (fun l => Except.ok (po, l)) ?_)
    rw [Nat.not_lt, Nat.le_zero, List.countP_eq_zero] at hsome
    refine (List.filterMap_eq_nil_iff.mpr fun pfd hpfd => ?_).symm
    have hzero : pfd.revents = 0 := by simpa using hsome pfd hpfd
    rw [Poller.active, hzero, if_neg (by decide)]

variable [DecidableEq P]

/-- What `Poll` enters is what is reported, exactly if each watched channel with something
to report is reported just what it asks for, and this is positive in a `short`. -/
theorem dispatches_iff :
    Dispatches fd s ready ↔ ∀ p, Watched fd s p → ready (fd p) ≠ 0 →
      ready (fd p) = Poller.toShort (s.channel p).events ∧ 0 < (ready (fd p)).toInt := by
  obtain ⟨po, hpoll⟩ : ∃ po, s.poller.poll fd ready = .ok (po, s.entered ready) := h.poll_eq
  constructor
  · rintro ⟨po', l, hpoll', hreports, -⟩ p hwatched hready
    obtain ⟨-, rfl⟩ := Prod.mk.inj (Except.ok.inj (hpoll.symm.trans hpoll'))
    have hmem := (hreports.mem_iff p _).mpr ⟨hwatched, hready, rfl⟩
    obtain ⟨-, hpos, heq⟩ := h.mem_entered_iff.mp hmem
    exact ⟨Poller.ofShort_inj.mp heq, hpos⟩
  · intro hasked
    have hreports : Reports fd s ready (s.entered ready) := by
      refine ⟨h.nodup_entered, fun p m => ?_⟩
      rw [h.mem_entered_iff]
      constructor
      · rintro ⟨hwatched, hpos, rfl⟩
        have hready : ready (fd p) ≠ 0 := by
          intro hzero
          rw [hzero] at hpos
          exact absurd hpos (by decide)
        exact ⟨hwatched, hready, by rw [(hasked p hwatched hready).1]⟩
      · rintro ⟨hwatched, hready, rfl⟩
        obtain ⟨heq, hpos⟩ := hasked p hwatched hready
        exact ⟨hwatched, hpos, by rw [← heq]⟩
    refine ⟨po, _, hpoll, hreports, fun ep events hchannels hevents => ?_⟩
    have hperm := hreports.perm hevents
    refine ⟨events, Epoller.fillActiveChannels_eq fun e he => ?_, hperm, hperm.map _⟩
    exact (hchannels e.1).mpr ((hevents.mem_iff e.1 e.2).mp he).1.1

end Consistent

/-- One channel is reported what it asks for, the other nothing. -/
theorem dispatches_asked : ∃ s : Polled ℕ, Consistent id s ∧
    (s.channel 3).events = Channel.readEvent ∧
    Dispatches id s fun n => if n = 3 then 3#16 else 0#16 := by
  have hrun : Reach Pollers.step (fun b a => b.showable a = true) (Pollers.init (id : ℕ → ℕ))
      [.update .enableReading 3, .update .enableWriting 4] _ := reach_of_runIf rfl
  obtain ⟨s, hs, hconsistent⟩ := consistent_of_reach Function.injective_id hrun
  have hevents : (s.channel 3).events = Channel.readEvent := by
    obtain rfl := Except.ok.inj hs
    rfl
  refine ⟨s, hconsistent, hevents, (dispatches_iff hconsistent).mpr fun p _ hready => ?_⟩
  obtain rfl : p = 3 := by
    by_contra hp
    exact hready (if_neg hp)
  rw [hevents]
  decide

/-- A channel that asks for reading and writing is reported readable, and is told that it
is both; one that asks for reading is reported hung up, and is told that it is readable. -/
theorem dispatches_unasked :
    (∃ s : Polled ℕ, Consistent id s ∧
      (∃ po, s.poller.poll id (fun _ => 1#16) = .ok (po, [(3, 7#32)])) ∧
      ¬ Dispatches id s fun _ => 1#16) ∧
    (∃ s : Polled ℕ, Consistent id s ∧
      (∃ po, s.poller.poll id (fun _ => 16#16) = .ok (po, [(3, 3#32)])) ∧
      ¬ Dispatches id s fun _ => 16#16) ∧
    Channel.handleEvent 7#32 = [.read, .write] ∧ Channel.handleEvent 1#32 = [.read] ∧
    Channel.handleEvent 3#32 = [.read] ∧ Channel.handleEvent 16#32 = [.close] := by
  have hread : Reach Pollers.step (fun b a => b.showable a = true) (Pollers.init (id : ℕ → ℕ))
      [.update .enableReading 3] _ := reach_of_runIf rfl
  have hboth : Reach Pollers.step (fun b a => b.showable a = true) (Pollers.init (id : ℕ → ℕ))
      [.update .enableReading 3, .update .enableWriting 3] _ := reach_of_runIf rfl
  refine ⟨?_, ?_, by decide, by decide, by decide, by decide⟩
  · obtain ⟨s, hs, hconsistent⟩ := consistent_of_reach Function.injective_id hboth
    have hpoll : ∃ po, s.poller.poll id (fun _ => 1#16) = .ok (po, [(3, 7#32)]) := by
      obtain rfl := Except.ok.inj hs
      exact ⟨_, rfl⟩
    refine ⟨s, hconsistent, hpoll, ?_⟩
    obtain ⟨po, hpoll⟩ := hpoll
    exact not_dispatches hpoll (List.mem_singleton_self _) (by decide)
  · obtain ⟨s, hs, hconsistent⟩ := consistent_of_reach Function.injective_id hread
    have hpoll : ∃ po, s.poller.poll id (fun _ => 16#16) = .ok (po, [(3, 3#32)]) := by
      obtain rfl := Except.ok.inj hs
      exact ⟨_, rfl⟩
    refine ⟨s, hconsistent, hpoll, ?_⟩
    obtain ⟨po, hpoll⟩ := hpoll
    exact not_dispatches hpoll (List.mem_singleton_self _) (by decide)

end Polled
end Bbkgl
