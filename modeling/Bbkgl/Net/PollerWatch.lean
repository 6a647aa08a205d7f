import Bbkgl.Net.Interest

/-!
# What a Poller watches

`::poll` watches a slot whose descriptor is not negative. `UpdateChannel` makes the
descriptor of a slot negative when the interest of its channel is gone, but nothing
makes it positive again when there is interest again, and the slot of a new channel
is positive whatever its interest is. A channel that was removed keeps its index,
and with it `UpdateChannel` takes the channel for a known one.
-/

set_option autoImplicit false

namespace Bbkgl

open CS.Transition CS.Fallible CS.SwapRemove

universe u

variable {P : Type u}

/-- The slot has the interest of the channel, in its events and in the sign of its
descriptor. -/
structure PollFd.Shows (pfd : PollFd) (ch : Channel) : Prop where
  events : Poller.ofShort pfd.events = ch.events
  fd : pfd.fd = if ch.isNoneEvent then -(ch.fd : ℤ) - 1 else ch.fd

/-- What the slot of a channel has to look like. -/
theorem PollFd.shows_iff {pfd : PollFd} {ch : Channel} {n : ℕ} {events : EventMask}
    (hfd : ch.fd = n) (hevents : ch.events = events) :
    pfd.Shows ch ↔ Poller.ofShort pfd.events = events ∧
      pfd.fd = if events = Channel.noneEvent then -(n : ℤ) - 1 else n := by
  have hnone : ch.isNoneEvent = true ↔ events = Channel.noneEvent := by
    rw [Channel.isNoneEvent, decide_eq_true_eq, hevents]
  constructor
  · intro h
    refine ⟨h.events.trans hevents, ?_⟩
    rw [h.fd, hfd]
    simp only [hnone]
  · rintro ⟨hslot, hsign⟩
    refine ⟨hslot.trans hevents.symm, ?_⟩
    rw [hsign, hfd]
    simp only [hnone]

/-- A slot that shows a channel is about its descriptor. -/
theorem PollFd.Shows.decoded {pfd : PollFd} {ch : Channel} (h : pfd.Shows ch) :
    pfd.decoded = ch.fd := by
  rw [Polled.decoded_iff, h.fd]
  split
  · exact Or.inr rfl
  · exact Or.inl rfl

/-- It depends on the descriptor and the interest alone. -/
theorem PollFd.Shows.congr {pfd : PollFd} {ch ch' : Channel} (h : pfd.Shows ch)
    (hfd : ch'.fd = ch.fd) (hevents : ch'.events = ch.events) : pfd.Shows ch' := by
  refine ⟨h.events.trans hevents.symm, ?_⟩
  rw [h.fd, hfd, Channel.isNoneEvent, Channel.isNoneEvent, hevents]

namespace Polled

variable {fd : P → ℕ} {s t : Polled P} {q : Interest P} {p : P} {pfd : PollFd} {ch : Channel}
  {events : EventMask}

section Call

variable [DecidableEq P]

/-- An operation of a channel: what it makes of `events_`, and the call. -/
def call (s : Polled P) : Watch.Action P → Except Poller.Fault (Polled P)
  | .update change p => s.exec (.updateChannel (change.apply (s.channel p)).events p)
  | .removeChannel p => s.exec (.removeChannel p)

/-- `RemoveChannel` is called only for a channel that is registered and has no
interest, as it asserts. -/
def allows (s : Polled P) : Watch.Action P → Bool
  | .update _ _ => true
  | .removeChannel p =>
    s.poller.channels (s.channel p).fd = some p && (s.channel p).isNoneEvent

/-- A channel is registered with some interest at first, never for a second time
after a removal, and has no interest again once it has lost it. -/
def showable (s : Polled P) : Watch.Action P → Bool
  | .update change p =>
    let ch := s.channel p
    let ch' := change.apply ch
    if ch.index < 0 then !ch'.isNoneEvent
    else s.poller.channels ch.fd = some p && (!ch.isNoneEvent || ch'.isNoneEvent)
  | .removeChannel _ => true

end Call

/-- Every slot shows the interest of its channel. -/
def Shown (fd : P → ℕ) (s : Polled P) : Prop :=
  ∀ p, ∀ pfd ∈ s.poller.pollfds, pfd.decoded = fd p → pfd.Shows (s.channel p)

/-- No two slots are about one descriptor. -/
theorem Slotted.eq_of_decoded (h : Slotted fd s) {pfd' : PollFd} (hpfd : pfd ∈ s.poller.pollfds)
    (hpfd' : pfd' ∈ s.poller.pollfds) (hdecoded : pfd.decoded = pfd'.decoded) : pfd = pfd' :=
  List.inj_on_of_nodup_map h.nodup hpfd hpfd' hdecoded

/-- A descriptor is in `channels_` for no other channel. -/
theorem Slotted.channels_eq (h : Slotted fd s) (hfd : Function.Injective fd) :
    s.poller.channels (fd p) = none ∨ s.poller.channels (fd p) = some p := by
  cases hq : s.poller.channels (fd p) with
  | none => exact Or.inl rfl
  | some q =>
    obtain rfl := (fd_eq_iff hfd).mp (h.key (fd p) q hq)
    exact Or.inr rfl

/-- A slot for the descriptor of a channel is that of the channel. -/
theorem Slotted.known_of_mem (h : Slotted fd s) (hfd : Function.Injective fd)
    (hpfd : pfd ∈ s.poller.pollfds) (hdecoded : pfd.decoded = fd p) :
    s.poller.channels (fd p) = some p := by
  obtain ⟨q, hq⟩ := h.entry (fd p) (hdecoded ▸ List.mem_map_of_mem hpfd)
  exact (h.channels_eq hfd).resolve_left (by simp [hq])

section Calls

variable [DecidableEq P]

/-! ### A change of interest -/

/-- What a change leaves: `new` is the slot of `p`, and the other slots were there before. -/
structure Updated (fd : P → ℕ) (s : Polled P) (p : P) (events : EventMask) (t : Polled P)
    (new : PollFd) : Prop where
  channel : ∃ index : ℤ, t.channel =
    Function.update s.channel p { s.channel p with events := events, index := index }
  events_eq : new.events = Poller.toShort events
  decoded : new.decoded = fd p
  mem : new ∈ t.poller.pollfds
  others : ∀ pfd ∈ t.poller.pollfds, pfd = new ∨ pfd ∈ s.poller.pollfds
  known : t.poller.channels (fd p) = some p
  channels : ∀ n ≠ (fd p : ℤ), t.poller.channels n = s.poller.channels n
  sign : (s.channel p).index < 0 ∧ new.fd = fd p ∨
    0 ≤ (s.channel p).index ∧ s.poller.channels (fd p) = some p ∧
      ∃ old ∈ s.poller.pollfds, old.decoded = fd p ∧
        new.fd = if events = Channel.noneEvent then -(fd p : ℤ) - 1 else old.fd

/-- What `UpdateChannel` has done, in terms of the slots. -/
theorem Slotted.updated (h : Slotted fd s) (hok : s.exec (.updateChannel events p) = .ok t) :
    ∃ new, Updated fd s p events t new := by
  obtain ⟨⟨poller, ch⟩, hupdate, hok⟩ := bind_eq_ok_iff.mp hok
  obtain rfl := pure_eq_ok_iff.mp hok
  have hp := h.fd_eq p
  rcases Poller.updateChannel_cases hupdate with
    ⟨hnew, -, rfl, rfl⟩ | ⟨hold, hknown, rfl, old, hget, hslot, rfl⟩
  · refine ⟨_, ⟨_, rfl⟩, rfl, decoded_iff.mpr (Or.inl (congrArg _ hp)),
      List.mem_append_right _ (List.mem_singleton_self _), fun pfd hpfd => ?_, ?_, fun n hn => ?_,
      Or.inl ⟨hnew, congrArg _ hp⟩⟩
    · rw [List.mem_append, List.mem_singleton] at hpfd
      exact hpfd.symm
    · simp only [hp, Function.update_self]
    · simp only [hp, Function.update_of_ne hn]
  · have hdecoded := (decoded_updated hslot).trans (congrArg _ hp)
    simp only [hp] at hknown hslot
    refine ⟨_, ⟨_, rfl⟩, rfl, hdecoded, List.mem_set (List.getElem?_eq_some_iff.mp hget).1 _,
      fun pfd hpfd => (List.mem_or_eq_of_mem_set hpfd).symm, hknown, fun _ _ => rfl,
      Or.inr ⟨hold, hknown, old, List.mem_of_getElem? hget, decoded_iff.mpr hslot, ?_⟩⟩
    simp only [Poller.updated, Channel.isNoneEvent, decide_eq_true_eq, hp]

/-- The assertions about a change hold for a channel that is new or registered. -/
theorem Slotted.update_isOk_iff (h : Slotted fd s) (hfd : Function.Injective fd) :
    (∃ t, s.exec (.updateChannel events p) = .ok t) ↔
      (s.channel p).index < 0 ∨ s.poller.channels (fd p) = some p := by
  constructor
  · rintro ⟨t, hok⟩
    obtain ⟨new, hupdated⟩ := h.updated hok
    rcases hupdated.sign with ⟨hnew, -⟩ | ⟨-, hknown, -⟩
    · exact Or.inl hnew
    · exact Or.inr hknown
  · have hp := h.fd_eq p
    intro hcase
    by_cases hnew : (s.channel p).index < 0
    · have hfree : s.poller.channels (fd p) = none := by
        refine (h.channels_eq hfd).resolve_right fun hknown => ?_
        obtain ⟨i, hi, -⟩ := h.slot p hknown
        omega
      simp [exec, Poller.updateChannel, Poller.assert, check, hnew, hp, hfree, bind, Except.bind,
        pure, Except.pure]
    · have hknown := hcase.resolve_left hnew
      obtain ⟨i, old, hi, hold, hdecoded⟩ := h.slot_eq hknown
      have hslot := decoded_iff.mp hdecoded
      rw [hi] at hnew
      simp [exec, Poller.updateChannel, Poller.assert, check, hp, hknown, hi, hnew, hold, hslot,
        bind, Except.bind, pure, Except.pure]

/-- Only the slot of `p` is to be looked at. -/
theorem Updated.shown_iff {new : PollFd} (hu : Updated fd s p events t new) (ht : Slotted fd t)
    (hfd : Function.Injective fd) (hs : Shown fd s) :
    Shown fd t ↔ new.Shows (t.channel p) := by
  obtain ⟨index, hchannel⟩ := hu.channel
  constructor
  · intro hshown
    exact hshown p new hu.mem hu.decoded
  · intro hshows r pfd hpfd hdecoded
    by_cases hr : r = p
    · rw [hr] at hdecoded ⊢
      rwa [ht.eq_of_decoded hpfd hu.mem (hdecoded.trans hu.decoded.symm)]
    · have hne : pfd ≠ new := by
        rintro rfl
        exact hr ((fd_eq_iff hfd).mp (hdecoded.symm.trans hu.decoded))
      rw [hchannel, Function.update_of_ne hr]
      exact hs r pfd ((hu.others pfd hpfd).resolve_left hne) hdecoded

/-- The slot of a new channel is watched, and that of a known one is not watched again. -/
theorem Updated.shown_iff_sign {new : PollFd} (hu : Updated fd s p events t new)
    (h : Slotted fd s) (ht : Slotted fd t) (hfd : Function.Injective fd) (hs : Shown fd s)
    (hshort : Poller.ofShort (Poller.toShort events) = events) :
    Shown fd t ↔
      if (s.channel p).index < 0 then events ≠ Channel.noneEvent
      else (s.channel p).isNoneEvent = true → events = Channel.noneEvent := by
  obtain ⟨index, hchannel⟩ := hu.channel
  have hself := congrFun hchannel p
  rw [Function.update_self] at hself
  have hfd' : (t.channel p).fd = fd p := by rw [hself, h.fd_eq p]
  have hevents : (t.channel p).events = events := by rw [hself]
  rw [hu.shown_iff ht hfd hs, PollFd.shows_iff hfd' hevents, hu.events_eq, and_iff_right hshort]
  rcases hu.sign with ⟨hnew, hsign⟩ | ⟨hold, hknown, old, hmem, hdecoded, hsign⟩
  · rw [if_pos hnew, hsign]
    split
    · next hnone => simp only [hnone, ne_eq, not_true, iff_false]; omega
    · next hnone => simp only [hnone, ne_eq, not_false_eq_true]
  · rw [if_neg (Int.not_lt.mpr hold), hsign]
    obtain ⟨-, hwas⟩ := hs p old hmem hdecoded
    rw [h.fd_eq p] at hwas
    by_cases hnone : events = Channel.noneEvent
    · simp only [hnone, if_true, imp_true_iff]
    · rw [if_neg hnone, if_neg hnone, hwas]
      cases (s.channel p).isNoneEvent with
      | true => simp only [if_true, hnone, forall_const, iff_false]; omega
      | false => simp

/-- A change is made and shown. -/
theorem Slotted.update_shown_iff (h : Slotted fd s) (hfd : Function.Injective fd)
    (hs : Shown fd s) (hshort : Poller.ofShort (Poller.toShort events) = events) :
    (∃ t, s.exec (.updateChannel events p) = .ok t ∧ Shown fd t) ↔
      if (s.channel p).index < 0 then events ≠ Channel.noneEvent
      else s.poller.channels (fd p) = some p ∧
        ((s.channel p).isNoneEvent = true → events = Channel.noneEvent) := by
  by_cases hcase : (s.channel p).index < 0 ∨ s.poller.channels (fd p) = some p
  · obtain ⟨t, hok⟩ : ∃ t, s.exec (.updateChannel events p) = .ok t :=
      (h.update_isOk_iff hfd).mpr hcase
    obtain ⟨new, hupdated⟩ := h.updated hok
    have hiff := hupdated.shown_iff_sign h (h.updateChannel hfd hok) hfd hs hshort
    simp only [hok, Except.ok.injEq, exists_eq_left', hiff]
    split
    · rfl
    · next hold => rw [and_iff_right (hcase.resolve_left hold)]
  · have hfails : ¬ ∃ t, s.exec (.updateChannel events p) = .ok t :=
      fun hok => hcase ((h.update_isOk_iff hfd).mp hok)
    rw [not_or] at hcase
    rw [if_neg hcase.1]
    refine iff_of_false ?_ fun hknown => hcase.2 hknown.1
    rintro ⟨t, hok, -⟩
    exact hfails ⟨t, hok⟩

/-! ### A removal -/

/-- `set_index` changes the index only. -/
theorem setIndex_eq {channel : P → Channel} {moved : Option (P × ℤ)} (r : P) :
    ∃ index : ℤ, setIndex channel moved r = { channel r with index := index } := by
  cases moved with
  | none => exact ⟨_, rfl⟩
  | some m =>
    rw [setIndex, Function.update_apply]
    split
    · next hr => exact ⟨m.2, by rw [hr]⟩
    · exact ⟨_, rfl⟩

/-- What a removal leaves. -/
structure Removed (fd : P → ℕ) (s : Polled P) (p : P) (t : Polled P) : Prop where
  known : s.poller.channels (fd p) = some p
  quiet : (s.channel p).isNoneEvent = true
  channels : t.poller.channels = Function.update s.poller.channels (fd p) none
  slots : ∀ pfd ∈ t.poller.pollfds, pfd ∈ s.poller.pollfds
  channel : ∀ r, ∃ index : ℤ, t.channel r = { s.channel r with index := index }

/-- What `RemoveChannel` has done, in terms of the slots. -/
theorem Slotted.removed (h : Slotted fd s) (hok : s.exec (.removeChannel p) = .ok t) :
    Removed fd s p t := by
  obtain ⟨⟨poller, moved⟩, hremove, hok⟩ := bind_eq_ok_iff.mp hok
  obtain rfl := pure_eq_ok_iff.mp hok
  obtain ⟨⟨hknown, hquiet⟩, i, pfd, -, hget, -, -, rfl, -⟩ := Poller.removeChannel_cases hremove
  have hlt : i < s.poller.pollfds.length := (List.getElem?_eq_some_iff.mp hget).1
  rw [h.fd_eq p] at hknown
  refine ⟨hknown, hquiet, by rw [h.fd_eq p], fun pfd hpfd => ?_, setIndex_eq⟩
  exact ((mem_swapRemove (List.Nodup.of_map _ h.nodup) hlt).mp hpfd).1

omit [DecidableEq P] in
/-- A removal hides no other channel. -/
theorem Removed.shown (hr : Removed fd s p t) (hs : Shown fd s) : Shown fd t := by
  intro r pfd hpfd hdecoded
  obtain ⟨index, heq⟩ := hr.channel r
  exact (hs r pfd (hr.slots pfd hpfd) hdecoded).congr (by rw [heq]) (by rw [heq])

/-- The assertions about a removal hold for a registered channel without interest,
if its slot shows this. -/
theorem Slotted.removeChannel_isOk (h : Slotted fd s) (hs : Shown fd s)
    (hknown : s.poller.channels (fd p) = some p) (hquiet : (s.channel p).isNoneEvent = true) :
    ∃ t, s.exec (.removeChannel p) = .ok t := by
  have hp := h.fd_eq p
  obtain ⟨i, pfd, hi, hget, hdecoded⟩ := h.slot_eq hknown
  obtain ⟨hevents, hsign⟩ := hs p pfd (List.mem_of_getElem? hget) hdecoded
  have hlt : i < s.poller.pollfds.length := (List.getElem?_eq_some_iff.mp hget).1
  rw [if_pos hquiet, hp] at hsign
  have hnull := h.removeChannel_ne_nullChannel (p := p)
  rw [exec] at hnull ⊢
  simp only [Poller.removeChannel, Poller.assert, check, hp, hknown, hquiet, hi, hget, hsign,
    hevents, hlt, Int.natCast_nonneg, Int.toNat_natCast, Nat.cast_lt, and_self, decide_true,
    if_true, bind, Except.bind] at hnull ⊢
  by_cases hlast : i = s.poller.pollfds.length - 1
  · simp only [if_pos hlast]
    exact ⟨_, rfl⟩
  · simp only [if_neg hlast] at hnull ⊢
    cases hend : Function.update s.poller.channels (fd p) none
        (s.poller.pollfds.getLastD pfd).decoded with
    | none => exact absurd (by rw [hend]) hnull
    | some r => exact ⟨_, rfl⟩

/-! ### Against the model -/

/-- An update keeps the interest that has been asked for. -/
theorem Updated.keeps {new : PollFd} {change : Channel.Change}
    (hu : Updated fd s p (change.apply (s.channel p)).events t new) (hfd : Function.Injective fd)
    (hkeeps : Keeps fd (fun n => s.poller.channels n) s.channel q) :
    Keeps fd (fun n => t.poller.channels n) t.channel (q.after (.update change p)) := by
  obtain ⟨index, hchannel⟩ := hu.channel
  refine hkeeps.after ?_ ?_ fun r hr => ⟨?_, ?_⟩
  · rw [Watch.Action.channel, Interest.after, Function.update_self]
    exact iff_of_true hu.known (by simp)
  · rw [Watch.Action.channel, hchannel, Function.update_self, Interest.mask, Interest.after,
      Function.update_self, ← hkeeps.events, Channel.Change.apply_eq_mask]
    rfl
  · exact hu.channels _ (mt (fd_eq_iff hfd).mp hr)
  · rw [hchannel, Function.update_of_ne (show r ≠ p from hr)]

/-- A removal keeps the interest that has been asked for. -/
theorem Removed.keeps (hr : Removed fd s p t) (hfd : Function.Injective fd)
    (hkeeps : Keeps fd (fun n => s.poller.channels n) s.channel q) :
    Keeps fd (fun n => t.poller.channels n) t.channel (q.after (.removeChannel p)) := by
  refine hkeeps.after ?_ ?_ fun r hne => ⟨?_, ?_⟩
  · rw [Watch.Action.channel, Interest.after, Function.update_self, hr.channels,
      Function.update_self]
    exact iff_of_false (by simp) (by simp)
  · obtain ⟨index, heq⟩ := hr.channel p
    rw [Watch.Action.channel, heq, Interest.mask, Interest.after, Function.update_self]
    exact of_decide_eq_true hr.quiet
  · have hkey : (fd r : ℤ) ≠ fd p := mt (fd_eq_iff hfd).mp hne
    rw [hr.channels, Function.update_of_ne hkey]
  · obtain ⟨index, heq⟩ := hr.channel r
    rw [heq]

end Calls

/-- `::poll` watches a descriptor when its channel has interest, and only then. -/
theorem Slotted.watched_iff (h : Slotted fd s) (hs : Shown fd s)
    (hkeeps : Keeps fd (fun n => s.poller.channels n) s.channel q) {n : ℕ} :
    (∃ pfd ∈ s.poller.pollfds, pfd.fd = n) ↔
      ∃ p, fd p = n ∧ (s.channel p).isNoneEvent = false := by
  constructor
  · rintro ⟨pfd, hpfd, hn⟩
    have hdecoded : pfd.decoded = n := decoded_iff.mpr (Or.inl hn)
    obtain ⟨p, hp⟩ := h.entry n (hdecoded ▸ List.mem_map_of_mem hpfd)
    have hfd := h.key n p hp
    refine ⟨p, Int.ofNat_inj.mp hfd.symm, ?_⟩
    have hsign := (hs p pfd hpfd (hdecoded.trans hfd)).fd
    -- without interest the descriptor would be negative
    by_contra hnone
    rw [Bool.not_eq_false] at hnone
    rw [if_pos hnone] at hsign
    omega
  · rintro ⟨p, rfl, hinterest⟩
    obtain ⟨i, pfd, -, hget, hdecoded⟩ := h.slot_eq (hkeeps.registered_of_interest hinterest)
    have hmem := List.mem_of_getElem? hget
    refine ⟨pfd, hmem, ?_⟩
    rw [(hs p pfd hmem hdecoded).fd, hinterest, h.fd_eq p]
    rfl

end Polled
end Bbkgl
