import Mathlib.Data.Set.Card
import Bbkgl.CS.Transition
import Bbkgl.Net.Poller

/-!
# The slots of a Poller

`channels_` and `pollfds_` have the same descriptors, and the index of a channel
is the place of its slot. `RemoveChannel` keeps this up by setting the index of
the one channel whose slot it moves, which it finds by the descriptor in the slot.
-/

set_option autoImplicit false

namespace Bbkgl

open CS.Transition CS.Fallible CS.SwapRemove

universe u

variable {P : Type u}

/-- A poller with its channels, each known by its address. -/
structure Polled (P : Type u) where
  poller : Poller P
  channel : P → Channel

namespace Polled

/-- The channel `p` is made for the descriptor `fd p`. -/
def init (fd : P → ℕ) : Polled P := ⟨.empty, fun p => .new (fd p)⟩

/-- A call by the channel `p`, after its `events_` have become `events`. -/
inductive Action (P : Type u)
  | updateChannel (events : EventMask) (p : P)
  | removeChannel (p : P)
  deriving DecidableEq, Repr

section Exec

variable [DecidableEq P]

/-- `SetIndex`, if there is a channel whose slot has moved. -/
def setIndex (channel : P → Channel) : Option (P × ℤ) → P → Channel
  | none => channel
  | some (q, index) => Function.update channel q { channel q with index := index }

/-- The two methods, on the poller and on the channels that it writes to. -/
def exec (s : Polled P) : Action P → Except Poller.Fault (Polled P)
  | .updateChannel events p => do
    let (poller, ch) ← s.poller.updateChannel p { s.channel p with events := events }
    return ⟨poller, Function.update s.channel p ch⟩
  | .removeChannel p => do
    let (poller, moved) ← s.poller.removeChannel p (s.channel p)
    return ⟨poller, setIndex s.channel moved⟩

/-- The machine: an assertion that fails ends the run. -/
def step (s : Polled P) (a : Action P) : Option (Polled P) := (s.exec a).toOption

end Exec

/-- The descriptors that the slots are for. -/
def slots (s : Polled P) : List ℤ := s.poller.pollfds.map PollFd.decoded

/-- The map and the array have the same descriptors, each of them once, and the
channels in the map have the places of their slots. -/
structure Slotted (fd : P → ℕ) (s : Polled P) : Prop where
  fd_eq : ∀ p, (s.channel p).fd = fd p
  nodup : s.slots.Nodup
  key : ∀ n p, s.poller.channels n = some p → n = fd p
  slot : ∀ p, s.poller.channels (fd p) = some p →
    ∃ i : ℕ, (s.channel p).index = i ∧ s.slots[i]? = some (fd p : ℤ)
  entry : ∀ n ∈ s.slots, ∃ p, s.poller.channels n = some p

variable {fd : P → ℕ} {s t : Polled P} {p q : P} {n : ℤ} {i : ℕ} {pfd : PollFd} {ch : Channel}

/-- Descriptors of different channels are different, as the `int`s that they are. -/
theorem fd_eq_iff (hfd : Function.Injective fd) : (fd p : ℤ) = fd q ↔ p = q :=
  Int.ofNat_inj.trans hfd.eq_iff

theorem slotted_init : Slotted fd (init fd) where
  fd_eq _ := rfl
  nodup := List.nodup_nil
  key _ _ h := absurd h (by simp [init, Poller.empty])
  slot _ h := absurd h (by simp [init, Poller.empty])
  entry _ h := absurd h List.not_mem_nil

/-- A slot is about a descriptor or about its complement. -/
theorem decoded_iff {n : ℕ} : pfd.decoded = n ↔ pfd.fd = n ∨ pfd.fd = -(n : ℤ) - 1 := by
  rw [PollFd.decoded]
  split <;> omega

/-- An update leaves the slot with its descriptor. -/
theorem decoded_updated (hfd : pfd.fd = ch.fd ∨ pfd.fd = -(ch.fd : ℤ) - 1) :
    (Poller.updated pfd ch).decoded = ch.fd := by
  rw [decoded_iff, Poller.updated]
  split
  · exact Or.inr rfl
  · exact hfd

theorem getElem?_slots (h : s.poller.pollfds[i]? = some pfd) : s.slots[i]? = some pfd.decoded := by
  rw [slots, List.getElem?_map, h]
  rfl

/-- A slot is written to, and is for the same descriptor as before. -/
theorem map_decoded_set {pollfds : List PollFd} {pfd' : PollFd} (h : pollfds[i]? = some pfd)
    (hpfd : pfd'.decoded = pfd.decoded) :
    (pollfds.set i pfd').map PollFd.decoded = pollfds.map PollFd.decoded := by
  obtain ⟨hlt, -⟩ := List.getElem?_eq_some_iff.mp h
  ext1 j
  rw [List.getElem?_map, List.getElem?_map]
  by_cases hj : i = j
  · rw [← hj, List.getElem?_set_self hlt, h, Option.map_some, Option.map_some, hpfd]
  · rw [List.getElem?_set_ne hj]

/-- The slot at the end. -/
theorem getElem?_slots_last (h : s.poller.pollfds[i]? = some pfd) :
    s.slots[s.slots.length - 1]? = some (s.poller.pollfds.getLastD pfd).decoded := by
  obtain ⟨hi, -⟩ := List.getElem?_eq_some_iff.mp h
  have hlast : s.poller.pollfds[s.poller.pollfds.length - 1]? =
      some (s.poller.pollfds.getLastD pfd) := by
    rw [← List.getLast?_eq_getElem?, List.getLastD_eq_getLast?, List.getLast?_eq_some_getLast]
    · rfl
    · exact List.ne_nil_of_length_pos (by omega)
  rw [slots, List.length_map]
  exact getElem?_slots hlast

namespace Slotted

/-- Who has a slot has an entry. -/
theorem mem_slots_iff (h : Slotted fd s) : n ∈ s.slots ↔ s.poller.channels n ≠ none := by
  constructor
  · intro hmem hnone
    obtain ⟨p, hp⟩ := h.entry n hmem
    exact absurd (hp.symm.trans hnone) (by simp)
  · intro hsome
    obtain ⟨p, hp⟩ := Option.ne_none_iff_exists'.mp hsome
    obtain rfl := h.key n p hp
    obtain ⟨i, -, hi⟩ := h.slot p hp
    exact List.mem_of_getElem? hi

/-- Two places with one descriptor are the same. -/
theorem place_eq (h : Slotted fd s) {j : ℕ} (hi : s.slots[i]? = some n)
    (hj : s.slots[j]? = some n) :
    i = j := by
  obtain ⟨hlt, -⟩ := List.getElem?_eq_some_iff.mp hi
  exact (List.getElem?_inj hlt h.nodup).mp (hi.trans hj.symm)

theorem getElem?_of_hidden (h : Slotted fd s) (hpfd : s.poller.pollfds[i]? = some pfd)
    (hslot : pfd.fd = -((s.channel p).fd : ℤ) - 1) : s.slots[i]? = some (fd p : ℤ) := by
  rw [getElem?_slots hpfd, decoded_iff.mpr (Or.inr hslot), h.fd_eq p]

/-- The slot of a registered channel. -/
theorem slot_eq (h : Slotted fd s) (hknown : s.poller.channels (fd p) = some p) :
    ∃ (i : ℕ) (pfd : PollFd), (s.channel p).index = i ∧ s.poller.pollfds[i]? = some pfd ∧
      pfd.decoded = fd p := by
  obtain ⟨i, hi, hslot⟩ := h.slot p hknown
  rw [slots, List.getElem?_map, Option.map_eq_some_iff] at hslot
  obtain ⟨pfd, hpfd, hdecoded⟩ := hslot
  exact ⟨i, pfd, hi, hpfd, hdecoded⟩

/-- Nothing has changed but the interest of channels. -/
theorem congr (h : Slotted fd s) (hfd : ∀ p, (t.channel p).fd = (s.channel p).fd)
    (hindex : ∀ p, (t.channel p).index = (s.channel p).index) (hslots : t.slots = s.slots)
    (hchannels : t.poller.channels = s.poller.channels) : Slotted fd t where
  fd_eq p := (hfd p).trans (h.fd_eq p)
  nodup := hslots ▸ h.nodup
  key n p hp := h.key n p (hchannels ▸ hp)
  slot p hp := by
    rw [hindex, hslots]
    exact h.slot p (hchannels ▸ hp)
  entry n hn := by
    rw [hchannels]
    exact h.entry n (hslots ▸ hn)

variable [DecidableEq P]

/-- A channel is entered, at the end. -/
theorem register (h : Slotted fd s) (hfd : Function.Injective fd)
    (hfree : s.poller.channels (fd p) = none)
    (hchannel : t.channel = Function.update s.channel p ch) (hch : ch.fd = fd p)
    (hindex : ch.index = s.slots.length) (hslots : t.slots = s.slots ++ [(fd p : ℤ)])
    (hchannels : t.poller.channels = Function.update s.poller.channels (fd p) (some p)) :
    Slotted fd t := by
  refine ⟨fun q => ?_, ?_, fun n q hq => ?_, fun q hq => ?_, fun n hn => ?_⟩
  · rw [hchannel, Function.update_apply]
    split
    · next hqp => rw [hqp, hch]
    · exact h.fd_eq q
  · rw [hslots, List.nodup_append]
    refine ⟨h.nodup, List.nodup_singleton _, fun n hn m hm => ?_⟩
    rw [List.mem_singleton] at hm
    rintro rfl
    exact h.mem_slots_iff.mp hn (hm ▸ hfree)
  · rw [hchannels, Function.update_apply] at hq
    split at hq
    · next hn => rw [hn, Option.some_inj.mp hq]
    · exact h.key n q hq
  · rw [hchannel, hslots]
    by_cases hqp : q = p
    · refine ⟨s.slots.length, by rw [hqp, Function.update_self, hindex], ?_⟩
      rw [List.getElem?_append_right (Nat.le_refl _), Nat.sub_self, hqp]
      rfl
    · have hne : (fd q : ℤ) ≠ fd p := mt (fd_eq_iff hfd).mp hqp
      rw [hchannels, Function.update_of_ne hne] at hq
      obtain ⟨i, hi, hslot⟩ := h.slot q hq
      refine ⟨i, by rw [Function.update_of_ne hqp, hi], ?_⟩
      rw [List.getElem?_append_left (List.getElem?_eq_some_iff.mp hslot).1, hslot]
  · rw [hchannels, Function.update_apply]
    split
    · exact ⟨p, rfl⟩
    · next hne =>
      rw [hslots, List.mem_append, List.mem_singleton] at hn
      exact h.entry n (hn.resolve_right hne)

/-- The channel at place `i` leaves, and the channel at the end takes its place. -/
theorem unregister (h : Slotted fd s) (hi : s.slots[i]? = some (fd p : ℤ))
    {moved : Option (P × ℤ)} (hchannel : t.channel = setIndex s.channel moved)
    (hslots : t.slots = swapRemove s.slots i)
    (hchannels : t.poller.channels = Function.update s.poller.channels (fd p) none)
    (hmoved : i = s.slots.length - 1 ∧ moved = none ∨
      i ≠ s.slots.length - 1 ∧ ∃ q n, moved = some (q, (i : ℤ)) ∧
        s.slots[s.slots.length - 1]? = some n ∧ t.poller.channels n = some q) :
    Slotted fd t := by
  obtain ⟨hlt, -⟩ := List.getElem?_eq_some_iff.mp hi
  have hkept : ∀ n q, t.poller.channels n = some q →
      n ≠ fd p ∧ s.poller.channels n = some q := by
    intro n q hq
    rw [hchannels, Function.update_apply] at hq
    split at hq
    · exact absurd hq (by simp)
    · next hne => exact ⟨hne, hq⟩
  refine ⟨fun q => ?_, ?_, fun n q hq => h.key n q (hkept n q hq).2, fun q hq => ?_,
    fun n hn => ?_⟩
  · rw [hchannel, setIndex.eq_def]
    split
    · exact h.fd_eq q
    · next r index =>
      rw [Function.update_apply]
      split
      · next hqr => rw [hqr, h.fd_eq r]
      · exact h.fd_eq q
  · rw [hslots]
    exact nodup_swapRemove h.nodup hlt
  · obtain ⟨hne, hold⟩ := hkept _ q hq
    obtain ⟨j, hj, hslot⟩ := h.slot q hold
    obtain ⟨hjlt, -⟩ := List.getElem?_eq_some_iff.mp hslot
    have hji : j ≠ i := by
      rintro rfl
      exact hne (Option.some_inj.mp (hslot.symm.trans hi))
    rcases hmoved with ⟨hlast, rfl⟩ | ⟨hlast, r, n, rfl, hn, hr⟩
    · refine ⟨j, by rw [hchannel]; exact hj, ?_⟩
      rw [hslots, getElem?_swapRemove hlt, if_pos (by omega), origin, if_neg hji, hslot]
    -- the channel that was at the end is the one whose index is set
    · by_cases hend : j = s.slots.length - 1
      · obtain rfl : n = fd q := by
          rw [← hend, hslot] at hn
          exact (Option.some_inj.mp hn).symm
        obtain rfl : q = r := Option.some_inj.mp (hq.symm.trans hr)
        refine ⟨i, by rw [hchannel, setIndex, Function.update_self], ?_⟩
        rw [hslots, getElem?_swapRemove hlt, if_pos (by omega), origin, if_pos rfl, ← hend, hslot]
      · have hqr : q ≠ r := by
          rintro rfl
          rw [h.key n q (hkept n q hr).2] at hn
          exact hend (h.place_eq hslot hn)
        refine ⟨j, by rw [hchannel, setIndex, Function.update_of_ne hqr]; exact hj, ?_⟩
        rw [hslots, getElem?_swapRemove hlt, if_pos (by omega), origin, if_neg hji, hslot]
  · rw [hslots, mem_swapRemove h.nodup hlt, hi] at hn
    obtain ⟨q, hq⟩ := h.entry n hn.1
    refine ⟨q, ?_⟩
    rw [hchannels, Function.update_of_ne fun heq => hn.2 (by rw [heq]), hq]

end Slotted

/-! ### Every call -/

section Calls

variable [DecidableEq P] {a : Action P} {as : List (Action P)} {events : EventMask}

theorem step_eq_some_iff : step s a = some t ↔ s.exec a = .ok t :=
  toOption_eq_some_iff

/-- `UpdateChannel` keeps the slots in order. -/
theorem Slotted.updateChannel (h : Slotted fd s) (hfd : Function.Injective fd)
    (hok : s.exec (.updateChannel events p) = .ok t) : Slotted fd t := by
  obtain ⟨⟨poller, ch⟩, hupdate, hok⟩ := bind_eq_ok_iff.mp hok
  obtain rfl := pure_eq_ok_iff.mp hok
  have hp := h.fd_eq p
  rcases Poller.updateChannel_cases hupdate with
    ⟨-, hfree, rfl, rfl⟩ | ⟨-, -, rfl, pfd, hpfd, hslot, rfl⟩
  · simp only [hp] at hfree
    refine h.register hfd hfree rfl hp (by simp [slots]) ?_ ?_
    · simp [slots, PollFd.decoded, hp]
    · simp only [hp]
  · have hdecoded := (decoded_updated hslot).trans (decoded_iff.mpr hslot).symm
    refine h.congr (fun q => ?_) (fun q => ?_) (map_decoded_set hpfd hdecoded) rfl
    · simp only [Function.update_apply]
      split
      · next hq => rw [hq]
      · rfl
    · simp only [Function.update_apply]
      split
      · next hq => rw [hq]
      · rfl

/-- `RemoveChannel` keeps the slots in order. -/
theorem Slotted.removeChannel (h : Slotted fd s) (hok : s.exec (.removeChannel p) = .ok t) :
    Slotted fd t := by
  obtain ⟨⟨poller, moved⟩, hremove, hok⟩ := bind_eq_ok_iff.mp hok
  obtain rfl := pure_eq_ok_iff.mp hok
  obtain ⟨-, i, pfd, -, hpfd, hslot, -, rfl, hmoved⟩ := Poller.removeChannel_cases hremove
  have hlength : s.slots.length = s.poller.pollfds.length := List.length_map _
  refine h.unregister (h.getElem?_of_hidden hpfd hslot) rfl map_swapRemove ?_ ?_
  · simp only [h.fd_eq p]
  · rw [hlength]
    rcases hmoved with hlast | ⟨hlast, q, hq, hend⟩
    · exact Or.inl hlast
    · refine Or.inr ⟨hlast, q, _, hq, ?_, hend⟩
      rw [← hlength]
      exact getElem?_slots_last hpfd

/-- The step lemma of `Slotted`. -/
theorem slotted_step (h : Slotted fd s) (hfd : Function.Injective fd) (hstep : step s a = some t) :
    Slotted fd t := by
  rw [step_eq_some_iff] at hstep
  cases a with
  | updateChannel events p => exact h.updateChannel hfd hstep
  | removeChannel p => exact h.removeChannel hstep

/-- The slots are in order in every state. -/
theorem slotted_of_reach {ok : Polled P → Action P → Prop} (hfd : Function.Injective fd)
    (hrun : Reach step ok (init fd) as s) : Slotted fd s :=
  hrun.invariant slotted_init fun _ h _ hstep => slotted_step h hfd hstep

/-- The channel whose slot is at the end is found, also after another was erased. -/
theorem Slotted.removeChannel_ne_nullChannel (h : Slotted fd s) :
    s.exec (.removeChannel p) ≠ .error .nullChannel := by
  intro hexec
  rcases bind_eq_error_iff.mp hexec with hnull | ⟨_, -, hnull⟩
  · obtain ⟨i, pfd, hpfd, hslot, hlast, hend⟩ := Poller.removeChannel_eq_nullChannel hnull
    have hat := getElem?_slots_last hpfd
    -- the slot at the end is for another descriptor than the slot that is removed
    have hne : (s.poller.pollfds.getLastD pfd).decoded ≠ (s.channel p).fd := by
      intro heq
      rw [heq, h.fd_eq p] at hat
      have hplace := h.place_eq (h.getElem?_of_hidden hpfd hslot) hat
      rw [slots, List.length_map] at hplace
      exact hlast hplace
    rw [Function.update_of_ne hne] at hend
    exact h.mem_slots_iff.mp (List.mem_of_getElem? hat) hend
  · exact absurd hnull (by simp [pure, Except.pure])

/-- After any calls on channels of distinct descriptors: the map and the array are of
one size, each channel of the map has in its index the place of a slot for its
descriptor, no two of them the same place, and whatever is removed next, the channel
whose slot is moved is found. -/
theorem slots_survive (hfd : Function.Injective fd) (hrun : Reach step Always (init fd) as s) :
    ({n | s.poller.channels n ≠ none}.Finite ∧
      {n | s.poller.channels n ≠ none}.ncard = s.poller.pollfds.length) ∧
    (∀ n p, s.poller.channels n = some p → (s.channel p).fd = n ∧
      ∃ (i : ℕ) (pfd : PollFd), (s.channel p).index = i ∧ s.poller.pollfds[i]? = some pfd ∧
        (pfd.fd = n ∨ pfd.fd = -n - 1)) ∧
    (∀ n m p q, s.poller.channels n = some p → s.poller.channels m = some q → p ≠ q →
      (s.channel p).index ≠ (s.channel q).index) ∧
    ∀ p, s.exec (.removeChannel p) ≠ .error .nullChannel := by
  have h := slotted_of_reach hfd hrun
  have hkeys : {n | s.poller.channels n ≠ none} = (s.slots.toFinset : Set ℤ) := by
    ext n
    rw [Set.mem_ofPred_eq, Finset.mem_coe, List.mem_toFinset, h.mem_slots_iff]
  refine ⟨⟨?_, ?_⟩, fun n p hp => ?_, fun n m p q hp hq hne => ?_,
    fun p => h.removeChannel_ne_nullChannel⟩
  · rw [hkeys]
    exact Finset.finite_toSet _
  · rw [hkeys, Set.ncard_coe_finset, List.toFinset_card_of_nodup h.nodup, slots, List.length_map]
  · obtain rfl := h.key n p hp
    obtain ⟨i, pfd, hi, hpfd, hdecoded⟩ := h.slot_eq hp
    exact ⟨by rw [h.fd_eq p], i, pfd, hi, hpfd, decoded_iff.mp hdecoded⟩
  · obtain rfl := h.key n p hp
    obtain rfl := h.key m q hq
    obtain ⟨i, hi, hslot⟩ := h.slot p hp
    obtain ⟨j, hj, hslot'⟩ := h.slot q hq
    intro hindex
    obtain rfl : i = j := by omega
    have heq := Option.some_inj.mp (hslot.symm.trans hslot')
    exact hne ((fd_eq_iff hfd).mp heq)

/-- The first of three channels is removed, the one at the end takes its place, and is
then removed itself. Descriptor 0 is hidden as -1. -/
theorem slots_survive_moved : ∃ s : Polled ℕ,
    Reach step Always (init id)
      [.updateChannel Channel.readEvent 5, .updateChannel Channel.writeEvent 7,
        .updateChannel Channel.readEvent 0, .updateChannel 0 0, .updateChannel 0 5,
        .removeChannel 5, .removeChannel 0] s ∧
    s.poller.pollfds = [⟨7, 4, 0⟩] ∧ (s.channel 7).index = 0 ∧
    {n | s.poller.channels n ≠ none}.ncard = 1 := by
  have hrun : Reach step Always (init (id : ℕ → ℕ))
      [.updateChannel Channel.readEvent 5, .updateChannel Channel.writeEvent 7,
        .updateChannel Channel.readEvent 0, .updateChannel 0 0, .updateChannel 0 5,
        .removeChannel 5, .removeChannel 0] _ := reach_of_run rfl
  obtain ⟨⟨-, hsize⟩, -⟩ := slots_survive Function.injective_id hrun
  exact ⟨_, hrun, rfl, rfl, hsize⟩

end Calls

end Polled
end Bbkgl
