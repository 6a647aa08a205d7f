import Bbkgl.CS.Transition
import Bbkgl.Net.Epoller

/-!
# The epoll instance and the two records of it

What the poller knows of a channel is kept twice, in `channels_` and in the index
of the channel, and the kernel has a third record. The channels of one poller are
driven here through any operations, with every call of `epoll_ctl` and its answer
on record, and the three stay in agreement.
-/

set_option autoImplicit false

namespace Bbkgl

open CS.Transition CS.Fallible

variable {P : Type*}

namespace Epoller

/-- The epoll instance after `epoll_ctl`, if the call succeeds. -/
def epollCtl (kernel : ℕ → Option (EventMask × P)) (operation : Operation) (fd : ℕ)
    (event : EventMask × P) : Option (ℕ → Option (EventMask × P)) :=
  match operation, kernel fd with
  | .add, none | .mod, some _ => some (Function.update kernel fd (some event))
  | .del, some _ => some (Function.update kernel fd none)
  | .add, some _ | .mod, none | .del, none => none

/-- `Update` takes what `epoll_ctl` gives, and ignores its failure. -/
theorem update_kernel {ep : Epoller P} {operation : Operation} {p : P} {ch : Channel} :
    (ep.update operation p ch).kernel =
      (epollCtl ep.kernel operation ch.fd (ch.events, p)).getD ep.kernel := by
  unfold update epollCtl
  cases operation <;> cases ep.kernel ch.fd <;> rfl

/-- The operation that `UpdateChannel` asks of the kernel. -/
def updateRequest (ch : Channel) : Operation :=
  if ch.index = kNew ∨ ch.index = kDeleted then .add
  else if ch.isNoneEvent then .del
  else .mod

/-- The operation that `RemoveChannel` asks of the kernel, if any. -/
def removeRequest (ch : Channel) : Option Operation :=
  if ch.index = kAdded then some .del else none

variable [DecidableEq P] {ep ep' : Epoller P} {p q : P} {ch ch' : Channel}

/-- A known channel without interest is taken out, with interest it is modified. -/
theorem updateChannel_added (hadded : ch.index = kAdded)
    (h : ep.updateChannel p ch = .ok (ep', ch')) :
    (ch.isNoneEvent = true ∧ ep' = ep.update .del p ch ∧ ch' = { ch with index := kDeleted }) ∨
      (ch.isNoneEvent = false ∧ ep' = ep.update .mod p ch ∧ ch' = ch) := by
  have hknown : ¬ (ch.index = kNew ∨ ch.index = kDeleted) := hadded ▸ by decide
  rw [updateChannel, if_neg hknown, check_bind_eq_ok_iff, check_bind_eq_ok_iff] at h
  obtain ⟨-, -, h⟩ := h
  cases hnone : ch.isNoneEvent with
  | true =>
    rw [if_pos hnone] at h
    obtain ⟨rfl, rfl⟩ := Prod.mk.inj (Except.ok.inj h)
    exact Or.inl ⟨rfl, rfl, rfl⟩
  | false =>
    rw [if_neg (Bool.not_eq_true _ ▸ hnone)] at h
    obtain ⟨rfl, rfl⟩ := Prod.mk.inj (Except.ok.inj h)
    exact Or.inr ⟨rfl, rfl, rfl⟩

/-- `UpdateChannel` is the one call of `epoll_ctl` that it asks for. -/
theorem updateChannel_kernel (h : ep.updateChannel p ch = .ok (ep', ch')) :
    ep'.kernel =
      (epollCtl ep.kernel (updateRequest ch) ch.fd (ch.events, p)).getD ep.kernel := by
  by_cases hadded : ch.index = kAdded
  · have hknown : ¬ (ch.index = kNew ∨ ch.index = kDeleted) := hadded ▸ by decide
    rw [updateRequest, if_neg hknown]
    rcases updateChannel_added hadded h with ⟨hnone, rfl, -⟩ | ⟨hnone, rfl, -⟩
    · rw [if_pos hnone, update_kernel]
    · rw [if_neg (Bool.not_eq_true _ ▸ hnone), update_kernel]
  · rcases updateChannel_cases h with ⟨hnew, -, rfl, rfl⟩ | ⟨hdeleted, -, rfl, rfl⟩ |
      ⟨hindex, -⟩ | ⟨hindex, -⟩
    · rw [updateRequest, if_pos (Or.inl hnew), update_kernel]
    · rw [updateRequest, if_pos (Or.inr hdeleted), update_kernel]
    · exact absurd hindex hadded
    · exact absurd hindex hadded

/-- `RemoveChannel` makes one call of `epoll_ctl` at most. -/
theorem removeChannel_kernel (h : ep.removeChannel p ch = .ok (ep', ch')) :
    ep'.kernel = ((removeRequest ch).bind fun operation =>
      epollCtl ep.kernel operation ch.fd (ch.events, p)).getD ep.kernel := by
  have hdeleted : kDeleted ≠ kAdded := by decide
  obtain ⟨-, rfl, ⟨hindex, rfl⟩ | ⟨hindex, rfl⟩⟩ := removeChannel_cases h
  · rw [removeRequest, if_pos hindex, Option.bind_some, update_kernel]
  · rw [removeRequest, if_neg (hindex ▸ hdeleted), Option.bind_none, Option.getD_none]

/-- `FillActiveChannels`: each event names a channel by its address, and the
channel is looked up under its own descriptor. -/
def fillActiveChannels (ep : Epoller P) (fd : P → ℕ) :
    List (P × EventMask) → Except Assertion (List (P × EventMask))
  | [] => pure []
  | (p, revents) :: events => do
    check (ep.channels (fd p) = some p) .fillActive
    let activeChannels ← ep.fillActiveChannels fd events
    return (p, revents) :: activeChannels

/-- `FillActiveChannels` passes on what it gets, if each channel has its entry. -/
theorem fillActiveChannels_eq {fd : P → ℕ} {events : List (P × EventMask)}
    (h : ∀ e ∈ events, ep.channels (fd e.1) = some e.1) :
    ep.fillActiveChannels fd events = .ok events := by
  induction events with
  | nil => rfl
  | cons e events ih =>
    rw [List.forall_mem_cons] at h
    rw [fillActiveChannels, check_bind_eq_ok_iff, decide_eq_true_eq]
    exact ⟨h.1, bind_eq_ok_iff.mpr ⟨events, ih h.2, rfl⟩⟩

/-- The answer to a call of `epoll_ctl` for a channel. -/
def answer (ep : Epoller P) (p : P) (ch : Channel) (operation : Operation) : Operation × Bool :=
  (operation, (epollCtl ep.kernel operation ch.fd (ch.events, p)).isSome)

/-- Where a channel stands: what `channels_` and the epoll instance have under
its descriptor. -/
inductive Standing (p : P) (ch : Channel) : Option P → Option (EventMask × P) → Prop
  | new : ch.index = kNew → Standing p ch none none
  | added : ch.index = kAdded → Standing p ch (some p) (some (ch.events, p))
  | deleted : ch.index = kDeleted → Standing p ch (some p) none

variable {c : Option P} {k : Option (EventMask × P)}

omit [DecidableEq P] in
/-- An entry under the descriptor is the channel's own. -/
theorem Standing.channels (h : Standing p ch c k) : c = none ∨ c = some p := by
  cases h
  · exact Or.inl rfl
  · exact Or.inr rfl
  · exact Or.inr rfl

omit [DecidableEq P] in
/-- What has a record has an entry. -/
theorem Standing.kernel {mask : EventMask} (h : Standing p ch c k) (hk : k = some (mask, q)) :
    c = some q := by
  cases h with
  | new => cases hk
  | added => cases hk; rfl
  | deleted => cases hk

omit [DecidableEq P] in
/-- The index tells what the two maps have. -/
theorem Standing.index_iff (h : Standing p ch c k) :
    (ch.index = kNew ↔ c = none) ∧ (ch.index = kAdded ∨ ch.index = kDeleted ↔ c = some p) ∧
      (k ≠ none ↔ ch.index = kAdded) ∧ (ch.index = kAdded → k = some (ch.events, p)) := by
  cases h with
  | new hindex =>
    rw [hindex]
    simp [show kNew ≠ kAdded by decide, show kNew ≠ kDeleted by decide]
  | added hindex =>
    rw [hindex]
    simp [show kAdded ≠ kNew by decide]
  | deleted hindex =>
    rw [hindex]
    simp [show kDeleted ≠ kNew by decide, show kDeleted ≠ kAdded by decide]

/-- `UpdateChannel` on a channel whose events alone have changed: no assertion
fails, the call of `epoll_ctl` succeeds, and only the entries of the channel's
own descriptor are written. -/
theorem Standing.updateChannel (h : Standing p ch c k) (hindex : ch'.index = ch.index)
    (hc : ep.channels ch'.fd = c) (hk : ep.kernel ch'.fd = k) :
    ∃ ep' ch'' c' k', ep.updateChannel p ch' = .ok (ep', ch'') ∧
      (ep.answer p ch' (updateRequest ch')).2 = true ∧ ch''.fd = ch'.fd ∧
      ep'.channels = Function.update ep.channels ch'.fd c' ∧
      ep'.kernel = Function.update ep.kernel ch'.fd k' ∧ Standing p ch'' c' k' := by
  have hne : kDeleted ≠ kNew := by decide
  have hknown : ¬ (kAdded = kNew ∨ kAdded = kDeleted) := by decide
  cases h with
  | new hnew =>
    rw [hnew] at hindex
    have hupdate : ep.updateChannel p ch' =
        .ok ({ ep with channels := Function.update ep.channels ch'.fd (some p) }.update .add p
          { ch' with index := kAdded }, { ch' with index := kAdded }) := by
      rw [Epoller.updateChannel, if_pos (Or.inl hindex), if_pos hindex, if_pos hc]
      rfl
    refine ⟨_, _, some p, some (ch'.events, p), hupdate, ?_, rfl, ?_, ?_, .added rfl⟩
    · simp [answer, updateRequest, epollCtl, hindex, hk]
    · exact update_channels
    · simp [update, hk]
  | deleted hdeleted =>
    rw [hdeleted] at hindex
    have hupdate : ep.updateChannel p ch' =
        .ok (ep.update .add p { ch' with index := kAdded }, { ch' with index := kAdded }) := by
      rw [Epoller.updateChannel, if_pos (Or.inr hindex), if_neg (hindex ▸ hne), if_pos hc]
      rfl
    refine ⟨_, _, some p, some (ch'.events, p), hupdate, ?_, rfl, ?_, ?_, .added rfl⟩
    · simp [answer, updateRequest, epollCtl, hindex, hk]
    · rw [update_channels, ← hc, Function.update_eq_self]
    · simp [update, hk]
  | added hadded =>
    rw [hadded] at hindex
    have hanswer : (ep.answer p ch' (updateRequest ch')).2 = true := by
      rw [updateRequest, if_neg (hindex ▸ hknown)]
      split <;> simp [answer, epollCtl, hk]
    have hupdate : ep.updateChannel p ch' =
        if ch'.isNoneEvent then .ok (ep.update .del p ch', { ch' with index := kDeleted })
        else .ok (ep.update .mod p ch', ch') := by
      rw [Epoller.updateChannel, if_neg (hindex ▸ hknown)]
      simp only [hc, hindex, decide_true, check, if_true]
      rfl
    cases hnone : ch'.isNoneEvent with
    | true =>
      rw [if_pos hnone] at hupdate
      refine ⟨_, _, some p, none, hupdate, hanswer, rfl, ?_, ?_, .deleted rfl⟩
      · rw [update_channels, ← hc, Function.update_eq_self]
      · simp [update, hk]
    | false =>
      rw [if_neg (Bool.not_eq_true _ ▸ hnone)] at hupdate
      refine ⟨_, _, some p, some (ch'.events, p), hupdate, hanswer, rfl, ?_, ?_, .added hindex⟩
      · rw [update_channels, ← hc, Function.update_eq_self]
      · simp [update, hk]

/-- `RemoveChannel` on a channel that it finds, without interest. -/
theorem Standing.removeChannel (h : Standing p ch c k) (hc : ep.channels ch.fd = c)
    (hk : ep.kernel ch.fd = k) (hknown : c = some p) (hnone : ch.isNoneEvent = true) :
    ∃ ep', ep.removeChannel p ch = .ok (ep', { ch with index := kNew }) ∧
      (∀ operation ∈ removeRequest ch, (ep.answer p ch operation).2 = true) ∧
      ep'.channels = Function.update ep.channels ch.fd none ∧
      ep'.kernel = Function.update ep.kernel ch.fd none := by
  have hne : kDeleted ≠ kAdded := by decide
  have hremove (hindex : ch.index = kAdded ∨ ch.index = kDeleted) :
      let erased := { ep with channels := Function.update ep.channels ch.fd none }
      ep.removeChannel p ch =
        .ok (if ch.index = kAdded then erased.update .del p ch else erased,
          { ch with index := kNew }) := by
    simp only [Epoller.removeChannel, hc, hknown, hnone, hindex, decide_true, check, if_true]
    rfl
  cases h with
  | new => cases hknown
  | added hadded =>
    refine ⟨_, hremove (Or.inl hadded), ?_, ?_, ?_⟩
    · simp [answer, removeRequest, epollCtl, hadded, hk]
    · rw [if_pos hadded]
      exact update_channels
    · simp [update, hadded, hk]
  | deleted hdeleted =>
    have hindex : ch.index ≠ kAdded := hdeleted ▸ hne
    refine ⟨_, hremove (Or.inr hdeleted), ?_, ?_, ?_⟩
    · rw [removeRequest, if_neg hindex]
      simp
    · rw [if_neg hindex]
    · rw [if_neg hindex, ← hk, Function.update_eq_self]

end Epoller

/-! ### The channels of one poller -/

/-- The changes of `events_` that are followed by `Update()`. -/
inductive Channel.Change
  | enableReading
  | enableWriting
  | disableWriting
  | disableAll
  deriving DecidableEq, Repr

/-- The method of the channel that a change stands for. -/
def Channel.Change.apply : Change → Channel → Channel
  | .enableReading, ch => ch.enableReading
  | .enableWriting, ch => ch.enableWriting
  | .disableWriting, ch => ch.disableWriting
  | .disableAll, ch => ch.disableAll

/-- A change of interest changes `events_` only. -/
theorem Channel.Change.apply_eq (change : Channel.Change) (ch : Channel) :
    ∃ events, change.apply ch = { ch with events := events } := by
  cases change
  · exact ⟨_, rfl⟩
  · exact ⟨_, rfl⟩
  · exact ⟨_, rfl⟩
  · exact ⟨_, rfl⟩

/-- A poller with its channels, each known by its address. -/
structure Watch (P : Type*) where
  poller : Epoller P
  channel : P → Channel
  /-- the calls of `epoll_ctl` so far, and whether each succeeded -/
  answers : List (Epoller.Operation × Bool)
  fault : Option Epoller.Assertion

namespace Watch

open Epoller

/-- The channel `p` is made for the descriptor `fd p`. -/
def init (fd : P → ℕ) : Watch P := ⟨.empty, fun p => .new (fd p), [], none⟩

/-- A change of a channel's interest, which `Update()` hands to the poller, or the removal of the
channel. -/
inductive Action (P : Type*)
  | update (change : Channel.Change) (p : P)
  | removeChannel (p : P)
  deriving DecidableEq, Repr

/-- The channel that an operation is about. -/
def Action.channel : Action P → P
  | .update _ p => p
  | .removeChannel p => p

variable [DecidableEq P]

/-- `RemoveChannel` is called only for a channel that is registered and has no
interest, as it asserts. -/
def guard (s : Watch P) : Action P → Bool
  | .update _ _ => s.fault = none
  | .removeChannel p =>
    s.fault = none && s.poller.channels (s.channel p).fd = some p && (s.channel p).isNoneEvent

/-- What the poller does with an action, and the answers that `epoll_ctl` gives; a failed
assertion ends the run. -/
def effect (s : Watch P) : Action P → Watch P
  | .update change p =>
    let ch := change.apply (s.channel p)
    match s.poller.updateChannel p ch with
    | .error e => { s with channel := Function.update s.channel p ch, fault := some e }
    | .ok (poller, ch') =>
      { s with
        poller := poller
        channel := Function.update s.channel p ch'
        answers := s.answers ++ [s.poller.answer p ch (updateRequest ch)] }
  | .removeChannel p =>
    let ch := s.channel p
    match s.poller.removeChannel p ch with
    | .error e => { s with fault := some e }
    | .ok (poller, ch') =>
      { s with
        poller := poller
        channel := Function.update s.channel p ch'
        answers := s.answers ++ (removeRequest ch).toList.map (s.poller.answer p ch) }

/-- One step of the poller. -/
def step : Watch P → Action P → Option (Watch P) := guarded guard effect

/-! ### Agreement -/

/-- The three records agree, nothing has failed, and no descriptor is in use that
is not a channel's. -/
structure Agrees (fd : P → ℕ) (s : Watch P) : Prop where
  fd_eq : ∀ p, (s.channel p).fd = fd p
  standing : ∀ p, Standing p (s.channel p) (s.poller.channels (fd p)) (s.poller.kernel (fd p))
  foreign : ∀ n, (∀ p, fd p ≠ n) → s.poller.channels n = none ∧ s.poller.kernel n = none
  answered : ∀ answer ∈ s.answers, answer.2 = true
  fault : s.fault = none

variable {fd : P → ℕ} {s t : Watch P} {as : List (Action P)} {a : Action P} {p q : P} {n : ℕ}

omit [DecidableEq P] in
theorem agrees_init : Agrees fd (init fd) where
  fd_eq _ := rfl
  standing _ := .new rfl
  foreign _ _ := ⟨rfl, rfl⟩
  answered _ h := absurd h List.not_mem_nil
  fault := rfl

/-- One channel moves, with the entries of its own descriptor. -/
theorem Agrees.update (h : Agrees fd s) (hfd : Function.Injective fd) {ch : Channel}
    {c : Option P} {k : Option (EventMask × P)}
    (hchannel : t.channel = Function.update s.channel p ch) (hch : ch.fd = fd p)
    (hchannels : t.poller.channels = Function.update s.poller.channels (fd p) c)
    (hkernel : t.poller.kernel = Function.update s.poller.kernel (fd p) k)
    (hstanding : Standing p ch c k) (hanswers : ∀ answer ∈ t.answers, answer.2 = true)
    (hfault : t.fault = none) : Agrees fd t := by
  refine ⟨fun q => ?_, fun q => ?_, fun n hn => ?_, hanswers, hfault⟩
  · rw [hchannel]
    by_cases hq : q = p
    · rw [hq, Function.update_self, hch]
    · rw [Function.update_of_ne hq]
      exact h.fd_eq q
  · rw [hchannel, hchannels, hkernel]
    by_cases hq : q = p
    · rw [hq, Function.update_self, Function.update_self, Function.update_self]
      exact hstanding
    · have hne : fd q ≠ fd p := fun heq => hq (hfd heq)
      rw [Function.update_of_ne hq, Function.update_of_ne hne, Function.update_of_ne hne]
      exact h.standing q
  · rw [hchannels, hkernel, Function.update_of_ne (hn p).symm, Function.update_of_ne (hn p).symm]
    exact h.foreign n hn

/-- What a step does to the channel that it is about, from a state in agreement. -/
theorem Agrees.step_cases (h : Agrees fd s) (hstep : step s a = some t) :
    ∃ ch c k, t.channel = Function.update s.channel a.channel ch ∧ ch.fd = fd a.channel ∧
      t.poller.channels = Function.update s.poller.channels (fd a.channel) c ∧
      t.poller.kernel = Function.update s.poller.kernel (fd a.channel) k ∧
      Standing a.channel ch c k ∧
      (∀ answer ∈ t.answers, answer.2 = true) ∧ t.fault = none := by
  obtain ⟨hguard, rfl⟩ := guarded_eq_some_iff.mp hstep
  cases a with
  | update change p =>
    obtain ⟨events, hevents⟩ := change.apply_eq (s.channel p)
    have hfd : (change.apply (s.channel p)).fd = fd p := by rw [hevents, ← h.fd_eq p]
    have hindex : (change.apply (s.channel p)).index = (s.channel p).index := by rw [hevents]
    obtain ⟨poller, ch, c, k, hupdate, hanswer, hch, hc, hk, hstanding⟩ :=
      (h.standing p).updateChannel hindex (by rw [hfd]) (by rw [hfd])
    rw [hfd] at hch hc hk
    refine ⟨ch, c, k, ?_, hch, ?_, ?_, hstanding, ?_, ?_⟩
    · simp only [effect, hupdate, Action.channel]
    · simp only [effect, hupdate, hc, Action.channel]
    · simp only [effect, hupdate, hk, Action.channel]
    · simp only [effect, hupdate, List.forall_mem_append, List.forall_mem_singleton]
      exact ⟨h.answered, hanswer⟩
    · simp only [effect, hupdate, h.fault]
  | removeChannel p =>
    rw [guard, Bool.and_eq_true, Bool.and_eq_true, decide_eq_true_eq, decide_eq_true_eq] at hguard
    obtain ⟨⟨-, hknown⟩, hnone⟩ := hguard
    have hfd := h.fd_eq p
    obtain ⟨poller, hremove, hanswer, hc, hk⟩ :=
      (h.standing p).removeChannel (by rw [hfd]) (by rw [hfd]) (hfd ▸ hknown) hnone
    rw [hfd] at hc hk
    refine ⟨{ s.channel p with index := kNew }, none, none, ?_, hfd, ?_, ?_, .new rfl, ?_, ?_⟩
    · simp only [effect, hremove, Action.channel]
    · simp only [effect, hremove, hc, Action.channel]
    · simp only [effect, hremove, hk, Action.channel]
    · simp only [effect, hremove, List.forall_mem_append, List.forall_mem_map, Option.mem_toList]
      exact ⟨h.answered, hanswer⟩
    · simp only [effect, hremove, h.fault]

/-- The step lemma of `Agrees`. -/
theorem Agrees.of_step (h : Agrees fd s) (hfd : Function.Injective fd)
    (hstep : step s a = some t) : Agrees fd t := by
  obtain ⟨ch, c, k, hchannel, hch, hc, hk, hstanding, hanswers, hfault⟩ := h.step_cases hstep
  exact h.update hfd hchannel hch hc hk hstanding hanswers hfault

/-- The three tables agree in every state. -/
theorem agrees_of_reach (hfd : Function.Injective fd) (h : Reach step Always (init fd) as s) :
    Agrees fd s :=
  h.invariant agrees_init fun _ hagrees _ hstep => hagrees.of_step hfd hstep

omit [DecidableEq P] in
/-- What stands under a descriptor is the channel that was made for it. -/
theorem Agrees.channels_eq_some (h : Agrees fd s) (hn : s.poller.channels n = some p) :
    fd p = n := by
  by_cases hforeign : ∀ q, fd q ≠ n
  · rw [(h.foreign n hforeign).1] at hn
    cases hn
  · push Not at hforeign
    obtain ⟨q, rfl⟩ := hforeign
    rcases (h.standing q).channels with hq | hq
    · exact absurd (hn.symm.trans hq) (Option.some_ne_none p)
    · rw [Option.some_inj.mp (hn.symm.trans hq)]

omit [DecidableEq P] in
/-- A record of the kernel is about a channel with an entry. -/
theorem Agrees.kernel_eq_some (h : Agrees fd s) {mask : EventMask}
    (hn : s.poller.kernel n = some (mask, p)) : s.poller.channels (fd p) = some p := by
  by_cases hforeign : ∀ q, fd q ≠ n
  · rw [(h.foreign n hforeign).2] at hn
    cases hn
  · push Not at hforeign
    obtain ⟨q, rfl⟩ := hforeign
    have hq := (h.standing q).kernel hn
    rw [h.channels_eq_some hq]
    exact hq

/-- After any operations on channels of distinct descriptors, removed channels
being allowed back: the index of a channel, `channels_` and the epoll instance
agree, no call of `epoll_ctl` has failed and no assertion, and whatever
`epoll_wait` may return is found by `FillActiveChannels`. -/
theorem records_agree (hfd : Function.Injective fd) (h : Reach step Always (init fd) as s) :
    (∀ p,
      ((s.channel p).index = kNew ↔ ∀ n, s.poller.channels n ≠ some p) ∧
      ((s.channel p).index = kAdded ∨ (s.channel p).index = kDeleted ↔
        s.poller.channels (s.channel p).fd = some p) ∧
      (s.poller.kernel (s.channel p).fd ≠ none ↔ (s.channel p).index = kAdded) ∧
      ((s.channel p).index = kAdded →
        s.poller.kernel (s.channel p).fd = some ((s.channel p).events, p))) ∧
    (∀ answer ∈ s.answers, answer.2 = true) ∧ s.fault = none ∧
    ∀ events : List (P × EventMask), (∀ e ∈ events, ∃ n, s.poller.mayReport n e.1 e.2 = true) →
      s.poller.fillActiveChannels (fun p => (s.channel p).fd) events = .ok events := by
  have hagrees := agrees_of_reach hfd h
  refine ⟨fun p => ?_, hagrees.answered, hagrees.fault, fun events hevents => ?_⟩
  · obtain ⟨hnew, hknown, hkernel⟩ := (hagrees.standing p).index_iff
    rw [hagrees.fd_eq p]
    refine ⟨?_, hknown, hkernel⟩
    rw [hnew]
    constructor
    · intro hfree n hn
      have hp := hagrees.channels_eq_some hn
      rw [← hp, hfree] at hn
      cases hn
    · intro hout
      exact (hagrees.standing p).channels.resolve_right (hout (fd p))
  · refine fillActiveChannels_eq fun e he => ?_
    obtain ⟨n, hn⟩ := hevents e he
    rw [hagrees.fd_eq]
    rw [mayReport] at hn
    split at hn
    · cases hn
    · next mask q hkernel =>
      rw [Bool.and_eq_true, Bool.and_eq_true, decide_eq_true_eq] at hn
      exact hagrees.kernel_eq_some (hn.1.1 ▸ hkernel)

/-- A channel that was removed is registered again, beside another one. -/
theorem records_agree_reregistered : ∃ s : Watch ℕ,
    Reach step Always (init id)
      [.update .enableReading 3, .update .enableWriting 4, .update .disableAll 3,
        .removeChannel 3, .update .enableWriting 3] s ∧
    s.answers.length = 4 ∧ s.poller.kernel 3 = some (Channel.writeEvent, 3) ∧ s.fault = none := by
  have hrun : Reach step Always (init (id : ℕ → ℕ))
      [.update .enableReading 3, .update .enableWriting 4, .update .disableAll 3,
        .removeChannel 3, .update .enableWriting 3] _ := reach_of_run rfl
  obtain ⟨hrecords, -, hfault, -⟩ := records_agree Function.injective_id hrun
  refine ⟨_, hrun, rfl, ?_, hfault⟩
  obtain ⟨-, -, -, hkernel⟩ := hrecords 3
  exact hkernel rfl

end Watch
end Bbkgl
