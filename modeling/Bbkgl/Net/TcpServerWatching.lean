import Bbkgl.Net.TcpServerCalm
import Bbkgl.Net.TcpServerMoves
import Bbkgl.Net.TcpServerRest

/-!
# What the epoll instances watch

In every run of the server the epoll instances have no stale record: each is about a
connection that exists, on its own loop and under its own descriptor, with the
interest that the channel has now. And an open connection is watched for what it
waits for, no more and no less: for input, and for output while bytes are left over.
-/

set_option autoImplicit false

namespace Bbkgl

open CS.Transition

/-! ### One channel -/

namespace Channel

/-- The interest in reading and in writing, as `events_`. -/
def interestIn (reading writing : Bool) : EventMask :=
  (if reading then readEvent else noneEvent) ||| if writing then writeEvent else noneEvent

/-- `events_` is made of `k_read_event` and `k_write_event`. -/
def Shaped (ch : Channel) : Prop := ch.events = interestIn ch.isReading ch.isWriting

variable {ch : Channel}

theorem shaped_new {fd : ℕ} : Shaped (.new fd) := by
  rw [Shaped, isReading, isWriting, new, noneEvent_meets, noneEvent_meets]
  rfl

theorem Shaped.apply (h : ch.Shaped) (change : Change) : (change.apply ch).Shaped := by
  have hevents : ch.events = interestIn ch.isReading ch.isWriting := h
  cases change with
  | enableReading =>
    rw [Change.apply, Shaped, isReading_enableReading, isWriting_enableReading, enableReading,
      hevents]
    cases ch.isReading <;> cases ch.isWriting <;> rfl
  | enableWriting =>
    rw [Change.apply, Shaped, isReading_enableWriting, isWriting_enableWriting, enableWriting,
      hevents]
    cases ch.isReading <;> cases ch.isWriting <;> rfl
  | disableWriting =>
    rw [Change.apply, Shaped, isReading_disableWriting, isWriting_disableWriting, disableWriting,
      hevents]
    cases ch.isReading <;> cases ch.isWriting <;> rfl
  | disableAll =>
    rw [Change.apply, Shaped, isReading_disableAll, isWriting_disableAll]
    rfl

end Channel

namespace Epoller

variable {P : Type*} [DecidableEq P] {ep ep' : Epoller P} {p : P} {ch ch' : Channel}
  {mask : EventMask}

/-- The record of a channel: it has one while it is `k_added`. -/
def recordOf (p : P) (ch : Channel) : Option (EventMask × P) :=
  if ch.index = kAdded then some (ch.events, p) else none

/-- `UpdateChannel` brings the record up to date, and touches no other. -/
theorem updateChannel_recordOf (h : ep.updateChannel p ch = .ok (ep', ch'))
    (hrecord : ep.kernel ch.fd = if ch.index = kAdded then some (mask, p) else none) :
    ep'.kernel = Function.update ep.kernel ch.fd (recordOf p ch') ∧
      (ch'.index ≠ kAdded → ch'.isNoneEvent = true) := by
  by_cases hadded : ch.index = kAdded
  · have hdeleted : kDeleted ≠ kAdded := by decide
    rw [if_pos hadded] at hrecord
    rcases updateChannel_added hadded h with ⟨hnone, rfl, rfl⟩ | ⟨-, rfl, rfl⟩
    · exact ⟨by simp [update, hrecord, recordOf, hdeleted], fun _ => hnone⟩
    · exact ⟨by simp [update, hrecord, recordOf, hadded], fun hne => absurd hadded hne⟩
  · rw [if_neg hadded] at hrecord
    rcases updateChannel_cases h
      with ⟨-, -, rfl, rfl⟩ | ⟨-, -, rfl, rfl⟩ | ⟨hindex, -⟩ | ⟨hindex, -⟩
    · exact ⟨by simp [update, hrecord, recordOf], fun hne => absurd rfl hne⟩
    · exact ⟨by simp [update, hrecord, recordOf], fun hne => absurd rfl hne⟩
    · exact absurd hindex hadded
    · exact absurd hindex hadded

/-- `RemoveChannel` leaves no record of its channel, and touches no other. -/
theorem removeChannel_recordOf (h : ep.removeChannel p ch = .ok (ep', ch'))
    (hrecord : ep.kernel ch.fd = if ch.index = kAdded then some (mask, p) else none) :
    ep'.kernel = Function.update ep.kernel ch.fd none := by
  obtain ⟨-, -, ⟨hadded, rfl⟩ | ⟨hdeleted, rfl⟩⟩ := removeChannel_cases h
  · rw [if_pos hadded] at hrecord
    simp [update, hrecord]
  · have hne : kDeleted ≠ kAdded := by decide
    rw [if_neg (hdeleted ▸ hne)] at hrecord
    rw [← hrecord, Function.update_eq_self]

end Epoller

namespace TcpServer

open TcpConnection Connection Epoller

/-- What the epoll instance of loop `i` has at the descriptor. -/
def kernelAt (s : State) (i : LoopId) (fd : ℕ) : Option (EventMask × ConnId) :=
  (s.loops i).poller.kernel fd

/-- The kernel's records are those of the channels that are `k_added`, with their events. -/
structure Watching (s : State) : Prop where
  record : ∀ i fd mask c, kernelAt s i fd = some (mask, c) →
    (own s c = i ∧ (s.conns c).channel.fd = fd) ∧ (s.conns c).alive = true ∧
      (s.conns c).channel.index = kAdded ∧ mask = (s.conns c).channel.events
  added : ∀ c, (s.conns c).alive = true → (s.conns c).channel.index = kAdded →
    kernelAt s (own s c) (s.conns c).channel.fd = some ((s.conns c).channel.events, c)
  idle : ∀ c, (s.conns c).channel.index ≠ kAdded → (s.conns c).channel.isNoneEvent = true
  shape : ∀ c, (s.conns c).channel.Shaped
  distinct : ∀ c d, (s.conns c).alive = true → (s.conns d).alive = true →
    (s.conns c).channel.fd = (s.conns d).channel.fd → c = d

variable {cfg : Config} {s m t : State} {i : LoopId} {c d : ConnId} {a : Action}
  {as : List Action} {l l' : Local}

theorem watching_init : Watching State.init where
  record _ _ _ _ h := absurd h (by simp [kernelAt, State.init, Epoller.empty])
  added _ h := absurd h (by simp [State.init])
  idle _ _ := rfl
  shape _ := Channel.shaped_new
  distinct _ _ h := absurd h (by simp [State.init])

namespace Watching

/-- Neither a channel nor an epoll instance has changed. -/
theorem congr (h : Watching s) (hkernel : ∀ i fd, kernelAt t i fd = kernelAt s i fd)
    (hconn : ∀ c, SameChannel (s.conns c) (t.conns c)) : Watching t where
  record := by
    intro i fd mask c hc
    rw [hkernel] at hc
    rw [own, (hconn c).loop, (hconn c).fd, (hconn c).alive, (hconn c).events, (hconn c).index]
    exact h.record i fd mask c hc
  added := by
    intro c
    rw [hkernel, own, (hconn c).loop, (hconn c).fd, (hconn c).alive, (hconn c).events,
      (hconn c).index]
    exact h.added c
  idle := by
    intro c
    rw [Channel.isNoneEvent, (hconn c).events, (hconn c).index]
    exact h.idle c
  shape := by
    intro c
    rw [Channel.Shaped, Channel.isReading, Channel.isWriting, (hconn c).events]
    exact h.shape c
  distinct := by
    intro c d
    rw [(hconn c).alive, (hconn d).alive, (hconn c).fd, (hconn d).fd]
    exact h.distinct c d

/-- The record of a connection that exists. -/
theorem kernelAt_own (h : Watching s) (halive : (s.conns c).alive = true) :
    kernelAt s (own s c) (s.conns c).channel.fd = recordOf c (s.conns c).channel := by
  rw [recordOf]
  split
  · next hindex => exact h.added c halive hindex
  · next hindex =>
    by_contra hne
    obtain ⟨⟨mask, d⟩, hd⟩ := Option.ne_none_iff_exists'.mp hne
    obtain ⟨⟨-, hfd⟩, halive', hindex', -⟩ := h.record _ _ _ _ hd
    -- a record there would be another connection's, with the same descriptor
    rw [h.distinct d c halive' halive hfd] at hindex'
    exact hindex hindex'

/-- The channel of `c` has changed, and its record with it. -/
theorem update (h : Watching s) (halive : (s.conns c).alive = true)
    (hfixed : Local.Fixed (s.conns c) (t.conns c)) (hother : ∀ d, d ≠ c → t.conns d = s.conns d)
    (hshape : (t.conns c).channel.Shaped)
    (hidle : (t.conns c).channel.index ≠ kAdded → (t.conns c).channel.isNoneEvent = true)
    (hkernel : ∀ i fd, kernelAt t i fd =
      if i = own s c ∧ fd = (s.conns c).channel.fd then recordOf c (t.conns c).channel
      else kernelAt s i fd) : Watching t := by
  have hfix : ∀ d, Local.Fixed (s.conns d) (t.conns d) := fun d => by
    by_cases hd : d = c
    · exact hd ▸ hfixed
    · exact hother d hd ▸ .rfl
  refine ⟨fun i fd mask d hd => ?_, fun d hd hindex => ?_, fun d => ?_, fun d => ?_,
    fun d e => ?_⟩
  · rw [hkernel] at hd
    rw [own, (hfix d).loop, (hfix d).fd, (hfix d).alive]
    split at hd
    · next hplace =>
      rw [recordOf, Option.ite_none_right_eq_some] at hd
      obtain ⟨hindex, heq⟩ := hd
      obtain ⟨rfl, rfl⟩ := Prod.mk.inj (Option.some_inj.mp heq)
      exact ⟨⟨hplace.1.symm, hplace.2.symm⟩, halive, hindex, rfl⟩
    · next hplace =>
      obtain ⟨hown, halive', hindex, hmask⟩ := h.record i fd mask d hd
      rw [hother d]
      · exact ⟨hown, halive', hindex, hmask⟩
      · rintro rfl
        exact hplace ⟨hown.1.symm, hown.2.symm⟩
  · rw [(hfix d).alive] at hd
    rw [hkernel, own, (hfix d).loop, (hfix d).fd]
    by_cases hdc : d = c
    · subst hdc
      rw [if_pos ⟨rfl, rfl⟩, recordOf, if_pos hindex]
    · rw [if_neg fun hplace => hdc (h.distinct d c hd halive hplace.2), hother d hdc]
      exact h.added d hd (hother d hdc ▸ hindex)
  · by_cases hdc : d = c
    · exact hdc ▸ hidle
    · rw [hother d hdc]
      exact h.idle d
  · by_cases hdc : d = c
    · exact hdc ▸ hshape
    · rw [hother d hdc]
      exact h.shape d
  · rw [(hfix d).alive, (hfix e).alive, (hfix d).fd, (hfix e).fd]
    exact h.distinct d e

end Watching

/-- One call of a connection brings its record up to date. -/
theorem Watching.rewires (h : Watching s) (hrewires : Rewires s t) : Watching t := by
  cases hrewires with
  | same hcalm =>
    refine h.congr (fun i fd => ?_) hcalm.conn
    rw [kernelAt, kernelAt, hcalm.poller]
  | call c poller halive hnext hfixed hother hpoller hcall =>
    have hrecord : (s.loops (own s c)).poller.kernel (s.conns c).channel.fd =
        recordOf c (s.conns c).channel := h.kernelAt_own halive
    have hupdate (hshape : (t.conns c).channel.Shaped)
        (hidle : (t.conns c).channel.index ≠ kAdded → (t.conns c).channel.isNoneEvent = true)
        (hkernel : poller.kernel = Function.update (s.loops (own s c)).poller.kernel
          (s.conns c).channel.fd (recordOf c (t.conns c).channel)) : Watching t := by
      refine h.update halive hfixed hother hshape hidle fun i fd => ?_
      rw [kernelAt, kernelAt, hpoller]
      by_cases hi : i = own s c
      · simp only [hi, true_and, if_true, hkernel, Function.update_apply]
      · simp only [hi, false_and, if_false]
    cases hcall with
    | update change hok =>
      have hshape := (h.shape c).apply change
      have hkeeps : (change.apply (s.conns c).channel).fd = (s.conns c).channel.fd ∧
          (change.apply (s.conns c).channel).index = (s.conns c).channel.index := by
        obtain ⟨events, hevents⟩ := change.apply_eq (s.conns c).channel
        rw [hevents]
        exact ⟨rfl, rfl⟩
      rw [recordOf, ← hkeeps.1, ← hkeeps.2] at hrecord
      obtain ⟨hkernel, hidle⟩ := updateChannel_recordOf hok hrecord
      obtain ⟨index, hindex⟩ := updateChannel_channel hok
      exact hupdate (hindex ▸ hshape) hidle (hkeeps.1 ▸ hkernel)
    | remove hok =>
      have hnew : kNew ≠ kAdded := by decide
      obtain ⟨⟨-, hnone⟩, hchannel, -⟩ := removeChannel_cases hok
      refine hupdate (hchannel ▸ h.shape c) (fun _ => hchannel ▸ hnone) ?_
      rw [removeChannel_recordOf hok hrecord, recordOf, hchannel, if_neg hnew]

/-- A new object, whose descriptor no other has. -/
theorem Watching.withNewObject (h : Watching s) (hplaced : Placed cfg s) {fd : ℕ}
    (hfd : ∀ c < s.nextObj, (s.conns c).alive = true → (s.conns c).channel.fd ≠ fd) :
    Watching (withNewObject cfg s fd) := by
  have hold : ∀ c, c ≠ s.nextObj → (TcpServer.withNewObject cfg s fd).conns c = s.conns c :=
    fun c hc => Function.update_of_ne hc _ _
  have hnew : (TcpServer.withNewObject cfg s fd).conns s.nextObj =
      .new (getNextLoop cfg s).1 (connName cfg (s.nextConnId + 1)) fd cfg.writeComplete :=
    Function.update_self _ _ _
  have hne : ∀ c, (s.conns c).alive = true → c ≠ s.nextObj := fun c hc =>
    Nat.ne_of_lt (hplaced.lt_nextObj_of_alive hc)
  have hunused : ∀ d, ((TcpServer.withNewObject cfg s fd).conns d).alive = true →
      ((TcpServer.withNewObject cfg s fd).conns d).channel.fd = fd → d = s.nextObj := by
    intro d hd hdfd
    by_contra hdn
    rw [hold d hdn] at hd hdfd
    exact hfd d (hplaced.lt_nextObj_of_alive hd) hd hdfd
  have hnewfd : ((TcpServer.withNewObject cfg s fd).conns s.nextObj).channel.fd = fd := by
    rw [hnew]
    rfl
  refine ⟨fun i n mask c hc => ?_, fun c hc hindex => ?_, fun c => ?_, fun c => ?_,
    fun c d hc hd hcd => ?_⟩
  · have hrecord := h.record i n mask c hc
    rw [own, hold c (hne c hrecord.2.1)]
    exact hrecord
  · by_cases hcn : c = s.nextObj
    · subst hcn
      rw [hnew] at hindex
      have hindex : kNew = kAdded := hindex
      exact absurd hindex (by decide)
    · rw [hold c hcn] at hc hindex
      rw [own, hold c hcn]
      exact h.added c hc hindex
  · by_cases hcn : c = s.nextObj
    · subst hcn
      rw [hnew]
      exact fun _ => rfl
    · rw [hold c hcn]
      exact h.idle c
  · by_cases hcn : c = s.nextObj
    · subst hcn
      rw [hnew]
      exact Channel.shaped_new
    · rw [hold c hcn]
      exact h.shape c
  · by_cases hcn : c = s.nextObj
    · subst hcn
      rw [hnewfd] at hcd
      exact (hunused d hd hcd.symm).symm
    · by_cases hdn : d = s.nextObj
      · subst hdn
        rw [hnewfd] at hcd
        exact absurd (hunused c hc hcd) hcn
      · rw [hold c hcn] at hc hcd
        rw [hold d hdn] at hd hcd
        exact h.distinct c d hc hd hcd

/-- The end of an object: its descriptor is closed. -/
theorem Watching.releases (h : Watching s) (hc : (s.conns c).alive = true)
    (hreleases : Releases s t c) : Watching t := by
  have hconn : ∀ d, (t.conns d).loop = (s.conns d).loop ∧
      (t.conns d).channel = (s.conns d).channel := by
    intro d
    by_cases hdc : d = c
    · rw [hdc, hreleases.self]
      exact ⟨rfl, rfl⟩
    · rw [hreleases.other d hdc]
      exact ⟨rfl, rfl⟩
  have halive : ∀ d, (t.conns d).alive = true ↔ d ≠ c ∧ (s.conns d).alive = true := by
    intro d
    by_cases hdc : d = c
    · simp [hdc, hreleases.self]
    · simp [hdc, hreleases.other d hdc]
  have hkernel : ∀ i fd, kernelAt t i fd =
      if i = own s c ∧ fd = (s.conns c).channel.fd then none else kernelAt s i fd := by
    intro i fd
    rw [kernelAt, hreleases.poller]
    by_cases hi : i = own s c
    · simp [hi, Epoller.close, Function.update_apply, kernelAt]
    · simp [hi, kernelAt]
  refine ⟨fun i fd mask d hd => ?_, fun d hd hindex => ?_, fun d => ?_, fun d => ?_,
    fun d e hd he => ?_⟩
  · rw [hkernel] at hd
    rw [own, (hconn d).1, (hconn d).2, halive]
    split at hd
    · exact absurd hd (by simp)
    · next hplace =>
      obtain ⟨hown, halive', hindex, hmask⟩ := h.record i fd mask d hd
      refine ⟨hown, ⟨?_, halive'⟩, hindex, hmask⟩
      rintro rfl
      exact hplace ⟨hown.1.symm, hown.2.symm⟩
  · obtain ⟨hne, hd⟩ := (halive d).mp hd
    rw [(hconn d).2] at hindex
    rw [hkernel, own, (hconn d).1, (hconn d).2, if_neg]
    · exact h.added d hd hindex
    · rintro ⟨-, hfd⟩
      exact hne (h.distinct d c hd hc hfd)
  · rw [(hconn d).2]
    exact h.idle d
  · rw [(hconn d).2]
    exact h.shape d
  · rw [(hconn d).2, (hconn e).2]
    exact h.distinct d e ((halive d).mp hd).2 ((halive e).mp he).2

theorem Watching.begins (h : Watching s) (hplaced : Placed cfg s)
    (hnew : ∀ fd, a = .newConnection fd → ∀ c < s.nextObj, (s.conns c).alive = true →
      (s.conns c).channel.fd ≠ fd)
    (hdestroy : ∀ c, a = .destroy c → (s.conns c).alive = true) (hbegins : Begins cfg s a m) :
    Watching m := by
  refine hbegins.rewired h (fun h hrewires => h.rewires hrewires) (fun fd ha => ?_) ?_
  · exact h.withNewObject hplaced (hnew fd ha)
  · exact fun c m ha hreleases => h.releases (hdestroy c ha) hreleases

theorem Watching.moves (h : Watching s) (hmoves : Moves s t) : Watching t :=
  hmoves.rewired h fun h hrewires => h.rewires hrewires

/-- In every run the kernel watches what the channels are interested in. -/
theorem watching_of_reach {ok : State → Action → Prop}
    (hrun : Reach (step cfg) ok State.init as s) : Watching s := by
  refine moves_invariant hrun watching_init ?_ ?_ ?_
  · exact fun h => h.congr (fun _ _ => rfl) fun _ => .rfl
  · intro s a m hplaced hg h hbegins
    exact h.begins hplaced (fun fd ha => fd_free_of_guard (ha ▸ hg))
      (fun c ha => alive_of_guard (ha ▸ hg)) hbegins
  · exact fun h hmove => h.moves (.single hmove)

namespace Watching

/-- Who is not in the epoll instance has no interest. -/
theorem unsubscribed_of_ne_added (h : Watching s) (hne : (s.conns c).channel.index ≠ kAdded) :
    (s.conns c).channel.isReading = false ∧ (s.conns c).channel.isWriting = false := by
  have hnone : (s.conns c).channel.events = Channel.noneEvent :=
    of_decide_eq_true (h.idle c hne)
  rw [Channel.isReading, Channel.isWriting, hnone]
  exact ⟨Channel.noneEvent_meets, Channel.noneEvent_meets⟩

/-- Who is interested is in the epoll instance. -/
theorem added_of_reading (h : Watching s) (hreading : (s.conns c).channel.isReading = true) :
    (s.conns c).channel.index = kAdded := by
  by_contra hne
  exact absurd hreading (by simp [(h.unsubscribed_of_ne_added hne).1])

end Watching

/-- Between `ConnEstablished` and `HandleClose` the loop of a connection watches it for
input, and for output exactly while its output buffer holds something. -/
theorem watched_while_open (hrun : Reach (step cfg) Always State.init as s)
    (halive : (s.conns c).alive = true) (hup : (s.conns c).log.count .up ≠ 0)
    (h0 : (s.conns c).log.count .closed = 0) :
    (s.loops (own s c)).poller.kernel (s.conns c).channel.fd =
      some (Channel.interestIn true ((s.conns c).output.readable ≠ []), c) := by
  have hwatching := watching_of_reach hrun
  have hc : c < s.nextObj := (placed_of_reach hrun).lt_nextObj_of_alive halive
  obtain ⟨-, hstream⟩ := stream_of_reach hrun c hc
  have hreading : (s.conns c).channel.isReading = true := (subscribed_of_reach hrun c hc).2 hup h0
  have hwriting : (s.conns c).channel.isWriting = decide ((s.conns c).output.readable ≠ []) := by
    rw [Bool.eq_iff_iff, decide_eq_true_eq]
    exact (hstream.conserved.2 h0).symm
  have hshape := hwatching.shape c
  rw [Channel.Shaped, hreading, hwriting] at hshape
  -- with an interest, so `k_added`, so with a record
  have hadded : (s.conns c).channel.index = kAdded := hwatching.added_of_reading hreading
  rw [← hshape]
  exact hwatching.added c halive hadded

/-! ### A run -/

/-- One byte is left over, so the loop waits for output too. -/
theorem watched_while_open_sentInParts :
    ∃ s, run (step oneThread) State.init sentInParts = some s ∧
      (s.conns 0).output.readable = [3] ∧
      (s.loops (own s 0)).poller.kernel (s.conns 0).channel.fd =
        some (Channel.readEvent ||| Channel.writeEvent, 0) := by
  have hend : (run (step oneThread) State.init sentInParts).map
      (fun s => ((s.conns 0).alive, (s.conns 0).log.count .up, (s.conns 0).log.count .closed,
        (s.conns 0).output.readable)) = some (true, 1, 0, [3]) := by decide +kernel
  obtain ⟨s, hs, heq⟩ := Option.map_eq_some_iff.mp hend
  simp only [Prod.mk.injEq] at heq
  obtain ⟨halive, hup, h0, hreadable⟩ := heq
  have hwatched := watched_while_open (reach_of_run hs) halive (by rw [hup]; decide) h0
  rw [hreadable] at hwatched
  exact ⟨s, hs, hreadable, hwatched⟩

end TcpServer
end Bbkgl
