import Bbkgl.Net.TcpServerFrames

/-!
# What is registered with the pollers

`Registered`: an entry of `channels_` is a channel of that loop, under its own
descriptor, with an index of its own. Each call of a poller keeps it, so it holds in
every run.
-/

set_option autoImplicit false

namespace Bbkgl
namespace TcpServer

open CS CS.Fallible CS.Transition TcpConnection

/-- The pollers' entries are those of registered channels, and no two connections have one
descriptor. -/
structure Registered (s : State) : Prop where
  entry : ∀ {i fd c}, (s.loops i).poller.channels fd = some c →
    (c < s.nextObj ∧ own s c = i) ∧ (s.conns c).channel.fd = fd ∧
      (s.conns c).channel.index ≠ Epoller.kNew
  idle : ∀ c, (s.conns c).channel.index = Epoller.kNew → (s.conns c).channel.isNoneEvent = true
  distinct : ∀ c d, (s.conns c).alive = true → (s.conns d).alive = true →
    (s.conns c).channel.fd = (s.conns d).channel.fd → c = d

/-- `ConnDestroyed` has been called. -/
def destroyed (s : State) (c : ConnId) : Prop := (s.conns c).log.count .destroyed ≠ 0

/-- The channel is not in a poller, as far as its index says. -/
def isNew (s : State) (c : ConnId) : Prop := (s.conns c).channel.index = Epoller.kNew

variable {cfg : Config} {s t : State} {c d : ConnId} {l : Local} {a : Action} {as : List Action}

theorem registered_init : Registered State.init where
  entry h := absurd h (by simp [State.init, Epoller.empty])
  idle _ _ := rfl
  distinct _ _ h := absurd h (by simp [State.init])

/-! ### Calls of the pollers -/

/-- An entry after a call of the poller was there before, or it is the caller's own. The
caller's index is new after the call only if it has no entry at its descriptor. -/
theorem entry_of_pollerCall {ep ep' : Epoller ConnId} {ch ch' : Channel}
    (h : PollerCall c ep ch ep' ch') {fd : ℕ} (hentry : ep'.channels fd = some d) :
    (ep.channels fd = some d ∨ d = c ∧ fd = ch.fd) ∧
      (fd = ch.fd → ch'.index ≠ Epoller.kNew) := by
  cases h with
  | update change hok =>
    obtain ⟨events, hevents⟩ := change.apply_eq ch
    obtain ⟨hindex, hentries⟩ := Epoller.updateChannel_channels hok
    refine ⟨(hentries fd d hentry).imp_right fun ⟨hd, hfd⟩ => ⟨hd, ?_⟩, fun _ => hindex⟩
    rw [hfd, hevents]
  | remove hok =>
    rw [Epoller.removeChannel_channels hok, Function.update_apply,
      Option.ite_none_left_eq_some] at hentry
    exact ⟨Or.inl hentry.2, fun hfd => absurd hfd hentry.1⟩

/-- A channel that is new after a call of the poller has no interest. -/
theorem idle_of_pollerCall {ep ep' : Epoller ConnId} {ch ch' : Channel}
    (h : PollerCall c ep ch ep' ch') (hindex : ch'.index = Epoller.kNew) :
    ch'.isNoneEvent = true := by
  cases h with
  | update change hok => exact absurd hindex (Epoller.updateChannel_channels hok).1
  | remove hok =>
    obtain ⟨⟨-, hnone⟩, rfl, -⟩ := Epoller.removeChannel_cases hok
    exact hnone

namespace Registered

/-- The pollers and the channels that may be registered are as before. -/
theorem congr (h : Registered s) (hnext : s.nextObj ≤ t.nextObj)
    (hchannels : ∀ i, (t.loops i).poller.channels = (s.loops i).poller.channels)
    (hconn : ∀ c < s.nextObj, own t c = own s c ∧
      (t.conns c).channel.fd = (s.conns c).channel.fd ∧
      (t.conns c).channel.index = (s.conns c).channel.index)
    (hidle : ∀ c, isNew t c → (t.conns c).channel.isNoneEvent = true)
    (hdistinct : ∀ c d, (t.conns c).alive = true → (t.conns d).alive = true →
      (t.conns c).channel.fd = (t.conns d).channel.fd → c = d) : Registered t where
  entry := by
    intro i fd c hc
    rw [hchannels] at hc
    obtain ⟨⟨hlt, hown⟩, hfd, hindex⟩ := h.entry hc
    obtain ⟨hown', hfd', hindex'⟩ := hconn c hlt
    rw [hown', hfd', hindex']
    exact ⟨⟨Nat.lt_of_lt_of_le hlt hnext, hown⟩, hfd, hindex⟩
  idle := hidle
  distinct := hdistinct

theorem calm (h : Registered s) (hcalm : Calm s t) : Registered t := by
  refine h.congr (Nat.le_of_eq hcalm.nextObj.symm) (fun i => by rw [hcalm.poller])
    (fun c _ => ⟨hcalm.own, (hcalm.conn c).fd, (hcalm.conn c).index⟩) ?_ ?_
  · intro c hc
    rw [isNew, (hcalm.conn c).index] at hc
    rw [Channel.isNoneEvent, (hcalm.conn c).events]
    exact h.idle c hc
  · intro c d
    rw [(hcalm.conn c).alive, (hcalm.conn d).alive, (hcalm.conn c).fd, (hcalm.conn d).fd]
    exact h.distinct c d

theorem rewires (h : Registered s) (hlt : ∀ c, (s.conns c).alive = true → c < s.nextObj)
    (hrewires : Rewires s t) : Registered t := by
  cases hrewires with
  | same hcalm => exact h.calm hcalm
  | call d poller halive hnext hfixed hother hpoller hcall =>
    have hfix : ∀ c, Local.Fixed (s.conns c) (t.conns c) := fun c => by
      by_cases hc : c = d
      · exact hc ▸ hfixed
      · exact hother c hc ▸ .rfl
    refine ⟨fun {i fd c} hc => ?_, fun c hc => ?_, fun c e => ?_⟩
    · rw [hnext, own, (hfix c).loop, (hfix c).fd]
      rw [hpoller] at hc
      split at hc
      · next hi =>
        obtain ⟨hold | ⟨rfl, rfl⟩, hindex⟩ := entry_of_pollerCall hcall hc
        · obtain ⟨hplace, hfd, hindex'⟩ := h.entry hold
          refine ⟨⟨hplace.1, hplace.2.trans hi.symm⟩, hfd, ?_⟩
          by_cases hcd : c = d
          · exact hcd ▸ hindex (hcd ▸ hfd.symm)
          · rw [hother c hcd]
            exact hindex'
        · exact ⟨⟨hlt c halive, hi.symm⟩, rfl, hindex rfl⟩
      · next hi =>
        obtain ⟨hplace, hfd, hindex⟩ := h.entry hc
        refine ⟨hplace, hfd, ?_⟩
        rw [hother c fun hcd => hi (hcd ▸ hplace.2.symm)]
        exact hindex
    · by_cases hcd : c = d
      · exact hcd ▸ idle_of_pollerCall hcall (hcd ▸ hc)
      · rw [hother c hcd] at hc ⊢
        exact h.idle c hc
    · rw [(hfix c).alive, (hfix e).alive, (hfix c).fd, (hfix e).fd]
      exact h.distinct c e

/-- A new object, whose descriptor no other has. -/
theorem withNewObject (h : Registered s) (hplaced : Placed cfg s) {fd : ℕ}
    (hfd : ∀ c < s.nextObj, (s.conns c).alive = true → (s.conns c).channel.fd ≠ fd) :
    Registered (withNewObject cfg s fd) := by
  have hold : ∀ c, c ≠ s.nextObj → (TcpServer.withNewObject cfg s fd).conns c = s.conns c :=
    fun c hc => Function.update_of_ne hc _ _
  have hnew : (TcpServer.withNewObject cfg s fd).conns s.nextObj =
      .new (getNextLoop cfg s).1 (connName cfg (s.nextConnId + 1)) fd cfg.writeComplete :=
    Function.update_self _ _ _
  have hother : ∀ c, ((TcpServer.withNewObject cfg s fd).conns c).alive = true →
      ((TcpServer.withNewObject cfg s fd).conns c).channel.fd = fd → c = s.nextObj := by
    intro c hc hcfd
    by_contra hne
    rw [hold c hne] at hc hcfd
    exact hfd c (hplaced.lt_nextObj_of_alive hc) hc hcfd
  have hnewfd : ((TcpServer.withNewObject cfg s fd).conns s.nextObj).channel.fd = fd := by
    rw [hnew]
    rfl
  refine h.congr (Nat.le_succ _) (fun _ => rfl) (fun c hc => ?_) (fun c hc => ?_)
    fun c e hc he hce => ?_
  · rw [own, hold c (Nat.ne_of_lt hc)]
    exact ⟨rfl, rfl, rfl⟩
  · by_cases hcn : c = s.nextObj
    · rw [hcn, hnew]
      rfl
    · rw [isNew, hold c hcn] at hc
      rw [hold c hcn]
      exact h.idle c hc
  · by_cases hcn : c = s.nextObj
    · rw [hcn, hnewfd] at hce
      rw [hcn, hother e he hce.symm]
    · by_cases hen : e = s.nextObj
      · rw [hen, hnewfd] at hce
        rw [hen, hother c hc hce]
      · rw [hold c hcn] at hc hce
        rw [hold e hen] at he hce
        exact h.distinct c e hc he hce

/-- The end of an object; the pollers still have the entries that they had. -/
theorem releases (h : Registered s) (hreleases : Releases s t d) : Registered t := by
  have hself : ∀ c, (t.conns c).loop = (s.conns c).loop ∧
      (t.conns c).channel = (s.conns c).channel ∧
      ((t.conns c).alive = true → (s.conns c).alive = true) := by
    intro c
    by_cases hc : c = d
    · rw [hc, hreleases.self]
      exact ⟨rfl, rfl, fun halive => absurd halive (by simp)⟩
    · rw [hreleases.other c hc]
      exact ⟨rfl, rfl, id⟩
  refine h.congr (Nat.le_of_eq hreleases.nextObj.symm) (fun i => ?_) (fun c _ => ?_)
    (fun c hc => ?_) fun c e hc he hce => ?_
  · rw [hreleases.poller]
    split
    · next hi => rw [hi]; rfl
    · rfl
  · exact ⟨(hself c).1, by rw [(hself c).2.1], by rw [(hself c).2.1]⟩
  · rw [isNew, (hself c).2.1] at hc
    rw [(hself c).2.1]
    exact h.idle c hc
  · rw [(hself c).2.1, (hself e).2.1] at hce
    exact h.distinct c e ((hself c).2.2 hc) ((hself e).2.2 he) hce

end Registered

/-- In every run the pollers' entries are those of registered channels. -/
theorem registered_of_reach {ok : State → Action → Prop}
    (hrun : Reach (step cfg) ok State.init as s) : Registered s := by
  refine hrun.invariant registered_init ?_
  intro bs s a t hprefix h _ hstep
  have hplaced := placed_of_reach hprefix
  obtain ⟨-, hg, hok | ⟨e, -, rfl⟩⟩ := step_cases hstep
  · refine rewired_effect hplaced hg hok h (fun hlt h hrewires => h.rewires hlt hrewires) ?_
      fun c m _ hreleases => h.releases hreleases
    rintro fd rfl
    exact h.withNewObject hplaced (fd_free_of_guard hg)
  · exact ⟨h.entry, h.idle, h.distinct⟩

/-! ### Methods -/

theorem own_putLocal (hsame : Same (s.conns d) l.conn) : own (putLocal s d l) c = own s c := by
  rw [own, own, conns_putLocal]
  split
  · next h => rw [h, hsame.loop]
  · rfl

/-- After `ConnDestroyed` its callback is under way. -/
theorem removing_of_connDestroyed (hwf : (s.conns d).output.WF)
    (hok : TcpServer.connDestroyed s d = .ok t) : removing t d := by
  obtain ⟨k, hk, hok⟩ := bind_eq_ok_iff.mp hok
  obtain rfl := pure_eq_ok_iff.mp hok
  obtain ⟨-, l, hl, rfl⟩ := method_eq_ok_iff.mp hk
  have hsame := (Local.connDestroyed_acts hwf hl).2.same
  refine ⟨false, ?_⟩
  have hown : own (enterUser (putLocal s d l) (own s d) ⟨some d, false, true⟩) d = own s d :=
    own_putLocal hsame
  rw [hown, enterUser, loops_setLoop, if_pos rfl]

end TcpServer
end Bbkgl
