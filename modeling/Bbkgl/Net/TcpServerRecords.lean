import Bbkgl.Net.TcpServerMoves

/-!
# The records of the epoll instances

A record in the epoll instance of a loop is about a connection of that loop,
under its own descriptor. This holds in every run: a record outlives the object
only until the descriptor is closed, which is when the object goes.
-/

set_option autoImplicit false

namespace Bbkgl
namespace TcpServer

open CS CS.Fallible CS.Transition TcpConnection Connection

/-- The epoll instance of loop `i` has a record of `c` at the descriptor. -/
def recorded (s : State) (i : LoopId) (fd : ℕ) (c : ConnId) : Prop :=
  ∃ mask, (s.loops i).poller.kernel fd = some (mask, c)

/-- A record leads to a connection of that loop and of that descriptor. -/
def Filed (s : State) : Prop :=
  ∀ i fd c, recorded s i fd c → c < s.nextObj ∧ own s c = i ∧ (s.conns c).channel.fd = fd

variable {cfg : Config} {s m t : State} {i : LoopId} {fd : ℕ} {c d : ConnId} {f : Functor}
  {l l' : Local} {who : Caller} {a : Action} {as : List Action}

/-! ### Methods -/

/-- The method makes a record of its own channel at most. -/
def Local.Records (c : ConnId) (l l' : Local) : Prop :=
  ∀ fd mask d, l'.poller.kernel fd = some (mask, d) →
    (∃ mask', l.poller.kernel fd = some (mask', d)) ∨ d = c ∧ fd = l.conn.channel.fd

theorem Local.records_of_polls (h : Local.Polls c l l') : Local.Records c l l' := by
  intro fd mask d hrecord
  rcases h with ⟨-, hpoller⟩ | ⟨ch, ⟨hfd, -⟩, hupdate⟩
  · exact Or.inl ⟨mask, hpoller ▸ hrecord⟩
  · rcases Epoller.updateChannel_record hupdate hrecord with hold | ⟨hd, hown, -⟩
    · exact Or.inl ⟨mask, hold⟩
    · exact Or.inr ⟨hd, hown.trans hfd⟩

/-- `RemoveChannel` makes no record, and leaves none of a channel that is `k_added`. -/
theorem Local.removeChannel_eq_ok (h : l.removeChannel c = .ok l') :
    ∃ poller, l' = { l with conn.channel.index := Epoller.kNew, poller := poller } ∧
      (∀ fd e, poller.kernel fd = some e → l.poller.kernel fd = some e) ∧
      (l.conn.channel.index = Epoller.kAdded → poller.kernel l.conn.channel.fd = none) := by
  rw [Local.removeChannel] at h
  split at h
  · next poller ch hok =>
    obtain ⟨-, rfl, -⟩ := Epoller.removeChannel_cases hok
    obtain ⟨hold, hnone⟩ := Epoller.removeChannel_record hok
    exact ⟨poller, (Except.ok.inj h).symm, fun fd e => hold, hnone⟩
  · exact absurd h (by simp)

theorem Local.records_of_removeChannel (h : l.removeChannel c = .ok l') : Local.Records c l l' := by
  intro fd mask d hrecord
  obtain ⟨poller, rfl, hold, -⟩ := Local.removeChannel_eq_ok h
  exact Or.inl ⟨mask, hold fd _ hrecord⟩

theorem recorded_putLocal (hrecords : Local.Records d (localOf s d) l)
    (h : recorded (putLocal s d l) i fd c) :
    recorded s i fd c ∨ c = d ∧ i = own s d ∧ fd = (s.conns d).channel.fd := by
  obtain ⟨mask, hrecord⟩ := h
  rw [poller_putLocal] at hrecord
  split at hrecord
  · next hi =>
    subst hi
    exact (hrecords fd mask c hrecord).imp_right fun ⟨hc, hfd⟩ => ⟨hc, rfl, hfd⟩
  · exact Or.inl ⟨mask, hrecord⟩

/-! ### Every step -/

/-- A call of the poller makes a record of its own channel at most. -/
theorem record_of_pollerCall {ep ep' : Epoller ConnId} {ch ch' : Channel} {mask : EventMask}
    (h : PollerCall c ep ch ep' ch') (hrecord : ep'.kernel fd = some (mask, d)) :
    (∃ mask', ep.kernel fd = some (mask', d)) ∨ d = c ∧ fd = ch.fd := by
  cases h with
  | update change hok =>
    obtain ⟨events, hevents⟩ := change.apply_eq ch
    rcases Epoller.updateChannel_record hok hrecord with hold | ⟨hd, hfd, -⟩
    · exact Or.inl ⟨mask, hold⟩
    · exact Or.inr ⟨hd, by rw [hfd, hevents]⟩
  | remove hok => exact Or.inl ⟨mask, (Epoller.removeChannel_record hok).1 hrecord⟩

namespace Filed

/-- The epoll instances are as before, or have fewer records. -/
theorem of_records (h : Filed s) (hnext : t.nextObj = s.nextObj)
    (hloop : ∀ c, (t.conns c).loop = (s.conns c).loop)
    (hfd : ∀ c, (t.conns c).channel.fd = (s.conns c).channel.fd)
    (hrecord : ∀ i fd c, recorded t i fd c → recorded s i fd c) : Filed t := by
  intro i fd c hc
  obtain ⟨hlt, hown, hfiled⟩ := h i fd c (hrecord i fd c hc)
  refine ⟨hnext ▸ hlt, ?_, (hfd c).trans hfiled⟩
  rw [own, hloop]
  exact hown

theorem rewires (h : Filed s) (hlt : ∀ c, (s.conns c).alive = true → c < s.nextObj)
    (hrewires : Rewires s t) : Filed t := by
  cases hrewires with
  | same hcalm =>
    refine h.of_records hcalm.nextObj (fun c => (hcalm.conn c).loop) (fun c => (hcalm.conn c).fd)
      fun i fd c ⟨mask, hc⟩ => ⟨mask, ?_⟩
    rwa [hcalm.poller] at hc
  | call d poller halive hnext hfixed hother hpoller hcall =>
    have hself : ∀ c, (t.conns c).loop = (s.conns c).loop ∧
        (t.conns c).channel.fd = (s.conns c).channel.fd := by
      intro c
      by_cases hc : c = d
      · exact hc ▸ ⟨hfixed.loop, hfixed.fd⟩
      · rw [hother c hc]
        exact ⟨rfl, rfl⟩
    intro i fd c ⟨mask, hc⟩
    rw [hnext, own, (hself c).1, (hself c).2]
    rw [hpoller] at hc
    split at hc
    · next hi =>
      rcases record_of_pollerCall hcall hc with ⟨mask', hold⟩ | ⟨rfl, hfd⟩
      · exact h i fd c ⟨mask', hi ▸ hold⟩
      · exact ⟨hlt c halive, hi.symm, hfd.symm⟩
    · exact h i fd c ⟨mask, hc⟩

theorem withNewObject (h : Filed s) {fd : ℕ} : Filed (withNewObject cfg s fd) := by
  intro i fd' c hc
  obtain ⟨hlt, hown, hfd⟩ := h i fd' c hc
  have hconn : (TcpServer.withNewObject cfg s fd).conns c = s.conns c :=
    Function.update_of_ne (Nat.ne_of_lt hlt) _ _
  refine ⟨Nat.lt_succ_of_lt hlt, ?_, ?_⟩
  · rw [own, hconn]
    exact hown
  · rw [hconn]
    exact hfd

theorem releases (h : Filed s) (hreleases : Releases s t d) : Filed t := by
  have hself : ∀ c, (t.conns c).loop = (s.conns c).loop ∧
      (t.conns c).channel = (s.conns c).channel := by
    intro c
    by_cases hc : c = d
    · rw [hc, hreleases.self]
      exact ⟨rfl, rfl⟩
    · rw [hreleases.other c hc]
      exact ⟨rfl, rfl⟩
  refine h.of_records hreleases.nextObj (fun c => (hself c).1) (fun c => by rw [(hself c).2])
    fun i fd c ⟨mask, hc⟩ => ⟨mask, ?_⟩
  rw [hreleases.poller] at hc
  split at hc
  · next hi =>
    simp only [Epoller.close, Function.update_apply, Option.ite_none_left_eq_some] at hc
    exact hi ▸ hc.2
  · exact hc

end Filed

/-- A step keeps the records where they belong. -/
theorem filed_effect (hplaced : Placed cfg s) (h : Filed s) (hg : guard cfg s a = true)
    (hok : effect cfg s a = .ok t) : Filed t :=
  rewired_effect hplaced hg hok h (fun hlt h hrewires => h.rewires hlt hrewires)
    (fun _ _ => h.withNewObject) fun _ _ _ hreleases => h.releases hreleases

theorem filed_step (hplaced : Placed cfg s) (h : Filed s) (hstep : step cfg s a = some t) :
    Filed t := by
  obtain ⟨-, hg, heffect | ⟨e, -, rfl⟩⟩ := step_cases hstep
  · exact filed_effect hplaced h hg heffect
  · exact h

theorem filed_init : Filed State.init :=
  fun _ _ _ ⟨_, hrecord⟩ => absurd hrecord (by simp [State.init, Epoller.empty])

end TcpServer
end Bbkgl
