import Bbkgl.Net.TcpServerEntries
import Bbkgl.Net.TcpServerRegistered

/-!
# Descriptors that are used again

`SendInLoop` does not look at `state_`. Executed after `ConnDestroyed`, with
bytes left over, it enters the channel into the poller again, and the entry
outlives the object: the next connection of that loop with the same descriptor
fails in `UpdateChannel`. So does a `HandleClose` after `ConnDestroyed`, from a
timer of `Close` behind a late `SetState` of `Shutdown`. `no_stale_entry` is
about the runs without either, in which no connection loses its entry in
`connections_` to another.
-/

set_option autoImplicit false

namespace Bbkgl
namespace TcpServer

open CS CS.Fallible CS.Transition TcpConnection Connection

/-- `d` exists, and its channel is not in its poller. -/
def unregistered (s : State) (d : ConnId) : Bool :=
  (s.conns d).alive && (s.conns d).channel.index = Epoller.kNew

/-- A `SendInLoop` that finds the channel out of its poller leaves no bytes over. -/
def sendsAll (s : State) : Action → Bool
  | .runFunctor i wr => match (s.loops i).functors.rest with
    | .sendInLoop d _ message :: _ => !unregistered s d || message = [] ||
        ((s.conns d).output.readableBytes = 0 && wr = some message.length)
    | _ => true
  | _ => true

/-- A `HandleClose` that passes its assertion finds the channel in its poller. -/
def closesRegistered (s : State) (a : Action) : Bool :=
  (closes s a).all fun d => !(unregistered s d && (s.conns d).isUp)

/-- The condition on a step: a channel that has been removed is not registered again, and no entry
is lost to another connection. -/
def staysOut (cfg : Config) (s : State) (a : Action) : Bool :=
  sendsAll s a && closesRegistered s a && keepsEntries cfg s a

variable {cfg : Config} {s m t : State} {i : LoopId} {c d : ConnId} {a : Action} {as : List Action}

/-- The condition on the entries in `connections_` is part of `staysOut`. -/
theorem keepsEntries_of_staysOut (hok : staysOut cfg s a = true) :
    keepsEntries cfg s a = true := by
  rw [staysOut, Bool.and_eq_true] at hok
  exact hok.2

/-! ### What has left its poller -/

/-- Once `ConnDestroyed` has returned, the channel is out of its poller. -/
structure Gone (s : State) (c : ConnId) : Prop where
  out : destroyed s c → isNew s c ∨ removing s c
  dead : (s.conns c).alive = false → isNew s c

/-- Only its own functor destroys a connection. -/
theorem runs_of_destroy_mem (hmem : .destroy ∈ labels cfg s c a) :
    runs s a = some (.connDestroyed c) := by
  cases labelOf_of_mem hmem with
  | destroy hruns => exact hruns

/-- `ConnDestroyed` has been called before, or the step calls it. -/
theorem destroyed_of_effect (hplaced : Placed cfg s) (hg : guard cfg s a = true)
    (hok : effect cfg s a = .ok t) (hc : c < s.nextObj) (ht : destroyed t c) :
    destroyed s c ∨ runs s a = some (.connDestroyed c) := by
  by_cases hmem : .destroy ∈ labels cfg s c a
  · exact Or.inr (runs_of_destroy_mem hmem)
  · have hview : run Connection.step (view s c) (labels cfg s c a) = some (view t c) := by
      by_cases hnew : ∃ fd, a = .newConnection fd
      · obtain ⟨fd, rfl⟩ := hnew
        exact (creates_newConnection hplaced hok).views c hc
      · exact (follows_effect hplaced hg hok fun fd ha => hnew ⟨fd, ha⟩).views c hc
    have hcount : (t.conns c).log.count .destroyed = (s.conns c).log.count .destroyed :=
      destroyed_run hview hmem
    rw [destroyed, hcount] at ht
    exact Or.inl ht

/-! ### Every step -/

/-- `SendInLoop` with nothing left over. -/
theorem unpolled_of_sendsAll {who : Caller} {message : Bytes} {wr : WriteResult} {l l' : Local}
    (hidle : l.conn.channel.isNoneEvent = true)
    (hall : message = [] ∨ l.conn.output.readableBytes = 0 ∧ wr = some message.length)
    (hl : l.sendInLoop c who message wr = .ok l') : Local.Unpolled l l' := by
  refine Local.unpolled_of_sendInLoop ?_ hl
  rcases hall with rfl | ⟨hempty, rfl⟩
  · exact Nat.zero_le _
  · have hwriting : l.conn.channel.isWriting = false := by
      have hnone : l.conn.channel.events = Channel.noneEvent := of_decide_eq_true hidle
      rw [Channel.isWriting, hnone]
      exact Channel.noneEvent_meets
    simp [Local.nwrote, Local.writesDirectly, hwriting, hempty]

/-- A functor of a removed connection does not register its channel. -/
theorem index_of_functorMethod (hplaced : Placed cfg s) (h : Registered s)
    (hkept : Kept (view s c)) {wr : WriteResult} {f : Functor} {fs : List Functor}
    (hrest : (s.loops i).functors.rest = f :: fs) (hok : sendsAll s (.runFunctor i wr) = true)
    (hsubject : f.subject = some c) (halive : (s.conns c).alive = true) (hnew : isNew s c)
    (hdestroyed : destroyed s c) (hfound : Found (s.conns c) (m.conns c)) {l : Local}
    (hl : functorMethod c wr f (localOf m c) = .ok l) : l.conn.channel.index = Epoller.kNew := by
  have hindex : (localOf m c).conn.channel.index = Epoller.kNew := hfound.index.trans hnew
  have hmem : f ∈ todo s i := mem_todo_of_rest hrest
  have hf := hplaced.functors i f hmem
  cases f with
  | connEstablished d =>
    obtain rfl := Option.some_inj.mp hsubject
    obtain ⟨-, rfl⟩ := hf
    have hqueued : .establish ∈ (view s d).tasks := List.mem_filterMap.mpr ⟨_, hmem, if_pos rfl⟩
    exact absurd (hkept.not_destroyed hqueued) hdestroyed
  | connDestroyed d =>
    obtain rfl := Option.some_inj.mp hsubject
    obtain ⟨-, rfl⟩ := hf
    have hqueued : .destroy ∈ (view s d).tasks := List.mem_filterMap.mpr ⟨_, hmem, if_pos rfl⟩
    exact absurd (hkept.destroyed_once hqueued) hdestroyed
  | sendInLoop d who message =>
    obtain rfl := Option.some_inj.mp hsubject
    have hnew : (s.conns d).channel.index = Epoller.kNew := hnew
    have hall : message = [] ∨
        (s.conns d).output.readableBytes = 0 ∧ wr = some message.length := by
      simpa [sendsAll, hrest, unregistered, halive, hnew] using hok
    have hidle : (m.conns d).channel.isNoneEvent = true := by
      rw [Channel.isNoneEvent, hfound.events]
      exact h.idle d hnew
    have hunpolled : Local.Unpolled (localOf m d) l :=
      unpolled_of_sendsAll hidle (hfound.output ▸ hall) hl
    rw [hunpolled.1, hindex]
  | shutdownInLoop d =>
    have hunpolled : Local.Unpolled (localOf m c) l :=
      Except.ok.inj hl ▸ Local.unpolled_shutdownInLoop
    rw [hunpolled.1, hindex]
  | removeConnectionInLoop d | writeComplete d | addTimerInLoop d | user =>
    exact absurd hsubject (by simp [Functor.subject])

/-- A method of a removed connection does not register its channel. -/
theorem index_of_methodOf (hplaced : Placed cfg s) (h : Registered s) (hkept : Kept (view s c))
    (hok : staysOut cfg s a = true) (hc : c < s.nextObj) (hsubject : subject cfg s a = some c)
    (halive : (s.conns c).alive = true) (hnew : isNew s c) (hdestroyed : destroyed s c)
    (hfound : Found (s.conns c) (m.conns c)) {l : Local}
    (hl : methodOf s c a (localOf m c) = .ok l) : l.conn.channel.index = Epoller.kNew := by
  simp only [staysOut, Bool.and_eq_true] at hok
  obtain ⟨⟨hsends, hcloses⟩, -⟩ := hok
  have hindex : (localOf m c).conn.channel.index = Epoller.kNew := hfound.index.trans hnew
  have unpolled (hunpolled : Local.Unpolled (localOf m c) l) :
      l.conn.channel.index = Epoller.kNew := by
    rw [hunpolled.1, hindex]
  -- a `HandleClose` would pass its assertion, with the channel out of its poller
  have closed (heq : closes s a = some c) (hl : (localOf m c).handleClose c = .ok l) :
      l.conn.channel.index = Epoller.kNew := by
    have hwf : (m.conns c).output.WF := hfound.output ▸ hplaced.wf c
    have hup : (m.conns c).isUp = true := (Local.handleClose_acts hwf hl).1
    have hnew : (s.conns c).channel.index = Epoller.kNew := hnew
    rw [closesRegistered, heq, Option.all_some, unregistered, halive, decide_eq_true hnew]
      at hcloses
    rw [TcpConnection.isUp, hfound.state] at hup
    exact absurd hup (by simpa [TcpConnection.isUp] using hcloses)
  cases a with
  | handleClose i => exact closed hsubject hl
  | handleRead i readv => exact closed hsubject hl
  | closeTimer d => exact closed hsubject hl
  | handleWrite i wr =>
    refine unpolled (Local.unpolled_of_handleWrite ?_ hl)
    have hnone : (s.conns c).channel.events = Channel.noneEvent := of_decide_eq_true (h.idle c hnew)
    simp only [localOf, Channel.isWriting, hfound.events, hnone]
    exact Channel.noneEvent_meets
  | newConnection fd =>
    simp only [subject, Option.ite_none_right_eq_some, Option.some_inj] at hsubject
    exact absurd hc (hsubject.2 ▸ Nat.lt_irrefl _)
  | send who d message wr =>
    simp only [subject, Option.ite_none_right_eq_some, Option.some_inj] at hsubject
    obtain ⟨hstate, rfl⟩ := hsubject
    exact absurd (hkept.connected hstate) hdestroyed
  | shutdown who d =>
    have hset : Local.Unpolled (localOf m c) ((localOf m c).setState .disconnecting) := ⟨rfl, rfl⟩
    exact unpolled (Except.ok.inj hl ▸ hset.trans Local.unpolled_shutdownInLoop)
  | runFunctor i wr =>
    obtain ⟨f, hhead, hf⟩ := Option.bind_eq_some_iff.mp hsubject
    obtain ⟨fs, hrest⟩ := List.head?_eq_some_iff.mp hhead
    rw [methodOf, hrest] at hl
    exact index_of_functorMethod hplaced h hkept hrest hsends hf halive hnew hdestroyed hfound hl
  | userReturn i =>
    obtain ⟨poller, -, rfl⟩ := Local.removeChannel_ok hl
    rfl
  | _ => exact absurd hsubject (by simp [subject])

/-- What has been removed stays out of its poller. -/
theorem isNew_kept (hplaced : Placed cfg s) (h : Registered s) (hkept : Kept (view s c))
    (hok : staysOut cfg s a = true) (hg : guard cfg s a = true) (heffect : effect cfg s a = .ok t)
    (hc : c < s.nextObj) (hnew : isNew s c)
    (hend : (s.conns c).alive = true → destroyed s c) : isNew t c := by
  have still {k k' : State} (hstays : Stays none k k')
      (hk : isNew k c ∧ ((k.conns c).alive = true → (s.conns c).alive = true)) :
      isNew k' c ∧ ((k'.conns c).alive = true → (s.conns c).alive = true) :=
    ⟨(hstays.index c (by simp)).trans hk.1, fun halive => hk.2 (hstays.alive c halive)⟩
  have hend := anatomy_invariant (I := fun k => isNew k c ∧
    ((k.conns c).alive = true → (s.conns c).alive = true)) hg heffect ?_ ?_ ?_
  · exact hend.1
  · intro m hopens
    refine still (hopens.stays hplaced hg) ?_
    rw [isNew, conns_start (Nat.ne_of_lt hc)]
    exact ⟨hnew, id⟩
  · intro k k' hk hworks
    cases hworks with
    | push j f hown htimer =>
      exact still (stays_push fun d hd => absurd hown (by simp [hd, Functor.isOwn])) hk
    | setConn d g hedited =>
      have hfixed := hedited.fixed
      exact still (stays_setConn hfixed.loop hedited.index fun halive => hfixed.alive ▸ halive) hk
    | setCall => exact still stays_setCall hk
    | method d l hsubject halive hparts hfound hmethod =>
      by_cases hcd : c = d
      · subst hcd
        have hold : (s.conns c).alive = true := hk.2 halive
        rw [isNew, conns_putLocal, if_pos rfl]
        exact ⟨index_of_methodOf hplaced h hkept hok hc hsubject hold hnew (hend hold) (hfound hc)
          hmethod, fun _ => hold⟩
      · rw [isNew, conns_putLocal, if_neg hcd]
        exact hk
  · intro m hm hends
    rw [Ends] at hends
    split at hends
    · exact still (stays_removeConnectionInLoop hends) hm
    · rw [hends, isNew, pushes_conns.1]
      exact hm

/-- `RemoveChannel` takes the channel out of its poller. -/
theorem isNew_of_userReturn (hsubject : subject cfg s (.userReturn i) = some c)
    (hok : effect cfg s (.userReturn i) = .ok t) : isNew t c := by
  simp only [effect] at hok
  split at hok
  · next d message hframe =>
    rw [subject, hframe] at hsubject
    obtain rfl := Option.some_inj.mp hsubject
    obtain ⟨-, l, hl, rfl⟩ := method_eq_ok_iff.mp hok
    obtain ⟨poller, -, rfl⟩ := Local.removeChannel_ok hl
    rw [isNew, conns_putLocal, if_pos rfl]
  · next hframe =>
    obtain ⟨frame, hsome, hif⟩ := Option.bind_eq_some_iff.mp hsubject
    simp only [Option.ite_none_right_eq_some] at hif
    obtain ⟨conn, message, removeChannel⟩ := frame
    obtain ⟨rfl, rfl⟩ := hif
    exact absurd hsome (hframe c message)

/-- An object that can go has been through `ConnDestroyed`. -/
theorem destroyed_of_destroy (hplaced : Placed cfg s) (hkept : Kept (view s d))
    (hg : guard cfg s (.destroy d) = true) : destroyed s d := by
  simp only [guard, Bool.and_eq_true, decide_eq_true_eq, Bool.not_eq_true'] at hg
  exact hkept.destroyed_of_die (die_guard hplaced hg.1.1 hg.2)

/-- An object that can go has left its poller. -/
theorem isNew_of_destroy (hplaced : Placed cfg s) (hkept : ∀ c, c < s.nextObj → Kept (view s c))
    (hgone : ∀ c, c < s.nextObj → Gone s c) (hg : guard cfg s (.destroy d) = true) : isNew s d := by
  have hguard := hg
  simp only [guard, Bool.and_eq_true, decide_eq_true_eq, Bool.not_eq_true'] at hguard
  obtain ⟨⟨hd, -⟩, howned⟩ := hguard
  apply ((hgone d hd).out (destroyed_of_destroy hplaced (hkept d hd) hg)).resolve_right
  rintro ⟨message, hframe⟩
  simp only [owned, Bool.or_eq_false_iff, List.any_eq_false] at howned
  apply howned.1.2 (own s d) (hplaced.own_mem d hd)
  simp [holds, givenTo, hframe]

/-- After the step that calls `ConnDestroyed` its callback is under way. -/
theorem removing_of_runs (hplaced : Placed cfg s) (hruns : runs s a = some (.connDestroyed c))
    (heffect : effect cfg s a = .ok t) : removing t c := by
  cases a with
  | runFunctor i wr =>
    obtain ⟨fs, hrest⟩ := List.head?_eq_some_iff.mp hruns
    simp only [effect, hrest] at heffect
    have hwf : ((setFunctors s i (s.loops i).functors.advance).conns c).output.WF := hplaced.wf c
    exact removing_of_connDestroyed hwf heffect
  | _ => exact absurd hruns (by simp [runs])

/-- A step that stays out keeps out what has gone. -/
theorem gone_effect (hplaced : Placed cfg s) (hsited : Sited s) (h : Registered s)
    (hkept : ∀ c, c < s.nextObj → Kept (view s c)) (hgone : ∀ c, c < s.nextObj → Gone s c)
    (hok : staysOut cfg s a = true) (hg : guard cfg s a = true) (heffect : effect cfg s a = .ok t)
    (hc : c < s.nextObj) : Gone t c := by
  have kept (hnew : isNew s c) (hend : (s.conns c).alive = true → destroyed s c) : isNew t c :=
    isNew_kept hplaced h (hkept c hc) hok hg heffect hc hnew hend
  refine ⟨fun ht => ?_, fun hdead => ?_⟩
  · rcases destroyed_of_effect hplaced hg heffect hc ht with hs | hruns
    · rcases (hgone c hc).out hs with hnew | hremoving
      · exact Or.inl (kept hnew fun _ => hs)
      · by_cases hreturn : a = .userReturn (own s c)
        · subst hreturn
          exact Or.inl (isNew_of_userReturn (subject_of_removing_return hremoving) heffect)
        · exact Or.inr (removing_kept hplaced hsited hg heffect hremoving hreturn)
    · exact Or.inr (removing_of_runs hplaced hruns heffect)
  · by_cases hdestroy : a = .destroy c
    · subst hdestroy
      exact kept (isNew_of_destroy hplaced hkept hgone hg) fun _ =>
        destroyed_of_destroy hplaced (hkept c hc) hg
    · have hold : (s.conns c).alive = false := by
        rw [← alive_kept hg heffect hc hdestroy, hdead]
      exact kept ((hgone c hc).dead hold) fun halive => absurd halive (by simp [hold])

/-! ### Every run -/

theorem gone_new {fd : ℕ} (hplaced : Placed cfg s) (heffect : newConnection cfg s fd = .ok t) :
    Gone t s.nextObj := by
  obtain ⟨i, hi⟩ := (creates_newConnection hplaced heffect).created
  have hnone : (view t s.nextObj).log.count .destroyed = 0 := by
    refine (Connection.destroyed_run hi ?_).trans rfl
    split
    · simp
    · simp
  have halive : (view t s.nextObj).alive = true := by
    split at hi
    · obtain ⟨v, hv, hi⟩ := Option.bind_eq_some_iff.mp hi
      obtain ⟨-, rfl⟩ := guarded_eq_some_iff.mp hv
      exact congrArg Connection.alive (Option.some_inj.mp hi).symm
    · exact congrArg Connection.alive (Option.some_inj.mp hi).symm
  exact ⟨fun hdestroyed => absurd hnone hdestroyed, fun hdead => absurd hdead (by
    have halive : (t.conns s.nextObj).alive = true := halive
    simp [halive])⟩

theorem gone_step (hplaced : Placed cfg s) (hsited : Sited s) (h : Registered s)
    (hkept : ∀ c, c < s.nextObj → Kept (view s c)) (hgone : ∀ c, c < s.nextObj → Gone s c)
    (hok : staysOut cfg s a = true) (hstep : step cfg s a = some t) :
    ∀ c, c < t.nextObj → Gone t c := by
  obtain ⟨-, hg, heffect | ⟨e, -, rfl⟩⟩ := step_cases hstep
  · have hold : ∀ c, c < s.nextObj → Gone t c := fun c hc =>
      gone_effect hplaced hsited h hkept hgone hok hg heffect hc
    intro c hc
    by_cases hnew : ∃ fd, a = .newConnection fd
    · obtain ⟨fd, rfl⟩ := hnew
      rw [(creates_newConnection hplaced heffect).nextObj] at hc
      rcases Nat.lt_succ_iff_lt_or_eq.mp hc with hlt | rfl
      · exact hold c hlt
      · exact gone_new hplaced heffect
    · rw [(follows_effect hplaced hg heffect fun fd ha => hnew ⟨fd, ha⟩).nextObj] at hc
      exact hold c hc
  · exact fun c hc => ⟨(hgone c hc).out, (hgone c hc).dead⟩

/-- In every run that stays out, what has gone is out of its poller. -/
theorem gone_of_reach
    (hrun : Reach (step cfg) (fun s a => staysOut cfg s a = true) State.init as s) :
    ∀ c, c < s.nextObj → Gone s c := by
  refine hrun.invariant (I := fun s => ∀ c, c < s.nextObj → Gone s c) ?_ ?_
  · exact fun c hc => absurd hc (Nat.not_lt_zero c)
  · intro as s a t hprefix hgone hok hstep
    exact gone_step (placed_of_reach hprefix) (sited_of_reach hprefix) (registered_of_reach hprefix)
      (kept_of_reach keepsEntries_of_staysOut hprefix) hgone hok hstep

/-- An entry belongs to an object that exists. -/
theorem alive_of_entry (h : Registered s) (hgone : ∀ c, c < s.nextObj → Gone s c) {fd : ℕ}
    (hentry : (s.loops i).poller.channels fd = some c) :
    ((s.conns c).alive = true ∧ (s.conns c).channel.fd = fd) ∧ ¬ isNew s c := by
  obtain ⟨⟨hc, -⟩, hfd, hindex⟩ := h.entry hentry
  refine ⟨⟨?_, hfd⟩, hindex⟩
  by_contra hdead
  exact hindex ((hgone c hc).dead (by simpa using hdead))

/-- The poller that the channel would be entered into has nothing under its descriptor. -/
theorem free_of_isNew (h : Registered s) (hgone : ∀ c, c < s.nextObj → Gone s c)
    (halive : (s.conns d).alive = true) (hnew : isNew s d) :
    (s.loops i).poller.channels (s.conns d).channel.fd = none := by
  by_contra hsome
  obtain ⟨e, he⟩ := Option.ne_none_iff_exists'.mp hsome
  obtain ⟨⟨healive, hfd⟩, hindex⟩ := alive_of_entry h hgone he
  exact hindex (h.distinct e d healive halive hfd ▸ hnew)

/-- In such a run the assertion about a new channel holds. -/
theorem not_updateNew
    (hrun : Reach (step cfg) (fun s a => staysOut cfg s a = true) State.init as s) :
    s.fault ≠ some (.epoller .updateNew) := by
  intro hfault
  obtain ⟨bs, s', b, hprefix, -, hg, hcause⟩ := cause_of_reach hrun hfault
  have h := registered_of_reach hprefix
  have hgone := gone_of_reach hprefix
  cases hcause with
  | low hlow hclash =>
    obtain ⟨d, halive, hnew, htaken⟩ := hclash rfl
    exact htaken (free_of_isNew h hgone halive hnew)
  | @newConnection fd hb htaken =>
    subst hb
    obtain ⟨e, he⟩ := Option.ne_none_iff_exists'.mp htaken
    obtain ⟨⟨halive, hfd⟩, -⟩ := alive_of_entry h hgone he
    -- the kernel gives no descriptor twice
    simp only [guard, Bool.and_eq_true, List.all_eq_true, List.mem_range] at hg
    have hother := hg.2 e (h.entry he).1.1
    rw [halive, hfd] at hother
    exact absurd hother (by simp)

/-- Once `ConnDestroyed` has returned, no poller has an entry for the channel, and
an object that goes leaves none behind under its descriptor. The assertion about
a new channel in `UpdateChannel` holds. -/
theorem no_stale_entry
    (hrun : Reach (step cfg) (fun s a => staysOut cfg s a = true) State.init as s) :
    s.fault ≠ some (.epoller .updateNew) ∧
    (∀ c, c < s.nextObj → destroyed s c ∧ ¬ removing s c ∨ (s.conns c).alive = false →
      ∀ i fd, (s.loops i).poller.channels fd ≠ some c) ∧
    ∀ c, guard cfg s (.destroy c) = true →
      ∀ i, (s.loops i).poller.channels (s.conns c).channel.fd = none := by
  have h := registered_of_reach hrun
  have hgone := gone_of_reach hrun
  refine ⟨not_updateNew hrun, fun c hc hend i fd hentry => ?_, fun c hg i => ?_⟩
  · obtain ⟨⟨halive, -⟩, hindex⟩ := alive_of_entry h hgone hentry
    rcases hend with ⟨hdestroyed, hreturned⟩ | hdead
    · rcases (hgone c hc).out hdestroyed with hnew | hremoving
      · exact hindex hnew
      · exact hreturned hremoving
    · exact absurd halive (by simp [hdead])
  · have hnew := isNew_of_destroy (placed_of_reach hrun)
      (kept_of_reach keepsEntries_of_staysOut hrun) hgone hg
    simp only [guard, Bool.and_eq_true] at hg
    exact free_of_isNew h hgone hg.1.2 hnew

/-! ### Runs -/

/-- Connection 0 goes, and the next connection of loop 1 has its descriptor. -/
def reused : List Action :=
  [.drop 0, .destroy 0, .poll 0 [], .newConnection 7, .poll 1 [], .doPendingFunctors 1,
    .runFunctor 1 none]

/-- The descriptor of a connection that has gone is used again. -/
theorem no_stale_entry_reused :
    ∃ s, run (step oneThread) State.init (closedByPeer ++ reused) = some s ∧
      (s.loops 1).poller.channels 7 = some 1 ∧
      s.fault ≠ some (.epoller .updateNew) ∧ (s.loops 1).poller.channels 7 ≠ some 0 := by
  have hend : (runIf (step oneThread) (fun s a => staysOut oneThread s a = true) State.init
      (closedByPeer ++ reused)).map (fun s =>
        ((s.nextObj, (s.conns 0).alive), (s.loops 1).poller.channels 7)) =
          some ((2, false), some 1) := by decide +kernel
  obtain ⟨s, hs, heq⟩ := Option.map_eq_some_iff.mp hend
  obtain ⟨hobj, hentry⟩ := Prod.mk.inj heq
  obtain ⟨hnext, hdead⟩ := Prod.mk.inj hobj
  have hrun := reach_of_runIf hs
  obtain ⟨hfree, hout, -⟩ := no_stale_entry hrun
  have hlt : 0 < s.nextObj := by rw [hnext]; exact Nat.two_pos
  exact ⟨s, hrun.run_eq, hentry, hfree, hout 0 hlt (Or.inr hdead) 1 7⟩

/-- A `Send` that found `k_connected` is queued after `ConnDestroyed`, and one byte of two
is left over. -/
def sentAfterDestroyed : List Action :=
  established ++ [.send (.user 0) 0 [1, 2] none, .poll 1 [(0, pollIn)], .handleEvent 1,
    .handleRead 1 (some []), .endEvent 1] ++ removedAndDestroyed ++
    [.proceed (.user 0), .poll 1 [], .doPendingFunctors 1, .runFunctor 1 (some 1),
      .finishFunctors 1] ++ reused

/-- The entry of connection 0 outlives it and stops connection 1. -/
theorem stale_entry_of_sentAfterDestroyed :
    (run (step oneThread) State.init sentAfterDestroyed).map
      (fun s => (s.fault, (s.conns 0).alive, (s.loops 1).poller.channels 7)) =
        some (some (.epoller .updateNew), false, some 0) := by
  decide +kernel

end TcpServer
end Bbkgl
