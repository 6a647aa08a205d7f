import Bbkgl.Net.TcpServerFrames
import Bbkgl.Net.TcpServerReady
import Bbkgl.Net.TcpServerRest
import Bbkgl.Net.TcpServerReuse

/-!
# Runs without a fault

When `Send` and `Shutdown` are called on the connection's own loop, `Close` is not
called, `HandleClose` finds the channel subscribed, no name comes round again and user
code asks of an input buffer what it can do, then no assertion fails, nothing that is
gone is used, and the one exception is `std::length_error` of a buffer that cannot grow.
-/

set_option autoImplicit false

namespace Bbkgl

open CS.Transition

/-! ### After `ConnDestroyed` -/

namespace Connection

variable {v v' : Connection} {b : Action}

/-- A connection that was destroyed is disconnected, and waits for nothing. -/
def Ended (v : Connection) : Prop :=
  v.log.count .destroyed ≠ 0 → v.state = .disconnected ∧ v.reading = false ∧ v.writing = false

/-- The step lemma of `Ended`. -/
theorem ended_step (htraffic : NoTraffic v) (hb : NotCalled v b) (h : Ended v)
    (hstep : step v b = some v') : Ended v' := by
  intro hdestroyed
  rw [count_step hstep (by simp)] at hdestroyed
  obtain ⟨hcalls, htasks⟩ := htraffic
  obtain ⟨hg, rfl⟩ := guarded_eq_some_iff.mp hstep
  cases b with
  | establish =>
    simp only [guard, Bool.and_eq_true, decide_eq_true_eq] at hg
    exact absurd (hg.2.symm.trans (h hdestroyed).1) (by simp)
  | close =>
    obtain ⟨hstate, -⟩ := h hdestroyed
    simp only [guard, isUp, hstate, Bool.and_eq_true] at hg
    exact absurd hg.1 (by simp)
  | destroy =>
    have hwriting : (v.effect .destroy).writing = false := rfl
    exact ⟨rfl, rfl, hwriting⟩
  | remove | evict | die => exact h hdestroyed
  | callSend who message => exact absurd rfl (hb.1 who message)
  | callShutdown who => exact absurd rfl (hb.2 who)
  | pushSend who | setDisconnecting who | pushShutdown who =>
    exact absurd hg (by simp [guard, hcalls])
  | runSend wr =>
    simp only [guard] at hg
    split at hg
    · next who message rest htask =>
      exact absurd (htasks _ (htask ▸ List.mem_cons_self)) (by simp)
    · exact absurd hg (by simp)
  | runShutdown =>
    simp only [guard, decide_eq_true_eq, List.head?_eq_some_iff] at hg
    obtain ⟨rest, htask⟩ := hg
    exact absurd (htasks _ (htask ▸ List.mem_cons_self)) (by simp)
  | sendDirect who message wr =>
    simp only [guard, Bool.and_eq_true, decide_eq_true_eq] at hg
    exact absurd (hg.1.symm.trans (h hdestroyed).1) (by simp)
  | shutdownDirect =>
    simp only [guard, decide_eq_true_eq] at hg
    exact absurd (hg.symm.trans (h hdestroyed).1) (by simp)
  | handleWrite wr =>
    have hended := h hdestroyed
    have hsame : v.effect (.handleWrite wr) = v := by
      rw [effect, handleWrite, if_neg (by simp [hended.2.2])]
    rw [hsame]
    exact hended

end Connection

namespace TcpServer

open CS CS.Fallible TcpConnection Connection Epoller

variable {cfg : Config} {s m t : State} {i : LoopId} {c d : ConnId} {a : Action}
  {as : List Action} {e : Fault}

/-- In a careful run nothing of a destroyed connection is left. -/
theorem ended_of_reach
    (hrun : Reach (step cfg) (fun s a => handlesSafely cfg s a = true) State.init as s) :
    ∀ c, c < s.nextObj → NoTraffic (view s c) ∧ Ended (view s c) := by
  refine views_invariant (I := fun v => NoTraffic v ∧ Ended v) (p := NotCalled) hrun ?_ ?_ ?_ ?_
  · intro owner
    refine ⟨⟨rfl, fun task htask => Or.inl (List.mem_singleton.mp htask)⟩, fun h => ?_⟩
    exact absurd rfl h
  · intro owner
    exact ⟨by simp, by simp⟩
  · intro v b v' hv hb hstep
    exact ⟨noTraffic_step hv.1 hb hstep, ended_step hv.1 hb hv.2 hstep⟩
  · intro s a t _ _ hok _ c _
    simp only [handlesSafely, Bool.and_eq_true] at hok
    exact admits_of_forall fun b hb v => notCalled_of_mem_labels hok.1 hb v

/-- What happened to a connection is not forgotten. -/
theorem destroyed_mono (hplaced : Placed cfg s) (hg : guard cfg s a = true)
    (hok : effect cfg s a = .ok t) (hc : c < s.nextObj) (h : destroyed s c) : destroyed t c := by
  have hlog := (later_run (run_labels hplaced hg hok hc).2).log
  intro h0
  have hle : (s.conns c).log.count .destroyed ≤ (t.conns c).log.count .destroyed :=
    hlog.sublist.count_le _
  exact h (Nat.le_zero.mp (h0 ▸ hle))

/-- An object goes in `destroy` only. -/
theorem alive_of_begins (hbegins : Begins cfg s a m) (hdead : (m.conns c).alive = false)
    (ha : a ≠ .destroy c) (hc : c < m.nextObj) :
    (s.conns c).alive = false ∧ c < s.nextObj := by
  cases hbegins with
  | handleRead i readv input n hread =>
    have hnext : (nextCallback s i).nextObj = s.nextObj := (stays_nextCallback (d := none)).nextObj
    have hc : c < (nextCallback s i).nextObj := hc
    rw [conns_setConn, nextCallback_frame.1] at hdead
    refine ⟨?_, hnext ▸ hc⟩
    split at hdead
    · next h => exact h ▸ hdead
    · exact hdead
  | newConnection fd =>
    rw [conns_withNewObject] at hdead
    split at hdead
    · exact absurd hdead (by simp [TcpConnection.new])
    · next hne => exact ⟨hdead, Nat.lt_of_le_of_ne (Nat.le_of_lt_succ hc) hne⟩
  | inputBuffer i u d input hd hexec =>
    rw [conns_setConn] at hdead
    refine ⟨?_, hc⟩
    split at hdead
    · next h => exact h ▸ hdead
    · exact hdead
  | destroy d =>
    have hconns : (setLoop (setConn s d fun conn => { conn with alive := false }) (own s d)
        fun l => { l with poller := l.poller.close (s.conns d).channel.fd }).conns c =
        (setConn s d fun conn => { conn with alive := false }).conns c := rfl
    rw [hconns, conns_setConn, if_neg fun h => ha (by rw [h])] at hdead
    exact ⟨hdead, hc⟩
  | plain => exact ⟨hdead, hc⟩

/-- An object that has gone has been through `ConnDestroyed`. -/
theorem destroyed_of_dead
    (hrun : Reach (step cfg) (fun s a => handlesSafely cfg s a = true) State.init as s) :
    ∀ c, c < s.nextObj → (s.conns c).alive = false → destroyed s c := by
  refine hrun.invariant
    (I := fun s => ∀ c, c < s.nextObj → (s.conns c).alive = false → destroyed s c)
    (fun c hc => absurd hc (Nat.not_lt_zero c)) ?_
  rintro bs u a t hprefix h - hstep c hc hdead
  have hplaced := placed_of_reach hprefix
  obtain ⟨-, hg, heffect | ⟨f, -, rfl⟩⟩ := step_cases hstep
  · obtain ⟨m, hbegins, hmoves⟩ := moves_effect hg heffect
    rw [(hmoves.keeps.conn c).alive] at hdead
    rw [hmoves.keeps.nextObj] at hc
    by_cases ha : a = .destroy c
    · subst ha
      simp only [guard, Bool.and_eq_true, decide_eq_true_eq, Bool.not_eq_true'] at hg
      have hkept := kept_of_reach keepsEntries_of_handlesSafely hprefix c hg.1.1
      exact destroyed_mono hplaced (by simp [guard, hg]) heffect hg.1.1
        (hkept.destroyed_of_die (die_guard hplaced hg.1.1 hg.2))
    · obtain ⟨hdead', hlt⟩ := alive_of_begins hbegins hdead ha hc
      exact destroyed_mono hplaced hg heffect hlt (h c hlt hdead')
  · exact h c hc hdead

/-! ### Before `RemoveChannel` -/

/-- `ConnDestroyed` leaves the channel with its poller. -/
theorem not_isNew_of_connDestroyed (hok : connDestroyed s d = .ok t) : ¬ isNew t d := by
  obtain ⟨m, hm, hok⟩ := bind_eq_ok_iff.mp hok
  obtain rfl := pure_eq_ok_iff.mp hok
  obtain ⟨-, l, hl, rfl⟩ := method_eq_ok_iff.mp hm
  obtain ⟨-, hl⟩ := check_bind_eq_ok_iff.mp hl
  obtain ⟨k, hk, hl⟩ := bind_eq_ok_iff.mp hl
  obtain rfl := pure_eq_ok_iff.mp hl
  obtain ⟨poller, index, hupdate, rfl⟩ := Local.update_ok hk
  have hindex : index ≠ kNew := (updateChannel_channels hupdate).1
  intro hnew
  have hconn : isNew (putLocal s d _) d := hnew
  rw [isNew, conns_putLocal, if_pos rfl] at hconn
  exact hindex hconn

/-- The callback that goes on to `RemoveChannel` is that of `ConnDestroyed`. -/
theorem runs_of_enters {entry : Entry} (henters : enters cfg s a = some (i, entry))
    (hremove : entry.frame.removeChannel = true) (hc : entry.conn = some c) :
    runs s a = some (.connDestroyed c) := by
  cases a with
  | newConnection fd =>
    simp only [enters, Option.ite_none_right_eq_some] at henters
    obtain ⟨-, rfl⟩ := Prod.mk.inj (Option.some_inj.mp henters.2)
    exact absurd hremove (by simp [Entry.frame])
  | runFunctor j wr =>
    obtain ⟨f, hhead, hf⟩ := Option.bind_eq_some_iff.mp henters
    rw [runs, hhead]
    cases f with
    | connDestroyed d =>
      obtain ⟨-, rfl⟩ := Prod.mk.inj (Option.some_inj.mp hf)
      rw [Option.some_inj.mp hc]
    | connEstablished d | writeComplete d | user =>
      obtain ⟨-, rfl⟩ := Prod.mk.inj (Option.some_inj.mp hf)
      exact absurd hremove (by simp [Entry.frame])
    | removeConnectionInLoop d | sendInLoop d who message | shutdownInLoop d | addTimerInLoop d =>
      exact absurd hf (by simp [functorEntry])
  | handleRead j readv =>
    simp only [enters, Option.ite_none_left_eq_some] at henters
    obtain ⟨-, rfl⟩ := Prod.mk.inj (Option.some_inj.mp henters.2)
    exact absurd hremove (by simp [Entry.frame])
  | userCode j =>
    obtain ⟨-, rfl⟩ := Prod.mk.inj (Option.some_inj.mp henters)
    exact absurd hremove (by simp [Entry.frame])
  | _ => exact absurd henters (by simp [enters])

/-- While the callback of `ConnDestroyed` runs, its loop runs no method of the connection,
but for `RemoveChannel` when the callback returns. -/
theorem subject_of_removing (hplaced : Placed cfg s) (hsited : Sited s) (hhandled : Handled s)
    (hended : ∀ c, c < s.nextObj → NoTraffic (view s c) ∧ Ended (view s c))
    (hremoving : removing s c) (hdestroyed : destroyed s c) (hg : guard cfg s a = true)
    (hsubject : subject cfg s a = some c) : a = .userReturn (own s c) := by
  obtain ⟨message, hframe⟩ := hremoving
  have hgiven : givenTo c (s.loops (own s c)) = true := by rw [givenTo, hframe]; simp
  have hlt : c < s.nextObj := (hsited.frame _ c hgiven).1
  have busy : ∀ j, own s c = j → (s.loops j).frame ≠ none := by
    rintro j rfl hnone
    exact absurd (hframe.symm.trans hnone) (by simp)
  cases a with
  | handleClose j | handleWrite j wr =>
    obtain rfl := Option.some_inj.mp hsubject
    obtain ⟨hwalk, hfree⟩ := handled_of_callbackIs hg
    exact absurd hfree (busy j (hsited.walk j _ hwalk).2)
  | handleRead j readv =>
    simp only [subject, Option.ite_none_right_eq_some] at hsubject
    obtain ⟨-, heq⟩ := hsubject
    obtain rfl := Option.some_inj.mp heq
    obtain ⟨hwalk, hfree⟩ := handled_of_callbackIs hg
    exact absurd hfree (busy j (hsited.walk j _ hwalk).2)
  | newConnection fd =>
    simp only [subject, Option.ite_none_right_eq_some] at hsubject
    obtain ⟨-, heq⟩ := hsubject
    obtain rfl := Option.some_inj.mp heq
    exact absurd hlt (Nat.lt_irrefl _)
  | closeTimer d =>
    simp only [guard, Bool.and_eq_true, decide_eq_true_eq, hhandled.closeTimers] at hg
    exact absurd hg.2 (by simp)
  | send who d message wr | shutdown who d =>
    simp only [subject, Option.ite_none_right_eq_some] at hsubject
    obtain ⟨hstate, heq⟩ := hsubject
    obtain rfl := Option.some_inj.mp heq
    exact absurd (hstate.symm.trans ((hended d hlt).2 hdestroyed).1) (by simp)
  | runFunctor j wr =>
    simp only [guard, Bool.and_eq_true] at hg
    obtain ⟨f, hhead, hf⟩ := Option.bind_eq_some_iff.mp hsubject
    obtain ⟨fs, hrest⟩ := List.head?_eq_some_iff.mp hhead
    have hfplaced := hplaced.functors j f (mem_todo_of_rest hrest)
    refine absurd (frame_of_free hg.1.1) (busy j ?_)
    cases f with
    | connEstablished d | connDestroyed d | shutdownInLoop d =>
      obtain rfl := Option.some_inj.mp hf
      exact hfplaced.2
    | sendInLoop d who message =>
      obtain rfl := Option.some_inj.mp hf
      exact hfplaced.1.2
    | removeConnectionInLoop d | writeComplete d | addTimerInLoop d | user =>
      exact absurd hf (by simp [Functor.subject])
  | userReturn j =>
    obtain ⟨frame, hj, hconn⟩ := Option.bind_eq_some_iff.mp hsubject
    simp only [Option.ite_none_right_eq_some] at hconn
    have hgivenj : givenTo c (s.loops j) = true := by rw [givenTo, hj]; simp [hconn.2]
    rw [(hsited.frame j c hgivenj).2]
  | _ => exact absurd hsubject (by simp [subject])

/-- A connection that is being removed was destroyed, and is still in its poller. -/
theorem registered_of_removing
    (hrun : Reach (step cfg) (fun s a => handlesSafely cfg s a = true) State.init as s) :
    ∀ c, removing s c → destroyed s c ∧ ¬ isNew s c := by
  refine hrun.invariant (I := fun s => ∀ c, removing s c → destroyed s c ∧ ¬ isNew s c) ?_ ?_
  · rintro c ⟨message, hframe⟩
    exact absurd hframe (by simp [State.init])
  · rintro bs u a t hprefix h - hstep c ⟨message, hframe⟩
    have hplaced := placed_of_reach hprefix
    have hsited := sited_of_reach hprefix
    obtain ⟨-, hg, heffect | ⟨f, -, rfl⟩⟩ := step_cases hstep
    · have hgiven : givenTo c (t.loops (own t c)) = true := by rw [givenTo, hframe]; simp
      have old : a ≠ .userReturn (own t c) →
          (u.loops (own t c)).frame = some ⟨some c, message, true⟩ →
          destroyed t c ∧ ¬ isNew t c := by
        intro ha hold
        have hgivenu : givenTo c (u.loops (own t c)) = true := by rw [givenTo, hold]; simp
        obtain ⟨hlt, hown⟩ := hsited.frame _ c hgivenu
        rw [← hown] at ha hold
        obtain ⟨hdestroyed, hnew⟩ := h c ⟨message, hold⟩
        refine ⟨destroyed_mono hplaced hg heffect hlt hdestroyed, ?_⟩
        obtain ⟨m, hm, ht⟩ := passes hplaced hg heffect
        have hsubject : subject cfg u a ≠ some c := fun hsubject => ha <|
          subject_of_removing hplaced hsited (handled_of_reach hprefix).1 (ended_of_reach hprefix)
            ⟨message, hold⟩ hdestroyed hg hsubject
        rw [isNew, ht, pushes_conns.1, hm.index c hsubject, conns_start (Nat.ne_of_lt hlt)]
        exact hnew
      cases henters : enters cfg u a with
      | none =>
        rw [frame_kept hplaced hg heffect henters] at hframe
        split at hframe
        · exact absurd hframe (by simp)
        · next ha => exact old ha hframe
      | some p =>
        obtain ⟨i, entry⟩ := p
        rw [frame_entered hplaced hg heffect henters] at hframe
        split at hframe
        · have hentry := Option.some_inj.mp hframe
          have hruns : runs u a = some (.connDestroyed c) :=
            runs_of_enters henters (by rw [hentry]) (by rw [← Entry.frame_conn, hentry])
          cases a with
          | runFunctor j wr =>
            obtain ⟨fs, hrest⟩ := List.head?_eq_some_iff.mp hruns
            simp only [effect, hrest] at heffect
            obtain ⟨-, htouches⟩ := touches_connDestroyed (hplaced.advance hrest) heffect
            refine ⟨?_, not_isNew_of_connDestroyed heffect⟩
            have hlog := congrArg Connection.log htouches.self
            intro h0
            have hcount : (view t c).log.count .destroyed = 0 := h0
            rw [hlog] at hcount
            exact absurd hcount (by simp [Connection.record])
          | _ => exact absurd hruns (by simp [runs])
        · refine old ?_ hframe
          rintro rfl
          exact absurd henters (by simp [enters])
    · exact h c ⟨message, hframe⟩

/-! ### Runs in which nothing goes wrong -/

/-- Calls on the connection's own loop, one `HandleClose` for each connection, names
that do not come round, and calls on an input buffer that it can answer. -/
def careful (cfg : Config) (s : State) (a : Action) : Bool :=
  callsInLoop s a && closesOnce cfg s a && fitsBuffer s a

/-- The removal of a connection that is closed once finds its own entry. -/
theorem keepsEntries_of_closesOnce (hplaced : Placed cfg s)
    (honce : ∀ c, c < s.nextObj → Once (view s c)) (hok : closesOnce cfg s a = true) :
    keepsEntries cfg s a = true := by
  simp only [closesOnce, Bool.and_eq_true, closesWhileReading, Option.all_eq_true] at hok
  have hentry : ∀ d, (view s d).inMap = true →
      (s.connections (s.conns d).name).all (· = d) = true := by
    intro d hmap
    have hmap : s.connections (s.conns d).name = some d := of_decide_eq_true hmap
    rw [hmap, Option.all_some, decide_eq_true_eq]
  rw [keepsEntries, hok.2, Bool.true_and, Option.all_eq_true]
  intro d hd
  apply hentry
  rw [removes] at hd
  split at hd
  · next e hruns =>
    obtain rfl := Option.some_inj.mp hd
    exact inMap_of_runs hplaced honce hruns
  · have hreading := hok.1 d (Option.eq_some_of_filter_eq_some hd)
    exact ((honce d (hplaced.lt_nextObj_of_reading hreading)).of_reading hreading).2.1

/-- What the steps of such a run rely on. -/
structure Intact (cfg : Config) (s : State) : Prop where
  placed : Placed cfg s
  once : ∀ c, c < s.nextObj → Once (view s c)
  traffic : ∀ c, c < s.nextObj → NoTraffic (view s c)
  sited : Sited s
  handling : Handled s
  registered : Registered s
  gone : ∀ c, c < s.nextObj → Gone s c
  watching : Watching s
  agreeing : Agreeing s
  inputs : ∀ c, (s.conns c).input.WF
  walk : ∀ i, ∀ c ∈ walked (s.loops i).phase,
    (s.conns c).alive = true ∧ guard cfg s (.destroy c) = false
  /-- not destroyed, so it exists -/
  alive : ∀ c, c < s.nextObj → (s.conns c).log.count .destroyed = 0 → (s.conns c).alive = true
  connected : ∀ c, c < s.nextObj → (s.conns c).state = .connected →
    (s.conns c).log.count .destroyed = 0
  removing : ∀ c, removing s c → (s.conns c).alive = true ∧
    (s.conns c).channel.index ≠ kNew ∧ (s.conns c).channel.isNoneEvent = true

/-- Careful runs meet the conditions of the other modules. -/
theorem handlesSafely_of_careful
    (hrun : Reach (step cfg) (fun s a => careful cfg s a = true) State.init as s) :
    Reach (step cfg) (fun s a => closesOnce cfg s a = true) State.init as s ∧
      Reach (step cfg) (fun s a => handlesSafely cfg s a = true) State.init as s := by
  have hcloses : ∀ {as s}, Reach (step cfg) (fun s a => careful cfg s a = true) State.init as s →
      Reach (step cfg) (fun s a => closesOnce cfg s a = true) State.init as s := by
    refine fun hrun => hrun.imp fun _ hok _ => ?_
    simp only [careful, Bool.and_eq_true] at hok
    exact hok.1.2
  refine ⟨hcloses hrun, hrun.imp fun hprefix hok _ => ?_⟩
  simp only [careful, Bool.and_eq_true] at hok
  rw [handlesSafely, hok.1.1, Bool.true_and]
  exact keepsEntries_of_closesOnce (placed_of_reach hprefix) (once_of_reach (hcloses hprefix))
    hok.1.2

/-- An interest in nothing. -/
theorem isNoneEvent_of_shaped {ch : Channel} (h : ch.Shaped) (hreading : ch.isReading = false)
    (hwriting : ch.isWriting = false) : ch.isNoneEvent = true := by
  have hevents : ch.events = Channel.interestIn ch.isReading ch.isWriting := h
  rw [Channel.isNoneEvent, hevents, hreading, hwriting]
  decide

/-- In a careful run everything is intact. -/
theorem intact_of_reach
    (hrun : Reach (step cfg) (fun s a => careful cfg s a = true) State.init as s) :
    Intact cfg s := by
  obtain ⟨hcloses, hsafe⟩ := handlesSafely_of_careful hrun
  obtain ⟨hhandled, hgone⟩ := handled_of_reach hsafe
  have hwatching := watching_of_reach hrun
  have hsited := sited_of_reach hrun
  have hended := ended_of_reach hsafe
  refine ⟨placed_of_reach hrun, once_of_reach hcloses, noTraffic_of_reach hsafe, hsited, hhandled,
    registered_of_reach hrun, hgone, hwatching, agreeing_of_reach hsafe,
    inputs_of_reach (fun hok => ?_) hrun, fun i c hc => alive_of_walked hsafe hc,
    fun c hc h0 => ?_, fun c hc hstate => ?_, fun c hremoving => ?_⟩
  · simp only [careful, Bool.and_eq_true] at hok
    exact hok.2
  · by_contra hdead
    exact destroyed_of_dead hsafe c hc (by simpa using hdead) h0
  · by_contra hdestroyed
    exact absurd (hstate.symm.trans ((hended c hc).2 hdestroyed).1) (by simp)
  · have hlt : c < s.nextObj := by
      obtain ⟨message, hframe⟩ := hremoving
      exact (hsited.frame _ c (by rw [givenTo, hframe]; simp)).1
    obtain ⟨hdestroyed, hnew⟩ := registered_of_removing hsafe c hremoving
    obtain ⟨-, hreading, hwriting⟩ := (hended c hlt).2 hdestroyed
    refine ⟨?_, hnew, isNoneEvent_of_shaped (hwatching.shape c) hreading hwriting⟩
    by_contra hdead
    exact hnew ((hgone c hlt).dead (by simpa using hdead))

/-! ### Steps that have their effect -/

/-- A method of a connection that exists runs, and finds its channel in place. -/
theorem ready_of_method (h : Agreeing m) (hwf : (m.conns d).output.WF)
    (halive : (m.conns d).alive = true) {site : Access} {u : Local → Except Fault Local}
    (herr : method m d site u = .error e) :
    Local.Ready d (localOf m d) ∧ u (localOf m d) = .error e := by
  rcases method_eq_error herr with ⟨hdead, -⟩ | ⟨-, herr⟩
  · exact absurd halive (by simp [hdead])
  · exact ⟨h.ready hwf halive, herr⟩

/-- `HandleClose` of a connection that is up and has its entry. -/
theorem handleClose_ne_error (h : Agreeing m) (hwf : (m.conns d).output.WF)
    (halive : (m.conns d).alive = true) (hup : (m.conns d).isUp = true)
    (hentry : m.connections (m.conns d).name ≠ none) {site : Access} :
    handleClose m d site ≠ .error e := by
  intro herr
  rcases bind_eq_error_iff.mp herr with herr | ⟨k, hk, herr⟩
  · obtain ⟨hready, herr⟩ := ready_of_method h hwf halive herr
    have hdown : (m.conns d).isUp = false := hready.handleClose herr
    exact absurd hup (by simp [hdown])
  · split at herr
    · obtain ⟨-, l, hl, rfl⟩ := method_eq_ok_iff.mp hk
      have hnone := (removeConnectionInLoop_eq_error herr).1
      rw [conns_putLocal, if_pos rfl, (Local.parts_of_handleClose hl).fixed.name] at hnone
      exact hentry hnone
    · exact absurd herr (by simp [pure, Except.pure])

theorem connEstablished_ne_error (h : Agreeing m) (hwf : (m.conns d).output.WF)
    (halive : (m.conns d).alive = true) (hstate : (m.conns d).state = .connecting) :
    connEstablished m d ≠ .error e := by
  intro herr
  rcases bind_eq_error_iff.mp herr with herr | ⟨k, -, herr⟩
  · obtain ⟨hready, herr⟩ := ready_of_method h hwf halive herr
    exact hready.connEstablished herr hstate
  · exact absurd herr (by simp [pure, Except.pure])

theorem connDestroyed_ne_error (h : Agreeing m) (hwf : (m.conns d).output.WF)
    (halive : (m.conns d).alive = true) (hup : (m.conns d).isUp = true) :
    connDestroyed m d ≠ .error e := by
  intro herr
  rcases bind_eq_error_iff.mp herr with herr | ⟨k, -, herr⟩
  · obtain ⟨hready, herr⟩ := ready_of_method h hwf halive herr
    have hdown : (m.conns d).isUp = false := hready.connDestroyed herr
    exact absurd hup (by simp [hdown])
  · exact absurd herr (by simp [pure, Except.pure])

namespace Intact

/-- What is reported is found under its descriptor. -/
theorem poll_ne_error (h : Intact cfg s) {active : List (ConnId × EventMask)}
    (hg : guard cfg s (.poll i active) = true) : effect cfg s (.poll i active) ≠ .error e := by
  intro herr
  simp only [effect] at herr
  split at herr
  · exact absurd herr (by simp)
  · next hmissing =>
    refine hmissing (List.all_eq_true.mpr fun entry hentry => decide_eq_true ?_)
    simp only [guard, Bool.and_eq_true, List.all_eq_true] at hg
    obtain ⟨mask, hrecord⟩ := recorded_of_mayReport (hg.2 _ hentry)
    obtain ⟨⟨rfl, -⟩, halive, hadded, -⟩ := h.watching.record i _ mask entry.1 hrecord
    exact (h.agreeing.standing entry.1 halive).index_iff.2.1.mp (Or.inl hadded)

/-- Who is closed is up and has its entry. -/
theorem of_closes (h : Intact cfg s) (hok : careful cfg s a = true)
    (hcloses : closes s a = some d) : (s.conns d).alive = true ∧ (s.conns d).isUp = true ∧
      s.connections (s.conns d).name ≠ none := by
  simp only [careful, closesOnce, closesWhileReading, Bool.and_eq_true, Option.all_eq_true] at hok
  have hreading := hok.1.2.1 d hcloses
  have hlt := h.placed.lt_nextObj_of_reading hreading
  obtain ⟨hup, hmap, halive⟩ := (h.once d hlt).of_reading hreading
  have hmap : s.connections (s.conns d).name = some d := of_decide_eq_true hmap
  exact ⟨halive, hup, by simp [hmap]⟩

/-- `HandleRead` throws `std::length_error` at most. -/
theorem handleRead_error (h : Intact cfg s) {readv : Option Bytes}
    (hok : careful cfg s (.handleRead i readv) = true)
    (hg : guard cfg s (.handleRead i readv) = true)
    (herr : effect cfg s (.handleRead i readv) = .error e) : e = .buffer .lengthError := by
  have hconns := (nextCallback_frame (s := s) (i := i)).1
  have hmap := (nextCallback_frame (s := s) (i := i)).2
  have herr : handleRead (nextCallback s i) (TcpServer.handled s i) readv = .error e := herr
  rcases check_bind_eq_error_iff.mp herr with ⟨hdead, -⟩ | ⟨-, herr⟩
  · rw [hconns] at hdead
    have halive := (h.walk i _ (handled_of_callbackIs hg).1).1
    exact absurd halive (by simp [hdead])
  · rw [hconns] at herr
    split at herr
    · next f hf =>
      rw [← Except.error.inj herr, Buffer.readFd_error (h.inputs _) (readv_le_of_guard hg) hf]
    · next input n hread =>
      have hn := Buffer.readFd_eq_ok hread
      split at herr
      · exact absurd herr (by simp [pure, Except.pure])
      · split at herr
        · next hzero =>
          have heof : readv = some [] := by
            cases readv with
            | none => simp [hn] at hzero
            | some data => simpa [hn] using hzero
          obtain ⟨halive, hup, hentry⟩ := h.of_closes hok (if_pos heof)
          have hinput : ∀ g : TcpConnection → TcpConnection,
              (setConn (nextCallback s i) (TcpServer.handled s i) g).conns (TcpServer.handled s i) =
                g (s.conns (TcpServer.handled s i)) := fun g => by
            rw [conns_setConn, if_pos rfl, hconns]
          refine absurd herr (handleClose_ne_error ?_ ?_ ?_ ?_ ?_)
          · exact (h.agreeing.moves moves_nextCallback).rewires
              (.same (calm_setConn ⟨rfl, rfl, rfl, rfl, rfl⟩))
          · rw [hinput]
            exact h.placed.wf _
          · rw [hinput]
            exact halive
          · rw [hinput]
            exact hup
          · rw [hinput]
            exact hmap ▸ hentry
        · exact absurd herr (by simp [pure, Except.pure])

theorem newConnection_ne_error (h : Intact cfg s) {fd : ℕ}
    (hg : guard cfg s (.newConnection fd) = true) : newConnection cfg s fd ≠ .error e := by
  intro herr
  have hagreeing : Agreeing (withNewObject cfg s fd) :=
    h.agreeing.begins h.watching h.placed h.registered h.gone hg (.newConnection fd)
  rw [newConnection_eq] at herr
  split at herr
  · have hconn : (withNewObject cfg s fd).conns s.nextObj = .new (getNextLoop cfg s).1
        (connName cfg (s.nextConnId + 1)) fd cfg.writeComplete :=
      conns_withNewObject.trans (if_pos rfl)
    refine connEstablished_ne_error hagreeing ((placed_withNewObject h.placed fd).wf _) ?_ ?_ herr
    · rw [hconn]
      rfl
    · rw [hconn]
      rfl
  · exact absurd herr (by simp)

/-- No functor fails. -/
theorem runFunctor_ne_error (h : Intact cfg s) {f : Functor} {fs : List Functor} {wr : WriteResult}
    (hrest : (s.loops i).functors.rest = f :: fs) :
    runFunctor (setFunctors s i (s.loops i).functors.advance) i wr f ≠ .error e := by
  intro herr
  have hpop : Agreeing (setFunctors s i (s.loops i).functors.advance) :=
    h.agreeing.moves moves_setFunctors
  have hruns : runs s (.runFunctor i wr) = some f := by rw [runs, hrest]; rfl
  have hmem : f ∈ todo s i := mem_todo_of_rest hrest
  have hf := h.placed.functors i f hmem
  cases f with
  | connEstablished d =>
    obtain ⟨hd, rfl⟩ := hf
    have hqueued : .establish ∈ (view s d).tasks := List.mem_filterMap.mpr ⟨_, hmem, if_pos rfl⟩
    have hpos : 0 < (view s d).tasks.count .establish := List.count_pos_iff.mpr hqueued
    have htokens := (h.once d hd).tokens
    have hup : (view s d).log.count .up = 0 := by
      have := htokens.established
      omega
    obtain ⟨hstate, hclosed, -⟩ := htokens.early hup
    refine connEstablished_ne_error hpop (h.placed.wf d) (h.alive d hd ?_) hstate herr
    have := htokens.closed
    have := htokens.removed
    have hcount : (view s d).log.count .destroyed = 0 := by omega
    exact hcount
  | connDestroyed d =>
    obtain ⟨hd, rfl⟩ := hf
    have hqueued : .destroy ∈ (view s d).tasks := List.mem_filterMap.mpr ⟨_, hmem, if_pos rfl⟩
    have hpos : 0 < (view s d).tasks.count .destroy := List.count_pos_iff.mpr hqueued
    have honce := h.once d hd
    refine connDestroyed_ne_error hpop (h.placed.wf d) (h.alive d hd ?_)
      (honce.isUp_of_destroy hqueued) herr
    have := honce.tokens.removed
    have := honce.mapped.removed_le
    have hcount : (view s d).log.count .destroyed = 0 := by omega
    exact hcount
  | removeConnectionInLoop d =>
    have hmap : s.connections (s.conns d).name = some d :=
      of_decide_eq_true (inMap_of_runs h.placed h.once hruns)
    have hnone : s.connections (s.conns d).name = none := (removeConnectionInLoop_eq_error herr).1
    exact absurd (hmap.symm.trans hnone) (by simp)
  | sendInLoop d who message =>
    exact absurd hmem ((notMem_of_noTraffic h.placed h.traffic).1 d who message)
  | shutdownInLoop d => exact absurd hmem ((notMem_of_noTraffic h.placed h.traffic).2 d)
  | writeComplete d | addTimerInLoop d | user => exact absurd herr (by simp [runFunctor])

theorem userReturn_ne_error (h : Intact cfg s) : effect cfg s (.userReturn i) ≠ .error e := by
  intro herr
  simp only [effect] at herr
  split at herr
  · next d message hframe =>
    obtain ⟨-, rfl⟩ := h.sited.frame i d (by rw [givenTo, hframe]; simp)
    obtain ⟨halive, hindex, hnone⟩ := h.removing d ⟨message, hframe⟩
    have hreturn : Agreeing (setLoop s (own s d) fun l => { l with frame := none }) :=
      h.agreeing.moves (moves_setLoop rfl)
    obtain ⟨hready, herr⟩ := ready_of_method hreturn (h.placed.wf d) halive herr
    exact hready.removeChannel hindex hnone herr
  · exact absurd herr (by simp)

/-- `Send` throws `std::length_error` at most. -/
theorem send_error (h : Intact cfg s) {who : Caller} {message : Bytes} {wr : WriteResult}
    (hlen : message.length ≤ Buffer.maxSize) (herr : send s who d message wr = .error e) :
    e = .buffer .lengthError := by
  simp only [send] at herr
  split at herr
  · next hstate =>
    have hlt : d < s.nextObj := h.placed.lt_nextObj_of_state (by simp [hstate])
    have halive : (s.conns d).alive = true := h.alive d hlt (h.connected d hlt hstate)
    split at herr
    · have hconn : ∀ g : TcpConnection → TcpConnection, (setConn s d g).conns d = g (s.conns d) :=
        fun g => conns_setConn.trans (if_pos rfl)
      obtain ⟨hready, herr⟩ := ready_of_method (h.agreeing.moves moves_record)
        (by rw [hconn]; exact h.placed.wf d) (by rw [hconn]; exact halive) herr
      exact hready.sendInLoop hlen herr
    · exact absurd herr (by simp)
  · exact absurd herr (by simp)

theorem shutdown_ne_error (h : Intact cfg s) {who : Caller} : shutdown s who d ≠ .error e := by
  intro herr
  simp only [shutdown] at herr
  split at herr
  · next hstate =>
    have hlt : d < s.nextObj := h.placed.lt_nextObj_of_state (by simp [hstate])
    have halive : (s.conns d).alive = true := h.alive d hlt (h.connected d hlt hstate)
    split at herr
    · have hran := (ready_of_method h.agreeing (h.placed.wf d) halive herr).2
      exact absurd hran (by simp)
    · exact absurd herr (by simp)
  · exact absurd herr (by simp)

theorem inputBuffer_ne_error (h : Intact cfg s) {u : Buffer.Use}
    (hok : careful cfg s (.inputBuffer i u) = true) :
    effect cfg s (.inputBuffer i u) ≠ .error e := by
  intro herr
  simp only [careful, Bool.and_eq_true] at hok
  simp only [effect] at herr
  split at herr
  · exact absurd herr (by simp)
  · next c hc =>
    have hfits := hok.2
    rw [fitsBuffer, hc, Option.all_some, decide_eq_true_eq] at hfits
    obtain ⟨input, hexec, -⟩ := Buffer.Use.exec_wf (h.inputs c) hfits
    rw [hexec] at herr
    exact absurd herr (by simp)

/-- Whose event it is exists. -/
theorem touch_ne_error (h : Intact cfg s) (hc : c ∈ walked (s.loops i).phase) {site : Access} :
    touch s c site ≠ .error e := by
  intro herr
  rw [touch, (h.walk i c hc).1] at herr
  exact absurd herr (by simp [check])

theorem handleEvent_ne_error (h : Intact cfg s) : effect cfg s (.handleEvent i) ≠ .error e := by
  intro herr
  simp only [effect] at herr
  split at herr
  · next c revents active hphase =>
    have hc : c ∈ walked (s.loops i).phase := by
      rw [hphase]
      exact List.mem_cons_self
    rcases bind_eq_error_iff.mp herr with herr | ⟨-, -, herr⟩
    · exact h.touch_ne_error hc herr
    · exact absurd herr (by simp [pure, Except.pure])
  · exact absurd herr (by simp)

theorem endEvent_ne_error (h : Intact cfg s) : effect cfg s (.endEvent i) ≠ .error e := by
  intro herr
  simp only [effect] at herr
  split at herr
  · next c todo active hphase =>
    have hc : c ∈ walked (s.loops i).phase := by
      rw [hphase]
      exact List.mem_cons_self
    rcases bind_eq_error_iff.mp herr with herr | ⟨-, -, herr⟩
    · exact h.touch_ne_error hc herr
    · exact absurd herr (by simp [pure, Except.pure])
  · exact absurd herr (by simp)

theorem handleWrite_ne_error (h : Intact cfg s) {wr : WriteResult}
    (hg : guard cfg s (.handleWrite i wr) = true) :
    effect cfg s (.handleWrite i wr) ≠ .error e := by
  intro herr
  have hconns := (nextCallback_frame (s := s) (i := i)).1
  have halive := (h.walk i _ (handled_of_callbackIs hg).1).1
  have haccepts : wr.getD 0 ≤ (s.conns (TcpServer.handled s i)).output.readableBytes := by
    simp only [guard, callbackIs] at hg
    split at hg
    · next c cb todo active hphase =>
      simp only [Bool.and_eq_true, accepts] at hg
      rw [TcpServer.handled, hphase]
      cases wr with
      | none => exact Nat.zero_le _
      | some n => exact of_decide_eq_true hg.2.2
    · exact absurd hg (by simp)
  obtain ⟨hready, herr⟩ := ready_of_method (h.agreeing.moves moves_nextCallback)
    (by rw [hconns]; exact h.placed.wf _) (by rw [hconns]; exact halive) herr
  refine hready.handleWrite ?_ herr
  rw [localOf, hconns]
  exact haccepts

theorem handleClose_ne_error (h : Intact cfg s) (hok : careful cfg s (.handleClose i) = true) :
    effect cfg s (.handleClose i) ≠ .error e := by
  have hconns := (nextCallback_frame (s := s) (i := i)).1
  have hmap := (nextCallback_frame (s := s) (i := i)).2
  obtain ⟨halive, hup, hentry⟩ := h.of_closes hok rfl
  apply TcpServer.handleClose_ne_error (h.agreeing.moves moves_nextCallback)
  · rw [hconns]
    exact h.placed.wf _
  · rw [hconns]
    exact halive
  · rw [hconns]
    exact hup
  · rw [hmap, hconns]
    exact hentry

theorem destroy_ne_error (h : Intact cfg s) (hg : guard cfg s (.destroy d) = true) :
    effect cfg s (.destroy d) ≠ .error e := by
  intro herr
  simp only [effect] at herr
  split at herr
  · next hhandling =>
    obtain ⟨i, todo, active, hphase⟩ := h.handling.handling d hhandling
    have hd : d ∈ walked (s.loops i).phase := by
      rw [hphase]
      exact List.mem_cons_self
    exact absurd hg (by simp [(h.walk i d hd).2])
  · exact absurd herr (by simp)

/-- A step of such a run has its effect, unless a buffer cannot grow. -/
theorem lengthError_of_error (h : Intact cfg s) (hok : careful cfg s a = true)
    (hg : guard cfg s a = true) (herr : effect cfg s a = .error e) :
    e = .buffer .lengthError := by
  cases a with
  | poll i active => exact absurd herr (h.poll_ne_error hg)
  | handleEvent i => exact absurd herr h.handleEvent_ne_error
  | handleClose i => exact absurd herr (h.handleClose_ne_error hok)
  | handleRead i readv => exact h.handleRead_error hok hg herr
  | handleWrite i wr => exact absurd herr (h.handleWrite_ne_error hg)
  | endEvent i => exact absurd herr h.endEvent_ne_error
  | newConnection fd => exact absurd herr (h.newConnection_ne_error hg)
  | closeTimer d =>
    simp only [guard, Bool.and_eq_true, h.handling.closeTimers] at hg
    exact absurd hg.2 (by simp)
  | runFunctor i wr =>
    simp only [effect] at herr
    split at herr
    · exact absurd herr (by simp)
    · next f fs hrest => exact absurd herr (h.runFunctor_ne_error hrest)
  | userReturn i => exact absurd herr h.userReturn_ne_error
  | send who c message wr =>
    simp only [guard, Bool.and_eq_true, decide_eq_true_eq] at hg
    exact h.send_error hg.1.2 herr
  | shutdown who c => exact absurd herr h.shutdown_ne_error
  | proceed who =>
    simp only [effect] at herr
    split at herr <;> exact absurd herr (by simp)
  | inputBuffer i u => exact absurd herr (h.inputBuffer_ne_error hok)
  | destroy c => exact absurd herr (h.destroy_ne_error hg)
  | handleError | userCode | doPendingFunctors | finishFunctors | close | queueInLoop
  | setWriteComplete | keep | drop => exact absurd herr (by simp [effect])

end Intact

/-! ### Runs without a fault -/

/-- A careful run ends in `std::length_error`, if it ends in a fault. -/
theorem lengthError_of_fault
    (hrun : Reach (step cfg) (fun s a => careful cfg s a = true) State.init as s)
    (hfault : s.fault = some e) : e = .buffer .lengthError := by
  induction hrun with
  | nil => exact absurd hfault (by simp [State.init])
  | snoc hprefix hok hstep ih =>
    obtain ⟨hnone, hg, heffect | ⟨f, herr, rfl⟩⟩ := step_cases hstep
    · rw [fault_of_ok (placed_of_reach hprefix) hg heffect, hnone] at hfault
      exact absurd hfault (by simp)
    · obtain rfl := Option.some_inj.mp hfault
      exact (intact_of_reach hprefix).lengthError_of_error hok hg herr

end TcpServer
end Bbkgl
