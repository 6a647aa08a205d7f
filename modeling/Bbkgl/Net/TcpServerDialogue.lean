import Bbkgl.Net.TcpServerSession

/-!
# What an application says

Every connection of a server with an application goes through a dialogue of its own:
each step of the server is a step of it, or none. So the bytes that were accepted by
the kernel and those in the output buffer are together what the application answers to
what it has been told about this connection, and the rest of the server is not in it.
-/

set_option autoImplicit false

namespace Bbkgl

open CS.Transition

namespace Connection

/-- Neither `state_` changes, nor does `SendInLoop` run. -/
def Action.isMute : Action → Bool
  | .establish | .destroy | .runSend _ | .sendDirect _ _ _ | .setDisconnecting _
  | .shutdownDirect => false
  | _ => true

variable {v v' : Connection} {a : Action} {as : List Action} {e : ConnEvent}

theorem executedBytes_record (he : ∀ who message, e ≠ .executed who message) :
    executedBytes (v.record e).log = executedBytes v.log := by
  rw [record, executedBytes_append]
  cases e with
  | executed who message => exact absurd rfl (he who message)
  | _ => exact List.append_nil _

theorem executedBytes_shutdownInLoop :
    executedBytes v.shutdownInLoop.log = executedBytes v.log := by
  rw [shutdownInLoop]
  split
  · rfl
  · exact executedBytes_record (by simp)

theorem executedBytes_handleWrite {wr : WriteResult} :
    executedBytes (v.handleWrite wr).log = executedBytes v.log := by
  have hwritten : ∀ n, executedBytes (v.written n).log = executedBytes v.log := fun n =>
    executedBytes_record (v := v) (by simp)
  rw [handleWrite]
  split
  · split
    · simp only
      split
      · rw [executedBytes_shutdownInLoop]
        exact hwritten _
      · exact hwritten _
    · exact hwritten _
  · rfl

theorem executedBytes_sendInLoop {who : Caller} {message : Bytes} {wr : WriteResult} :
    executedBytes (v.sendInLoop who message wr).log = executedBytes v.log ++ message := by
  simp only [sendInLoop, executedBytes_append]
  split <;> simp [executedBytes]

/-- A mute action leaves what is said as it is. -/
theorem mute_step (ha : a.isMute = true) (hstep : step v a = some v') :
    v'.state = v.state ∧ executedBytes v'.log = executedBytes v.log := by
  have hstate := (steps_step hstep).state
  obtain ⟨-, rfl⟩ := guarded_eq_some_iff.mp hstep
  cases a with
  | establish | destroy | runSend wr | sendDirect who message wr | setDisconnecting who
  | shutdownDirect => exact absurd ha (by simp [Action.isMute])
  | close => exact ⟨hstate, executedBytes_record (by simp)⟩
  | remove => exact ⟨hstate, executedBytes_record (by simp)⟩
  | callSend who message => exact ⟨hstate, executedBytes_record (by simp)⟩
  | handleWrite wr => exact ⟨hstate, executedBytes_handleWrite⟩
  | runShutdown => exact ⟨hstate, executedBytes_shutdownInLoop⟩
  | pushSend who =>
    refine ⟨hstate, ?_⟩
    simp only [effect]
    split
    · rfl
    · rfl
  | evict | die | callShutdown who | pushShutdown who => exact ⟨hstate, rfl⟩

/-- Mute actions leave what is said as it is. -/
theorem mute_run (has : ∀ a ∈ as, a.isMute = true) (hrun : run step v as = some v') :
    v'.state = v.state ∧ executedBytes v'.log = executedBytes v.log := by
  induction as generalizing v with
  | nil =>
    obtain rfl := Option.some_inj.mp hrun
    exact ⟨rfl, rfl⟩
  | cons a as ih =>
    obtain ⟨u, hu, hrun⟩ := Option.bind_eq_some_iff.mp hrun
    obtain ⟨hstate, hsaid⟩ := mute_step (has a List.mem_cons_self) hu
    obtain ⟨hstate', hsaid'⟩ := ih (fun b hb => has b (List.mem_cons_of_mem a hb)) hrun
    exact ⟨hstate'.trans hstate, hsaid'.trans hsaid⟩

/-- `ConnEstablished` opens, and says nothing. -/
theorem establish_step (hstep : step v .establish = some v') :
    v.state = .connecting ∧ v'.state = .connected ∧
      executedBytes v'.log = executedBytes v.log := by
  obtain ⟨hg, rfl⟩ := guarded_eq_some_iff.mp hstep
  simp only [guard, Bool.and_eq_true, decide_eq_true_eq] at hg
  exact ⟨hg.2, rfl, executedBytes_record (v := v.popTask) (by simp)⟩

/-- `ConnDestroyed` closes, and says nothing. -/
theorem destroy_step (hstep : step v .destroy = some v') :
    v.isUp = true ∧ v'.state = .disconnected ∧ executedBytes v'.log = executedBytes v.log := by
  obtain ⟨hg, rfl⟩ := guarded_eq_some_iff.mp hstep
  simp only [guard, Bool.and_eq_true] at hg
  refine ⟨hg.2, rfl, ?_⟩
  calc executedBytes ((v.popTask.record .destroyed).record .down).log
      = executedBytes (v.popTask.record .destroyed).log := executedBytes_record (by simp)
    _ = executedBytes v.log := executedBytes_record (v := v.popTask) (by simp)

/-- A `Send` on the own loop says its message. -/
theorem sendDirect_step {who : Caller} {message : Bytes} {wr : WriteResult}
    (hstep : step v (.sendDirect who message wr) = some v') :
    v'.state = v.state ∧ executedBytes v'.log = executedBytes v.log ++ message := by
  obtain ⟨-, rfl⟩ := guarded_eq_some_iff.mp hstep
  refine ⟨rfl, ?_⟩
  have hsent : executedBytes (v.record (.sent who message)).log = executedBytes v.log :=
    executedBytes_record (by simp)
  rw [effect, executedBytes_sendInLoop, hsent]

/-- A `Shutdown` on the own loop says nothing more. -/
theorem shutdownDirect_step (hstep : step v .shutdownDirect = some v') :
    v'.state = .disconnecting ∧ executedBytes v'.log = executedBytes v.log := by
  obtain ⟨-, rfl⟩ := guarded_eq_some_iff.mp hstep
  refine ⟨?_, executedBytes_shutdownInLoop⟩
  simp only [effect, shutdownInLoop]
  split <;> rfl

end Connection

namespace TcpServer

open CS CS.Fallible TcpConnection Connection

/-- The dialogue of `c`, as it stands. -/
def dialogue (s : State) (h : Session) (c : ConnId) : Dialogue where
  state := (s.conns c).state
  script := if givenTo c (s.loops (own s c)) then some (h.script (own s c)) else none
  received := h.traffic.received c
  events := h.events c
  said := executedBytes (s.conns c).log

variable {cfg : Config} {app : Application} {s m t : State} {h h' : Session} {i j : LoopId}
  {c d : ConnId} {who : Caller} {a : Action} {as : List Action} {command : Command} {e : Entry}
  {b : Connection.Action}

/-! ### Steps that say nothing on `c` -/

/-- A step that says something on `c`, or changes its state. -/
def speaks (s : State) (c : ConnId) (a : Action) : Bool :=
  match a with
  | .send _ d _ _ | .shutdown _ d => d = c
  | .runFunctor _ _ => runs s a = some (.connEstablished c) || runs s a = some (.connDestroyed c)
  | _ => false

/-- Unless a step speaks for the connection, its labels are mute. -/
theorem mute_of_mem_labels (hplaced : Placed cfg s) (htraffic : NoTraffic (view s c))
    (hspeaks : speaks s c a = false) (hb : b ∈ labels cfg s c a) : b.isMute = true := by
  cases labelOf_of_mem hb with
  | close | remove | evict | runShutdown | handleWrite | pushSend | pushShutdown | die => rfl
  | establish hruns | destroy hruns =>
    cases a with
    | runFunctor i wr => exact absurd hspeaks (by simp [speaks, hruns])
    | _ => exact absurd hruns (by simp [runs])
  | runSend hruns =>
    obtain ⟨i, hmem⟩ := mem_todo_of_runs hruns
    obtain ⟨⟨-, rfl⟩, -⟩ := hplaced.functors i _ hmem
    exact absurd (htraffic.2 _ (List.mem_filterMap.mpr ⟨_, hmem, if_pos rfl⟩)) (by simp)
  | sendDirect | callSend | shutdownDirect | callShutdown => exact absurd hspeaks (by simp [speaks])
  | @setDisconnecting who hcall =>
    have hnone : (s.calls who).bind (pendingOf c) = none := congrFun htraffic.1 who
    rw [hcall, Option.bind_some] at hnone
    exact absurd hnone (by simp [pendingOf])

/-- A step that does not speak for the connection leaves what it has said as it is. -/
theorem quiet_effect (hplaced : Placed cfg s) (htraffic : NoTraffic (view s c))
    (hg : guard cfg s a = true) (hok : effect cfg s a = .ok t) (hc : c < s.nextObj)
    (hspeaks : speaks s c a = false) :
    (t.conns c).state = (s.conns c).state ∧
      executedBytes (t.conns c).log = executedBytes (s.conns c).log :=
  mute_run (fun _ hb => mute_of_mem_labels hplaced htraffic hspeaks hb)
    (run_labels hplaced hg hok hc).2

/-! ### One step -/

/-- What is known of every state of a run of the server with an application. -/
structure Served (cfg : Config) (s : State) (h : Session) : Prop where
  placed : Placed cfg s
  sited : Sited s
  awake : Awake s
  traffic : ∀ c, c < s.nextObj → NoTraffic (view s c)
  input : ∀ c, Received h.traffic s c
  heard : ∀ c, h.traffic.consumed c = heard (h.events c)

theorem Serves.served (hrun : Serves cfg app as s h) (hfault : s.fault = none) : Served cfg s h :=
  ⟨placed_of_reach hrun.reach, sited_of_reach hrun.reach, hrun.awake, hrun.noTraffic,
    hrun.input hfault, hrun.heard hfault⟩

/-- The input buffer is what the dialogue says it is. -/
theorem Served.unheard (hs : Served cfg s h) (c : ConnId) :
    (s.conns c).input.retrieveAsString.1 = (dialogue s h c).unheard := by
  rw [Dialogue.unheard, Buffer.retrieveAsString_fst (hs.input c).wf]
  simp only [dialogue]
  rw [← (hs.input c).bytes, ← hs.heard, List.drop_left]

/-- The dialogue depends on these things alone. -/
theorem dialogue_congr (hown : own t c = own s c)
    (hquiet : (t.conns c).state = (s.conns c).state ∧
      executedBytes (t.conns c).log = executedBytes (s.conns c).log)
    (hgiven : givenTo c (t.loops (own s c)) = givenTo c (s.loops (own s c)))
    (hscript : givenTo c (s.loops (own s c)) = true → h'.script (own s c) = h.script (own s c))
    (hreceived : h'.traffic.received c = h.traffic.received c)
    (hevents : h'.events c = h.events c) : dialogue t h' c = dialogue s h c := by
  ext1
  · exact hquiet.1
  · simp only [dialogue]
    rw [hown, hgiven]
    split
    · next h => rw [hscript h]
    · rfl
  · exact hreceived
  · exact hevents
  · exact hquiet.2

/-- A callback is given one connection. -/
theorem eq_of_givenTo {l : Loop} (hc : givenTo c l = true) (hd : givenTo d l = true) : c = d := by
  rw [givenTo] at hc hd
  cases hframe : l.frame with
  | none => exact absurd hc (by simp [hframe])
  | some frame =>
    rw [hframe, Option.any_some, decide_eq_true_eq] at hc hd
    exact Option.some_inj.mp (hc.symm.trans hd)

/-- In its callback a connection has the script of its loop. -/
theorem dialogue_script (hgiven : givenTo c (s.loops (own s c)) = true) :
    (dialogue s h c).script = some (h.script (own s c)) := if_pos hgiven

/-- Out of callbacks it has no script. -/
theorem dialogue_idle (hframe : (s.loops (own s c)).frame = none) :
    (dialogue s h c).script = none := by
  apply if_neg
  rw [givenTo, hframe]
  exact Bool.false_ne_true

/-- Bytes arrive with the `OnMessage` that is told about them. -/
theorem received_record (hc : c < s.nextObj)
    (hmessage : ∀ i, enters cfg s a ≠ some (i, .message c)) :
    (Session.record cfg app s h a).traffic.received c = h.traffic.received c := by
  rw [record_traffic]
  cases a with
  | handleRead i readv =>
    by_cases hd : c = handled s i
    · subst hd
      have hdata : readv.getD [] = [] := by
        by_contra hne
        exact hmessage _ (by rw [enters, if_neg hne])
      simp [Traffic.record, hdata]
    · exact Function.update_of_ne hd _ _
  | newConnection fd => exact Function.update_of_ne (Nat.ne_of_lt hc) _ _
  | inputBuffer i u =>
    rw [Traffic.record]
    split
    · rfl
    · rfl
  | _ => rfl

/-- A callback about another connection. -/
theorem dialogue_entered_other (hs : Served cfg s h) (hg : guard cfg s a = true)
    (hok : effect cfg s a = .ok t) (hc : c < s.nextObj) (henters : enters cfg s a = some (i, e))
    (he : e.conn ≠ some c) :
    dialogue t (Session.record cfg app s h a) c = dialogue s h c := by
  have hquiet : speaks s c a = false := by
    cases a with
    | runFunctor j wr =>
      obtain ⟨f, hhead, hf⟩ := Option.bind_eq_some_iff.mp henters
      have hother : ∀ g e', functorEntry s j g = some (own s c, e') → e'.conn = some c →
          runs s (.runFunctor j wr) ≠ some g := by
        rintro g e' hg he' hruns
        obtain rfl := Option.some_inj.mp (hhead.symm.trans hruns)
        obtain rfl := (Prod.mk.inj (Option.some_inj.mp (hf.symm.trans hg))).2
        exact he he'
      simp only [speaks, Bool.or_eq_false_iff, decide_eq_false_iff_not]
      exact ⟨hother _ _ rfl rfl, hother _ _ rfl rfl⟩
    | newConnection fd | handleRead j readv | userCode j => rfl
    | _ => exact absurd henters (by simp [enters])
  have hframe := frame_entered (j := own s c) hs.placed hg hok henters
  have hgiven : givenTo c (t.loops (own s c)) = givenTo c (s.loops (own s c)) := by
    rw [givenTo, givenTo, hframe]
    split
    · next hi =>
      rw [hi, frame_of_enters hs.sited hs.placed hg henters, Option.any_some, Entry.frame_conn]
      exact decide_eq_false he
    · rfl
  refine dialogue_congr (own_kept hs.placed hg hok hc)
    (quiet_effect hs.placed (hs.traffic c hc) hg hok hc hquiet) hgiven (fun hold => ?_)
    (received_record hc fun j heq => ?_) ?_
  · rw [record_of_enters henters]
    refine enter_script fun hi => ?_
    rw [givenTo, hi, frame_of_enters hs.sited hs.placed hg henters] at hold
    exact absurd hold (by simp)
  · obtain ⟨-, rfl⟩ := Prod.mk.inj (Option.some_inj.mp (henters.symm.trans heq))
    exact he rfl
  · rw [record_of_enters henters]
    exact enter_events he

theorem run_one {v v' : Connection} : run Connection.step v [b] = some v' ↔ v.step b = some v' := by
  rw [run_cons]
  simp

/-- After `e` was called on `c`. -/
theorem dialogue_entered (hs : Served cfg s h) (hg : guard cfg s a = true)
    (hok : effect cfg s a = .ok t) (henters : enters cfg s a = some (i, e))
    (he : e.conn = some c) (hown : own t c = i) :
    dialogue t (Session.record cfg app s h a) c =
      { state := (t.conns c).state
        script := some ((h.enter app (some (i, e))).script i)
        received := (h.traffic.record s a).received c
        events := (h.enter app (some (i, e))).events c
        said := executedBytes (t.conns c).log } := by
  have hgiven : givenTo c (t.loops (own t c)) = true := by
    rw [hown, givenTo, frame_entered hs.placed hg hok henters, if_pos rfl, Option.any_some,
      Entry.frame_conn, he]
    exact decide_eq_true rfl
  ext1
  · rfl
  · rw [dialogue_script hgiven, record_of_enters henters, hown]
  · exact congrArg (Traffic.received · c) record_traffic
  · rw [record_of_enters henters]
    rfl
  · rfl

/-- A callback tells the dialogue the event. -/
theorem dialogue_told (hs : Served cfg s h) (hg : guard cfg s a = true)
    (hok : effect cfg s a = .ok t) (henters : enters cfg s a = some (i, e))
    (he : e.conn = some c) (hown : own t c = i) {event : Event}
    (htell : h.enter app (some (i, e)) = h.tell app i c event) :
    dialogue t (Session.record cfg app s h a) c =
      Dialogue.told app { state := (t.conns c).state
                          script := none
                          received := (h.traffic.record s a).received c
                          events := h.events c
                          said := executedBytes (t.conns c).log } event := by
  rw [dialogue_entered hs hg hok henters he hown, htell, Session.tell_script, Session.tell_events]
  rfl

theorem labels_runFunctor {f : Functor} {fs : List Functor} {wr : WriteResult}
    (hrest : (s.loops i).functors.rest = f :: fs) :
    labels cfg s c (.runFunctor i wr) = functorLabels s c wr f := by
  rw [labels, hrest]

/-- A callback about `c`. -/
theorem follows_entered (hs : Served cfg s h) (hg : guard cfg s a = true)
    (hok : effect cfg s a = .ok t) (hc : c < s.nextObj) (henters : enters cfg s a = some (i, e))
    (he : e.conn = some c) :
    ∃ b, Dialogue.step app (dialogue s h c) b =
      some (dialogue t (Session.record cfg app s h a) c) := by
  have hown := own_kept hs.placed hg hok hc
  have hi : own s c = i := by
    have hstart := (enters_sited hs.sited hs.placed henters he hg).2
    rwa [own, conns_start (Nat.ne_of_lt hc)] at hstart
  subst hi
  have hidle : (dialogue s h c).script = none :=
    dialogue_idle (frame_of_enters hs.sited hs.placed hg henters)
  have hrun := (run_labels hs.placed hg hok hc).2
  cases a with
  | newConnection fd =>
    simp only [enters, Option.ite_none_right_eq_some] at henters
    obtain ⟨-, rfl⟩ := Prod.mk.inj (Option.some_inj.mp henters.2)
    exact absurd (Option.some_inj.mp he) (Nat.ne_of_gt hc)
  | runFunctor j wr =>
    obtain ⟨f, hhead, hf⟩ := Option.bind_eq_some_iff.mp henters
    obtain ⟨fs, hrest⟩ := List.head?_eq_some_iff.mp hhead
    rw [labels_runFunctor hrest] at hrun
    cases f with
    | connEstablished d =>
      obtain ⟨-, rfl⟩ := Prod.mk.inj (Option.some_inj.mp hf)
      obtain rfl := Option.some_inj.mp he
      rw [functorLabels, if_pos rfl, run_one] at hrun
      obtain ⟨hold, hnew, hsaid⟩ := establish_step hrun
      refine ⟨.connEstablished, guarded_eq_some_iff.mpr ⟨?_, ?_⟩⟩
      · have hstate : (dialogue s h d).state = .connecting := hold
        rw [Dialogue.guard, hstate, hidle]
        rfl
      · have hnew : (t.conns d).state = .connected := hnew
        have hsaid : executedBytes (t.conns d).log = executedBytes (s.conns d).log := hsaid
        rw [dialogue_told hs hg hok henters he hown rfl, hnew, hsaid]
        rfl
    | connDestroyed d =>
      obtain ⟨-, rfl⟩ := Prod.mk.inj (Option.some_inj.mp hf)
      obtain rfl := Option.some_inj.mp he
      rw [functorLabels, if_pos rfl, run_one] at hrun
      obtain ⟨hup, hnew, hsaid⟩ := destroy_step hrun
      refine ⟨.connDestroyed, guarded_eq_some_iff.mpr ⟨?_, ?_⟩⟩
      · have hup : (dialogue s h d).isUp = true := hup
        rw [Dialogue.guard, hup, hidle]
        rfl
      · have hnew : (t.conns d).state = .disconnected := hnew
        have hsaid : executedBytes (t.conns d).log = executedBytes (s.conns d).log := hsaid
        rw [dialogue_told hs hg hok henters he hown rfl, hnew, hsaid]
        rfl
    | writeComplete d =>
      obtain ⟨-, rfl⟩ := Prod.mk.inj (Option.some_inj.mp hf)
      obtain rfl := Option.some_inj.mp he
      obtain ⟨hstate, hsaid⟩ := quiet_effect hs.placed (hs.traffic d hc) hg hok hc
        (by simp [speaks, runs, hrest])
      refine ⟨.writeComplete, guarded_eq_some_iff.mpr ⟨?_, ?_⟩⟩
      · have hawake : (dialogue s h d).state ≠ .connecting :=
          hs.awake.writeComplete j d (mem_todo_of_rest hrest)
        rw [Dialogue.guard, hidle, decide_eq_true hawake]
        rfl
      · rw [dialogue_told hs hg hok henters he hown rfl, hstate, hsaid]
        rfl
    | user =>
      obtain ⟨-, rfl⟩ := Prod.mk.inj (Option.some_inj.mp hf)
      exact absurd he (by simp [Entry.conn])
    | removeConnectionInLoop d | sendInLoop d who message | shutdownInLoop d | addTimerInLoop d =>
      exact absurd hf (by simp [functorEntry])
  | handleRead j readv =>
    have hmessage := henters
    simp only [enters, Option.ite_none_left_eq_some] at hmessage
    obtain ⟨-, rfl⟩ := Prod.mk.inj (Option.some_inj.mp hmessage.2)
    obtain rfl := Option.some_inj.mp he
    obtain ⟨hstate, hsaid⟩ := quiet_effect hs.placed (hs.traffic _ hc) hg hok hc rfl
    refine ⟨.handleRead (readv.getD []), guarded_eq_some_iff.mpr ⟨?_, ?_⟩⟩
    · have hup : (dialogue s h (handled s j)).isUp = true :=
        hs.awake.walk j _ (handled_of_callbackIs hg).1
      rw [Dialogue.guard, hup, hidle, decide_eq_true hmessage.1]
      rfl
    · rw [dialogue_entered hs hg hok henters he hown, hsaid, hstate]
      simp [Dialogue.effect, Session.enter, dialogue, Traffic.record]
  | userCode j =>
    obtain ⟨-, rfl⟩ := Prod.mk.inj (Option.some_inj.mp henters)
    exact absurd he (by simp [Entry.conn])
  | _ => exact absurd henters (by simp [enters])

/-- A step that calls nothing, and returns from nothing on the thread of `c`. -/
theorem dialogue_kept (hs : Served cfg s h) (hg : guard cfg s a = true)
    (hok : effect cfg s a = .ok t) (hc : c < s.nextObj) (henters : enters cfg s a = none)
    (hreturn : a ≠ .userReturn (own s c)) (hquiet : speaks s c a = false)
    (hscript : givenTo c (s.loops (own s c)) = true →
      (Session.record cfg app s h a).script (own s c) = h.script (own s c))
    (hevents : (Session.record cfg app s h a).events c = h.events c) :
    dialogue t (Session.record cfg app s h a) c = dialogue s h c := by
  refine dialogue_congr (own_kept hs.placed hg hok hc)
    (quiet_effect hs.placed (hs.traffic c hc) hg hok hc hquiet) ?_ hscript
    (received_record hc (by simp [henters])) hevents
  rw [givenTo, frame_kept hs.placed hg hok henters, if_neg hreturn]
  rfl

/-- The callback on the thread of loop `i` returns. -/
theorem follows_userReturn (hs : Served cfg s h) (hg : guard cfg s (.userReturn i) = true)
    (hok : effect cfg s (.userReturn i) = .ok t) (hc : c < s.nextObj)
    (hobeys : obeys s h (.userReturn i) = true) :
    dialogue t (Session.record cfg app s h (.userReturn i)) c = dialogue s h c ∨
      ∃ b, Dialogue.step app (dialogue s h c) b =
        some (dialogue t (Session.record cfg app s h (.userReturn i)) c) := by
  have hown := own_kept hs.placed hg hok hc
  by_cases hi : i = own s c
  · subst hi
    have hidle : (t.loops (own s c)).frame = none := by
      rw [frame_kept hs.placed hg hok rfl, if_pos rfl]
    have hquiet := quiet_effect hs.placed (hs.traffic c hc) hg hok hc rfl
    by_cases hgiven : givenTo c (s.loops (own s c)) = true
    · refine Or.inr ⟨.userReturn, guarded_eq_some_iff.mpr ⟨?_, ?_⟩⟩
      · have hscript : h.script (own s c) = .commands [] := of_decide_eq_true hobeys
        rw [Dialogue.guard, dialogue_script hgiven, hscript]
        rfl
      · ext1
        · exact hquiet.1.symm
        · rw [dialogue_idle (hown ▸ hidle)]
          rfl
        · rfl
        · rfl
        · exact hquiet.2.symm
    · refine Or.inl (dialogue_congr hown hquiet ?_ (fun h => absurd h hgiven) rfl rfl)
      rw [Bool.eq_false_iff.mpr hgiven, givenTo, hidle]
      rfl
  · exact Or.inl (dialogue_kept hs hg hok hc rfl (fun heq => hi (Action.userReturn.inj heq)) rfl
      (fun _ => rfl) rfl)

/-- `OnMessage` has its bytes. -/
theorem follows_inputBuffer {u : Buffer.Use} (hs : Served cfg s h)
    (hg : guard cfg s (.inputBuffer i u) = true) (hok : effect cfg s (.inputBuffer i u) = .ok t)
    (hc : c < s.nextObj) (hobeys : obeys s h (.inputBuffer i u) = true) :
    dialogue t (Session.record cfg app s h (.inputBuffer i u)) c = dialogue s h c ∨
      ∃ b, Dialogue.step app (dialogue s h c) b =
        some (dialogue t (Session.record cfg app s h (.inputBuffer i u)) c) := by
  have hown := own_kept hs.placed hg hok hc
  simp only [obeys, Bool.and_eq_true, decide_eq_true_eq] at hobeys
  cases hframe : (s.loops i).frame.bind Frame.conn with
  | none =>
    refine Or.inl (dialogue_kept hs hg hok hc rfl (by simp) rfl (fun _ => ?_) ?_)
    · rw [Session.record, hframe]
      rfl
    · rw [Session.record, hframe]
      rfl
  | some d =>
    have hgiven := givenTo_of_bind hframe
    obtain ⟨-, rfl⟩ := hs.sited.frame i d hgiven
    by_cases hd : c = d
    · subst hd
      have hquiet := quiet_effect hs.placed (hs.traffic c hc) hg hok hc rfl
      have hafter : givenTo c (t.loops (own t c)) = true := by
        rw [hown, givenTo, frame_kept hs.placed hg hok rfl, if_neg (by simp)]
        exact hgiven
      refine Or.inr ⟨.retrieveAsString, guarded_eq_some_iff.mpr ⟨?_, ?_⟩⟩
      · rw [Dialogue.guard, dialogue_script hgiven, hobeys.1]
        exact decide_eq_true rfl
      · ext1
        · exact hquiet.1.symm
        · rw [dialogue_script hafter, hown, record_inputBuffer hframe, Session.tell_script,
            hs.unheard]
          rfl
        · exact (received_record hc (by simp [enters])).symm
        · simp only [dialogue, record_inputBuffer hframe, Session.tell_events, hs.unheard]
          rfl
        · exact hquiet.2.symm
    · refine Or.inl (dialogue_kept hs hg hok hc rfl (by simp) rfl (fun hold => ?_) ?_)
      · rw [record_inputBuffer hframe, Session.tell_script_of_ne]
        intro hi
        exact hd (eq_of_givenTo hold (hi ▸ hgiven))
      · rw [record_inputBuffer hframe, Session.tell_events_of_ne hd]

/-- A script with something left has a first command. -/
theorem tail_commands {script : Script} (h : script.left.head? = some command) :
    ∃ cs, script = .commands (command :: cs) ∧ script.tail = .commands cs := by
  cases script with
  | retrieve => exact absurd h (by simp [Script.left])
  | commands cs =>
    obtain ⟨cs', rfl⟩ := List.head?_eq_some_iff.mp h
    exact ⟨cs', rfl, rfl⟩

/-- A call that a callback makes on its connection `d`. -/
theorem follows_command (hs : Served cfg s h) (hg : guard cfg s a = true)
    (hok : effect cfg s a = .ok t) (hc : c < s.nextObj) (hasks : asks s h who d command = true)
    (henters : enters cfg s a = none) (hreturn : ∀ i, a ≠ .userReturn i)
    (hquiet : c ≠ d → speaks s c a = false)
    (hevents : (Session.record cfg app s h a).events = h.events)
    (hscript : (Session.record cfg app s h a).script =
      Function.update h.script (own s d) (h.script (own s d)).tail)
    (hsaid : c = d → (t.conns c).state = ((dialogue s h c).perform command).state ∧
      executedBytes (t.conns c).log = ((dialogue s h c).perform command).said) :
    dialogue t (Session.record cfg app s h a) c = dialogue s h c ∨
      ∃ b, Dialogue.step app (dialogue s h c) b =
        some (dialogue t (Session.record cfg app s h a) c) := by
  obtain ⟨-, hgiven, hhead⟩ := asks_loop hs.sited hasks
  have hown := own_kept hs.placed hg hok hc
  by_cases hd : c = d
  · subst hd
    obtain ⟨cs, hcommands, htail⟩ := tail_commands hhead
    have hbefore : (dialogue s h c).script = some (.commands (command :: cs)) := by
      rw [dialogue_script hgiven, hcommands]
    have hafter : givenTo c (t.loops (own t c)) = true := by
      rw [hown, givenTo, frame_kept hs.placed hg hok henters, if_neg (hreturn _)]
      exact hgiven
    obtain ⟨-, hreceived, hkept⟩ := Dialogue.perform_frame (d := dialogue s h c) (c := command)
    refine Or.inr ⟨.command, guarded_eq_some_iff.mpr ⟨?_, ?_⟩⟩
    · rw [Dialogue.guard, hbefore]
    · rw [Dialogue.effect, hbefore]
      ext1
      · exact (hsaid rfl).1.symm
      · rw [dialogue_script hafter, hown, hscript, Function.update_self, htail]
      · exact hreceived.trans (received_record hc (by simp [henters])).symm
      · exact hkept.trans (congrFun hevents c).symm
      · exact (hsaid rfl).2.symm
  · refine Or.inl (dialogue_kept hs hg hok hc henters (hreturn _) (hquiet hd) (fun hold => ?_)
      (congrFun hevents c))
    rw [hscript, Function.update_of_ne]
    intro hi
    exact hd (eq_of_givenTo hold (hi ▸ hgiven))

/-- A `Send` does to the connection what it does to the dialogue. -/
theorem said_send {message : Bytes} {wr : WriteResult} (hs : Served cfg s h)
    (hg : guard cfg s (.send who c message wr) = true)
    (hok : effect cfg s (.send who c message wr) = .ok t) (hc : c < s.nextObj)
    (hwho : who = .loop (own s c)) :
    (t.conns c).state = ((dialogue s h c).perform (.send message)).state ∧
      executedBytes (t.conns c).log = ((dialogue s h c).perform (.send message)).said := by
  have hrun := (run_labels hs.placed hg hok hc).2
  rw [Dialogue.perform]
  by_cases hstate : (s.conns c).state = .connected
  · rw [labels, if_pos ⟨rfl, hstate⟩, if_pos hwho, run_one] at hrun
    have hconnected : (dialogue s h c).state = .connected := hstate
    rw [if_pos hconnected]
    exact sendDirect_step hrun
  · rw [labels, if_neg fun h => hstate h.2, run_nil] at hrun
    have hview : view s c = view t c := Option.some_inj.mp hrun
    have hother : (dialogue s h c).state ≠ .connected := hstate
    rw [if_neg hother]
    exact ⟨congrArg Connection.state hview.symm, congrArg (executedBytes ·.log) hview.symm⟩

/-- A `Shutdown` does to the connection what it does to the dialogue. -/
theorem said_shutdown (hs : Served cfg s h) (hg : guard cfg s (.shutdown who c) = true)
    (hok : effect cfg s (.shutdown who c) = .ok t) (hc : c < s.nextObj)
    (hwho : who = .loop (own s c)) :
    (t.conns c).state = ((dialogue s h c).perform .shutdown).state ∧
      executedBytes (t.conns c).log = ((dialogue s h c).perform .shutdown).said := by
  have hrun := (run_labels hs.placed hg hok hc).2
  rw [Dialogue.perform]
  by_cases hstate : (s.conns c).state = .connected
  · rw [labels, if_pos ⟨rfl, hstate⟩, if_pos hwho, run_one] at hrun
    have hconnected : (dialogue s h c).state = .connected := hstate
    rw [if_pos hconnected]
    exact shutdownDirect_step hrun
  · rw [labels, if_neg fun h => hstate h.2, run_nil] at hrun
    have hview : view s c = view t c := Option.some_inj.mp hrun
    have hother : (dialogue s h c).state ≠ .connected := hstate
    rw [if_neg hother]
    exact ⟨congrArg Connection.state hview.symm, congrArg (executedBytes ·.log) hview.symm⟩

/-- A step that calls none of the user's code. -/
theorem follows_kept (hs : Served cfg s h) (hg : guard cfg s a = true)
    (hok : effect cfg s a = .ok t) (hc : c < s.nextObj) (hobeys : obeys s h a = true)
    (henters : enters cfg s a = none) :
    dialogue t (Session.record cfg app s h a) c = dialogue s h c ∨
      ∃ b, Dialogue.step app (dialogue s h c) b =
        some (dialogue t (Session.record cfg app s h a) c) := by
  have kept : (∀ i, a ≠ .userReturn i) → speaks s c a = false →
      Session.record cfg app s h a = { h with traffic := h.traffic.record s a } →
      dialogue t (Session.record cfg app s h a) c = dialogue s h c := by
    intro hreturn hquiet hrecord
    exact dialogue_kept hs hg hok hc henters (hreturn _) hquiet (fun _ => by rw [hrecord])
      (by rw [hrecord])
  cases a with
  | userReturn i => exact follows_userReturn hs hg hok hc hobeys
  | inputBuffer i u => exact follows_inputBuffer hs hg hok hc hobeys
  | send who d message wr =>
    have hwho := (asks_loop hs.sited hobeys).1
    refine follows_command hs hg hok hc hobeys rfl (by simp) (fun hne => ?_) ?_ ?_ ?_
    · exact decide_eq_false hne.symm
    · subst hwho; rfl
    · subst hwho; rfl
    · rintro rfl
      exact said_send hs hg hok hc hwho
  | shutdown who d =>
    have hwho := (asks_loop hs.sited hobeys).1
    refine follows_command hs hg hok hc hobeys rfl (by simp) (fun hne => ?_) ?_ ?_ ?_
    · exact decide_eq_false hne.symm
    · subst hwho; rfl
    · subst hwho; rfl
    · rintro rfl
      exact said_shutdown hs hg hok hc hwho
  | close who d =>
    have hwho := (asks_loop hs.sited hobeys).1
    refine follows_command hs hg hok hc hobeys rfl (by simp) (fun _ => rfl) ?_ ?_ ?_
    · subst hwho; rfl
    · subst hwho; rfl
    · rintro rfl
      exact quiet_effect hs.placed (hs.traffic c hc) hg hok hc rfl
  | runFunctor i wr =>
    refine Or.inl (kept (by simp) ?_ ?_)
    · have hother : ∀ f e, functorEntry s i f = some e → runs s (.runFunctor i wr) ≠ some f := by
        intro f e hf hruns
        have hhead : (s.loops i).functors.rest.head? = some f := hruns
        rw [enters, hhead, Option.bind_some, hf] at henters
        exact absurd henters (by simp)
      simp only [speaks, Bool.or_eq_false_iff, decide_eq_false_iff_not]
      exact ⟨hother _ _ rfl, hother _ _ rfl⟩
    · simp only [Session.record, henters, Session.enter]
  | _ => exact Or.inl (kept (by simp) rfl (by simp only [Session.record, henters, Session.enter]))

/-- One step of the server, in the dialogue of `c`. -/
theorem follows_step (hs : Served cfg s h) (hg : guard cfg s a = true)
    (hok : effect cfg s a = .ok t) (hc : c < s.nextObj) (hobeys : obeys s h a = true) :
    dialogue t (Session.record cfg app s h a) c = dialogue s h c ∨
      ∃ b, Dialogue.step app (dialogue s h c) b =
        some (dialogue t (Session.record cfg app s h a) c) := by
  cases henters : enters cfg s a with
  | none => exact follows_kept hs hg hok hc hobeys henters
  | some p =>
    obtain ⟨i, e⟩ := p
    by_cases he : e.conn = some c
    · exact Or.inr (follows_entered hs hg hok hc henters he)
    · exact Or.inl (dialogue_entered_other hs hg hok hc henters he)

/-! ### Whole runs -/

/-- A new connection belongs to the loop that is next. -/
theorem own_created {fd : ℕ} (hplaced : Placed cfg s) (hg : guard cfg s (.newConnection fd) = true)
    (hok : effect cfg s (.newConnection fd) = .ok t) :
    own t s.nextObj = (getNextLoop cfg s).1 := by
  obtain ⟨m, hm, rfl⟩ := passes hplaced hg hok
  have hown := hm.own s.nextObj
  rw [own, pushes_conns.1, ← own, hown]
  simp [own, start, withNewObject, TcpConnection.new]

/-- The dialogue of a new connection. -/
theorem dialogue_created {fd : ℕ} (hs : Served cfg s h)
    (hg : guard cfg s (.newConnection fd) = true)
    (hok : effect cfg s (.newConnection fd) = .ok t) (hevents : h.events s.nextObj = []) :
    ∃ bs, run (Dialogue.step app) Dialogue.init bs =
      some (dialogue t (Session.record cfg app s h (.newConnection fd)) s.nextObj) := by
  have hown := own_created hs.placed hg hok
  obtain ⟨i, hview⟩ := (creates_newConnection hs.placed hok).created
  have hi : own t s.nextObj = i := Caller.loop.inj (later_run hview).owner
  by_cases hbase : (getNextLoop cfg s).1 = 0
  · rw [← hi, hown, if_pos hbase, run_one] at hview
    obtain ⟨-, hstate, hsaid⟩ := establish_step hview
    have hstate : (t.conns s.nextObj).state = .connected := hstate
    have hsaid : executedBytes (t.conns s.nextObj).log = [] := hsaid
    have henters : enters cfg s (.newConnection fd) = some (0, .connection s.nextObj true) := by
      rw [enters, if_pos hbase]
    refine ⟨[.connEstablished], ?_⟩
    have hreceived : (h.traffic.record s (.newConnection fd)).received s.nextObj = [] :=
      Function.update_self _ _ _
    rw [dialogue_told hs hg hok henters rfl (hown.trans hbase) rfl, hstate, hsaid, hevents,
      hreceived]
    rfl
  · rw [← hi, hown, if_neg hbase, run_nil] at hview
    have hview : Connection.init _ = view t s.nextObj := Option.some_inj.mp hview
    have henters : enters cfg s (.newConnection fd) = none := by
      rw [enters, if_neg hbase]
    have hgiven : ¬ givenTo s.nextObj (t.loops (own t s.nextObj)) = true := by
      rw [givenTo, frame_kept hs.placed hg hok henters, if_neg (by simp)]
      exact fun h => absurd (hs.sited.frame _ _ h).1 (Nat.lt_irrefl _)
    refine ⟨[], ?_⟩
    rw [run_nil, Option.some_inj]
    ext1
    · exact congrArg Connection.state hview
    · exact (if_neg hgiven).symm
    · exact (Function.update_self s.nextObj [] h.traffic.received).symm
    · simp only [Session.record, henters, Session.enter]
      exact hevents.symm
    · exact congrArg (executedBytes ·.log) hview

/-- Every connection has gone through a dialogue, as far as the run has got. -/
theorem Serves.dialogue_run (hrun : Serves cfg app as s h) (hfault : s.fault = none)
    (hc : c < s.nextObj) :
    ∃ bs, run (Dialogue.step app) Dialogue.init bs = some (dialogue s h c) := by
  have hinv := hrun.invariant (I := fun q => q.1.fault = none → ∀ c, c < q.1.nextObj →
    ∃ bs, run (Dialogue.step app) Dialogue.init bs = some (TcpServer.dialogue q.1 q.2 c))
    (fun _ c hc => absurd hc (Nat.not_lt_zero c)) ?_
  · exact hinv hfault c hc
  · rintro bs ⟨u, k⟩ a ⟨t, k'⟩ hprefix hall hobeys hstep hnone c hc
    obtain ⟨hstep, rfl⟩ := recorded_eq_some_iff.mp hstep
    obtain ⟨hfree, hg, hok | ⟨f, -, rfl⟩⟩ := step_cases hstep
    · have hs : Served cfg u k := Serves.served hprefix hfree
      by_cases hold : c < u.nextObj
      · obtain ⟨bs', hbs⟩ := hall hfree c hold
        rcases follows_step hs hg hok hold hobeys with hsame | ⟨b, hb⟩
        · exact ⟨bs', by rw [hsame]; exact hbs⟩
        · exact ⟨bs' ++ [b], by rw [run_concat, hbs]; exact hb⟩
      · have hlt : c < (start cfg u a).nextObj := nextObj_eq_start hs.placed hg hok ▸ hc
        cases a with
        | newConnection fd =>
          obtain rfl : c = u.nextObj :=
            Nat.le_antisymm (Nat.lt_succ_iff.mp hlt) (Nat.le_of_not_lt hold)
          exact dialogue_created hs hg hok (Serves.fresh hprefix hfree _ (Nat.le_refl _))
        | _ => exact absurd hlt hold
    · exact absurd hnone (by simp)

end TcpServer
end Bbkgl
