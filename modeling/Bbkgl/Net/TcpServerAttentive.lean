import Bbkgl.Net.Programs
import Bbkgl.Net.TcpServerAnswers
import Bbkgl.Net.TcpServerSession
import Bbkgl.Net.TcpServerSound
import Bbkgl.Net.TcpServerSubscribed

/-!
# Applications that do no harm

Nothing in the server keeps a closed connection from being closed again. An application
that does not call `Close`, and does not send from its write-complete callback, does not
bring it about either: what the kernel reports is subscribed, one event leads to one
`HandleClose`, and after that no callback is left that could subscribe the channel again.
-/

set_option autoImplicit false

namespace Bbkgl

open CS.Transition

/-! ### Harmless applications -/

/-- The callback is still to send something, or to learn what it is to do. -/
def Script.sends : Script → Bool
  | .retrieve => true
  | .commands cs => cs.any fun command => match command with
    | .send _ => true
    | .shutdown | .close => false

/-- At most one of the callbacks of the event can go on to `HandleClose`. -/
def Channel.endsOnce (revents : EventMask) : Bool :=
  ((Channel.handleEvent revents).filter Channel.Callback.ends).length ≤ 1

/-- A hang-up without `POLLIN` comes without `POLLPRI` and `POLLRDHUP`. -/
theorem Channel.endsOnce_iff {revents : EventMask} : Channel.endsOnce revents = true ↔
    (revents.meets pollHup = true → revents.meets pollIn = false →
      revents.meets (pollIn ||| pollPri ||| pollRdHup) = false) := by
  rw [endsOnce, handleEvent]
  generalize revents.meets pollHup = hup
  generalize revents.meets pollIn = input
  generalize revents.meets (pollErr ||| pollNval) = err
  generalize revents.meets (pollIn ||| pollPri ||| pollRdHup) = read
  generalize revents.meets pollOut = output
  revert hup input err read output
  decide

namespace Application

/-- The application never calls `Close`, and its write-complete callback does not send. -/
structure Harmless (app : Application) : Prop where
  closes : ∀ e, .close ∉ app.answer e
  completes : (Script.commands app.onWriteComplete).sends = false

theorem test9_harmless : test9.Harmless where
  closes e := by
    cases e with
    | connection up | message data | writeComplete => simp [answer, test9]
  completes := rfl

theorem test10_harmless {msg1 msg2 : Bytes} : (test10 msg1 msg2).Harmless where
  closes e := by
    cases e with
    | connection up =>
      cases up with
      | true | false => simp [answer, test10]
    | message data | writeComplete => simp [answer, test10]
  completes := rfl

end Application

namespace Script

variable {script : Script} {message : Bytes} {command : Command}

theorem sends_of_mem (h : .send message ∈ script.left) : script.sends = true := by
  cases script with
  | retrieve => exact absurd h List.not_mem_nil
  | commands cs => exact List.any_eq_true.mpr ⟨_, h, rfl⟩

theorem sends_of_tail (h : script.tail.sends = true) : script.sends = true := by
  cases script with
  | retrieve => rfl
  | commands cs =>
    obtain ⟨command, hmem, hsends⟩ := List.any_eq_true.mp h
    exact List.any_eq_true.mpr ⟨command, List.mem_of_mem_tail hmem, hsends⟩

theorem mem_left_of_tail (h : command ∈ script.tail.left) : command ∈ script.left := by
  cases script with
  | retrieve => exact h
  | commands cs => exact List.mem_of_mem_tail h

end Script

namespace TcpServer

open CS CS.Fallible TcpConnection Connection Epoller

/-- The name for a new connection is free, and no event that is reported can lead to
`HandleClose` twice. -/
def spared (cfg : Config) (s : State) (a : Action) : Bool :=
  nameFree cfg s a && match a with
    | .poll _ active => active.all fun e => Channel.endsOnce e.2
    | _ => true

/-- The events that the walk has still to come to. -/
def ahead : Phase → List (ConnId × EventMask)
  | .dispatch active | .handling _ _ active => active
  | .poll | .functors => []

/-- Whoever is going to be closed is subscribed, and whoever is not subscribed is not
reported any more. -/
structure Attentive (s : State) (h : Session) : Prop where
  ahead : ∀ i, ∀ e ∈ ahead (s.loops i).phase,
    (s.conns e.1).channel.isReading = true ∧ Channel.endsOnce e.2 = true
  todo : ∀ i c todo active, (s.loops i).phase = .handling c todo active →
    (todo.filter Channel.Callback.ends).length ≤ 1 ∧
      ∀ cb ∈ todo, cb.ends = true → (s.conns c).channel.isReading = true
  nodup : ∀ i, (walked (s.loops i).phase).Nodup
  frame : ∀ i c, givenTo c (s.loops i) = true → (s.conns c).state = .connected →
    (h.script i).sends = true → (s.conns c).channel.isReading = true
  added : ∀ c, (s.conns c).channel.index = kAdded →
    (s.conns c).channel.isReading = true ∨ removing s c
  stays : ∀ i, .close ∉ (h.script i).left

variable {cfg : Config} {app : Application} {s m t : State} {h h' : Session} {i j : LoopId}
  {c d : ConnId} {who : Caller} {a : Action} {as : List Action} {command : Command}

theorem attentive_init : Attentive State.init Session.init where
  ahead i e he := absurd he List.not_mem_nil
  todo i c todo active h := absurd h (by simp [State.init])
  nodup i := List.nodup_nil
  frame i c h := absurd h (by simp [givenTo, State.init])
  added c h := absurd h (by simp [State.init, TcpConnection.new, Channel.new, kAdded])
  stays i := List.not_mem_nil

/-! ### The walks -/

theorem mem_walked_of_ahead {phase : Phase} {e : ConnId × EventMask} (he : e ∈ ahead phase) :
    e.1 ∈ walked phase := by
  cases phase with
  | dispatch active => exact List.mem_map_of_mem he
  | handling c todo active => exact List.mem_cons_of_mem _ (List.mem_map_of_mem he)
  | poll | functors => exact absurd he List.not_mem_nil

/-- Of the connections that are walked over only the one whose event is handled can be
unsubscribed. -/
theorem walked_kept (hin : Intact cfg s) (hg : guard cfg s a = true) (hok : effect cfg s a = .ok t)
    (hwalk : c ∈ walked (s.loops i).phase) (hreading : (s.conns c).channel.isReading = true)
    (hhead : ∀ cb todo active, callback a = some (i, cb) → cb.ends = true →
      (s.loops i).phase ≠ .handling c (cb :: todo) active) :
    (t.conns c).channel.isReading = true := by
  refine reading_kept hin.placed hg hok hreading (fun hcloses => ?_) fun hruns => ?_
  · obtain ⟨k, cb, todo, active, hcb, hends, hphase, -⟩ :=
      callback_of_closes hin.handling hg hcloses
    have hmem : c ∈ walked (s.loops k).phase := by
      rw [hphase]
      exact List.mem_cons_self
    obtain rfl : k = i := (hin.sited.walk k c hmem).2.symm.trans (hin.sited.walk i c hwalk).2
    exact hhead cb todo active hcb hends hphase
  · exact not_walked_of_runs hin.placed hin.sited hg hruns hwalk

namespace Attentive

/-- What is reported is subscribed. -/
theorem reading_of_poll (hatt : Attentive s h) (hin : Intact cfg s)
    {active : List (ConnId × EventMask)} (hg : guard cfg s (.poll i active) = true)
    {e : ConnId × EventMask} (he : e ∈ active) : (s.conns e.1).channel.isReading = true := by
  simp only [guard, Bool.and_eq_true, List.all_eq_true] at hg
  obtain ⟨mask, hrecord⟩ := recorded_of_mayReport (hg.2 e he)
  obtain ⟨⟨hown, -⟩, -, hadded, -⟩ := hin.watching.record i _ mask e.1 hrecord
  rcases hatt.added e.1 hadded with hreading | ⟨message, hframe⟩
  · exact hreading
  · rw [hown, frame_of_free hg.1.1.1] at hframe
    exact absurd hframe (by simp)

theorem ahead_effect (hatt : Attentive s h) (hin : Intact cfg s) (hspared : spared cfg s a = true)
    (hg : guard cfg s a = true) (hok : effect cfg s a = .ok t) {e : ConnId × EventMask}
    (he : e ∈ TcpServer.ahead (t.loops i).phase) :
    (t.conns e.1).channel.isReading = true ∧ Channel.endsOnce e.2 = true := by
  have old : e ∈ TcpServer.ahead (s.loops i).phase → (∀ cb todo active,
      callback a = some (i, cb) → cb.ends = true →
        (s.loops i).phase ≠ .handling e.1 (cb :: todo) active) →
      (t.conns e.1).channel.isReading = true ∧ Channel.endsOnce e.2 = true := by
    intro hold hhead
    obtain ⟨hreading, honce⟩ := hatt.ahead i e hold
    exact ⟨walked_kept hin hg hok (mem_walked_of_ahead hold) hreading hhead, honce⟩
  have hturn := turn_of_effect hg hok (j := i)
  generalize (t.loops i).phase = phase at he hturn
  cases hturn with
  | same ha => exact old he fun cb _ _ hcb => absurd hcb (ha cb)
  | rest hnone => exact absurd (mem_walked_of_ahead he) (by simp [hnone])
  | @poll active ha =>
    subst ha
    have he : e ∈ active := he
    refine ⟨?_, ?_⟩
    · exact reading_kept hin.placed hg hok (hatt.reading_of_poll hin hg he) (by simp [closes])
        (by simp [runs])
    · simp only [spared, Bool.and_eq_true, List.all_eq_true] at hspared
      exact hspared.2 e he
  | handleEvent ha hphase =>
    refine old ?_ ?_
    · rw [hphase]
      exact List.mem_cons_of_mem _ he
    · rw [hphase]
      exact fun _ _ _ _ _ => by simp
  | @callback c cb todo active hcb hphase =>
    refine old ?_ fun cb' todo' active' _ _ heq => ?_
    · rw [hphase]
      exact he
    · have hnodup := hatt.nodup i
      rw [hphase] at heq hnodup
      obtain ⟨rfl, -, -⟩ := Phase.handling.inj heq
      exact (List.nodup_cons.mp hnodup).1 (List.mem_map_of_mem he)
  | endEvent ha hphase =>
    refine old ?_ ?_
    · rw [hphase]
      exact he
    · rw [hphase]
      exact fun _ _ _ _ _ => by simp

theorem todo_effect (hatt : Attentive s h) (hin : Intact cfg s) (hg : guard cfg s a = true)
    (hok : effect cfg s a = .ok t) {todo : List Channel.Callback}
    {active : List (ConnId × EventMask)} (hphase : (t.loops i).phase = .handling c todo active) :
    (todo.filter Channel.Callback.ends).length ≤ 1 ∧
      ∀ cb ∈ todo, cb.ends = true → (t.conns c).channel.isReading = true := by
  have hturn := turn_of_effect hg hok (j := i)
  rw [hphase] at hturn
  generalize hnew : Phase.handling c todo active = phase at hturn
  cases hturn with
  | same ha =>
    obtain ⟨honce, hreading⟩ := hatt.todo i c todo active hnew.symm
    refine ⟨honce, fun cb hcb hends => ?_⟩
    refine walked_kept hin hg hok ?_ (hreading cb hcb hends) fun cb _ _ h => absurd h (ha cb)
    rw [← hnew]
    exact List.mem_cons_self
  | rest hnone =>
    rw [← hnew] at hnone
    exact absurd hnone (by simp [walked])
  | poll ha => exact absurd hnew (by simp)
  | @handleEvent d revents active' ha hold =>
    obtain ⟨rfl, rfl, rfl⟩ := Phase.handling.inj hnew
    obtain ⟨hreading, honce⟩ := hatt.ahead i (c, revents) (by
      rw [hold]
      exact List.mem_cons_self)
    refine ⟨of_decide_eq_true honce, fun _ _ _ => ?_⟩
    refine walked_kept (i := i) hin hg hok ?_ hreading ?_
    · rw [hold]
      exact List.mem_cons_self
    · rw [hold]
      exact fun _ _ _ _ _ => by simp
  | @callback d cb todo' active' hcb hold =>
    obtain ⟨rfl, rfl, rfl⟩ := Phase.handling.inj hnew
    obtain ⟨honce, hreading⟩ := hatt.todo i c (cb :: todo) active hold
    cases hends : cb.ends with
    | true =>
      rw [List.filter_cons_of_pos hends, List.length_cons] at honce
      have hnone : todo.filter Channel.Callback.ends = [] := List.length_eq_zero_iff.mp (by omega)
      rw [hnone]
      refine ⟨Nat.zero_le _, fun cb' hcb' hends' => ?_⟩
      exact absurd hends' (List.filter_eq_nil_iff.mp hnone cb' hcb')
    | false =>
      rw [List.filter_cons_of_neg (by simp [hends])] at honce
      refine ⟨honce, fun cb' hcb' hends' => ?_⟩
      have hbefore := hreading cb' (List.mem_cons_of_mem _ hcb') hends'
      refine walked_kept (i := i) hin hg hok ?_ hbefore ?_
      · rw [hold]
        exact List.mem_cons_self
      · intro cb₂ _ _ hcb₂ hends₂ _
        obtain rfl : cb = cb₂ := (Prod.mk.inj (Option.some_inj.mp (hcb.symm.trans hcb₂))).2
        exact absurd hends₂ (by simp [hends])
  | endEvent ha hold => exact absurd hnew (by simp)

/-- No channel comes twice in a walk. -/
theorem nodup_effect (hatt : Attentive s h) (hg : guard cfg s a = true)
    (hok : effect cfg s a = .ok t) : (walked (t.loops i).phase).Nodup := by
  have hnodup := hatt.nodup i
  have hturn := turn_of_effect hg hok (j := i)
  generalize (t.loops i).phase = phase at hturn
  cases hturn with
  | same ha => exact hnodup
  | rest hnone => simp [hnone]
  | poll ha =>
    subst ha
    simp only [guard, Bool.and_eq_true, decide_eq_true_eq] at hg
    exact hg.1.2
  | handleEvent ha hphase | callback hcb hphase =>
    rw [hphase] at hnodup
    exact hnodup
  | endEvent ha hphase =>
    rw [hphase] at hnodup
    exact (List.nodup_cons.mp hnodup).2

end Attentive

/-! ### The callbacks -/

/-- What is left of a callback is part of what was left, or answers the message that has
just been taken. -/
theorem record_script (app : Application) (henters : ∀ e, enters cfg s a ≠ some (i, e))
    (hobeys : obeys s h a = true) :
    (Session.record cfg app s h a).script i = h.script i ∨
      (Session.record cfg app s h a).script i = (h.script i).tail ∨
      h.script i = .retrieve ∧ ∃ data,
        (Session.record cfg app s h a).script i = .commands (app.answer (.message data)) := by
  cases hentry : enters cfg s a with
  | some p =>
    obtain ⟨k, e⟩ := p
    have hik : i ≠ k := by
      rintro rfl
      exact henters e hentry
    rw [record_of_enters hentry]
    exact Or.inl (enter_script hik)
  | none =>
    cases a with
    | inputBuffer j u =>
      simp only [obeys, Bool.and_eq_true, decide_eq_true_eq] at hobeys
      cases hframe : (s.loops j).frame.bind Frame.conn with
      | none => exact Or.inl (by simp only [Session.record, hframe, hentry, Session.enter])
      | some d =>
        rw [record_inputBuffer hframe]
        by_cases hij : i = j
        · subst hij
          exact Or.inr (Or.inr ⟨hobeys.1, _, Session.tell_script⟩)
        · exact Or.inl (Session.tell_script_of_ne hij)
    | send who d message wr | shutdown who d | close who d =>
      cases who with
      | loop j =>
        by_cases hij : i = j
        · subst hij
          exact Or.inr (Or.inl (Function.update_self _ _ _))
        · exact Or.inl (Function.update_of_ne hij _ _)
      | user n => exact Or.inl rfl
    | _ => exact Or.inl (by simp only [Session.record, hentry, Session.enter])

/-- Who is `k_connected` after a step was so before, or was not established yet. -/
theorem state_was_connected (hplaced : Placed cfg s) (hg : guard cfg s a = true)
    (hok : effect cfg s a = .ok t) (hbefore : (s.conns c).state ≠ .connecting)
    (hstate : (t.conns c).state = .connected) : (s.conns c).state = .connected := by
  have hc : c < s.nextObj := hplaced.lt_nextObj_of_state hbefore
  have hrank := (later_run (run_labels hplaced hg hok hc).2).rank
  have hview : (view t c).state = .connected := hstate
  have hview' : (view s c).state = (s.conns c).state := rfl
  rw [hview, hview'] at hrank
  cases hs : (s.conns c).state with
  | connecting => exact absurd hs hbefore
  | connected => rfl
  | disconnecting | disconnected =>
    rw [hs] at hrank
    exact absurd hrank (by simp [rank])

namespace Attentive

/-- A callback that is called now finds its connection subscribed, if it can send at all. -/
theorem frame_entered (hatt : Attentive s h) (hin : Intact cfg s) (happ : app.Harmless)
    (hobeys : obeys s h a = true) (hg : guard cfg s a = true) (hok : effect cfg s a = .ok t)
    {e : Entry} (henters : enters cfg s a = some (i, e)) (hc : e.conn = some c)
    (hstate : (t.conns c).state = .connected)
    (hsends : ((Session.record cfg app s h a).script i).sends = true) :
    (t.conns c).channel.isReading = true := by
  rw [record_of_enters henters] at hsends
  cases a with
  | newConnection fd =>
    simp only [enters, Option.ite_none_right_eq_some] at henters
    obtain ⟨hbase, heq⟩ := henters
    obtain ⟨-, rfl⟩ := Prod.mk.inj (Option.some_inj.mp heq)
    obtain rfl := Option.some_inj.mp hc
    have hok : newConnection cfg s fd = .ok t := hok
    rw [newConnection_eq, if_pos hbase] at hok
    obtain ⟨-, htouches⟩ := touches_connEstablished (placed_withNewObject hin.placed fd) hok
    have hview : (view t s.nextObj).reading = true := by rw [htouches.self]
    exact hview
  | runFunctor j wr =>
    obtain ⟨f, hhead, hf⟩ := Option.bind_eq_some_iff.mp henters
    obtain ⟨fs, hrest⟩ := List.head?_eq_some_iff.mp hhead
    have hpopped := hin.placed.advance hrest
    simp only [effect, hrest] at hok
    cases f with
    | connEstablished d =>
      obtain ⟨-, rfl⟩ := Prod.mk.inj (Option.some_inj.mp hf)
      obtain rfl := Option.some_inj.mp hc
      obtain ⟨-, htouches⟩ := touches_connEstablished hpopped hok
      have hview : (view t d).reading = true := by rw [htouches.self]
      exact hview
    | connDestroyed d =>
      obtain ⟨-, rfl⟩ := Prod.mk.inj (Option.some_inj.mp hf)
      obtain rfl := Option.some_inj.mp hc
      obtain ⟨-, htouches⟩ := touches_connDestroyed hpopped hok
      have hview : (view t d).state = .disconnected := by rw [htouches.self]
      exact absurd (hview.symm.trans hstate) (by simp)
    | writeComplete d =>
      obtain ⟨-, rfl⟩ := Prod.mk.inj (Option.some_inj.mp hf)
      simp only [Session.enter, Session.tell_script, Application.answer] at hsends
      exact absurd hsends (by simp [happ.completes])
    | user =>
      obtain ⟨-, rfl⟩ := Prod.mk.inj (Option.some_inj.mp hf)
      exact absurd hc (by simp [Entry.conn])
    | removeConnectionInLoop d | sendInLoop d who message | shutdownInLoop d | addTimerInLoop d =>
      exact absurd hf (by simp [functorEntry])
  | handleRead j readv =>
    simp only [enters, Option.ite_none_left_eq_some] at henters
    obtain ⟨hdata, heq⟩ := henters
    obtain ⟨-, rfl⟩ := Prod.mk.inj (Option.some_inj.mp heq)
    obtain rfl := Option.some_inj.mp hc
    have heof : readv ≠ some [] := by
      rintro rfl
      exact hdata rfl
    refine reading_kept hin.placed hg hok ?_ (by simp [closes, heof]) (by simp [runs])
    simp only [guard, callbackIs] at hg
    split at hg
    · next d cb todo active hphase =>
      simp only [Bool.and_eq_true, decide_eq_true_eq] at hg
      obtain rfl := hg.2.1
      rw [handled, hphase]
      exact (hatt.todo j d _ active hphase).2 .read List.mem_cons_self rfl
    · exact absurd hg (by simp)
  | userCode j => exact absurd hobeys (by simp [obeys])
  | _ => exact absurd henters (by simp [enters])

/-- In a callback that sends, an open connection is subscribed. -/
theorem frame_effect (hatt : Attentive s h) (hin : Intact cfg s) (hawake : Awake s)
    (happ : app.Harmless) (hobeys : obeys s h a = true) (hg : guard cfg s a = true)
    (hok : effect cfg s a = .ok t) (hgiven : givenTo c (t.loops i) = true)
    (hstate : (t.conns c).state = .connected)
    (hsends : ((Session.record cfg app s h a).script i).sends = true) :
    (t.conns c).channel.isReading = true := by
  have old : givenTo c (s.loops i) = true → (∀ e, enters cfg s a ≠ some (i, e)) →
      (t.conns c).channel.isReading = true := by
    intro hold henters
    have hbefore := hawake.frame i c hold
    have hown : own s c = i := (hin.sited.frame i c hold).2
    have hframe : (s.loops i).frame ≠ none := by
      intro hnone
      rw [givenTo, hnone] at hold
      exact absurd hold (by simp)
    have hsends' : (h.script i).sends = true := by
      rcases record_script app henters hobeys with heq | heq | ⟨heq, -⟩
      · rwa [heq] at hsends
      · exact Script.sends_of_tail (heq ▸ hsends)
      · rw [heq]
        rfl
    have hconnected := state_was_connected hin.placed hg hok hbefore hstate
    refine reading_kept hin.placed hg hok (hatt.frame i c hold hconnected hsends')
      (fun hcloses => ?_) fun hruns => ?_
    · obtain ⟨k, cb, todo, active, -, -, hphase, hfree⟩ :=
        callback_of_closes hin.handling hg hcloses
      have hmem : c ∈ walked (s.loops k).phase := by
        rw [hphase]
        exact List.mem_cons_self
      exact hframe (hown ▸ (hin.sited.walk k c hmem).2 ▸ hfree)
    · exact hframe (hown ▸ free_of_runs hin.placed hg hruns)
  cases henters : enters cfg s a with
  | none =>
    rw [givenTo, frame_kept hin.placed hg hok henters] at hgiven
    split at hgiven
    · exact absurd hgiven (by simp)
    · exact old hgiven (by simp [henters])
  | some p =>
    obtain ⟨k, e⟩ := p
    rw [givenTo, TcpServer.frame_entered hin.placed hg hok henters] at hgiven
    split at hgiven
    · next hik =>
      subst hik
      rw [Option.any_some, decide_eq_true_eq, Entry.frame_conn] at hgiven
      exact hatt.frame_entered hin happ hobeys hg hok henters hgiven hstate hsends
    · next hik =>
      refine old hgiven fun e' he' => hik ?_
      exact (Prod.mk.inj (Option.some_inj.mp (henters.symm.trans he'))).1.symm

/-- No script has a `Close` in it. -/
theorem stays_effect (hatt : Attentive s h) (happ : app.Harmless) (hobeys : obeys s h a = true) :
    .close ∉ ((Session.record cfg app s h a).script i).left := by
  have hquiet : ∀ e, .close ∉ (Script.commands (app.answer e)).left := fun e => happ.closes e
  by_cases henters : ∃ e, enters cfg s a = some (i, e)
  · obtain ⟨e, henters⟩ := henters
    rw [record_of_enters henters]
    cases e with
    | connection d up | writeComplete d =>
      simp only [Session.enter, Session.tell_script]
      exact hquiet _
    | message d =>
      simp only [Session.enter, Function.update_self]
      exact List.not_mem_nil
    | user => exact hatt.stays i
  · rcases record_script app (not_exists.mp henters) hobeys with heq | heq | ⟨-, data, heq⟩
    · rw [heq]
      exact hatt.stays i
    · rw [heq]
      exact fun hmem => hatt.stays i (Script.mem_left_of_tail hmem)
    · rw [heq]
      exact hquiet _

end Attentive

/-! ### The pollers -/

theorem index_start (h : ((start cfg s a).conns c).channel.index = kAdded) :
    (s.conns c).channel.index = kAdded := by
  by_cases hc : c = s.nextObj
  · cases a with
    | newConnection fd =>
      have hnew : ((withNewObject cfg s fd).conns c).channel.index = kAdded := h
      rw [conns_withNewObject, if_pos hc] at hnew
      exact absurd hnew (by simp [TcpConnection.new, Channel.new, kAdded])
    | _ => exact h
  · rwa [conns_start hc] at h

namespace Attentive

/-- A connection of a method that has run is still subscribed, or is out of the epoll
instance, or is being removed. -/
theorem added_subject (hatt : Attentive s h) (hin : Intact cfg s) (hobeys : obeys s h a = true)
    (hg : guard cfg s a = true) (hok : effect cfg s a = .ok t)
    (hsubject : subject cfg s a = some c)
    (hindex : (t.conns c).channel.index = kAdded) :
    (t.conns c).channel.isReading = true ∨ removing t c := by
  by_cases hcloses : closes s a = some c
  · obtain ⟨i, cb, todo, active, -, hends, hphase, -⟩ := callback_of_closes hin.handling hg hcloses
    have hreading := (hatt.todo i c _ active hphase).2 cb List.mem_cons_self hends
    rw [deleted_of_closes (hin.watching.added_of_reading hreading) hok hcloses] at hindex
    exact absurd hindex (by decide)
  cases a with
  | handleClose i | handleRead i readv | closeTimer d => exact absurd hsubject hcloses
  | handleWrite i wr =>
    obtain rfl := Option.some_inj.mp hsubject
    obtain ⟨hwalk, hfree⟩ := handled_of_callbackIs hg
    by_cases hadded : (s.conns (handled s i)).channel.index = kAdded
    · rcases hatt.added _ hadded with hreading | ⟨message, hframe⟩
      · exact Or.inl (reading_kept hin.placed hg hok hreading hcloses (by simp [runs]))
      · rw [(hin.sited.walk i _ hwalk).2, hfree] at hframe
        exact absurd hframe (by simp)
    · have hwriting := (hin.watching.unsubscribed_of_ne_added hadded).2
      have hconns := (nextCallback_frame (s := s) (i := i)).1
      obtain ⟨-, l, hl, rfl⟩ := method_eq_ok_iff.mp hok
      rw [Local.handleWrite, localOf, hconns, hwriting, if_neg (by simp)] at hl
      obtain rfl := Except.ok.inj hl
      rw [conns_putLocal, if_pos rfl] at hindex
      exact absurd hindex hadded
  | newConnection fd =>
    simp only [subject, Option.ite_none_right_eq_some] at hsubject
    obtain ⟨hbase, heq⟩ := hsubject
    obtain rfl := Option.some_inj.mp heq
    have hok : newConnection cfg s fd = .ok t := hok
    rw [newConnection_eq, if_pos hbase] at hok
    obtain ⟨-, htouches⟩ := touches_connEstablished (placed_withNewObject hin.placed fd) hok
    have hview : (view t s.nextObj).reading = true := by rw [htouches.self]
    exact Or.inl hview
  | runFunctor i wr =>
    obtain ⟨f, hhead, hf⟩ := Option.bind_eq_some_iff.mp hsubject
    obtain ⟨fs, hrest⟩ := List.head?_eq_some_iff.mp hhead
    have hmem : f ∈ TcpServer.todo s i := mem_todo_of_rest hrest
    have hfplaced := hin.placed.functors i f hmem
    have hpopped := hin.placed.advance hrest
    simp only [effect, hrest] at hok
    cases f with
    | connEstablished d =>
      obtain rfl := Option.some_inj.mp hf
      obtain ⟨-, htouches⟩ := touches_connEstablished hpopped hok
      have hview : (view t d).reading = true := by rw [htouches.self]
      exact Or.inl hview
    | connDestroyed d =>
      obtain rfl := Option.some_inj.mp hf
      exact Or.inr (removing_of_connDestroyed (hpopped.wf d) hok)
    | sendInLoop d who message =>
      exact absurd hmem ((notMem_of_noTraffic hin.placed hin.traffic).1 d who message)
    | shutdownInLoop d =>
      exact absurd hmem ((notMem_of_noTraffic hin.placed hin.traffic).2 d)
    | removeConnectionInLoop d | writeComplete d | addTimerInLoop d | user =>
      exact absurd hf (by simp [Functor.subject])
  | send who d message wr =>
    simp only [subject, Option.ite_none_right_eq_some] at hsubject
    obtain ⟨hstate, heq⟩ := hsubject
    obtain rfl := Option.some_inj.mp heq
    obtain ⟨-, hgiven, hhead⟩ := asks_loop hin.sited hobeys
    have hsends := Script.sends_of_mem (List.mem_of_mem_head? hhead)
    have hreading := hatt.frame _ d hgiven hstate hsends
    exact Or.inl (reading_kept hin.placed hg hok hreading hcloses (by simp [runs]))
  | shutdown who d =>
    simp only [subject, Option.ite_none_right_eq_some] at hsubject
    obtain ⟨hstate, heq⟩ := hsubject
    obtain rfl := Option.some_inj.mp heq
    obtain ⟨rfl, -, -⟩ := asks_loop hin.sited hobeys
    have hadded : (s.conns d).channel.index = kAdded := by
      have hok : shutdown s (.loop (own s d)) d = .ok t := hok
      rw [shutdown, if_pos hstate, if_pos rfl] at hok
      obtain ⟨-, l, hl, rfl⟩ := method_eq_ok_iff.mp hok
      obtain rfl := Except.ok.inj hl
      rw [conns_putLocal, if_pos rfl, Local.unpolled_shutdownInLoop.1] at hindex
      exact hindex
    rcases hatt.added d hadded with hreading | hremoving
    · exact Or.inl (reading_kept hin.placed hg hok hreading hcloses (by simp [runs]))
    · exact Or.inr (removing_kept hin.placed hin.sited hg hok hremoving (by simp))
  | userReturn i =>
    obtain ⟨⟨conn, message, removeChannel⟩, hframe, hconn⟩ := Option.bind_eq_some_iff.mp hsubject
    obtain ⟨rfl, rfl⟩ : removeChannel = true ∧ conn = some c := by simpa using hconn
    simp only [effect, hframe] at hok
    obtain ⟨-, l, hl, rfl⟩ := method_eq_ok_iff.mp hok
    obtain ⟨poller, rfl, -⟩ := Local.removeChannel_eq_ok hl
    rw [conns_putLocal, if_pos rfl] at hindex
    exact absurd hindex (by simp [kNew, kAdded])
  | _ => exact absurd hsubject (by simp [subject])

/-- Who is in the epoll instance is subscribed, or is being removed. -/
theorem added_effect (hatt : Attentive s h) (hin : Intact cfg s) (hobeys : obeys s h a = true)
    (hg : guard cfg s a = true) (hok : effect cfg s a = .ok t)
    (hindex : (t.conns c).channel.index = kAdded) :
    (t.conns c).channel.isReading = true ∨ removing t c := by
  obtain ⟨m, hm, ht⟩ := passes hin.placed hg hok
  have hconns : t.conns = m.conns := by rw [ht, pushes_conns.1]
  by_cases hsubject : subject cfg s a = some c
  · exact hatt.added_subject hin hobeys hg hok hsubject hindex
  · rw [hconns, hm.index c hsubject] at hindex
    rcases hatt.added c (index_start hindex) with hreading | hremoving
    · refine Or.inl (reading_kept hin.placed hg hok hreading ?_ ?_)
      · exact fun hcloses => hsubject (subject_of_closes hcloses)
      · exact fun hruns => hsubject (subject_of_runs hruns)
    · refine Or.inr (removing_kept hin.placed hin.sited hg hok hremoving ?_)
      rintro rfl
      exact hsubject (subject_of_removing_return hremoving)

/-! ### Runs of a harmless application -/

/-- The step lemma of `Attentive`. -/
theorem step (hatt : Attentive s h) (hin : Intact cfg s) (hawake : Awake s) (happ : app.Harmless)
    (hobeys : obeys s h a = true) (hspared : spared cfg s a = true) (hg : guard cfg s a = true)
    (hok : effect cfg s a = .ok t) : Attentive t (Session.record cfg app s h a) where
  ahead _ _ := hatt.ahead_effect hin hspared hg hok
  todo _ _ _ _ := hatt.todo_effect hin hg hok
  nodup _ := hatt.nodup_effect hg hok
  frame _ _ := hatt.frame_effect hin hawake happ hobeys hg hok
  added _ := hatt.added_effect hin hobeys hg hok
  stays _ := hatt.stays_effect happ hobeys

/-- What such an application does, and what is reported to it, is careful. -/
theorem careful (hatt : Attentive s h) (hin : Intact cfg s) (hobeys : obeys s h a = true)
    (hspared : spared cfg s a = true) (hg : guard cfg s a = true) :
    careful cfg s a = true := by
  simp only [spared, Bool.and_eq_true] at hspared
  have hcalls : callsInLoop s a = true := by
    cases a with
    | send who d message wr | shutdown who d =>
      exact decide_eq_true (asks_loop hin.sited hobeys).1
    | close who d =>
      obtain ⟨-, -, hhead⟩ := asks_loop hin.sited hobeys
      exact absurd (List.mem_of_mem_head? hhead) (hatt.stays _)
    | _ => rfl
  have hcloses : closesWhileReading s a = true := by
    rw [closesWhileReading, Option.all_eq_true]
    intro d hd
    obtain ⟨i, cb, todo, active, -, hends, hphase, -⟩ := callback_of_closes hin.handling hg hd
    exact (hatt.todo i d _ active hphase).2 cb List.mem_cons_self hends
  have hfits : fitsBuffer s a = true := by
    cases a with
    | inputBuffer i u =>
      rw [use_of_obeys hobeys, fitsBuffer, Option.all_eq_true]
      exact fun d _ => decide_eq_true trivial
    | _ => rfl
  rw [TcpServer.careful, hcalls, closesOnce, hcloses, hspared.1, hfits]
  rfl

end Attentive

/-- The runs of a harmless application are careful, and keep `Attentive`. -/
theorem attentive_of_reach (happ : app.Harmless) {q : State × Session}
    (hrun : Reach (serves cfg app) (fun q a => obeys q.1 q.2 a = true ∧ spared cfg q.1 a = true)
      (State.init, Session.init) as q) :
    Reach (step cfg) (fun s a => careful cfg s a = true) State.init as q.1 ∧
      (q.1.fault = none → Attentive q.1 q.2) := by
  induction hrun with
  | nil => exact ⟨.nil, fun _ => attentive_init⟩
  | @snoc bs a p q hprefix hok hstep ih =>
    obtain ⟨hcareful, hatt⟩ := ih
    obtain ⟨hobeys, hspared⟩ := hok
    obtain ⟨hstep, hrecord⟩ := recorded_eq_some_iff.mp hstep
    obtain ⟨hfree, hg, heffect⟩ := step_cases hstep
    have hin := intact_of_reach hcareful
    have hawake : Awake p.1 := Serves.awake <| hprefix.imp fun _ hok _ => hok.1
    refine ⟨hcareful.snoc ((hatt hfree).careful hin hobeys hspared hg) hstep, fun hnone => ?_⟩
    rcases heffect with heffect | ⟨f, -, hq⟩
    · rw [← hrecord]
      exact (hatt hfree).step hin hawake happ hobeys hspared hg heffect
    · rw [hq] at hnone
      exact absurd hnone (by simp)

end TcpServer
end Bbkgl
