import Bbkgl.Net.ConnectionLife
import Bbkgl.Net.TcpServerMoves
import Bbkgl.Net.TcpServerRecords

/-!
# The callbacks of the server

Which step calls which callback, and on which thread: `enters` says it, and `passes`
is that a step does nothing else to the threads than to push that frame, or to pop one.
A callback about a connection runs on the thread of the connection's loop, whatever
other threads do.
-/

set_option autoImplicit false

namespace Bbkgl
namespace TcpServer

open CS CS.Fallible CS.Transition TcpConnection Relation

variable (cfg : Config) (s : State)

/-- What the step begins with: a walk, an object, or the end of the user's code. -/
def start : Action → State
  | .poll i active => setPhase s i (.dispatch active)
  | .newConnection fd => withNewObject cfg s fd
  | .userReturn i => setLoop s i fun l => { l with frame := none }
  | _ => s

/-- No walk begins, no user code is called, and none returns. The only methods that run
are those of `d`. -/
structure Stays (d : Option ConnId) (s t : State) : Prop where
  nextObj : t.nextObj = s.nextObj
  own : ∀ c, own t c = own s c
  index : ∀ c, d ≠ some c → (t.conns c).channel.index = (s.conns c).channel.index
  alive : ∀ c, (t.conns c).alive = true → (s.conns c).alive = true
  frame : ∀ i, (t.loops i).frame = (s.loops i).frame
  walk : ∀ i, ∀ c ∈ walked (t.loops i).phase, c ∈ walked (s.loops i).phase
  writeComplete : ∀ i c, .writeComplete c ∈ todo t i → .writeComplete c ∈ todo s i ∨
    d = some c ∧ (s.conns c).alive = true ∧ TcpServer.own s c = i

variable {cfg s} {m t u : State} {i j : LoopId} {c : ConnId} {f : Functor} {l : Local}
  {who : Caller} {a : Action} {as : List Action} {d : Option ConnId}

/-! ### Steps that stay -/

theorem Stays.rfl : Stays d s s :=
  ⟨.refl _, fun _ => .refl _, fun _ _ => .refl _, fun _ => id, fun _ => .refl _, fun _ _ => id,
    fun _ _ => Or.inl⟩

theorem Stays.trans (h : Stays d s m) (h' : Stays d m t) : Stays d s t where
  nextObj := h'.nextObj.trans h.nextObj
  own c := (h'.own c).trans (h.own c)
  index c hc := (h'.index c hc).trans (h.index c hc)
  alive c := h.alive c ∘ h'.alive c
  frame i := (h'.frame i).trans (h.frame i)
  walk i c := h.walk i c ∘ h'.walk i c
  writeComplete i c hc := by
    rcases h'.writeComplete i c hc with hm | ⟨hd, halive, hi⟩
    · exact h.writeComplete i c hm
    · exact Or.inr ⟨hd, h.alive c halive, (h.own c).symm.trans hi⟩

theorem stays_setLoop {g : Loop → Loop} (hframe : (g (s.loops i)).frame = (s.loops i).frame)
    (hwalk : ∀ c ∈ walked (g (s.loops i)).phase, c ∈ walked (s.loops i).phase)
    (htodo : ∀ c, .writeComplete c ∈ (g (s.loops i)).functors.todo → .writeComplete c ∈ todo s i) :
    Stays d s (setLoop s i g) := by
  refine ⟨rfl, fun _ => rfl, fun _ _ => rfl, fun _ => id, fun j => ?_, fun j c hc => ?_,
    fun j c hc => Or.inl ?_⟩
  · rw [loops_setLoop]
    split
    · next h => rw [h, hframe]
    · rfl
  · rw [loops_setLoop] at hc
    split at hc
    · next h => exact h ▸ hwalk c hc
    · exact hc
  · rw [todo, loops_setLoop] at hc
    split at hc
    · next h => exact h ▸ htodo c hc
    · exact hc

theorem stays_setFunctors {q : Mailbox Functor}
    (hq : ∀ c, .writeComplete c ∈ q.todo → .writeComplete c ∈ todo s i) :
    Stays d s (setFunctors s i q) :=
  stays_setLoop rfl (fun _ => id) hq

/-- What is queued is no write-complete callback. -/
theorem stays_push (hf : ∀ c, f ≠ .writeComplete c) : Stays d s (push s i f) := by
  refine stays_setFunctors fun c hc => ?_
  rw [Mailbox.todo_push, List.mem_append, List.mem_singleton] at hc
  exact hc.resolve_right (hf c).symm

theorem stays_setPhase {phase : Phase}
    (hwalk : ∀ c ∈ walked phase, c ∈ walked (s.loops i).phase) : Stays d s (setPhase s i phase) :=
  stays_setLoop rfl hwalk fun _ => id

theorem stays_nextCallback : Stays d s (nextCallback s i) := by
  rw [nextCallback]
  split
  · next e cb rest active hphase =>
    apply stays_setPhase
    intro c hc
    rw [hphase]
    exact hc
  · exact .rfl

/-- The object has changed, but not in what its loop and its channel are. -/
theorem stays_setConn {g : TcpConnection → TcpConnection}
    (hloop : (g (s.conns c)).loop = (s.conns c).loop)
    (hindex : (g (s.conns c)).channel.index = (s.conns c).channel.index)
    (halive : (g (s.conns c)).alive = true → (s.conns c).alive = true) :
    Stays d s (setConn s c g) := by
  refine ⟨rfl, fun e => ?_, fun e _ => ?_, fun e he => ?_, fun _ => rfl, fun _ _ => id,
    fun _ _ => Or.inl⟩
  · rw [own, conns_setConn]
    split
    · next h => rw [hloop, own, h]
    · rfl
  · rw [conns_setConn]
    split
    · next h => rw [hindex, h]
    · rfl
  · rw [conns_setConn] at he
    split at he
    · next h => exact h ▸ halive he
    · exact he

theorem stays_setCall {call : Option Call} : Stays d s (setCall s who call) :=
  ⟨rfl, fun _ => rfl, fun _ _ => rfl, fun _ => id, fun _ => rfl, fun _ _ => id, fun _ _ => Or.inl⟩

theorem stays_connections {entries : String → Option ConnId} :
    Stays d s { s with connections := entries } :=
  ⟨rfl, fun _ => rfl, fun _ _ => rfl, fun _ => id, fun _ => rfl, fun _ _ => id, fun _ _ => Or.inl⟩

/-- A method queues no callback but its own connection's. -/
theorem stays_putLocal (halive : (s.conns c).alive = true)
    (hparts : Local.Parts c (localOf s c) l) : Stays (some c) s (putLocal s c l) := by
  obtain ⟨fs, hqueued, hfs⟩ := hparts.queued
  refine ⟨rfl, fun e => ?_, fun e he => ?_, fun e he => ?_, fun j => phase_putLocal.2,
    fun j e he => ?_, fun j e he => ?_⟩
  · rw [own, conns_putLocal]
    split
    · next h => exact h ▸ hparts.fixed.loop
    · rfl
  · rw [conns_putLocal, if_neg fun h => he (by rw [h])]
  · rw [conns_putLocal] at he
    split at he
    · next h => exact h ▸ halive
    · exact he
  · rwa [phase_putLocal.1] at he
  · rw [todo_putLocal] at he
    split at he
    · next h =>
      rcases List.mem_append.mp he with hold | hnew
      · exact Or.inl hold
      · rw [hqueued, localOf, List.nil_append] at hnew
        obtain rfl := Functor.writeComplete.inj (hfs _ hnew)
        exact Or.inr ⟨rfl, halive, h.symm⟩
    · exact Or.inl he

theorem stays_removeConnectionInLoop (hok : removeConnectionInLoop s c = .ok t) :
    Stays d s t := by
  rw [removeConnectionInLoop_eq_ok hok]
  have hrecord : Stays d s (setConn s c fun conn => { conn with log := conn.log ++ [.removed] }) :=
    stays_setConn rfl rfl id
  exact hrecord.trans (stays_connections.trans (stays_push (by simp)))

/-! ### Every step -/

/-- What a step does in between leaves the threads where they are. -/
theorem Works.stays (h : Works cfg s a m t) : Stays (subject cfg s a) m t := by
  cases h with
  | push i f hown =>
    apply stays_push
    rintro c rfl
    exact absurd hown (by simp [Functor.isOwn])
  | setConn c g hedited =>
    have hfixed := hedited.fixed
    exact stays_setConn hfixed.loop hedited.index fun halive => hfixed.alive ▸ halive
  | setCall => exact stays_setCall
  | method c l hc halive hparts =>
    rw [hc]
    exact stays_putLocal halive hparts

theorem stays_proceed {call : Call} : Stays d s (proceed s who call) := by
  cases call with
  | send c message | shutdownSet c => exact (stays_push (by simp)).trans stays_setCall
  | shutdownChecked c =>
    have hset : Stays d s (setConn s c fun conn => { conn with state := .disconnecting }) :=
      stays_setConn rfl rfl id
    exact hset.trans stays_setCall

/-- What it does first leaves them there, too, beside what it begins with. -/
theorem Opens.stays (hplaced : Placed cfg s) (hg : guard cfg s a = true) (h : Opens cfg s a m) :
    Stays d (start cfg s a) m := by
  have hmark : ∀ c b, Stays d s (setEventHandling s c b) := fun c b => stays_setConn rfl rfl id
  cases h with
  | poll | newConnection | userReturn => exact .rfl
  | handleEvent i c revents active hphase =>
    refine (hmark c true).trans (stays_setPhase fun e he => ?_)
    have hwalked : e ∈ walked (s.loops i).phase := hphase ▸ he
    exact hwalked
  | endEvent i c active hphase =>
    refine (hmark c false).trans (stays_setPhase fun e he => ?_)
    have hwalked : e ∈ walked (s.loops i).phase := hphase ▸ List.mem_cons_of_mem c he
    exact hwalked
  | handleClose | handleError | handleWrite => exact stays_nextCallback
  | handleRead => exact stays_nextCallback.trans (stays_setConn rfl rfl id)
  | closeTimer | inputBuffer | keep | drop => exact stays_setConn rfl rfl id
  | doPendingFunctors i =>
    simp only [guard, Bool.and_eq_true, decide_eq_true_eq] at hg
    have hrest : (s.loops i).functors.rest = [] := hplaced.batch i (by simp [hg.2])
    refine (stays_setFunctors fun c hc => ?_).trans (stays_setPhase fun c hc => ?_)
    · rwa [Mailbox.todo_swap hrest] at hc
    · exact absurd hc List.not_mem_nil
  | finishFunctors i =>
    simp only [guard, Bool.and_eq_true, List.isEmpty_iff] at hg
    refine (stays_setFunctors fun c hc => ?_).trans (stays_setPhase fun c hc => ?_)
    · rwa [Mailbox.todo_finish hg.2] at hc
    · exact absurd hc List.not_mem_nil
  | runFunctor i wr f fs hrest =>
    exact stays_setFunctors fun c hc => mem_todo_of_advance hrest hc
  | proceed => exact stays_proceed
  | destroy c =>
    have hdead : Stays d s (setConn s c fun conn => { conn with alive := false }) :=
      stays_setConn rfl rfl fun h => absurd h (by simp)
    exact hdead.trans (stays_setLoop rfl (fun _ => id) fun _ => id)
  | call a hcall =>
    cases a with
    | poll | newConnection | userReturn => exact absurd hcall (by simp [Action.isCall])
    | _ => exact .rfl

/-- A step that removes an entry calls no user code. -/
theorem enters_of_removes (h : removes s a = some c) : enters cfg s a = none := by
  cases a with
  | runFunctor i wr =>
    rw [removes] at h
    split at h
    · next d hruns =>
      have hhead : (s.loops i).functors.rest.head? = some (.removeConnectionInLoop d) := hruns
      rw [enters, hhead]
      rfl
    · exact absurd h (by simp [closes])
  | handleRead i readv =>
    simp only [removes, runs, closes, Option.filter_eq_some_iff, Option.ite_none_right_eq_some] at h
    simp [enters, h.1.1]
  | newConnection | userCode => exact absurd h (by simp [removes, runs, closes])
  | _ => rfl

/-- Beside its callback, and what it begins with, a step leaves the threads where they
are, and runs methods of one connection at most. -/
theorem passes (hplaced : Placed cfg s) (hg : guard cfg s a = true) (hok : effect cfg s a = .ok t) :
    ∃ m, Stays (subject cfg s a) (start cfg s a) m ∧ t = pushes m (enters cfg s a) := by
  obtain ⟨k, m, hopens, hworks, hends⟩ := anatomy hg hok
  have hm : Stays (subject cfg s a) (start cfg s a) m :=
    works_invariant hworks (hopens.stays hplaced hg) fun h hwork => h.trans hwork.stays
  rw [Ends] at hends
  split at hends
  · next c hremoves =>
    rw [enters_of_removes hremoves]
    exact ⟨t, hm.trans (stays_removeConnectionInLoop hends), rfl⟩
  · exact ⟨m, hm, hends⟩

/-! ### Where callbacks run -/

/-- The callback that a loop's thread is in, the channels it walks over and the
write-complete callbacks queued for it are of connections of that loop. -/
structure Sited (s : State) : Prop where
  frame : ∀ i c, givenTo c (s.loops i) = true → c < s.nextObj ∧ own s c = i
  walk : ∀ i, ∀ c ∈ walked (s.loops i).phase, c < s.nextObj ∧ own s c = i
  writeComplete : ∀ i c, .writeComplete c ∈ todo s i → c < s.nextObj ∧ own s c = i

theorem sited_init : Sited State.init where
  frame i c h := absurd h (by simp [givenTo, State.init])
  walk i c h := absurd h List.not_mem_nil
  writeComplete i c h := absurd h List.not_mem_nil

/-- `Sited` goes over to threads that have stayed. -/
theorem Sited.stays (h : Sited s) (hlt : ∀ c, (s.conns c).alive = true → c < s.nextObj)
    (hstays : Stays d s t) : Sited t where
  frame i c hc := by
    rw [hstays.nextObj, hstays.own]
    rw [givenTo, hstays.frame] at hc
    exact h.frame i c hc
  walk i c hc := by
    rw [hstays.nextObj, hstays.own]
    exact h.walk i c (hstays.walk i c hc)
  writeComplete i c hc := by
    rw [hstays.nextObj, hstays.own]
    rcases hstays.writeComplete i c hc with hold | ⟨-, halive, hi⟩
    · exact h.writeComplete i c hold
    · exact ⟨hlt c halive, hi⟩

/-- The kernel reports what it has a record of. -/
theorem recorded_of_mayReport {fd : ℕ} {revents : EventMask}
    (h : (s.loops i).poller.mayReport fd c revents = true) : recorded s i fd c := by
  rw [Epoller.mayReport] at h
  split at h
  · exact absurd h (by simp)
  · next mask q hkernel =>
    simp only [Bool.and_eq_true, decide_eq_true_eq] at h
    exact ⟨mask, h.1.1 ▸ hkernel⟩

/-- What the kernel reports, it has a record of; and no user code runs then. -/
theorem walked_start (hg : guard cfg s a = true)
    (hc : c ∈ walked ((start cfg s a).loops i).phase) : c ∈ walked (s.loops i).phase ∨
      (∃ fd, recorded s i fd c) ∧ (s.loops i).frame = none ∧ ∃ active, a = .poll i active := by
  cases a with
  | poll k active =>
    rw [start, setPhase, loops_setLoop] at hc
    split at hc
    · next hi =>
      subst hi
      obtain ⟨⟨d, revents⟩, he, rfl⟩ := List.mem_map.mp hc
      simp only [guard, Bool.and_eq_true, List.all_eq_true] at hg
      exact Or.inr ⟨⟨_, recorded_of_mayReport (hg.2 _ he)⟩, frame_of_free hg.1.1.1, active, rfl⟩
    · exact Or.inl hc
  | userReturn k =>
    rw [start, loops_setLoop] at hc
    split at hc
    · next hi => exact Or.inl (hi ▸ hc)
    · exact Or.inl hc
  | _ => exact Or.inl hc

theorem todo_start : todo (start cfg s a) i = todo s i := by
  cases a with
  | poll k active | userReturn k =>
    rw [start]
    apply todo_setLoop
    rfl
  | _ => rfl

/-- Only the return of user code ends a callback. -/
theorem frame_start : ((start cfg s a).loops j).frame =
    if a = .userReturn j then none else (s.loops j).frame := by
  cases a with
  | poll i active =>
    rw [if_neg (by simp), start, setPhase, loops_setLoop]
    split
    · next hj => rw [hj]
    · rfl
  | userReturn i =>
    rw [start, loops_setLoop]
    by_cases hj : j = i
    · rw [if_pos hj, if_pos (by rw [hj])]
    · rw [if_neg hj, if_neg (by simpa using Ne.symm hj)]
  | _ => rw [if_neg (by simp)]; rfl

/-- The objects there were are the same. -/
theorem conns_start (hc : c ≠ s.nextObj) : (start cfg s a).conns c = s.conns c := by
  cases a with
  | newConnection fd => exact Function.update_of_ne hc _ _
  | _ => rfl

theorem nextObj_le_start : s.nextObj ≤ (start cfg s a).nextObj := by
  cases a with
  | newConnection fd => exact Nat.le_succ _
  | _ => exact Nat.le_refl _

/-- What a step begins with keeps `Sited`. -/
theorem sited_start (h : Sited s) (hfiled : Filed s) (hg : guard cfg s a = true) :
    Sited (start cfg s a) := by
  have hold : ∀ {c i}, c < s.nextObj ∧ own s c = i →
      c < (start cfg s a).nextObj ∧ own (start cfg s a) c = i := by
    rintro c i ⟨hc, hi⟩
    refine ⟨Nat.lt_of_lt_of_le hc nextObj_le_start, ?_⟩
    rw [own, conns_start (Nat.ne_of_lt hc)]
    exact hi
  refine ⟨fun i c hc => ?_, fun i c hc => ?_, fun i c hc => ?_⟩
  · rw [givenTo, frame_start] at hc
    split at hc
    · exact absurd hc (by simp)
    · exact hold (h.frame i c hc)
  · rcases walked_start hg hc with hwalk | ⟨⟨fd, hrecord⟩, -⟩
    · exact hold (h.walk i c hwalk)
    · obtain ⟨hlt, hown, -⟩ := hfiled i fd c hrecord
      exact hold ⟨hlt, hown⟩
  · rw [todo_start] at hc
    exact hold (h.writeComplete i c hc)

/-- What is called is about a connection of the loop. -/
theorem enters_sited (h : Sited s) (hplaced : Placed cfg s) {e : Entry}
    (henters : enters cfg s a = some (i, e)) (hc : e.conn = some c) (hg : guard cfg s a = true) :
    c < (start cfg s a).nextObj ∧ own (start cfg s a) c = i := by
  cases a with
  | newConnection fd =>
    simp only [enters, Option.ite_none_right_eq_some] at henters
    obtain ⟨hbase, heq⟩ := henters
    obtain ⟨rfl, rfl⟩ := Prod.mk.inj (Option.some_inj.mp heq)
    obtain rfl := Option.some_inj.mp hc
    refine ⟨Nat.lt_succ_self _, ?_⟩
    simp [start, own, withNewObject, TcpConnection.new, hbase]
  | runFunctor j wr =>
    obtain ⟨f, hhead, hf⟩ := Option.bind_eq_some_iff.mp henters
    obtain ⟨fs, hrest⟩ := List.head?_eq_some_iff.mp hhead
    have hmem : f ∈ todo s j := mem_todo_of_rest hrest
    have hfplaced := hplaced.functors j f hmem
    cases f with
    | connEstablished d | connDestroyed d =>
      obtain ⟨rfl, rfl⟩ := Prod.mk.inj (Option.some_inj.mp hf)
      obtain rfl := Option.some_inj.mp hc
      exact ⟨hfplaced.1, rfl⟩
    | writeComplete d =>
      obtain ⟨rfl, rfl⟩ := Prod.mk.inj (Option.some_inj.mp hf)
      obtain rfl := Option.some_inj.mp hc
      exact h.writeComplete j d hmem
    | user =>
      obtain ⟨rfl, rfl⟩ := Prod.mk.inj (Option.some_inj.mp hf)
      exact absurd hc (by simp [Entry.conn])
    | removeConnectionInLoop d | sendInLoop d who message | shutdownInLoop d | addTimerInLoop d =>
      exact absurd hf (by simp [functorEntry])
  | handleRead j readv =>
    simp only [enters, Option.ite_none_left_eq_some] at henters
    obtain ⟨-, heq⟩ := henters
    obtain ⟨rfl, rfl⟩ := Prod.mk.inj (Option.some_inj.mp heq)
    obtain rfl := Option.some_inj.mp hc
    exact ⟨(h.walk j _ (handled_of_callbackIs hg).1).1, rfl⟩
  | userCode j =>
    obtain ⟨rfl, rfl⟩ := Prod.mk.inj (Option.some_inj.mp henters)
    exact absurd hc (by simp [Entry.conn])
  | _ => exact absurd henters (by simp [enters])

/-- A thread in user code is not called back. -/
theorem frame_of_enters (h : Sited s) (hplaced : Placed cfg s) (hg : guard cfg s a = true)
    {e : Entry} (henters : enters cfg s a = some (i, e)) : (s.loops i).frame = none := by
  have dispatched : ∀ {j}, dispatching cfg s j = true → (s.loops j).frame = none := by
    intro j hj
    rw [dispatching] at hj
    split at hj
    · exact frame_of_free hj
    · exact absurd hj (by simp)
  cases a with
  | newConnection fd =>
    simp only [enters, Option.ite_none_right_eq_some] at henters
    obtain ⟨rfl, -⟩ := Prod.mk.inj (Option.some_inj.mp henters.2)
    simp only [guard, Bool.and_eq_true] at hg
    exact dispatched hg.1
  | runFunctor j wr =>
    simp only [guard, Bool.and_eq_true] at hg
    obtain ⟨f, hhead, hf⟩ := Option.bind_eq_some_iff.mp henters
    obtain ⟨fs, hrest⟩ := List.head?_eq_some_iff.mp hhead
    have hfplaced := hplaced.functors j f (mem_todo_of_rest hrest)
    have hij : i = j := by
      cases f with
      | connEstablished d | connDestroyed d =>
        exact (Prod.mk.inj (Option.some_inj.mp hf)).1.symm.trans hfplaced.2
      | writeComplete d | user => exact (Prod.mk.inj (Option.some_inj.mp hf)).1.symm
      | removeConnectionInLoop d | sendInLoop d who message | shutdownInLoop d | addTimerInLoop d =>
        exact absurd hf (by simp [functorEntry])
    exact hij ▸ frame_of_free hg.1.1
  | handleRead j readv =>
    simp only [enters, Option.ite_none_left_eq_some] at henters
    obtain ⟨rfl, -⟩ := Prod.mk.inj (Option.some_inj.mp henters.2)
    obtain ⟨hwalk, hfree⟩ := handled_of_callbackIs hg
    rw [(h.walk j _ hwalk).2]
    exact hfree
  | userCode j =>
    obtain ⟨rfl, -⟩ := Prod.mk.inj (Option.some_inj.mp henters)
    exact dispatched hg
  | _ => exact absurd henters (by simp [enters])

theorem lt_start (hplaced : Placed cfg s) (halive : ((start cfg s a).conns c).alive = true) :
    c < (start cfg s a).nextObj := by
  cases a with
  | newConnection fd => exact (placed_withNewObject hplaced fd).lt_nextObj_of_alive halive
  | _ => exact hplaced.lt_nextObj_of_alive halive

/-- A step keeps `Sited`: the callback that it makes is about a connection of the loop. -/
theorem sited_effect (h : Sited s) (hplaced : Placed cfg s) (hfiled : Filed s)
    (hg : guard cfg s a = true) (hok : effect cfg s a = .ok t) : Sited t := by
  obtain ⟨m, hm, rfl⟩ := passes hplaced hg hok
  have hsited : Sited m := (sited_start h hfiled hg).stays (fun _ => lt_start hplaced) hm
  cases henters : enters cfg s a with
  | none => exact hsited
  | some p =>
    obtain ⟨i, e⟩ := p
    refine ⟨fun j c hc => ?_, fun j c hc => hsited.walk j c (pushes_loop.1 ▸ hc),
      fun j c hc => hsited.writeComplete j c (pushes_loop.2 ▸ hc)⟩
    rw [pushes, enterUser, loops_setLoop] at hc
    split at hc
    · next hj =>
      rw [givenTo, Option.any_some, decide_eq_true_eq, Entry.frame_conn] at hc
      obtain ⟨hlt, hown⟩ := enters_sited h hplaced henters hc hg
      rw [← hm.nextObj] at hlt
      rw [← hm.own] at hown
      exact ⟨hlt, hown.trans hj.symm⟩
    · exact hsited.frame j c hc

/-- Callbacks, walks and write-complete callbacks are in their places in every state. -/
theorem sited_of_reach {ok : State → Action → Prop}
    (hrun : Reach (step cfg) ok State.init as s) : Sited s := by
  have hinv := hrun.invariant (I := fun s => Filed s ∧ Sited s) ⟨filed_init, sited_init⟩ ?_
  · exact hinv.2
  · rintro bs u a t hreach ⟨hfiled, hsited⟩ _ hstep
    have hplaced := placed_of_reach hreach
    refine ⟨filed_step hplaced hfiled hstep, ?_⟩
    obtain ⟨-, hg, heffect | ⟨f, -, rfl⟩⟩ := step_cases hstep
    · exact sited_effect hsited hplaced hfiled hg heffect
    · exact ⟨hsited.frame, hsited.walk, hsited.writeComplete⟩

/-- Where no other thread calls a connection, nothing of another thread is queued. -/
theorem notMem_of_noTraffic (hplaced : Placed cfg s)
    (htraffic : ∀ c, c < s.nextObj → Connection.NoTraffic (view s c)) :
    (∀ c who message, .sendInLoop c who message ∉ todo s i) ∧
      ∀ c, .shutdownInLoop c ∉ todo s i := by
  refine ⟨fun c who message hmem => ?_, fun c hmem => ?_⟩
  · obtain ⟨⟨hc, rfl⟩, -⟩ := hplaced.functors i _ hmem
    have htask : .send who message ∈ (view s c).tasks :=
      List.mem_filterMap.mpr ⟨_, hmem, if_pos rfl⟩
    exact absurd ((htraffic c hc).2 _ htask) (by simp)
  · obtain ⟨hc, rfl⟩ := hplaced.functors i _ hmem
    have htask : .shutdown ∈ (view s c).tasks := List.mem_filterMap.mpr ⟨_, hmem, if_pos rfl⟩
    exact absurd ((htraffic c hc).2 _ htask) (by simp)

/-! ### The frames after a step -/

/-- After a callback has been made, its frame is on the thread. -/
theorem frame_entered (hplaced : Placed cfg s) (hg : guard cfg s a = true)
    (hok : effect cfg s a = .ok t) {e : Entry} (henters : enters cfg s a = some (i, e)) :
    (t.loops j).frame = if j = i then some e.frame else (s.loops j).frame := by
  obtain ⟨m, hm, rfl⟩ := passes hplaced hg hok
  have hreturn : a ≠ .userReturn j := by
    rintro rfl
    exact absurd henters (by simp [enters])
  rw [henters, pushes, enterUser, loops_setLoop]
  split
  · rfl
  · rw [hm.frame, frame_start, if_neg hreturn]

/-- Without one, frames end by their return only. -/
theorem frame_kept (hplaced : Placed cfg s) (hg : guard cfg s a = true)
    (hok : effect cfg s a = .ok t) (henters : enters cfg s a = none) :
    (t.loops j).frame = if a = .userReturn j then none else (s.loops j).frame := by
  obtain ⟨m, hm, rfl⟩ := passes hplaced hg hok
  rw [henters, pushes, hm.frame, frame_start]

/-! ### Objects after a step -/

/-- An object stays with its loop. -/
theorem own_kept (hplaced : Placed cfg s) (hg : guard cfg s a = true)
    (hok : effect cfg s a = .ok t) (hc : c < s.nextObj) : own t c = own s c := by
  obtain ⟨m, hm, rfl⟩ := passes hplaced hg hok
  rw [own, pushes_conns.1, ← own, hm.own, own, conns_start (Nat.ne_of_lt hc)]

/-- Only its own destruction ends an object. -/
theorem alive_kept (hg : guard cfg s a = true) (hok : effect cfg s a = .ok t) (hc : c < s.nextObj)
    (ha : a ≠ .destroy c) : (t.conns c).alive = (s.conns c).alive := by
  obtain ⟨m, hbegins, hmoves⟩ := moves_effect hg hok
  rw [(hmoves.keeps.conn c).alive]
  have hinput : ∀ {u : State} {d : ConnId} {input : Buffer}, u.conns = s.conns →
      ((setConn u d fun conn => { conn with input := input }).conns c).alive =
        (s.conns c).alive := by
    intro u d input hu
    rw [conns_setConn, hu]
    split
    · next h => rw [h]
    · rfl
  cases hbegins with
  | handleRead => exact hinput nextCallback_frame.1
  | newConnection =>
    exact congrArg TcpConnection.alive (Function.update_of_ne (Nat.ne_of_lt hc) _ _)
  | inputBuffer => exact hinput rfl
  | destroy d =>
    have hcd : c ≠ d := by
      rintro rfl
      exact ha rfl
    exact congrArg TcpConnection.alive (Function.update_of_ne hcd _ _)
  | plain => rfl

/-- The callback of `ConnDestroyed` returns into `RemoveChannel`. -/
theorem subject_of_removing_return (hremoving : removing s c) :
    subject cfg s (.userReturn (own s c)) = some c := by
  obtain ⟨message, hframe⟩ := hremoving
  simp [subject, hframe]

/-- The callback of `ConnDestroyed` goes on, until it returns. -/
theorem removing_kept (hplaced : Placed cfg s) (hsited : Sited s) (hg : guard cfg s a = true)
    (hok : effect cfg s a = .ok t) (hremoving : removing s c) (ha : a ≠ .userReturn (own s c)) :
    removing t c := by
  obtain ⟨message, hframe⟩ := hremoving
  have hc : c < s.nextObj := (hsited.frame (own s c) c (by rw [givenTo, hframe]; simp)).1
  refine ⟨message, ?_⟩
  rw [own_kept hplaced hg hok hc]
  cases henters : enters cfg s a with
  | none => rw [frame_kept hplaced hg hok henters, if_neg ha, hframe]
  | some p =>
    obtain ⟨k, e⟩ := p
    rw [frame_entered hplaced hg hok henters, if_neg, hframe]
    rintro rfl
    exact absurd hframe (by simp [frame_of_enters hsited hplaced hg henters])

end TcpServer
end Bbkgl
