import Bbkgl.Net.TcpServerMoves
import Bbkgl.Net.TcpServerPhases
import Bbkgl.Net.TcpServerReuse

/-!
# Events of connections that exist

An entry of a poller owns nothing. While a walk over `active_channels_` goes on,
the channels in it stay with their poller: only `ConnDestroyed` takes a channel
out, and it is executed from the queue of the same loop, after the walk. As long
as `Send` and `Shutdown` are called on the connection's own loop and `Close` is
not called, an object that goes has been through `ConnDestroyed`, so it is in no
walk. The exception is a connection that has lost its entry to another one.
-/

set_option autoImplicit false

namespace Bbkgl
namespace TcpServer

open CS CS.Fallible CS.Transition TcpConnection Connection

/-- `Send` and `Shutdown` are called on the thread of the connection's loop, and
`Close` is not called. -/
def callsInLoop (s : State) : Action → Bool
  | .send who c _ _ | .shutdown who c => who = .loop (own s c)
  | .close _ _ => false
  | _ => true

/-- No event begins or ends to be handled, no walk is taken up, no channel leaves
its poller, and no timer of `Close` is added. -/
structure Steady (s t : State) : Prop where
  nextObj : t.nextObj = s.nextObj
  own : ∀ c, own t c = own s c
  phase : ∀ i, (t.loops i).phase = (s.loops i).phase ∨ ∃ c todo todo' active,
    (s.loops i).phase = .handling c todo active ∧ (t.loops i).phase = .handling c todo' active
  frame : ∀ i c message, (t.loops i).frame = some ⟨some c, message, true⟩ →
    (s.loops i).frame = some ⟨some c, message, true⟩ ∨
      ((s.loops i).phase = .functors ∧ TcpServer.own s c = i) ∧ c < s.nextObj
  eventHandling : ∀ c, (t.conns c).channel.eventHandling = (s.conns c).channel.eventHandling
  isNew : ∀ c, isNew t c → isNew s c
  closeTimers : ∀ c, (t.conns c).closeTimers ≤ (s.conns c).closeTimers
  timers : ∀ i c, .addTimerInLoop c ∈ todo t i → .addTimerInLoop c ∈ todo s i

/-- Who handles an event is in a walk, the channels of a walk are with their
poller, and `RemoveChannel` comes only after the walk. There are no timers of `Close`. -/
structure Handled (s : State) : Prop where
  handling : ∀ c, (s.conns c).channel.eventHandling = true →
    ∃ i todo active, (s.loops i).phase = .handling c todo active
  walked : ∀ i, ∀ c ∈ walked (s.loops i).phase, ¬ isNew s c
  removing : ∀ i c message, (s.loops i).frame = some ⟨some c, message, true⟩ →
    ((s.loops i).phase = .functors ∧ own s c = i) ∧ c < s.nextObj
  closeTimers : ∀ c, (s.conns c).closeTimers = 0
  timers : ∀ i c, .addTimerInLoop c ∉ todo s i

variable {cfg : Config} {s m t u : State} {i : LoopId} {c d : ConnId} {f : Functor} {l : Local}
  {who : Caller} {a : Action} {as : List Action}

/-! ### Steady steps -/

theorem Steady.rfl : Steady s s :=
  ⟨.refl _, fun _ => .refl _, fun _ => Or.inl (.refl _), fun _ _ _ => Or.inl, fun _ => .refl _,
    fun _ => id, fun _ => Nat.le_refl _, fun _ _ => id⟩

theorem Steady.functors (h : Steady s t) (hi : (t.loops i).phase = .functors) :
    (s.loops i).phase = .functors := by
  rcases h.phase i with heq | ⟨c, todo, todo', active, -, heq⟩
  · rw [← heq, hi]
  · rw [heq] at hi
    exact absurd hi (by simp)

/-- The channels that are still to be handled are the same. -/
theorem Steady.walked (h : Steady s t) : walked (t.loops i).phase = walked (s.loops i).phase := by
  rcases h.phase i with heq | ⟨c, todo, todo', active, hs, ht⟩
  · rw [heq]
  · rw [hs, ht]
    rfl

theorem Steady.trans (h : Steady s t) (h' : Steady t u) : Steady s u where
  nextObj := h'.nextObj.trans h.nextObj
  own c := (h'.own c).trans (h.own c)
  phase i := by
    rcases h'.phase i with heq | ⟨c, todo, todo', active, hfrom, hto⟩
    · rw [heq]
      exact h.phase i
    · rcases h.phase i with heq | ⟨d, todo'', todo''', active', hfrom', hto'⟩
      · exact Or.inr ⟨c, todo, todo', active, heq ▸ hfrom, hto⟩
      · rw [hto'] at hfrom
        obtain ⟨rfl, -, rfl⟩ := Phase.handling.inj hfrom
        exact Or.inr ⟨d, todo'', todo', active', hfrom', hto⟩
  frame i c message hframe := by
    rcases h'.frame i c message hframe with hm | ⟨⟨hphase, hown⟩, hc⟩
    · exact h.frame i c message hm
    · exact Or.inr ⟨⟨h.functors hphase, h.own c ▸ hown⟩, h.nextObj ▸ hc⟩
  eventHandling c := (h'.eventHandling c).trans (h.eventHandling c)
  isNew c hc := h.isNew c (h'.isNew c hc)
  closeTimers c := Nat.le_trans (h'.closeTimers c) (h.closeTimers c)
  timers i c hc := h.timers i c (h'.timers i c hc)

theorem steady_setLoop {g : Loop → Loop}
    (hphase : (g (s.loops i)).phase = (s.loops i).phase ∨ ∃ c todo todo' active,
      (s.loops i).phase = .handling c todo active ∧
      (g (s.loops i)).phase = .handling c todo' active)
    (hframe : ∀ c message, (g (s.loops i)).frame = some ⟨some c, message, true⟩ →
      (s.loops i).frame = some ⟨some c, message, true⟩ ∨
        ((s.loops i).phase = .functors ∧ own s c = i) ∧ c < s.nextObj)
    (htimers : ∀ c, .addTimerInLoop c ∈ (g (s.loops i)).functors.todo →
      .addTimerInLoop c ∈ todo s i) : Steady s (setLoop s i g) := by
  refine ⟨.refl _, fun _ => .refl _, fun j => ?_, fun j c message hj => ?_, fun _ => .refl _,
    fun _ => id, fun _ => Nat.le_refl _, fun j c hj => ?_⟩
  · rw [loops_setLoop]
    split
    · next h => exact h ▸ hphase
    · exact Or.inl (.refl _)
  · rw [loops_setLoop] at hj
    split at hj
    · next h => exact h ▸ hframe c message hj
    · exact Or.inl hj
  · rw [todo, loops_setLoop] at hj
    split at hj
    · next h => exact h ▸ htimers c hj
    · exact hj

theorem steady_push (hf : ∀ c, f ≠ .addTimerInLoop c) : Steady s (push s i f) := by
  rw [push, setFunctors]
  refine steady_setLoop (Or.inl (.refl _)) (fun _ _ => Or.inl) fun c hc => ?_
  rw [Mailbox.todo_push, List.mem_append, List.mem_singleton] at hc
  exact hc.resolve_right fun h => hf c h.symm

theorem steady_advance {fs : List Functor} (hrest : (s.loops i).functors.rest = f :: fs) :
    Steady s (setFunctors s i (s.loops i).functors.advance) := by
  refine steady_setLoop (Or.inl (.refl _)) (fun _ _ => Or.inl) fun c hc => ?_
  exact mem_todo_of_advance hrest hc

theorem steady_enterUser {frame : Frame} (hframe : frame.removeChannel = true → ∀ c,
    frame.conn = some c → ((s.loops i).phase = .functors ∧ own s c = i) ∧ c < s.nextObj) :
    Steady s (enterUser s i frame) := by
  refine steady_setLoop (Or.inl (.refl _)) (fun c message hc => Or.inr ?_) fun _ => id
  obtain rfl := Option.some_inj.mp hc
  exact hframe (.refl _) c (.refl _)

theorem steady_setConn {g : TcpConnection → TcpConnection}
    (hloop : (g (s.conns d)).loop = (s.conns d).loop)
    (hindex : (g (s.conns d)).channel.index = (s.conns d).channel.index)
    (hhandling : (g (s.conns d)).channel.eventHandling = (s.conns d).channel.eventHandling)
    (htimers : (g (s.conns d)).closeTimers ≤ (s.conns d).closeTimers) :
    Steady s (setConn s d g) := by
  refine ⟨.refl _, fun c => ?_, fun _ => Or.inl (.refl _), fun _ _ _ => Or.inl, fun c => ?_,
    fun c hc => ?_, fun c => ?_, fun _ _ => id⟩
  · rw [own, own, conns_setConn]
    split
    · next h => rw [h, hloop]
    · rfl
  · rw [conns_setConn]
    split
    · next h => rw [h, hhandling]
    · rfl
  · rw [isNew, conns_setConn] at hc
    split at hc
    · next h => rw [isNew, h, ← hindex, hc]
    · exact hc
  · rw [conns_setConn]
    split
    · next h => rw [h]; exact htimers
    · exact Nat.le_refl _

theorem steady_setCall {call : Option Call} : Steady s (setCall s who call) :=
  ⟨.refl _, fun _ => .refl _, fun _ => Or.inl (.refl _), fun _ _ _ => Or.inl, fun _ => .refl _,
    fun _ => id, fun _ => Nat.le_refl _, fun _ _ => id⟩

theorem steady_connections {entries : String → Option ConnId} :
    Steady s { s with connections := entries } :=
  ⟨.refl _, fun _ => .refl _, fun _ => Or.inl (.refl _), fun _ _ _ => Or.inl, fun _ => .refl _,
    fun _ => id, fun _ => Nat.le_refl _, fun _ _ => id⟩

theorem steady_nextCallback : Steady s (nextCallback s i) := by
  rw [nextCallback]
  split
  · next c cb rest active hphase =>
    exact steady_setLoop (Or.inr ⟨c, _, _, active, hphase, .refl _⟩) (fun _ _ => Or.inl) fun _ => id
  · exact .rfl

theorem steady_proceed {call : Call} : Steady s (proceed s who call) := by
  cases call with
  | send c message | shutdownSet c => exact (steady_push (by simp)).trans steady_setCall
  | shutdownChecked c =>
    have hset : Steady s (setConn s c fun conn => { conn with state := .disconnecting }) :=
      steady_setConn rfl rfl rfl (Nat.le_refl _)
    exact hset.trans steady_setCall

theorem steady_removeConnectionInLoop (hok : removeConnectionInLoop s d = .ok t) : Steady s t := by
  rw [removeConnectionInLoop_eq_ok hok]
  have hrecord : Steady s (setConn s d fun conn => { conn with log := conn.log ++ [.removed] }) :=
    steady_setConn (.refl _) (.refl _) (.refl _) (Nat.le_refl _)
  exact hrecord.trans (steady_connections.trans (steady_push (by simp)))

/-! ### The parts of a step -/

/-- A method queues the write-complete callback only. -/
theorem queued_of_parts (hparts : Local.Parts d (localOf s d) l) :
    ∀ f ∈ l.queued, f = .writeComplete d := by
  obtain ⟨fs, hfs, hall⟩ := hparts.queued
  have hqueued : l.queued = fs := hfs
  exact hqueued ▸ hall

/-- A method that calls `UpdateChannel` at most takes no channel out of its poller. -/
theorem steady_putLocal (hparts : Local.Parts d (localOf s d) l)
    (hpolls : Local.Polls d (localOf s d) l) : Steady s (putLocal s d l) := by
  have hsame : Same (s.conns d) l.conn := same_of_parts hparts
  have hleaves : Local.Leaves (s.conns d) l.conn := hparts.leaves
  refine ⟨rfl, fun _ => own_putLocal hsame, fun j => Or.inl phase_putLocal.1, fun j c message hj =>
    Or.inl (phase_putLocal.2 ▸ hj), fun c => ?_, fun c hc => ?_, fun c => ?_, fun j c hj => ?_⟩
  · rw [conns_putLocal]
    split
    · next h => rw [h]; exact hleaves.eventHandling
    · rfl
  · rw [isNew, conns_putLocal] at hc
    split at hc
    · next h =>
      rw [h]
      rcases hpolls with hunpolled | ⟨ch, -, hupdate⟩
      · have hchannel : l.conn.channel = (s.conns d).channel := hunpolled.1
        rw [isNew, ← hchannel, hc]
      · exact absurd hc (Epoller.updateChannel_channels hupdate).1
    · exact hc
  · rw [conns_putLocal]
    split
    · next h => rw [h]; exact Nat.le_of_eq hleaves.closeTimers
    · exact Nat.le_refl _
  · rw [todo_putLocal] at hj
    split at hj
    · rcases List.mem_append.mp hj with hold | hnew
      · exact hold
      · exact absurd (queued_of_parts hparts _ hnew) (by simp)
    · exact hj

/-- The end of a step is steady, if it calls no `ConnDestroyed` out of place. -/
theorem Ends.steady (h : Ends cfg s a m t)
    (hdown : ∀ i c, enters cfg s a = some (i, .connection c false) →
      ((m.loops i).phase = .functors ∧ own m c = i) ∧ c < m.nextObj) : Steady m t := by
  rw [Ends] at h
  split at h
  · exact steady_removeConnectionInLoop h
  · rw [h]
    cases henters : enters cfg s a with
    | none => exact .rfl
    | some p =>
      obtain ⟨i, e⟩ := p
      refine steady_enterUser fun hremove c hc => ?_
      cases e with
      | connection d up =>
        obtain rfl := Option.some_inj.mp hc
        have hup : up = false := by simpa [Entry.frame] using hremove
        exact hdown i d (hup ▸ henters)
      | message d | writeComplete d | user => exact absurd hremove (by simp [Entry.frame])

/-! ### Walks -/

theorem handled_init : Handled State.init where
  handling _ h := absurd h (by simp [State.init, TcpConnection.new, Channel.new])
  walked _ _ h := absurd h (by simp [State.init, TcpServer.walked])
  removing _ _ _ h := absurd h (by simp [State.init])
  closeTimers _ := rfl
  timers _ _ h := absurd h (by simp [State.init, todo, Mailbox.empty, Mailbox.todo])

/-- Steady steps keep `Handled`. -/
theorem Handled.steady (h : Handled s) (hsteady : Steady s t) : Handled t where
  handling c hc := by
    obtain ⟨i, todo, active, hi⟩ := h.handling c (hsteady.eventHandling c ▸ hc)
    rcases hsteady.phase i with heq | ⟨d, todo', todo'', active', hfrom, hto⟩
    · exact ⟨i, todo, active, heq.trans hi⟩
    · obtain ⟨rfl, -, -⟩ := Phase.handling.inj (hi.symm.trans hfrom)
      exact ⟨i, todo'', active', hto⟩
  walked i c hc hnew := h.walked i c (hsteady.walked ▸ hc) (hsteady.isNew c hnew)
  removing i c message hframe := by
    have hplace : ((s.loops i).phase = .functors ∧ own s c = i) ∧ c < s.nextObj :=
      (hsteady.frame i c message hframe).elim (h.removing i c message) id
    rw [hsteady.own, hsteady.nextObj]
    rcases hsteady.phase i with heq | ⟨d, todo, todo', active, hfrom, -⟩
    · rw [heq]
      exact hplace
    · exact absurd (hplace.1.1.symm.trans hfrom) (by simp)
  closeTimers c := Nat.le_zero.mp (h.closeTimers c ▸ hsteady.closeTimers c)
  timers i c hc := h.timers i c (hsteady.timers i c hc)

/-- A new phase for loop `i`, in a state whose loops are those of `s` and whose connections
differ in `event_handling_` at most. -/
theorem handled_withPhase (h : Handled s) {phase : Phase} (hloops : m.loops = s.loops)
    (hnext : m.nextObj = s.nextObj) (hfree : (s.loops i).frame = none)
    (hown : ∀ c, own m c = own s c) (hnew : ∀ c, isNew m c ↔ isNew s c)
    (htimers : ∀ c, (m.conns c).closeTimers = (s.conns c).closeTimers)
    (hhandling : ∀ c, (m.conns c).channel.eventHandling = true →
      (∃ todo active, phase = .handling c todo active) ∨
        ∃ j todo active, j ≠ i ∧ (s.loops j).phase = .handling c todo active)
    (hwalked : ∀ c ∈ walked phase, ¬ isNew s c) : Handled (setPhase m i phase) := by
  refine ⟨fun c hc => ?_, fun j c hj => ?_, fun j c message hj => ?_, fun c => ?_,
    fun j c hj => h.timers j c ?_⟩
  · rcases hhandling c hc with ⟨todo, active, hphase⟩ | ⟨j, todo, active, hji, hj⟩
    · refine ⟨i, todo, active, ?_⟩
      rw [setPhase, loops_setLoop, if_pos rfl]
      exact hphase
    · refine ⟨j, todo, active, ?_⟩
      rw [setPhase, loops_setLoop, if_neg hji, hloops]
      exact hj
  · have hold : ¬ isNew s c := by
      rw [setPhase, loops_setLoop, hloops] at hj
      split at hj
      · exact hwalked c hj
      · exact h.walked j c hj
    exact fun hc => hold ((hnew c).mp hc)
  · rw [setPhase, loops_setLoop, hloops] at hj ⊢
    split at hj
    · exact absurd hj (by simp [hfree])
    · next hji =>
      rw [if_neg hji]
      obtain ⟨⟨hphase, hplace⟩, hc⟩ := h.removing j c message hj
      exact ⟨⟨hphase, (hown c).trans hplace⟩, hnext ▸ hc⟩
  · exact (htimers c).trans (h.closeTimers c)
  · rw [setPhase, todo_setLoop rfl, todo, hloops] at hj
    exact hj

/-- The walk of a loop goes on to another phase, outside of user code. -/
theorem handled_setPhase (h : Handled s) {phase : Phase} (hfree : (s.loops i).frame = none)
    (hhandling : ∀ c, (∃ todo active, (s.loops i).phase = .handling c todo active) →
      (s.conns c).channel.eventHandling = true → ∃ todo active, phase = .handling c todo active)
    (hwalked : ∀ c ∈ walked phase, ¬ isNew s c) : Handled (setPhase s i phase) := by
  refine handled_withPhase h rfl rfl hfree (fun _ => rfl) (fun _ => .rfl) (fun _ => rfl)
    (fun c hc => ?_) hwalked
  obtain ⟨j, todo, active, hj⟩ := h.handling c hc
  by_cases hji : j = i
  · exact Or.inl (hhandling c ⟨todo, active, hji ▸ hj⟩ hc)
  · exact Or.inr ⟨j, todo, active, hji, hj⟩

/-- `HandleEvent` of `d` begins or ends. -/
theorem handled_setEventHandling (h : Handled s) {b : Bool} {phase : Phase}
    (hfree : (s.loops i).frame = none)
    (hself : b = true → ∃ todo active, phase = .handling d todo active)
    (hother : ∀ c todo active, (s.loops i).phase = .handling c todo active → c = d)
    (hwalked : ∀ c ∈ walked phase, ¬ isNew s c) :
    Handled (setPhase (setEventHandling s d b) i phase) := by
  have hconn : ∀ c, (setEventHandling s d b).conns c = if c = d then
      { s.conns d with channel.eventHandling := b } else s.conns c := fun c => conns_setConn
  refine handled_withPhase h rfl rfl hfree (fun c => ?_) (fun c => ?_) (fun c => ?_)
    (fun c hc => ?_)
    hwalked
  · rw [own, own, hconn]
    split
    · next hc => rw [hc]
    · rfl
  · rw [isNew, isNew, hconn]
    split
    · next hc => rw [hc]
    · rfl
  · rw [hconn]
    split
    · next hc => rw [hc]
    · rfl
  · rw [hconn] at hc
    split at hc
    · next hcd => exact Or.inl (hcd ▸ hself hc)
    · next hcd =>
      obtain ⟨j, todo, active, hj⟩ := h.handling c hc
      refine Or.inr ⟨j, todo, active, ?_, hj⟩
      -- the loop handles the event of no other connection
      rintro rfl
      exact hcd (hother c todo active hj)

/-- `setPhase` with a change of the functors that queues nothing. -/
theorem handled_setFunctors (h : Handled s) {q : Mailbox Functor} {phase : Phase}
    (hfree : (s.loops i).frame = none) (hphase : ∀ c, c ∉ walked (s.loops i).phase)
    (hwalked : ∀ c, c ∉ walked phase)
    (hq : ∀ f ∈ q.todo, f ∈ todo s i) :
    Handled (setPhase (setFunctors s i q) i phase) := by
  have hqueue : Steady s (setFunctors s i q) :=
    steady_setLoop (Or.inl rfl) (fun _ _ => Or.inl) fun c hc => hq _ hc
  have hloop : ((setFunctors s i q).loops i).frame = (s.loops i).frame ∧
      ((setFunctors s i q).loops i).phase = (s.loops i).phase := by
    rw [setFunctors, loops_setLoop, if_pos rfl]
    exact ⟨rfl, rfl⟩
  refine handled_setPhase (h.steady hqueue) (hloop.1.trans hfree) (fun c hc _ => ?_) fun c hc =>
    absurd hc (hwalked c)
  obtain ⟨todo, active, hc⟩ := hc
  apply absurd _ (hphase c)
  rw [← hloop.2, hc]
  exact List.mem_cons_self

/-- The channel leaves its poller when no walk goes on that it is in. -/
theorem handled_removeChannel (h : Handled s) (hout : ∀ j, d ∉ walked (s.loops j).phase)
    (hparts : Local.Parts d (localOf s d) l) : Handled (putLocal s d l) := by
  have hsame : Same (s.conns d) l.conn := same_of_parts hparts
  have hleaves : Local.Leaves (s.conns d) l.conn := hparts.leaves
  refine ⟨fun c hc => ?_, fun j c hj => ?_, fun j c message hj => ?_, fun c => ?_,
    fun j c hj => ?_⟩
  · have hc : (s.conns c).channel.eventHandling = true := by
      rw [conns_putLocal] at hc
      split at hc
      · next hcd => rw [hcd, ← hc]; exact hleaves.eventHandling.symm
      · exact hc
    obtain ⟨j, todo, active, hj⟩ := h.handling c hc
    exact ⟨j, todo, active, phase_putLocal.1.trans hj⟩
  · rw [phase_putLocal.1] at hj
    rw [isNew, conns_putLocal, if_neg]
    · exact h.walked j c hj
    · rintro rfl
      exact hout j hj
  · rw [phase_putLocal.2] at hj
    rw [phase_putLocal.1, own_putLocal hsame]
    exact h.removing j c message hj
  · rw [conns_putLocal]
    split
    · exact hleaves.closeTimers.trans (h.closeTimers d)
    · exact h.closeTimers c
  · rw [todo_putLocal] at hj
    split at hj
    · rcases List.mem_append.mp hj with hold | hnew
      · exact h.timers j c hold
      · exact absurd (queued_of_parts hparts _ hnew) (by simp)
    · exact h.timers j c hj

/-- A new connection keeps `Handled`: it is in no walk. -/
theorem handled_withNewObject (h : Handled s) (hsited : Sited s) {fd : ℕ} :
    Handled (withNewObject cfg s fd) := by
  have hold : ∀ c < s.nextObj, (withNewObject cfg s fd).conns c = s.conns c := fun c hc =>
    Function.update_of_ne (Nat.ne_of_lt hc) _ _
  have hconn : ∀ c, (withNewObject cfg s fd).conns c = if c = s.nextObj then
      .new (getNextLoop cfg s).1 (connName cfg (s.nextConnId + 1)) fd cfg.writeComplete
      else s.conns c := fun c => Function.update_apply _ _ _ _
  refine ⟨fun c hc => h.handling c ?_, fun i c hc hnew => ?_, fun i c message hframe => ?_,
    fun c => ?_, h.timers⟩
  · rw [hconn] at hc
    split at hc
    · exact absurd hc (by simp [TcpConnection.new, Channel.new])
    · exact hc
  · rw [isNew, hold c (hsited.walk i c hc).1] at hnew
    exact h.walked i c hc hnew
  · obtain ⟨⟨hphase, hown⟩, hc⟩ := h.removing i c message hframe
    refine ⟨⟨hphase, ?_⟩, Nat.lt_succ_of_lt hc⟩
    rw [own, hold c hc]
    exact hown
  · rw [hconn]
    split
    · rfl
    · exact h.closeTimers c

theorem handled_nextCallback (h : Handled s) : Handled (nextCallback s i) :=
  h.steady steady_nextCallback

/-- What a step does first keeps `Handled`. -/
theorem Opens.handled (h : Handled s) (hreg : Registered s) (hsited : Sited s)
    (hplaced : Placed cfg s) (hg : guard cfg s a = true) (hok : effect cfg s a = .ok t)
    (hopens : Opens cfg s a m) : Handled m := by
  cases hopens with
  | poll i active =>
    simp only [guard, Bool.and_eq_true, decide_eq_true_eq] at hg
    simp only [effect] at hok
    split at hok
    · next hentries =>
      refine handled_setPhase h (frame_of_free hg.1.1.1) (fun c hc _ => ?_) fun c hc => ?_
      · obtain ⟨todo, active, hphase⟩ := hc
        exact absurd (hg.1.1.2.symm.trans hphase) (by simp)
      · obtain ⟨e, he, rfl⟩ := List.mem_map.mp hc
        exact (hreg.entry (of_decide_eq_true (List.all_eq_true.mp hentries e he))).2.2
    · exact absurd hok (by simp)
  | handleEvent i d revents active hphase =>
    simp only [guard, hphase] at hg
    refine handled_setEventHandling h (frame_of_free hg) (fun _ => ⟨_, _, rfl⟩)
      (fun c todo active hc => ?_) fun c hc => h.walked i c ?_
    · exact absurd (hphase.symm.trans hc) (by simp)
    · rw [hphase]
      exact hc
  | endEvent i d active hphase =>
    simp only [guard, hphase] at hg
    refine handled_setEventHandling h (frame_of_free hg) (fun hb => absurd hb (by simp))
      (fun c todo active hc => ?_) fun c hc => h.walked i c ?_
    · exact (Phase.handling.inj (hphase.symm.trans hc)).1.symm
    · rw [hphase]
      exact List.mem_cons_of_mem _ hc
  | handleClose | handleError | handleWrite => exact handled_nextCallback h
  | handleRead i readv input n hread =>
    exact (handled_nextCallback h).steady (steady_setConn rfl rfl rfl (Nat.le_refl _))
  | newConnection fd => exact handled_withNewObject h hsited
  | closeTimer d =>
    simp only [guard, Bool.and_eq_true, decide_eq_true_eq, h.closeTimers] at hg
    exact absurd hg.2 (by simp)
  | doPendingFunctors i =>
    simp only [guard, Bool.and_eq_true, decide_eq_true_eq] at hg
    refine handled_setFunctors h (frame_of_free hg.1) (fun c => ?_) (fun c => List.not_mem_nil)
      fun f hf => ?_
    · rw [hg.2]
      exact List.not_mem_nil
    · rwa [Mailbox.todo_swap (hplaced.batch i (by simp [hg.2]))] at hf
  | runFunctor i wr f fs hrest => exact h.steady (steady_advance hrest)
  | finishFunctors i =>
    simp only [guard, Bool.and_eq_true, decide_eq_true_eq, List.isEmpty_iff] at hg
    refine handled_setFunctors h (frame_of_free hg.1.1) (fun c => ?_) (fun c => List.not_mem_nil)
      fun f hf => ?_
    · rw [hg.1.2]
      exact List.not_mem_nil
    · rwa [Mailbox.todo_finish hg.2] at hf
  | userReturn i =>
    exact h.steady (steady_setLoop (Or.inl rfl) (fun c message hc => absurd hc (by simp))
      fun _ => id)
  | proceed who call hcall => exact h.steady steady_proceed
  | inputBuffer | keep | drop => exact h.steady (steady_setConn rfl rfl rfl (Nat.le_refl _))
  | destroy d =>
    have hdead : Steady s (setConn s d fun conn => { conn with alive := false }) :=
      steady_setConn rfl rfl rfl (Nat.le_refl _)
    exact h.steady (hdead.trans (steady_setLoop (Or.inl rfl) (fun _ _ => Or.inl) fun _ => id))
  | call => exact h

/-- `Remove()` comes after the walk of the connection's loop. -/
theorem notMem_walked (h : Handled s) (hsited : Sited s)
    (hc : subject cfg s (.userReturn i) = some c) (j : LoopId) : c ∉ walked (s.loops j).phase := by
  intro hwalked
  obtain ⟨frame, hframe, hc⟩ := Option.bind_eq_some_iff.mp hc
  split at hc
  · next hremove =>
    have hframe : (s.loops i).frame = some ⟨some c, frame.message, true⟩ := by
      rw [hframe, ← hc, ← hremove]
    obtain ⟨⟨hphase, hown⟩, -⟩ := h.removing i c _ hframe
    have hi : i = j := hown.symm.trans (hsited.walk j c hwalked).2
    rw [← hi, hphase] at hwalked
    exact absurd hwalked List.not_mem_nil
  · exact absurd hc (by simp)

/-- What it does in between keeps it, if `Remove()` finds no walk over the channel. -/
theorem Works.handled (h : Handled m) (hwork : Works cfg s a m t) (htimer : addsTimer s a = false)
    (hout : ∀ i c, a = .userReturn i → subject cfg s a = some c →
      ∀ j, c ∉ walked (m.loops j).phase) : Handled t := by
  cases hwork with
  | push i f hown hadds =>
    exact h.steady (steady_push fun c hf => absurd (hadds c hf) (by simp [htimer]))
  | setConn c g hedited hrefs hhandling hadds =>
    exact h.steady (steady_setConn hedited.fixed.loop hedited.index hhandling
      (Nat.le_of_eq (hadds.resolve_right (by simp [htimer]))))
  | setCall => exact h.steady steady_setCall
  | method c l hc halive hparts hfound hmethod =>
    by_cases hreturn : ∃ i, a = .userReturn i
    · obtain ⟨i, ha⟩ := hreturn
      exact handled_removeChannel h (hout i c ha hc) hparts
    · have hpolls : Local.Polls c (localOf m c) l :=
        polls_of_methodOf (fun i ha => hreturn ⟨i, ha⟩) hmethod
      exact h.steady (steady_putLocal hparts hpolls)

/-- Without `Close` there is no timer. -/
theorem addsTimer_eq_false (h : Handled s) (hcalls : callsInLoop s a = true) :
    addsTimer s a = false := by
  cases a with
  | close => exact absurd hcalls (by simp [callsInLoop])
  | runFunctor i wr =>
    rw [addsTimer]
    cases hrest : (s.loops i).functors.rest with
    | nil => rfl
    | cons f fs =>
      cases f with
      | addTimerInLoop c => exact absurd (mem_todo_of_rest hrest) (h.timers i c)
      | _ => rfl
  | _ => rfl

/-- `ConnDestroyed` is run from the queue of the connection's own loop. -/
theorem functors_of_enters (hplaced : Placed cfg s) (hg : guard cfg s a = true)
    (henters : enters cfg s a = some (i, .connection c false)) :
    ∃ wr, a = .runFunctor i wr ∧ ((s.loops i).phase = .functors ∧ own s c = i) ∧ c < s.nextObj := by
  cases a with
  | runFunctor j wr =>
    simp only [guard, Bool.and_eq_true, decide_eq_true_eq] at hg
    obtain ⟨f, hf, hentry⟩ := Option.bind_eq_some_iff.mp henters
    obtain ⟨fs, hrest⟩ := List.head?_eq_some_iff.mp hf
    have hf := hplaced.functors j f (mem_todo_of_rest hrest)
    cases f with
    | connDestroyed d =>
      simp only [functorEntry, Option.some_inj, Prod.mk.injEq, Entry.connection.injEq, and_true]
        at hentry
      obtain ⟨rfl, rfl⟩ := hentry
      obtain ⟨hd, hown⟩ := hf
      exact ⟨wr, by rw [hown], ⟨hown ▸ hg.1.2, rfl⟩, hd⟩
    | _ => exact absurd hentry (by simp [functorEntry])
  | newConnection fd =>
    rw [enters] at henters
    split at henters <;> exact absurd henters (by simp)
  | handleRead j readv =>
    rw [enters] at henters
    split at henters <;> exact absurd henters (by simp)
  | _ => exact absurd henters (by simp [enters])

/-- A step keeps `Handled`. -/
theorem handled_effect (h : Handled s) (hreg : Registered s) (hsited : Sited s)
    (hplaced : Placed cfg s) (hcalls : callsInLoop s a = true) (hg : guard cfg s a = true)
    (hok : effect cfg s a = .ok t) : Handled t := by
  obtain ⟨m, m', hopens, hworks, hends⟩ := anatomy hg hok
  have htimer := addsTimer_eq_false h hcalls
  have hm := hopens.handled h hreg hsited hplaced hg hok
  obtain ⟨hm', hkeeps, hphases⟩ : Handled m' ∧ Keeps m m' ∧
      ∀ j, (m'.loops j).phase = (m.loops j).phase := by
    refine works_invariant (I := fun k => Handled k ∧ Keeps m k ∧
      ∀ j, (k.loops j).phase = (m.loops j).phase) hworks ⟨hm, .rfl, fun _ => rfl⟩ ?_
    rintro k k' ⟨hk, hkeeps, hphases⟩ hwork
    refine ⟨hwork.handled hk htimer ?_, hkeeps.trans hwork.moves.keeps,
      fun j => hwork.phase.trans (hphases j)⟩
    rintro i c rfl hc j hj
    cases hopens with
    | userReturn =>
      have hphase : (k.loops j).phase = (s.loops j).phase := (hphases j).trans (phase_setLoop rfl)
      exact notMem_walked h hsited hc j (hphase ▸ hj)
    | call a hcall => exact absurd hcall (by simp [Action.isCall])
  refine hm'.steady (hends.steady fun i c henters => ?_)
  obtain ⟨wr, rfl, ⟨hphase, hown⟩, hc⟩ := functors_of_enters hplaced hg henters
  cases hopens with
  | runFunctor =>
    refine ⟨⟨?_, ?_⟩, ?_⟩
    · exact (hphases i).trans ((phase_setLoop rfl).trans hphase)
    · exact (hkeeps.conn c).loop.trans hown
    · rw [hkeeps.nextObj]
      exact hc
  | call a hcall => exact absurd hcall (by simp [Action.isCall])

/-! ### Calls from other threads -/

/-- Where calls are made on the connection's own loop, no label is a call of another thread. -/
theorem notCalled_of_mem_labels (hcalls : callsInLoop s a = true) {b : Connection.Action}
    (hb : b ∈ labels cfg s c a) (v : Connection) : NotCalled v b := by
  constructor
  · rintro who message rfl
    cases labelOf_of_mem hb with
    | callSend hwho => exact hwho (of_decide_eq_true hcalls)
  · rintro who rfl
    cases labelOf_of_mem hb with
    | callShutdown hwho => exact hwho (of_decide_eq_true hcalls)

/-- Calls on the connection's own loop, and no connection takes another's entry. -/
def handlesSafely (cfg : Config) (s : State) (a : Action) : Bool :=
  callsInLoop s a && keepsEntries cfg s a

/-- In such a run, nothing of another thread is queued. -/
theorem noTraffic_of_reach
    (hrun : Reach (step cfg) (fun s a => handlesSafely cfg s a = true) State.init as s) :
    ∀ c, c < s.nextObj → NoTraffic (view s c) := by
  refine views_invariant (p := NotCalled) hrun ?_ ?_ ?_ ?_
  · intro owner
    exact ⟨rfl, fun task htask => Or.inl (List.mem_singleton.mp htask)⟩
  · intro owner
    exact ⟨by simp, by simp⟩
  · intro v b v' h hb hstep
    exact noTraffic_step h hb hstep
  · intro s a t _ _ hok _ c _
    simp only [handlesSafely, Bool.and_eq_true] at hok
    exact admits_of_forall fun b hb v => notCalled_of_mem_labels hok.1 hb v

/-- Nothing of another thread is queued, so no `SendInLoop` has bytes to keep. -/
theorem sendsAll_of_noTraffic (hplaced : Placed cfg s)
    (htraffic : ∀ c, c < s.nextObj → NoTraffic (view s c)) : sendsAll s a = true := by
  cases a with
  | runFunctor i wr =>
    rw [sendsAll]
    split
    · next d who message fs hrest =>
      have hmem : .sendInLoop d who message ∈ todo s i := mem_todo_of_rest hrest
      obtain ⟨⟨hd, rfl⟩, -⟩ := hplaced.functors i _ hmem
      have htask : .send who message ∈ (view s d).tasks :=
        List.mem_filterMap.mpr ⟨_, hmem, if_pos rfl⟩
      exact absurd ((htraffic d hd).2 _ htask) (by simp)
    · rfl
  | _ => rfl

/-- The `HandleClose` of an event finds the channel with its poller. -/
theorem closesRegistered_of_handled (h : Handled s) (hg : guard cfg s a = true) :
    closesRegistered s a = true := by
  rw [closesRegistered, Option.all_eq_true]
  intro d hd
  have hregistered : ¬ isNew s d → (!(unregistered s d && (s.conns d).isUp)) = true := by
    intro hnew
    have hindex : (s.conns d).channel.index ≠ Epoller.kNew := hnew
    rw [unregistered, decide_eq_false hindex, Bool.and_false, Bool.false_and]
    rfl
  apply hregistered
  cases a with
  | handleClose i =>
    obtain rfl := Option.some_inj.mp hd
    exact h.walked i _ (handled_of_callbackIs hg).1
  | handleRead i readv =>
    simp only [closes, Option.ite_none_right_eq_some, Option.some_inj] at hd
    obtain ⟨-, rfl⟩ := hd
    exact h.walked i _ (handled_of_callbackIs hg).1
  | closeTimer e =>
    simp only [guard, Bool.and_eq_true, decide_eq_true_eq, h.closeTimers] at hg
    exact absurd hg.2 (by simp)
  | _ => exact absurd hd (by simp [closes])

/-! ### Every run -/

theorem keepsEntries_of_handlesSafely (hok : handlesSafely cfg s a = true) :
    keepsEntries cfg s a = true := by
  rw [handlesSafely, Bool.and_eq_true] at hok
  exact hok.2

/-- In every such run walks are over registered channels, and what has gone is out of its poller.
-/
theorem handled_of_reach
    (hrun : Reach (step cfg) (fun s a => handlesSafely cfg s a = true) State.init as s) :
    Handled s ∧ ∀ c, c < s.nextObj → Gone s c := by
  refine hrun.invariant (I := fun s => Handled s ∧ ∀ c, c < s.nextObj → Gone s c) ?_ ?_
  · exact ⟨handled_init, fun c hc => absurd hc (Nat.not_lt_zero c)⟩
  · rintro as s a t hprefix ⟨h, hgone⟩ hok hstep
    have hplaced := placed_of_reach hprefix
    have hsited := sited_of_reach hprefix
    have hreg := registered_of_reach hprefix
    obtain ⟨-, hg, heffect⟩ := step_cases hstep
    have hstays : staysOut cfg s a = true := by
      rw [staysOut, sendsAll_of_noTraffic hplaced (noTraffic_of_reach hprefix),
        closesRegistered_of_handled h hg, keepsEntries_of_handlesSafely hok]
      rfl
    refine ⟨?_, gone_step hplaced hsited hreg (kept_of_reach keepsEntries_of_handlesSafely hprefix)
      hgone hstays hstep⟩
    rw [handlesSafely, Bool.and_eq_true] at hok
    rcases heffect with heffect | ⟨e, -, rfl⟩
    · exact handled_effect h hreg hsited hplaced hok.1 hg heffect
    · exact ⟨h.handling, h.walked, h.removing, h.closeTimers, h.timers⟩

/-- The channels of a walk belong to objects that exist and cannot go. -/
theorem alive_of_walked
    (hrun : Reach (step cfg) (fun s a => handlesSafely cfg s a = true) State.init as s)
    (hc : c ∈ walked (s.loops i).phase) :
    (s.conns c).alive = true ∧ guard cfg s (.destroy c) = false := by
  obtain ⟨h, hgone⟩ := handled_of_reach hrun
  have hnew := h.walked i c hc
  constructor
  · by_contra hdead
    exact hnew ((hgone c ((sited_of_reach hrun).walk i c hc).1).dead (by simpa using hdead))
  · by_contra hg
    have hkept := kept_of_reach keepsEntries_of_handlesSafely hrun
    exact hnew (isNew_of_destroy (placed_of_reach hrun) hkept hgone (by simpa using hg))

/-- No object goes while `HandleEvent` is executing on its channel, none that has
gone is handled, and every channel still in a walk belongs to an object that
exists and cannot go. -/
theorem handled_alive
    (hrun : Reach (step cfg) (fun s a => handlesSafely cfg s a = true) State.init as s) :
    s.fault ≠ some (.assertion .channelDestroyed) ∧
      s.fault ≠ some (.useAfterFree .handleEvent) ∧
      ∀ i, ∀ c ∈ walked (s.loops i).phase,
        (s.conns c).alive = true ∧ guard cfg s (.destroy c) = false := by
  refine ⟨fun hfault => ?_, fun hfault => ?_, fun i c hc => alive_of_walked hrun hc⟩
  · obtain ⟨bs, s', b, hprefix, -, hg, hcause⟩ := cause_of_reach hrun hfault
    cases hcause with
    | low hlow _ => exact absurd hlow (by simp [Fault.isLow])
    | @channelDestroyed d hb hhandling =>
      subst hb
      obtain ⟨i, todo, active, hphase⟩ := (handled_of_reach hprefix).1.handling d hhandling
      have hwalked : d ∈ walked (s'.loops i).phase := by
        rw [hphase]
        exact List.mem_cons_self
      exact absurd hg (by simp [(alive_of_walked hprefix hwalked).2])
  · obtain ⟨bs, s', b, hprefix, -, hg, hcause⟩ := cause_of_reach hrun hfault
    cases hcause with
    | low hlow _ => exact absurd hlow (by simp [Fault.isLow])
    | handleEvent hwalked hdead =>
      exact absurd (alive_of_walked hprefix hwalked).1 (by simp [hdead])

/-! ### A run -/

/-- The base loop removes connection 0 while its event is still being handled. -/
def removedInEvent : List Action :=
  established ++ [.drop 0, .poll 1 [(0, pollIn)], .handleEvent 1, .handleRead 1 (some []),
    .doPendingFunctors 0, .runFunctor 0 none, .finishFunctors 0]

/-- The connection is out of `connections_`, and its object cannot go yet. -/
theorem handled_alive_removedInEvent :
    ∃ s, run (step oneThread) State.init removedInEvent = some s ∧
      s.connections "s#2" = none ∧ s.fault ≠ some (.assertion .channelDestroyed) ∧
      (s.conns 0).alive = true ∧ guard oneThread s (.destroy 0) = false := by
  have hend : (runIf (step oneThread) (fun s a => handlesSafely oneThread s a = true) State.init
      removedInEvent).map (fun s => (s.connections "s#2", walked (s.loops 1).phase)) =
        some (none, [0]) := by decide +kernel
  obtain ⟨s, hs, heq⟩ := Option.map_eq_some_iff.mp hend
  obtain ⟨hnone, hwalked⟩ := Prod.mk.inj heq
  have hrun := reach_of_runIf hs
  obtain ⟨hkept, -, halive⟩ := handled_alive hrun
  have hmem : 0 ∈ walked (s.loops 1).phase := by
    rw [hwalked]
    exact List.mem_cons_self
  exact ⟨s, hrun.run_eq, hnone, hkept, halive 1 0 hmem⟩

end TcpServer
end Bbkgl
