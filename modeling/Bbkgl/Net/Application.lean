import Mathlib.Data.List.TakeWhile
import Bbkgl.CS.Transition
import Bbkgl.Net.TcpConnection

/-!
# Applications of the server

The programs that come with the server give it callbacks, and a callback makes a few
calls on the connection that it was given and returns. A `Dialogue` is one connection
as its callbacks see it. What an application says on a connection depends on what it
has been told there, and on nothing else.
-/

set_option autoImplicit false

namespace Bbkgl

open CS.Transition

/-! ### Lists, up to the first `a` -/

section Before

variable {α : Type*} [DecidableEq α] {a : α} {l m : List α}

theorem takeWhile_ne_append_of_notMem (h : a ∉ l) :
    (l ++ m).takeWhile (· ≠ a) = l ++ m.takeWhile (· ≠ a) := by
  apply List.takeWhile_append_of_pos
  intro b hb
  rw [decide_eq_true_eq]
  rintro rfl
  exact h hb

theorem takeWhile_ne_of_notMem (h : a ∉ l) : l.takeWhile (· ≠ a) = l := by
  simpa using takeWhile_ne_append_of_notMem (m := []) h

theorem takeWhile_ne_append_of_mem (h : a ∈ l) :
    (l ++ m).takeWhile (· ≠ a) = l.takeWhile (· ≠ a) := by
  induction l with
  | nil => exact absurd h List.not_mem_nil
  | cons b l ih =>
    rw [List.cons_append, List.takeWhile_cons, List.takeWhile_cons]
    split
    · next hb =>
      have hne : b ≠ a := of_decide_eq_true hb
      rw [ih ((List.mem_cons.mp h).resolve_left hne.symm)]
    · rfl

end Before

/-! ### Callbacks -/

/-- A call that a callback makes on its connection. -/
inductive Command
  | send (message : Bytes)
  | shutdown
  | close
  deriving DecidableEq, Repr

/-- A callback, with what it learns: what `Connected()` says, or the bytes that
`RetrieveAsString` returns. -/
inductive Event
  | connection (up : Bool)
  | message (data : Bytes)
  | writeComplete
  deriving DecidableEq, Repr

/-- What a callback has taken out of the input buffer. -/
def Event.data : Event → Bytes
  | message data => data
  | connection _ | writeComplete => []

/-- The data of the message events, one after the other. -/
def heard (events : List Event) : Bytes := events.flatMap Event.data

theorem heard_cons {events : List Event} {e : Event} :
    heard (e :: events) = e.data ++ heard events := List.flatMap_cons

theorem heard_append {events late : List Event} :
    heard (events ++ late) = heard events ++ heard late := List.flatMap_append

theorem heard_told {events : List Event} {e : Event} :
    heard (events ++ [e]) = heard events ++ e.data := by
  simp [heard]

/-- What the user's callbacks do: the calls that each of them makes on its connection. -/
structure Application where
  onConnection : Bool → List Command
  onMessage : Bytes → List Command
  onWriteComplete : List Command

namespace Application

variable (app : Application)

/-- The calls that the application answers an event with. -/
def answer : Event → List Command
  | .connection up => app.onConnection up
  | .message data => app.onMessage data
  | .writeComplete => app.onWriteComplete

/-- The commands of all callbacks before the one that says the connection is down. -/
def spoken (events : List Event) : List Command :=
  (events.takeWhile (· ≠ .connection false)).flatMap app.answer

end Application

/-- The bytes that a command hands over to be sent. -/
def Command.bytes : Command → Bytes
  | send message => message
  | shutdown | close => []

/-- What the commands send. After a `Shutdown` nothing is sent. -/
def delivered (cs : List Command) : Bytes := (cs.takeWhile (· ≠ .shutdown)).flatMap Command.bytes

/-- What is left of a callback. -/
inductive Script
  /-- `RetrieveAsString` is next -/
  | retrieve
  | commands (cs : List Command)
  deriving DecidableEq, Repr

namespace Script

/-- The commands that a callback has still to give. -/
def left : Script → List Command
  | retrieve => []
  | commands cs => cs

/-- The script without its next command. -/
def tail : Script → Script
  | retrieve => retrieve
  | commands cs => commands cs.tail

end Script

/-- The callback that is running is at `script`. `received` is what the kernel has
delivered, and `said` is what `SendInLoop` has been given. -/
@[ext] structure Dialogue where
  state : StateE
  script : Option Script
  received : Bytes
  events : List Event
  said : Bytes

namespace Dialogue

/-- A connection that has not been established. -/
def init : Dialogue := ⟨.connecting, none, [], [], []⟩

/-- The calls of the connection's callbacks, and what the callbacks do, one thing at a time. -/
inductive Action
  | connEstablished
  | connDestroyed
  | handleRead (data : Bytes)
  | retrieveAsString
  | writeComplete
  /-- the next command of the callback -/
  | command
  | userReturn
  deriving DecidableEq, Repr

/-- The test of `HandleClose` and `ConnDestroyed` on the state. -/
def isUp (d : Dialogue) : Bool := d.state = .connected || d.state = .disconnecting

/-- When an action can be taken. -/
def guard (d : Dialogue) : Action → Bool
  | .connEstablished => d.state = .connecting && d.script.isNone
  | .connDestroyed => d.isUp && d.script.isNone
  | .handleRead data => d.isUp && d.script.isNone && data ≠ []
  | .retrieveAsString => d.script = some .retrieve
  | .writeComplete => d.state ≠ .connecting && d.script.isNone
  | .command => match d.script with
    | some (.commands (_ :: _)) => true
    | _ => false
  | .userReturn => d.script = some (.commands [])

/-- A callback learns `e`, and goes on to answer it. -/
def told (app : Application) (d : Dialogue) (e : Event) : Dialogue :=
  { d with script := some (.commands (app.answer e)), events := d.events ++ [e] }

/-- What is in the input buffer. -/
def unheard (d : Dialogue) : Bytes := d.received.drop (heard d.events).length

/-- A command to the connection: a message is taken, and a shutdown begun, only in `k_connected`;
a timer set by `Close` changes nothing yet. -/
def perform (d : Dialogue) : Command → Dialogue
  | .send message => if d.state = .connected then { d with said := d.said ++ message } else d
  | .shutdown => if d.state = .connected then { d with state := .disconnecting } else d
  | .close => d

/-- What an action does. -/
def effect (app : Application) (d : Dialogue) : Action → Dialogue
  | .connEstablished => { d with state := .connected }.told app (.connection true)
  | .connDestroyed => { d with state := .disconnected }.told app (.connection false)
  | .handleRead data => { d with script := some .retrieve, received := d.received ++ data }
  | .retrieveAsString => d.told app (.message d.unheard)
  | .writeComplete => d.told app .writeComplete
  | .command => match d.script with
    | some (.commands (c :: cs)) => { d.perform c with script := some (.commands cs) }
    | _ => d
  | .userReturn => { d with script := none }

/-- One step of the dialogue. -/
def step (app : Application) : Dialogue → Action → Option Dialogue := guarded guard (effect app)

/-- What the callback that is running has still to do. -/
def left (d : Dialogue) : List Command := d.script.elim [] Script.left

variable {app : Application} {d d' : Dialogue} {a : Action} {as : List Action} {e : Event}
  {events : List Event} {cs made : List Command} {c : Command}

/-! ### What is told -/

/-- An event that can come between the two of the connection itself. -/
def isTraffic : Event → Bool
  | .connection _ => false
  | .message _ | .writeComplete => true

/-- The order of the callbacks. -/
structure Orderly (d : Dialogue) : Prop where
  before : d.state = .connecting → d.events = [] ∧ d.script = none
  up : d.isUp = true → ∃ mid, d.events = .connection true :: mid ∧ mid.all isTraffic = true
  down : d.state = .disconnected → d.script ≠ some .retrieve ∧ ∃ mid late,
    d.events = .connection true :: mid ++ .connection false :: late ∧
      mid.all isTraffic = true ∧ late.all (· = .writeComplete) = true

/-- Up is what is neither before `ConnEstablished` nor after `ConnDestroyed`. -/
theorem isUp_iff : d.isUp = true ↔ d.state ≠ .connecting ∧ d.state ≠ .disconnected := by
  rw [isUp]
  cases d.state with
  | connecting | connected | disconnecting | disconnected => simp

theorem orderly_init : init.Orderly :=
  ⟨fun _ => ⟨rfl, rfl⟩, fun h => absurd h (by simp [isUp, init]),
    fun h => absurd h (by simp [init])⟩

/-- An open connection has been told that it is up, and of nothing but traffic since. -/
theorem orderly_of_up (hup : d.isUp = true)
    (h : ∃ mid, d.events = .connection true :: mid ∧ mid.all isTraffic = true) : d.Orderly where
  before hstate := absurd hstate (isUp_iff.mp hup).1
  up _ := h
  down hstate := absurd hstate (isUp_iff.mp hup).2

/-- One more event of traffic keeps the order. -/
theorem orderly_told (h : d.Orderly) (hup : d.isUp = true) (he : isTraffic e = true) :
    (d.told app e).Orderly := by
  obtain ⟨mid, hevents, hmid⟩ := h.up hup
  refine orderly_of_up hup ⟨mid ++ [e], ?_, ?_⟩
  · rw [told, hevents, List.cons_append]
  · rw [List.all_append, hmid, List.all_cons, he]
    rfl

/-- A callback goes on, or is over. -/
theorem Orderly.script (h : d.Orderly) (hscript : d.script ≠ none) {script : Option Script}
    (hnew : script ≠ some .retrieve) : { d with script := script }.Orderly where
  before hstate := absurd (h.before hstate).2 hscript
  up := h.up
  down hstate := ⟨hnew, (h.down hstate).2⟩

/-- A command tells the application nothing. -/
theorem Orderly.perform (h : d.Orderly) (c : Command) : (d.perform c).Orderly := by
  cases c with
  | send message =>
    rw [Dialogue.perform]
    split
    · exact ⟨h.before, h.up, h.down⟩
    · exact h
  | shutdown =>
    rw [Dialogue.perform]
    split
    · next hstate => exact orderly_of_up rfl (h.up (by simp [isUp, hstate]))
    · exact h
  | close => exact h

/-- No command is a callback. -/
theorem perform_frame : (d.perform c).script = d.script ∧ (d.perform c).received = d.received ∧
    (d.perform c).events = d.events := by
  cases c with
  | send message | shutdown =>
    rw [perform]
    split
    · exact ⟨rfl, rfl, rfl⟩
    · exact ⟨rfl, rfl, rfl⟩
  | close => exact ⟨rfl, rfl, rfl⟩

/-- Commands on a connection that is not `k_connected` do nothing. -/
theorem perform_of_ne (hstate : d.state ≠ .connected) : d.perform c = d := by
  cases c with
  | send message | shutdown => rw [perform, if_neg hstate]
  | close => rfl

/-- The callbacks come in order, step by step. -/
theorem orderly_step (h : d.Orderly) (hstep : step app d a = some d') : d'.Orderly := by
  obtain ⟨hg, rfl⟩ := guarded_eq_some_iff.mp hstep
  cases a with
  | connEstablished =>
    simp only [guard, Bool.and_eq_true, decide_eq_true_eq] at hg
    exact orderly_of_up rfl ⟨[], by simp [effect, told, (h.before hg.1).1], rfl⟩
  | connDestroyed =>
    simp only [guard, Bool.and_eq_true] at hg
    obtain ⟨mid, hevents, hmid⟩ := h.up hg.1
    refine ⟨fun hstate => absurd hstate (by simp [effect, told]),
      fun hup => absurd hup (by simp [effect, told, isUp]), fun _ => ⟨by simp [effect, told], ?_⟩⟩
    exact ⟨mid, [], by simp [effect, told, hevents], hmid, rfl⟩
  | handleRead data =>
    simp only [guard, Bool.and_eq_true] at hg
    exact orderly_of_up hg.1.1 (h.up hg.1.1)
  | retrieveAsString =>
    simp only [guard, decide_eq_true_eq] at hg
    have hup : d.isUp = true := by
      refine isUp_iff.mpr ⟨fun hstate => ?_, fun hstate => (h.down hstate).1 hg⟩
      exact absurd (h.before hstate).2 (by simp [hg])
    exact orderly_told h hup rfl
  | writeComplete =>
    simp only [guard, Bool.and_eq_true, decide_eq_true_eq] at hg
    by_cases hup : d.isUp = true
    · exact orderly_told h hup rfl
    · refine ⟨fun hstate => absurd hstate hg.1, fun hup' => absurd hup' hup, fun hstate => ?_⟩
      obtain ⟨-, mid, late, hevents, hmid, hlate⟩ := h.down hstate
      refine ⟨by simp [effect, told], mid, late ++ [.writeComplete], ?_, hmid, ?_⟩
      · simp [effect, told, hevents]
      · rw [List.all_append, hlate]
        rfl
  | command =>
    simp only [guard] at hg
    split at hg
    · next c cs hscript =>
      rw [effect, hscript]
      exact (h.perform c).script (by simp [perform_frame, hscript]) (by simp)
    · exact absurd hg (by simp)
  | userReturn =>
    simp only [guard, decide_eq_true_eq] at hg
    exact h.script (by simp [hg]) (by simp)

/-! ### What is said -/

/-- The last event adds its answer, unless it says that the connection is down. -/
theorem spoken_told (h : .connection false ∉ events) :
    app.spoken (events ++ [e]) =
      app.spoken events ++ if e = .connection false then [] else app.answer e := by
  rw [Application.spoken, Application.spoken, takeWhile_ne_append_of_notMem h,
    takeWhile_ne_of_notMem h, List.flatMap_append]
  split
  · next he => simp [he]
  · next he => simp [he]

/-- After the connection is down nothing more is said. -/
theorem spoken_down {late : List Event} (h : .connection false ∈ events) :
    app.spoken (events ++ late) = app.spoken events := by
  rw [Application.spoken, Application.spoken, takeWhile_ne_append_of_mem h]

/-- Before a `Shutdown` every `Send` counts. -/
theorem delivered_append {rest : List Command} (h : .shutdown ∉ cs) :
    delivered (cs ++ rest) = delivered cs ++ delivered rest := by
  rw [delivered, delivered, delivered, takeWhile_ne_append_of_notMem h, takeWhile_ne_of_notMem h,
    List.flatMap_append]

/-- After a `Shutdown` no `Send` counts. -/
theorem delivered_shut {rest : List Command} (h : .shutdown ∈ cs) :
    delivered (cs ++ rest) = delivered cs := by
  rw [delivered, delivered, takeWhile_ne_append_of_mem h]

/-- More commands deliver no less. -/
theorem delivered_mono {rest : List Command} : delivered cs <+: delivered (cs ++ rest) := by
  by_cases h : .shutdown ∈ cs
  · exact ⟨[], by rw [delivered_shut h, List.append_nil]⟩
  · rw [delivered_append h]
    exact List.prefix_append _ _

theorem delivered_singleton : delivered [c] = c.bytes := by
  cases c with
  | send message | close => simp [delivered]
  | shutdown => rfl

/-- What was said is what the commands `made` so far send; with what is left of the
callback that is running they are all that the application answers. -/
structure Says (app : Application) (d : Dialogue) (made : List Command) : Prop where
  said : d.said = delivered made
  fresh : d.state = .connecting → made = []
  spoken : d.state ≠ .disconnected → app.spoken d.events = made ++ d.left
  down : d.state = .disconnected → app.spoken d.events = made
  shut : d.isUp = true → (d.state = .disconnecting ↔ .shutdown ∈ made)

/-- While the state is not `k_disconnected`, the application has not been told that it is. -/
theorem notMem_of_orderly (h : d.Orderly) (hstate : d.state ≠ .disconnected) :
    .connection false ∉ d.events := by
  by_cases hup : d.isUp = true
  · obtain ⟨mid, hevents, hmid⟩ := h.up hup
    rw [hevents]
    intro hmem
    rcases List.mem_cons.mp hmem with heq | hmem
    · exact absurd heq (by simp)
    · exact absurd (List.all_eq_true.mp hmid _ hmem) (by simp [isTraffic])
  · have hnew : d.state = .connecting := by
      by_contra hne
      exact hup (isUp_iff.mpr ⟨hne, hstate⟩)
    simp [(h.before hnew).1]

/-- Once the state is `k_disconnected`, the application has been told. -/
theorem mem_of_orderly (h : d.Orderly) (hstate : d.state = .disconnected) :
    .connection false ∈ d.events := by
  obtain ⟨-, mid, late, hevents, -⟩ := h.down hstate
  simp [hevents]

theorem says_init : init.Says app [] where
  said := rfl
  fresh _ := rfl
  spoken _ := rfl
  down h := absurd h (by simp [init])
  shut h := absurd h (by simp [init, isUp])

/-- With no commands left over, the answer to an event is what is said next. -/
theorem Says.told (h : d.Says app made) (horderly : d.Orderly) (hleft : d.left = [])
    (hup : d.isUp = true) (hne : e ≠ .connection false) : (d.told app e).Says app made where
  said := h.said
  fresh := h.fresh
  spoken hstate := by
    have hspoken := h.spoken hstate
    rw [hleft, List.append_nil] at hspoken
    rw [Dialogue.told, spoken_told (notMem_of_orderly horderly hstate), if_neg hne, hspoken]
    rfl
  down hstate := absurd hstate (isUp_iff.mp hup).2
  shut := h.shut

/-- Nothing is said when the callback that is running changes. -/
theorem Says.script (h : d.Says app made) {script : Option Script} {received : Bytes}
    (hleft : script.elim [] Script.left = d.left) :
    { d with script := script, received := received }.Says app made where
  said := h.said
  fresh := h.fresh
  spoken hstate := by
    rw [left, hleft]
    exact h.spoken hstate
  down := h.down
  shut := h.shut

/-- A command moves from what is left to what is made. -/
theorem Says.command (h : d.Says app made) (horderly : d.Orderly)
    (hscript : d.script = some (.commands (c :: cs))) :
    ∃ made', { d.perform c with script := some (.commands cs) }.Says app made' := by
  have hspoken : d.state ≠ .disconnected → app.spoken d.events = (made ++ [c]) ++ cs := by
    intro hstate
    rw [h.spoken hstate, left, hscript]
    exact List.append_cons _ _ _
  cases hstate : d.state with
  | connecting => exact absurd (horderly.before hstate).2 (by simp [hscript])
  | connected =>
    have hshut : .shutdown ∉ made := by
      rw [← h.shut (by simp [isUp, hstate]), hstate]
      exact StateE.noConfusion
    have hsaid : (d.perform c).said = delivered (made ++ [c]) := by
      rw [delivered_append hshut, delivered_singleton, ← h.said]
      cases c with
      | send message => simp [perform, hstate, Command.bytes]
      | shutdown => simp [perform, hstate, Command.bytes]
      | close => simp [perform, Command.bytes]
    have hstate' : (d.perform c).state = if c = .shutdown then .disconnecting else .connected := by
      cases c with
      | send message | shutdown | close => simp [perform, hstate]
    refine ⟨made ++ [c], hsaid, fun hnew => ?_, fun _ => ?_, fun hdown => ?_, fun _ => ?_⟩
    · simp only [hstate'] at hnew
      split at hnew <;> exact absurd hnew (by simp)
    · rw [perform_frame.2.2]
      exact hspoken (by simp [hstate])
    · simp only [hstate'] at hdown
      split at hdown <;> exact absurd hdown (by simp)
    · simp only [hstate', List.mem_append, hshut, false_or, List.mem_singleton, eq_comm]
      split
      · next hc => simp [hc]
      · next hc => simp [hc]
  | disconnecting =>
    have hshut : .shutdown ∈ made := (h.shut (by simp [isUp, hstate])).mp hstate
    rw [perform_of_ne (by simp [hstate])]
    refine ⟨made ++ [c], ?_, fun hnew => ?_, fun _ => hspoken (by simp [hstate]), fun hdown => ?_,
      fun _ => ?_⟩
    · rw [delivered_shut hshut]
      exact h.said
    · exact absurd hnew (by simp [hstate])
    · exact absurd hdown (by simp [hstate])
    · simp [hstate, hshut]
  | disconnected =>
    rw [perform_of_ne (by simp [hstate])]
    exact ⟨made, h.said, h.fresh, fun hne => absurd hstate hne, h.down, h.shut⟩

/-- What an application has said is the answers to what it has been told, step by step. -/
theorem says_step (horderly : d.Orderly) (h : d.Says app made) (hstep : step app d a = some d') :
    ∃ made', d'.Says app made' := by
  have horderly' := orderly_step horderly hstep
  obtain ⟨hg, rfl⟩ := guarded_eq_some_iff.mp hstep
  cases a with
  | connEstablished =>
    simp only [guard, Bool.and_eq_true, decide_eq_true_eq, Option.isNone_iff_eq_none] at hg
    obtain ⟨hstate, hscript⟩ := hg
    have hevents := (horderly.before hstate).1
    obtain rfl := h.fresh hstate
    refine ⟨[], h.said, fun _ => rfl, fun _ => ?_, fun hdown => ?_, fun _ => ?_⟩
    · simp [effect, Dialogue.told, hevents, Application.spoken, left, Script.left]
    · exact absurd hdown (by simp [effect, Dialogue.told])
    · simp [effect, Dialogue.told]
  | connDestroyed =>
    simp only [guard, Bool.and_eq_true, Option.isNone_iff_eq_none] at hg
    obtain ⟨hup, hscript⟩ := hg
    have hstate := (isUp_iff.mp hup).2
    have hspoken := h.spoken hstate
    rw [left, hscript, Option.elim_none, List.append_nil] at hspoken
    refine ⟨made, h.said, fun hnew => ?_, fun hne => absurd rfl hne, fun _ => ?_, fun hup' => ?_⟩
    · exact absurd hnew (by simp [effect, Dialogue.told])
    · simp only [effect, Dialogue.told]
      rw [spoken_told (notMem_of_orderly horderly hstate), if_pos rfl, List.append_nil, hspoken]
    · exact absurd hup' (by simp [effect, Dialogue.told, isUp])
  | handleRead data =>
    simp only [guard, Bool.and_eq_true, Option.isNone_iff_eq_none] at hg
    exact ⟨made, h.script (by rw [left, hg.1.2]; rfl)⟩
  | retrieveAsString =>
    simp only [guard, decide_eq_true_eq] at hg
    have hup : d.isUp = true := by
      refine isUp_iff.mpr ⟨fun hstate => ?_, fun hstate => (horderly.down hstate).1 hg⟩
      exact absurd (horderly.before hstate).2 (by simp [hg])
    exact ⟨made, h.told horderly (by rw [left, hg]; rfl) hup (by simp)⟩
  | writeComplete =>
    simp only [guard, Bool.and_eq_true, decide_eq_true_eq, Option.isNone_iff_eq_none] at hg
    by_cases hup : d.isUp = true
    · exact ⟨made, h.told horderly (by rw [left, hg.2]; rfl) hup (by simp)⟩
    · refine ⟨made, h.said, h.fresh, fun hstate => ?_, fun hstate => ?_,
        fun hup' => absurd hup' hup⟩
      · exact absurd (isUp_iff.mpr ⟨hg.1, hstate⟩) hup
      · simp only [effect, Dialogue.told]
        rw [spoken_down (mem_of_orderly horderly hstate)]
        exact h.down hstate
  | command =>
    simp only [guard] at hg
    split at hg
    · next c cs hscript =>
      rw [effect, hscript]
      exact h.command horderly hscript
    · exact absurd hg (by simp)
  | userReturn =>
    simp only [guard, decide_eq_true_eq] at hg
    exact ⟨made, h.script (by rw [left, hg]; rfl)⟩

/-- All that the application has answered is said, as far as its callbacks have got. -/
theorem Says.all_said (h : d.Says app made) :
    d.said <+: delivered (app.spoken d.events) ∧
      (d.left = [] → d.said = delivered (app.spoken d.events)) := by
  rw [h.said]
  by_cases hstate : d.state = .disconnected
  · rw [h.down hstate]
    exact ⟨List.prefix_rfl, fun _ => rfl⟩
  · rw [h.spoken hstate]
    refine ⟨delivered_mono, fun hleft => ?_⟩
    rw [hleft, List.append_nil]

/-- From a `Shutdown` on, nothing more will be said. -/
theorem Says.said_of_shut (h : d.Says app made)
    (hstate : d.state = .disconnecting ∨ d.state = .disconnected) :
    d.said = delivered (app.spoken d.events) := by
  rw [h.said]
  rcases hstate with hstate | hstate
  · have hshut : .shutdown ∈ made := (h.shut (by simp [isUp, hstate])).mp hstate
    rw [h.spoken (by simp [hstate]), delivered_shut hshut]
  · rw [h.down hstate]

/-! ### What is heard -/

/-- `OnMessage` takes all that is there, and is called when there is something. -/
structure Hears (d : Dialogue) : Prop where
  sofar : heard d.events <+: d.received
  all : d.script ≠ some .retrieve → heard d.events = d.received
  more : d.script = some .retrieve → (heard d.events).length < d.received.length
  nonempty : .message [] ∉ d.events

theorem hears_init : init.Hears :=
  ⟨List.prefix_rfl, fun _ => rfl, fun h => absurd h (by simp [init]), List.not_mem_nil⟩

/-- With everything told, the application has heard what was received. -/
theorem hears_of_all (hall : heard d.events = d.received) (hscript : d.script ≠ some .retrieve)
    (hnonempty : .message [] ∉ d.events) : d.Hears :=
  ⟨hall ▸ List.prefix_rfl, fun _ => hall, fun h => absurd h hscript, hnonempty⟩

/-- A callback that takes nothing. -/
theorem Hears.told (h : d.Hears) (hscript : d.script = none) (he : e.data = [])
    (hmessage : e ≠ .message []) : (d.told app e).Hears := by
  refine hears_of_all ?_ (by simp [Dialogue.told]) ?_
  · rw [Dialogue.told, heard_told, he, List.append_nil]
    exact h.all (by simp [hscript])
  · intro hmem
    rcases List.mem_append.mp hmem with hold | hnew
    · exact h.nonempty hold
    · exact hmessage (List.mem_singleton.mp hnew).symm

/-- What the application is told are the received bytes, in order, step by step. -/
theorem hears_step (h : d.Hears) (hstep : step app d a = some d') : d'.Hears := by
  obtain ⟨hg, rfl⟩ := guarded_eq_some_iff.mp hstep
  cases a with
  | connEstablished | connDestroyed =>
    simp only [guard, Bool.and_eq_true, Option.isNone_iff_eq_none] at hg
    exact Hears.told ⟨h.sofar, h.all, h.more, h.nonempty⟩ hg.2 rfl (by simp)
  | handleRead data =>
    simp only [guard, Bool.and_eq_true, Option.isNone_iff_eq_none, decide_eq_true_eq] at hg
    refine ⟨h.sofar.trans (List.prefix_append _ _), fun hne => absurd rfl hne, fun _ => ?_,
      h.nonempty⟩
    rw [effect, h.all (by simp [hg.1.2]), List.length_append]
    exact Nat.lt_add_of_pos_right (List.length_pos_iff.mpr hg.2)
  | retrieveAsString =>
    simp only [guard, decide_eq_true_eq] at hg
    refine hears_of_all ?_ (by simp [effect, told]) fun hmem => ?_
    · rw [effect, told, heard_told]
      exact List.prefix_iff_eq_append.mp h.sofar
    · rcases List.mem_append.mp hmem with hold | hnew
      · exact h.nonempty hold
      · have hempty : d.unheard = [] := (Event.message.inj (List.mem_singleton.mp hnew)).symm
        exact absurd (h.more hg) (Nat.not_lt.mpr (List.drop_eq_nil_iff.mp hempty))
  | writeComplete =>
    simp only [guard, Bool.and_eq_true, Option.isNone_iff_eq_none] at hg
    exact h.told hg.2 rfl (by simp)
  | command =>
    simp only [guard] at hg
    split at hg
    · next c cs hscript =>
      have hall := h.all (by simp [hscript])
      rw [effect, hscript]
      refine hears_of_all ?_ (by simp) ?_
      · simp only [perform_frame]
        exact hall
      · simp only [perform_frame]
        exact h.nonempty
    · exact absurd hg (by simp)
  | userReturn =>
    simp only [guard, decide_eq_true_eq] at hg
    exact hears_of_all (h.all (by simp [hg])) (by simp [effect]) h.nonempty

/-- Every dialogue. -/
theorem says_of_run {bs : List Action} (hrun : run (step app) init bs = some d) :
    d.Orderly ∧ d.Hears ∧ ∃ made, d.Says app made := by
  refine (reach_of_run hrun).invariant (I := fun d => d.Orderly ∧ d.Hears ∧ ∃ made, d.Says app made)
    ⟨orderly_init, hears_init, [], says_init⟩ ?_
  rintro _ d a d' - ⟨horderly, hhears, made, hanswers⟩ - hstep
  exact ⟨orderly_step horderly hstep, hears_step hhears hstep, says_step horderly hanswers hstep⟩

end Dialogue
end Bbkgl
