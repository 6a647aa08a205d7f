import Bbkgl.Net.TcpServerLifetime
import Bbkgl.Net.TcpServerOwners

/-!
# Inside SendInLoop and ShutdownInLoop

`step` executes a functor at once. Here a functor with a bare `this` takes two steps,
with steps of the other threads in between: `enter` goes up to `assert(nwrote >= 0)`,
and `leave` is the rest. It stays in its batch until it has returned. So a pointer may
be dropped, and the object may go, while a method of it is under way.

Every run of `step` is one of these runs. What covers a queued functor covers it until
it has returned.
-/

set_option autoImplicit false

namespace Bbkgl
namespace TcpServer

open CS CS.Fallible CS.Transition TcpConnection

/-- What a loop's thread is inside of, and what `write()` has not accepted of its message. -/
structure Executing where
  functor : Functor
  rest : Bytes
  deriving DecidableEq, Repr

/-- The server, and the methods that the loops are in the middle of. -/
structure InLoop where
  server : State
  inside : LoopId → Option Executing

namespace InLoop

/-- No loop is inside a method. -/
def init : InLoop := ⟨.init, fun _ => none⟩

/-- The actions of the server, with the functors of `SendInLoop` and `ShutdownInLoop` in two
parts. -/
inductive Action
  | server (a : TcpServer.Action)
  /-- the functor that is next is entered, and `SendInLoop` makes its `write()` -/
  | enter (i : LoopId) (wr : WriteResult)
  /-- the rest of it -/
  | leave (i : LoopId)
  deriving DecidableEq, Repr

/-- The functor that a loop is to execute next, or is executing. -/
def next (s : State) (i : LoopId) : Option Functor := (s.loops i).functors.rest.head?

/-- The functor has a bare `this`. -/
def isMethod : Functor → Bool
  | .sendInLoop _ _ _ | .shutdownInLoop _ => true
  | _ => false

/-- The loop is not inside such a method. -/
def outside (s : InLoop) (i : LoopId) : Bool := (s.inside i).isNone

/-- When an action can be taken; a thread that is inside a method takes no other. -/
def guard (cfg : Config) (s : InLoop) : Action → Bool
  | .server a => TcpServer.guard cfg s.server a &&
      (Lifetime.thread s.server a).all (outside s) &&
      !(runs s.server a).any isMethod
  | .enter i wr => TcpServer.guard cfg s.server (.runFunctor i wr) && outside s i &&
      (next s.server i).any isMethod
  | .leave i => !outside s i

/-- `SendInLoop` up to `assert(nwrote >= 0)`, with what is left of the message.
`ShutdownInLoop` has not looked at the channel yet. -/
def enter (s : State) (wr : WriteResult) : Functor → Except Fault (State × Bytes)
  | .sendInLoop c who message => do
    let t ← method s c .functor fun l => .ok (l.tryWrite c who message wr)
    return (t, message.drop (Local.nwrote (s.conns c) wr))
  | .shutdownInLoop c => do
    touch s c .functor
    return (s, [])
  | _ => .ok (s, [])

/-- The rest of the functor. -/
def leave (s : State) (rest : Bytes) : Functor → Except Fault State
  | .sendInLoop c _ _ =>
    if 0 < rest.length then method s c .functor (Local.keepRest c rest) else .ok s
  | .shutdownInLoop c => method s c .functor fun l => .ok l.shutdownInLoop
  | _ => .ok s

/-- The functor has returned. -/
def advance (s : State) (i : LoopId) : State :=
  setFunctors s i (s.loops i).functors.advance

/-- What an action does. -/
def effect (cfg : Config) (s : InLoop) : Action → Except Fault InLoop
  | .server a => do
    let t ← TcpServer.effect cfg s.server a
    return { s with server := t }
  | .enter i wr => match next s.server i with
    | none => .ok s
    | some f => do
      let p ← enter s.server wr f
      return ⟨p.1, Function.update s.inside i (some ⟨f, p.2⟩)⟩
  | .leave i => match s.inside i with
    | none => .ok s
    | some v => do
      let t ← leave s.server v.rest v.functor
      return ⟨advance t i, Function.update s.inside i none⟩

/-- The state after an action, or the fault that it has met. -/
def commit (cfg : Config) (s : InLoop) (a : Action) : InLoop :=
  match effect cfg s a with
  | .ok t => t
  | .error f => { s with server.fault := some f }

/-- One step; none after a fault. -/
def step (cfg : Config) : InLoop → Action → Option InLoop :=
  guarded (fun s a => s.server.fault.isNone && guard cfg s a) (commit cfg)

/-- A condition on the steps of the server. -/
def onServer (p : State → TcpServer.Action → Bool) (s : InLoop) : Action → Bool
  | .server a => p s.server a
  | .enter _ _ | .leave _ => true

/-- No thread is inside a functor. -/
def ofServer (s : State) : InLoop := ⟨s, fun _ => none⟩

variable {cfg : Config} {s t : InLoop} {u v : State} {i j : LoopId} {c : ConnId} {f : Functor}
  {a : Action} {b : TcpServer.Action} {wr : WriteResult} {l l' : Local} {rest : Bytes}

/-! ### With nothing in between -/

/-- Taking the head out of a batch and queueing more can change places. -/
theorem advance_foldl_push {m : Mailbox Functor} {fs : List Functor} :
    (fs.foldl Mailbox.push m).advance = fs.foldl Mailbox.push m.advance := by
  induction fs generalizing m with
  | nil => rfl
  | cons f fs ih => rw [List.foldl_cons, List.foldl_cons, ih]; rfl

theorem localOf_advance : localOf (advance u i) c = localOf u c := by
  simp only [localOf, advance, setFunctors, loops_setLoop]
  congr 1
  show Loop.poller (if own u c = i then _ else _) = _
  split
  · next h => rw [h]
  · rfl

/-- The end of a method and the end of its functor can change places. -/
theorem advance_putLocal :
    advance (putLocal u c l) (own u c) = putLocal (advance u (own u c)) c l := by
  simp [advance, putLocal, setFunctors, setLoop, advance_foldl_push, Function.update_idem]

/-- Two halves of a method, put back one after the other. -/
theorem putLocal_putLocal (hloop : l.conn.loop = own u c) :
    putLocal (putLocal u c l) c { l' with queued := [] } =
      putLocal u c { l' with queued := l.queued } := by
  have hown : own (putLocal u c l) c = own u c := by
    rw [own, conns_putLocal, if_pos rfl, hloop]
  rw [putLocal, hown]
  simp [putLocal, setLoop, Function.update_idem]

/-- An `Append` does not look at what is queued. -/
theorem append_queued (h : l.append rest = .ok l') (fs : List Functor) :
    Local.append rest { l with queued := fs } = .ok { l' with queued := fs } ∧
      l'.queued = l.queued := by
  rw [Local.append] at h ⊢
  split at h
  · next output hout =>
    obtain rfl := Except.ok.inj h
    rw [hout]
    exact ⟨rfl, rfl⟩
  · exact absurd h (by simp)

/-- An update of the channel does not look at what is queued. -/
theorem update_queued {ch : Channel} (h : l.update c ch = .ok l') (fs : List Functor) :
    Local.update c ch { l with queued := fs } = .ok { l' with queued := fs } ∧
      l'.queued = l.queued := by
  obtain ⟨poller, index, hupdate, rfl⟩ := Local.update_ok h
  rw [Local.update, hupdate]
  exact ⟨rfl, rfl⟩

/-- `Append` and `EnableWriting` queue nothing. -/
theorem keepRest_queued (h : l.keepRest c rest = .ok l') (fs : List Functor) :
    Local.keepRest c rest { l with queued := fs } = .ok { l' with queued := fs } ∧
      l'.queued = l.queued := by
  obtain ⟨m, hm, h⟩ := bind_eq_ok_iff.mp h
  obtain ⟨happend, hqueued⟩ := append_queued hm fs
  rw [Local.keepRest, bind_eq_ok_iff]
  split at h
  · next hwriting =>
    obtain ⟨hupdate, hqueued'⟩ := update_queued h fs
    exact ⟨⟨_, happend, (if_pos hwriting).trans hupdate⟩, hqueued'.trans hqueued⟩
  · next hwriting =>
    obtain rfl := pure_eq_ok_iff.mp h
    exact ⟨⟨_, happend, if_neg hwriting⟩, hqueued⟩

theorem localOf_putLocal (hloop : l.conn.loop = own u c) :
    localOf (putLocal u c l) c = { l with queued := [] } := by
  have hconn : (putLocal u c l).conns c = l.conn := conns_putLocal.trans (if_pos rfl)
  have hown : own (putLocal u c l) c = own u c := by rw [own, hconn, hloop]
  rw [localOf, hconn, hown, poller_putLocal, if_pos rfl]

/-- A functor that no other step comes into does what the server does in one step. -/
theorem leave_of_runFunctor (hmethod : isMethod f = true) (hplaced : FunctorPlaced u i f)
    (hok : runFunctor (advance u i) i wr f = .ok v) :
    ∃ p, enter u wr f = .ok p ∧ ∃ w, leave p.1 p.2 f = .ok w ∧ advance w i = v := by
  cases f with
  | sendInLoop c who message =>
    obtain ⟨⟨-, rfl⟩, -⟩ := hplaced
    obtain ⟨halive, l, hl, rfl⟩ := method_eq_ok_iff.mp hok
    rw [localOf_advance] at hl
    have halive : (u.conns c).alive = true := halive
    have hentered : enter u wr (.sendInLoop c who message) =
        .ok (putLocal u c ((localOf u c).tryWrite c who message wr),
          message.drop (Local.nwrote (u.conns c) wr)) := by
      rw [enter, bind_eq_ok_iff]
      exact ⟨_, method_eq_ok_iff.mpr ⟨halive, _, rfl, rfl⟩, rfl⟩
    refine ⟨_, hentered, ?_⟩
    have hparts : Local.Parts c (localOf u c) ((localOf u c).tryWrite c who message wr) :=
      Local.parts_tryWrite
    have hfixed := Local.Parts.fixed hparts
    simp only [Local.sendInLoop] at hl
    split at hl
    · next hrest =>
      have hpos : 0 < (message.drop (Local.nwrote (u.conns c) wr)).length := by
        rw [List.length_drop]
        exact Nat.sub_pos_of_lt hrest
      obtain ⟨hkeep, hqueued⟩ := keepRest_queued hl []
      have hlocal := localOf_putLocal hfixed.loop
      refine ⟨putLocal (putLocal u c ((localOf u c).tryWrite c who message wr)) c
        { l with queued := [] }, ?_, ?_⟩
      · rw [leave, if_pos hpos, method_eq_ok_iff, hlocal]
        refine ⟨?_, _, hkeep, rfl⟩
        rw [conns_putLocal, if_pos rfl, hfixed.alive]
        exact halive
      · rw [putLocal_putLocal hfixed.loop, ← hqueued, advance_putLocal]
    · next hall =>
      obtain rfl := Except.ok.inj hl
      have hnil : ¬ 0 < (message.drop (Local.nwrote (u.conns c) wr)).length := by
        rw [List.length_drop]
        exact fun h => hall (Nat.lt_of_sub_pos h)
      exact ⟨_, by rw [leave, if_neg hnil], advance_putLocal⟩
  | shutdownInLoop c =>
    obtain ⟨-, rfl⟩ := hplaced
    have hok : method (advance u (own u c)) c .functor (fun l => .ok l.shutdownInLoop) = .ok v :=
      hok
    obtain ⟨halive, l, hl, rfl⟩ := method_eq_ok_iff.mp hok
    rw [localOf_advance] at hl
    have halive : (u.conns c).alive = true := halive
    have hentered : enter u wr (.shutdownInLoop c) = .ok (u, []) := by
      rw [enter, touch, check_bind_eq_ok_iff]
      exact ⟨halive, rfl⟩
    refine ⟨_, hentered, putLocal u c l, ?_, advance_putLocal⟩
    rw [leave, method_eq_ok_iff]
    exact ⟨halive, l, hl, rfl⟩
  | _ => exact absurd hmethod (by simp [isMethod])

theorem fault_of_enter {p : State × Bytes} (h : enter u wr f = .ok p) : p.1.fault = u.fault := by
  cases f with
  | sendInLoop c who message =>
    obtain ⟨t, ht, h⟩ := bind_eq_ok_iff.mp h
    obtain ⟨-, l, -, rfl⟩ := method_eq_ok_iff.mp ht
    rw [← pure_eq_ok_iff.mp h]
    rfl
  | shutdownInLoop c =>
    obtain ⟨-, h⟩ := check_bind_eq_ok_iff.mp h
    rw [← pure_eq_ok_iff.mp h]
  | _ => rw [← Except.ok.inj h]

/-- A step that has its effect is taken. -/
theorem step_of_effect (hfault : s.server.fault = none) (hg : guard cfg s a = true)
    (hok : effect cfg s a = .ok t) : step cfg s a = some t :=
  guarded_eq_some_iff.mpr ⟨by simp [hfault, hg], by rw [commit, hok]⟩

/-- A step that runs a method takes it from the head of a batch. -/
theorem runs_isMethod (h : (runs u b).any isMethod = true) :
    ∃ i wr f, b = .runFunctor i wr ∧ next u i = some f ∧ isMethod f = true := by
  obtain ⟨f, hruns, hf⟩ := (Option.any_eq_true _ _).mp h
  cases b with
  | runFunctor i wr => exact ⟨i, wr, f, rfl, hruns, hf⟩
  | _ => exact absurd hruns (by simp [runs])

/-- What the server does in one step is done here in one or two. -/
theorem steps_of_step {p : State → TcpServer.Action → Bool} (hplaced : Placed cfg u)
    (hp : p u b = true) (hstep : TcpServer.step cfg u b = some v) (hfault : v.fault = none) :
    ∃ bs, Reach (step cfg) (fun s a => onServer p s a = true) (ofServer u) bs (ofServer v) := by
  obtain ⟨hnone, hg, hok | ⟨e, -, rfl⟩⟩ := step_cases hstep
  · by_cases hmethod : (runs u b).any isMethod = true
    · obtain ⟨i, wr, f, rfl, hnext, hf⟩ := runs_isMethod hmethod
      obtain ⟨fs, hrest⟩ := List.head?_eq_some_iff.mp hnext
      simp only [TcpServer.effect, hrest] at hok
      have hfplaced := hplaced.functors i f (mem_todo_of_rest hrest)
      obtain ⟨q, hentered, w, hleft, rfl⟩ := leave_of_runFunctor hf hfplaced hok
      obtain ⟨m, hm⟩ : ∃ m : InLoop, m = ⟨q.1, Function.update (ofServer u).inside i
        (some ⟨f, q.2⟩)⟩ := ⟨_, rfl⟩
      have hinside : m.inside i = some ⟨f, q.2⟩ := by
        rw [hm]
        exact Function.update_self i _ _
      have henter : step cfg (ofServer u) (.enter i wr) = some m := by
        refine step_of_effect hnone ?_ ?_
        · simp [guard, ofServer, outside, hg, hnext, hf]
        · simp only [effect, ofServer, hnext, hentered]
          exact congrArg Except.ok hm.symm
      have hleave : step cfg m (.leave i) = some (ofServer (advance w i)) := by
        refine step_of_effect ?_ ?_ ?_
        · rw [hm]
          exact (fault_of_enter hentered).trans hnone
        · simp [guard, outside, hinside]
        · have hout : Function.update m.inside i none = fun _ => none := by
            rw [hm]
            funext j
            by_cases hj : j = i
            · simp [hj]
            · simp [hj, ofServer]
          have hserver : m.server = q.1 := hm ▸ rfl
          simp only [effect, hinside, hserver, hleft, hout]
          rfl
      exact ⟨_, .snoc (.snoc .nil rfl henter) rfl hleave⟩
    · refine ⟨[.server b], .snoc .nil hp (step_of_effect hnone ?_ ?_)⟩
      · have hthread : (Lifetime.thread u b).all (outside (ofServer u)) = true := by
          cases Lifetime.thread u b <;> rfl
        have hmethod : (runs u b).any isMethod = false := by simpa using hmethod
        simp only [guard, ofServer, hg, hmethod, Bool.true_and, Bool.not_false, Bool.and_true]
        exact hthread
      · simp only [effect, ofServer, hok]
        rfl
  · exact absurd hfault (by simp)

/-- Every run of the server is a run in which no other step comes into a functor. -/
theorem reach_ofServer {p : State → TcpServer.Action → Bool} {bs : List TcpServer.Action}
    (hrun : Reach (TcpServer.step cfg) (fun s b => p s b = true) State.init bs u)
    (hfault : u.fault = none) :
    ∃ as, Reach (step cfg) (fun s a => onServer p s a = true) init as (ofServer u) := by
  induction hrun with
  | nil => exact ⟨[], .nil⟩
  | @snoc bs b u v hprefix hp hstep ih =>
    obtain ⟨as, hrun⟩ := ih (step_cases hstep).1
    obtain ⟨as', hsteps⟩ := steps_of_step (placed_of_reach hprefix) hp hstep hfault
    exact ⟨as ++ as', hrun.append hsteps⟩

/-! ### What a functor finds -/

/-- What is executed is at the front of its batch, and every functor is covered, from when
it is queued until it has returned. -/
structure Sheltering (cfg : Config) (s : InLoop) : Prop where
  placed : Placed cfg s.server
  covered : ∀ c, Covered s.server c
  inside : ∀ i v, s.inside i = some v → next s.server i = some v.functor ∧
    isMethod v.functor = true ∧ v.rest.length ≤ Buffer.maxSize

theorem sheltering_init : Sheltering cfg init where
  placed := placed_init
  covered _ := covered_of_not_mem fun _ hf => absurd hf List.not_mem_nil
  inside _ _ h := absurd h (by simp [init])

theorem rest_setFunctors {q : Mailbox Functor} (hq : j = i → q.rest = (u.loops i).functors.rest) :
    ((setFunctors u i q).loops j).functors.rest = (u.loops j).functors.rest := by
  rw [setFunctors, loops_setLoop]
  split
  · next h => rw [h]; exact hq h
  · rfl

theorem rest_push : ((push u i f).loops j).functors.rest = (u.loops j).functors.rest :=
  rest_setFunctors fun _ => rfl

theorem rest_setLoop {g : Loop → Loop} (hg : (g (u.loops i)).functors = (u.loops i).functors) :
    ((setLoop u i g).loops j).functors.rest = (u.loops j).functors.rest := by
  rw [loops_setLoop]
  split
  · next h => rw [h, hg]
  · rfl

theorem rest_putLocal : ((putLocal u c l).loops j).functors.rest = (u.loops j).functors.rest := by
  rw [putLocal]
  simp only [loops_setLoop]
  split
  · next h => rw [h]; exact foldl_push_rest
  · rfl

/-- The batch of a loop is its own thread's. -/
theorem rest_of_opens {m : State} (h : Opens cfg u b m) (hthread : Lifetime.thread u b ≠ some j) :
    (m.loops j).functors.rest = (u.loops j).functors.rest := by
  cases h with
  | poll | userReturn | destroy => exact rest_setLoop rfl
  | handleEvent | endEvent =>
    rw [setPhase]
    exact rest_setLoop rfl
  | handleClose | handleError | handleWrite | handleRead =>
    have hwalk : ∀ i, ((nextCallback u i).loops j).functors.rest = (u.loops j).functors.rest := by
      intro i
      rw [nextCallback]
      split
      · exact rest_setLoop rfl
      · rfl
    exact hwalk _
  | doPendingFunctors i | finishFunctors i =>
    have hj : j ≠ i := fun h => hthread (by rw [h]; rfl)
    rw [setPhase, rest_setLoop rfl]
    exact rest_setFunctors fun h => absurd h hj
  | runFunctor i wr f fs =>
    have hj : j ≠ i := fun h => hthread (by rw [h]; rfl)
    exact rest_setFunctors fun h => absurd h hj
  | proceed who call =>
    cases call with
    | send | shutdownSet => exact rest_push
    | shutdownChecked => rfl
  | newConnection | closeTimer | inputBuffer | keep | drop | call => rfl

/-- What a step does in between leaves the batches alone. -/
theorem rest_of_works {m m' : State} (h : Works cfg u b m m') :
    (m'.loops j).functors.rest = (m.loops j).functors.rest := by
  cases h with
  | push => exact rest_push
  | setConn | setCall => rfl
  | method => exact rest_putLocal

/-- What it does in the end leaves them alone. -/
theorem rest_of_ends {m : State} (h : Ends cfg u b m v) :
    (v.loops j).functors.rest = (m.loops j).functors.rest := by
  rw [Ends] at h
  split at h
  · rw [removeConnectionInLoop_eq_ok h]
    exact rest_push
  · rw [h]
    cases enters cfg u b with
    | none => rfl
    | some p =>
      rw [pushes, enterUser]
      exact rest_setLoop rfl

/-- A step of another thread does not take the functor away. -/
theorem next_of_effect
    (hg : TcpServer.guard cfg u b = true) (hok : TcpServer.effect cfg u b = .ok v)
    (hthread : Lifetime.thread u b ≠ some j) : next v j = next u j := by
  have hrest : (v.loops j).functors.rest = (u.loops j).functors.rest := by
    refine anatomy_invariant (I := fun m => (m.loops j).functors.rest = (u.loops j).functors.rest)
      hg hok ?_ ?_ ?_
    · exact fun hopens => rest_of_opens hopens hthread
    · exact fun h hworks => (rest_of_works hworks).trans h
    · exact fun h hends => (rest_of_ends hends).trans h
  rw [next, next, hrest]

/-- A step of the server keeps the executing methods sheltered. -/
theorem sheltering_server (h : Sheltering cfg s) (hfault : s.server.fault = none)
    (hkeeps : TcpServer.keepsOwners cfg s.server b = true) (hg : guard cfg s (.server b) = true)
    (hok : TcpServer.effect cfg s.server b = .ok v) : Sheltering cfg { s with server := v } := by
  simp only [guard, Bool.and_eq_true] at hg
  obtain ⟨⟨hg, hthread⟩, -⟩ := hg
  have hstep : TcpServer.step cfg s.server b = some v :=
    guarded_eq_some_iff.mpr ⟨by simp [hfault, hg], by rw [TcpServer.commit, hok]⟩
  refine ⟨placed_step h.placed hstep, covered_effect h.placed h.covered hkeeps hg hok,
    fun i w hw => ?_⟩
  obtain ⟨hnext, hw'⟩ := h.inside i w hw
  refine ⟨?_, hw'⟩
  rw [next_of_effect hg hok]
  · exact hnext
  -- the thread that is inside does nothing else
  · intro hi
    rw [hi, Option.all_some, outside, hw] at hthread
    exact absurd hthread (by simp)

/-- A part of a method of `c`, by the thread of its loop. -/
theorem sheltering_putLocal {g : Connection → Connection} (h : Sheltering cfg s)
    (halive : (s.server.conns c).alive = true)
    (hacts : Local.Acts c (localOf s.server c) l g)
    (hparts : Local.Parts c (localOf s.server c) l) :
    Sheltering cfg { s with server := putLocal s.server c l } where
  placed := (touches_putLocal h.placed halive hacts).placed
  covered d := (h.covered d).spares (spares_putLocal hparts)
  inside i w hw := by
    obtain ⟨hnext, hw'⟩ := h.inside i w hw
    refine ⟨?_, hw'⟩
    rw [next, rest_putLocal]
    exact hnext

/-- The next functor is in its place. -/
theorem placed_next (h : Sheltering cfg s) (hnext : next s.server i = some f) :
    FunctorPlaced s.server i f := by
  obtain ⟨fs, hrest⟩ := List.head?_eq_some_iff.mp hnext
  exact h.placed.functors i f (mem_todo_of_rest hrest)

/-- A method that begins is sheltered. -/
theorem sheltering_enter (h : Sheltering cfg s) (hnext : next s.server i = some f)
    (hmethod : isMethod f = true) {p : State × Bytes} (hok : enter s.server wr f = .ok p) :
    Sheltering cfg ⟨p.1, Function.update s.inside i (some ⟨f, p.2⟩)⟩ := by
  have hplaced := placed_next h hnext
  have hentered : Sheltering cfg { s with server := p.1 } ∧ next p.1 i = some f ∧
      p.2.length ≤ Buffer.maxSize := by
    cases f with
    | sendInLoop c who message =>
      obtain ⟨t, ht, hok⟩ := bind_eq_ok_iff.mp hok
      obtain rfl := pure_eq_ok_iff.mp hok
      obtain ⟨halive, l, hl, rfl⟩ := method_eq_ok_iff.mp ht
      obtain rfl := Except.ok.inj hl
      refine ⟨sheltering_putLocal h halive (Local.tryWrite_acts (h.placed.wf c))
        Local.parts_tryWrite, ?_, ?_⟩
      · rw [next, rest_putLocal]
        exact hnext
      · rw [List.length_drop]
        exact Nat.le_trans (Nat.sub_le _ _) hplaced.2
    | shutdownInLoop c =>
      obtain ⟨-, hok⟩ := check_bind_eq_ok_iff.mp hok
      obtain rfl := pure_eq_ok_iff.mp hok
      exact ⟨h, hnext, Nat.zero_le _⟩
    | _ => exact absurd hmethod (by simp [isMethod])
  obtain ⟨hs, hnext', hlen⟩ := hentered
  refine ⟨hs.placed, hs.covered, fun j w hw => ?_⟩
  have hw : Function.update s.inside i (some ⟨f, p.2⟩) j = some w := hw
  by_cases hj : j = i
  · subst hj
    rw [Function.update_self] at hw
    obtain rfl := Option.some_inj.mp hw
    exact ⟨hnext', hmethod, hlen⟩
  · rw [Function.update_of_ne hj] at hw
    exact hs.inside j w hw

/-- A method that ends gives its shelter back. -/
theorem sheltering_leave (h : Sheltering cfg s) {w : Executing} (hw : s.inside i = some w)
    (hok : leave s.server w.rest w.functor = .ok u) :
    Sheltering cfg ⟨advance u i, Function.update s.inside i none⟩ := by
  obtain ⟨hnext, hmethod, hlen⟩ := h.inside i w hw
  obtain ⟨f, rest⟩ := w
  have hleft : Sheltering cfg { s with server := u } := by
    cases f with
    | sendInLoop c who message =>
      simp only [leave] at hok
      split at hok
      · obtain ⟨halive, l, hl, rfl⟩ := method_eq_ok_iff.mp hok
        exact sheltering_putLocal h halive (Local.keepRest_acts (h.placed.wf c) hlen hl)
          (Local.parts_of_keepRest hl)
      · obtain rfl := Except.ok.inj hok
        exact h
    | shutdownInLoop c =>
      have hok : method s.server c .functor (fun l => .ok l.shutdownInLoop) = .ok u := hok
      obtain ⟨halive, l, hl, rfl⟩ := method_eq_ok_iff.mp hok
      obtain rfl := Except.ok.inj hl
      exact sheltering_putLocal h halive (Local.shutdownInLoop_acts (h.placed.wf c))
        Local.parts_shutdownInLoop
    | _ => exact absurd hmethod (by simp [isMethod])
  obtain ⟨fs, hrest⟩ := List.head?_eq_some_iff.mp (hleft.inside i _ hw).1
  refine ⟨hleft.placed.advance hrest, fun c => ?_, fun j v hv => ?_⟩
  · refine covered_advance (hleft.covered c) hrest ?_
    rintro rfl
    exact absurd hmethod (by simp [isMethod])
  · have hv : Function.update s.inside i none j = some v := hv
    by_cases hj : j = i
    · subst hj
      rw [Function.update_self] at hv
      exact absurd hv (by simp)
    · rw [Function.update_of_ne hj] at hv
      obtain ⟨hnext', hv'⟩ := hleft.inside j v hv
      refine ⟨?_, hv'⟩
      rw [next, advance, rest_setFunctors fun h => absurd h hj]
      exact hnext'

/-- While the condition is met, every executing method is sheltered. -/
theorem sheltering_of_reach {as : List Action}
    (hrun :
      Reach (step cfg) (fun s a => onServer (TcpServer.keepsOwners cfg) s a = true) init as s) :
    Sheltering cfg s := by
  refine hrun.invariant sheltering_init ?_
  intro bs s a t _ h hkeeps hstep
  obtain ⟨hg, rfl⟩ := guarded_eq_some_iff.mp hstep
  simp only [Bool.and_eq_true, Option.isNone_iff_eq_none] at hg
  obtain ⟨hfault, hg⟩ := hg
  rw [commit]
  split
  · next t hok =>
    cases a with
    | server b =>
      obtain ⟨u, hu, hok⟩ := bind_eq_ok_iff.mp hok
      obtain rfl := pure_eq_ok_iff.mp hok
      exact sheltering_server h hfault hkeeps hg hu
    | enter i wr =>
      simp only [effect] at hok
      split at hok
      · obtain rfl := Except.ok.inj hok
        exact h
      · next f hnext =>
        obtain ⟨p, hp, hok⟩ := bind_eq_ok_iff.mp hok
        obtain rfl := pure_eq_ok_iff.mp hok
        simp only [guard, Bool.and_eq_true, hnext, Option.any_some] at hg
        exact sheltering_enter h hnext hg.2 hp
    | leave i =>
      simp only [effect] at hok
      split at hok
      · obtain rfl := Except.ok.inj hok
        exact h
      · next w hw =>
        obtain ⟨u, hu, hok⟩ := bind_eq_ok_iff.mp hok
        obtain rfl := pure_eq_ok_iff.mp hok
        exact sheltering_leave h hw hu
  · exact ⟨⟨h.placed.fresh, h.placed.own_mem, h.placed.next, h.placed.functors, h.placed.calls,
      h.placed.wf, h.placed.batch⟩, h.covered, h.inside⟩

/-- A `SendInLoop` or `ShutdownInLoop` that a loop is about to execute, or is executing,
has somebody who owns the connection. -/
theorem owned_of_executing {as : List Action}
    (hrun : Reach (step cfg) (fun s a => onServer (TcpServer.keepsOwners cfg) s a = true) init as s)
    (hf : next s.server i = some f ∨ (s.inside i).any (fun v => v.functor = f) = true)
    (hbare : isBare c f = true) : owned cfg s.server c = true := by
  have h := sheltering_of_reach hrun
  have hnext : next s.server i = some f := by
    rcases hf with hnext | hinside
    · exact hnext
    · obtain ⟨v, hv, heq⟩ := (Option.any_eq_true _ _).mp hinside
      rw [(h.inside i v hv).1, of_decide_eq_true heq]
  have hplaced := placed_next h hnext
  have hf : c < s.server.nextObj ∧ own s.server c = i := by
    cases f with
    | sendInLoop d who message =>
      obtain rfl : d = c := by simpa [isBare] using hbare
      exact hplaced.1
    | shutdownInLoop d =>
      obtain rfl : d = c := by simpa [isBare] using hbare
      exact hplaced
    | _ => simp [isBare] at hbare
  obtain ⟨hc, rfl⟩ := hf
  obtain ⟨fs, hrest⟩ := List.head?_eq_some_iff.mp hnext
  refine owned_of_covered h.placed hc (h.covered c) ⟨f, ?_, hbare⟩
  rw [queue, hrest]
  exact List.mem_cons_self

/-! ### Runs -/

/-- A `Send` has found `k_connected` when the peer closes, and its `SendInLoop` is
queued behind `ConnDestroyed`. The user still has the pointer when it is executed. -/
def sentLate : List TcpServer.Action :=
  established ++ [.send (.user 0) 0 [1, 2] none, .poll 1 [(0, pollIn)], .handleEvent 1,
    .handleRead 1 (some []), .endEvent 1] ++ removedAndDestroyed ++
    [.proceed (.user 0), .poll 1 [], .doPendingFunctors 1]

/-- `write()` has accepted one byte of two. -/
def sending : List Action := sentLate.map .server ++ [.enter 1 (some 1)]

/-- The first half of a `SendInLoop` is over, and its connection has an owner. -/
theorem owned_of_executing_sending :
    ∃ s, run (step oneThread) init sending = some s ∧
      s.inside 1 = some ⟨.sendInLoop 0 (.user 0) [1, 2], [2]⟩ ∧
      owned oneThread s.server 0 = true := by
  have hend : (runIf (step oneThread)
      (fun s a => onServer (TcpServer.keepsOwners oneThread) s a = true) init sending).map
        (fun s => s.inside 1) = some (some ⟨.sendInLoop 0 (.user 0) [1, 2], [2]⟩) := by
    decide +kernel
  obtain ⟨s, hs, hinside⟩ := Option.map_eq_some_iff.mp hend
  have hrun := reach_of_runIf hs
  have hexecuting : (s.inside 1).any (fun v => v.functor = .sendInLoop 0 (.user 0) [1, 2]) =
      true := by rw [hinside]; rfl
  exact ⟨s, hrun.run_eq, hinside, owned_of_executing hrun (Or.inr hexecuting) rfl⟩

/-- The same, but the user drops the pointer when `Send` has returned. -/
def droppedLate : List TcpServer.Action :=
  established ++ [.send (.user 0) 0 [1, 2] none, .poll 1 [(0, pollIn)], .handleEvent 1,
    .handleRead 1 (some []), .endEvent 1] ++ removedAndDestroyed ++
    [.proceed (.user 0), .drop 0, .poll 1 [], .doPendingFunctors 1]

/-- Nobody owns the connection whose `SendInLoop` is next, or is executed when the user
drops the pointer. The object may then be gone before `SendInLoop` touches it. -/
theorem not_owned_of_droppedLate :
    (run (step oneThread) init (droppedLate.map .server)).map (fun s =>
      (next s.server 1, owned oneThread s.server 0)) =
        some (some (.sendInLoop 0 (.user 0) [1, 2]), false) ∧
    (run (step oneThread) init (sending ++ [.server (.drop 0)])).map (fun s =>
      (s.inside 1, owned oneThread s.server 0)) =
        some (some ⟨.sendInLoop 0 (.user 0) [1, 2], [2]⟩, false) ∧
    (run (step oneThread) init
      (droppedLate.map .server ++ [.server (.destroy 0), .enter 1 none])).map
        (fun s => s.server.fault) = some (some (.useAfterFree .functor)) ∧
    (run (step oneThread) init
      (sending ++ [.server (.drop 0), .server (.destroy 0), .leave 1])).map
        (fun s => s.server.fault) = some (some (.useAfterFree .functor)) := by
  decide +kernel

end InLoop
end TcpServer
end Bbkgl
