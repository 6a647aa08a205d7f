import Bbkgl.Net.EventLoopThread

/-!
# The start of an EventLoopThread

Members are initialised in the order of their declaration, and `thread_` is declared
before `mutex_` and `cond_`. The new thread runs from the moment `thread_` is
initialised, so that `ThreadFunc` may lock a mutex that the constructor has yet to
initialise, and hold it while that happens. What it costs to get this right is that
the new thread takes the mutex no sooner than the constructor is done.
-/

set_option autoImplicit false

namespace Bbkgl
namespace EventLoopThreadStart

open CS.Transition

/-- The members, in the order of their declaration. -/
inductive Member
  | loop
  | exiting
  | thread
  | mutex
  | cond
  deriving DecidableEq, Repr

/-- The place of a member in the declaration of the class. -/
def Member.place : Member → ℕ
  | .loop => 0
  | .exiting => 1
  | .thread => 2
  | .mutex => 3
  | .cond => 4

/-- The member that is initialised after this one. -/
def Member.next : Member → Option Member
  | .loop => some .exiting
  | .exiting => some .thread
  | .thread => some .mutex
  | .mutex => some .cond
  | .cond => none

/-- Where the thread stands that constructs the object and calls `StartLoop`. -/
inductive OwnerPc (A : Type*)
  /-- in the constructor, before the initialisation of a member -/
  | constructing (m : Member)
  | constructed
  /-- in `StartLoop`, with `mutex_` locked, before the test of `loop_` -/
  | testing
  /-- before `cond_.wait` -/
  | sleeping
  | waiting
  /-- in `cond_.wait`, before `mutex_` is locked again -/
  | woken
  /-- past the loop, with `mutex_` locked -/
  | leaving
  /-- before `return loop_` -/
  | returning
  | returned (value : Option A)
  deriving DecidableEq, Repr

/-- What `ThreadFunc` has done. -/
inductive FuncPc
  /-- there is no thread yet -/
  | absent
  | start
  /-- `EventLoop loop` -/
  | constructed
  | locked
  /-- `loop_ = &loop` -/
  | published
  | notified
  | unlocked
  deriving DecidableEq, Repr

/-- The thread that calls `StartLoop`, and the one that runs `ThreadFunc`. -/
inductive Party
  | owner
  | func
  deriving DecidableEq, Repr

/-- `A` is the type of addresses. A member has any value before its initialisation. -/
structure State (A : Type*) where
  owner : OwnerPc A
  func : FuncPc
  loop : Option A
  /-- of the `EventLoop` in `ThreadFunc` -/
  address : A
  /-- who has it locked, once it is initialised -/
  mutex : Option (Option Party)
  condReady : Bool
  deriving DecidableEq, Repr

variable {A : Type*}

/-- Before the constructor, with `garbage` in `loop_`. -/
def init (garbage : Option A) (address : A) : State A where
  owner := .constructing .loop
  func := .absent
  loop := garbage
  address := address
  mutex := none
  condReady := false

/-- The initialisation of a member, and the steps of `StartLoop` and `ThreadFunc`. -/
inductive Action
  | initialise (m : Member)
  | lock
  | test
  | wait
  /-- on a notification or without one -/
  | wake
  | unlock
  | returnLoop
  | construct
  | funcLock
  | publish
  | notify
  | funcUnlock
  deriving DecidableEq, Repr

/-- Nobody has `mutex_` locked, as far as can be told before it is initialised. -/
def free (s : State A) : Bool := s.mutex.join = none

/-- The mutex as held by `p`, if it has been initialised. -/
def acquire (s : State A) (p : Party) : Option (Option Party) := s.mutex.map fun _ => some p

/-- The mutex as held by nobody, if it has been initialised. -/
def release (s : State A) : Option (Option Party) := s.mutex.map fun _ => none

/-- The initialisation of one member. -/
def initialise (s : State A) : Member → State A
  | .loop => { s with loop := none }
  | .exiting => s
  | .thread => { s with func := .start }
  | .mutex => { s with mutex := some none }
  | .cond => { s with condReady := true }

section Step

variable [DecidableEq A]

/-- When an action can be taken. -/
def guard (s : State A) : Action → Bool
  | .initialise m => s.owner = .constructing m
  | .lock => (s.owner = .constructed || s.owner = .woken) && free s
  | .test => s.owner = .testing
  | .wait => s.owner = .sleeping
  | .wake => s.owner = .waiting
  | .unlock => s.owner = .leaving
  | .returnLoop => s.owner = .returning
  | .construct => s.func = .start
  | .funcLock => s.func = .constructed && free s
  | .publish => s.func = .locked
  | .notify => s.func = .published
  | .funcUnlock => s.func = .notified

/-- What an action does. -/
def effect (s : State A) : Action → State A
  | .initialise m =>
    { initialise s m with owner := (m.next.map .constructing).getD .constructed }
  | .lock => { s with owner := .testing, mutex := acquire s .owner }
  | .test => { s with owner := if s.loop = none then .sleeping else .leaving }
  | .wait => { s with owner := .waiting, mutex := release s }
  | .wake => { s with owner := .woken }
  | .unlock => { s with owner := .returning, mutex := release s }
  | .returnLoop => { s with owner := .returned s.loop }
  | .construct => { s with func := .constructed }
  | .funcLock => { s with func := .locked, mutex := acquire s .func }
  | .publish => { s with func := .published, loop := some s.address }
  | .notify =>
    { s with func := .notified, owner := if s.owner = .waiting then .woken else s.owner }
  | .funcUnlock => { s with func := .unlocked, mutex := release s }

/-- One step of one of the two threads. -/
def step : State A → Action → Option (State A) := guarded guard effect

end Step

/-- The constructor has initialised a member. -/
def OwnerPc.past : OwnerPc A → Member → Bool
  | .constructing m', m => m.place < m'.place
  | _, _ => true

/-- `ThreadFunc` has locked `mutex_`, as far as it is concerned. -/
def FuncPc.holding : FuncPc → Bool
  | .locked | .published | .notified => true
  | _ => false

/-- The `MutexLockGuard` of `ThreadFunc` has been constructed. -/
def FuncPc.pastLock : FuncPc → Bool
  | .absent | .start | .constructed => false
  | _ => true

/-- The assignment of `loop_` has been made. -/
def FuncPc.pastPublish : FuncPc → Bool
  | .published | .notified | .unlocked => true
  | _ => false

/-- What a thread finds when it takes a step: initialised members, a mutex that nobody
has locked while it is initialised, and for `StartLoop` the pointer it is to return. -/
def Proper [DecidableEq A] (s : State A) : Action → Prop
  | .funcLock | .notify => s.mutex ≠ none ∧ s.condReady = true
  | .initialise .mutex => s.func.holding = false
  | .returnLoop => s.func.pastPublish = true ∧
    ∀ t, step s .returnLoop = some t → t.owner = .returned (some s.address)
  | _ => True

/-- `ThreadFunc` locks `mutex_` after the constructor. -/
def timely (s : State A) : Action → Bool
  | .funcLock => s.owner.past .cond
  | _ => true

variable {s t : State A} {a : Action} {as : List Action} {garbage : Option A} {address : A}

/-- What the members are, by what the two threads have done. -/
structure Laid (s : State A) : Prop where
  mutex : s.owner.past .mutex = true ↔ s.mutex ≠ none
  cond : s.owner.past .cond = true ↔ s.condReady = true
  spawned : s.func ≠ .absent → s.owner.past .thread = true
  published : s.func.pastPublish = true → s.loop = some s.address
  unset : s.owner.past .loop = true → s.func.pastPublish = false → s.loop = none
  left : s.owner = .leaving ∨ s.owner = .returning → s.loop ≠ none

/-- The members are initialised in the order of their declaration. -/
theorem past_constructing {m m' : Member} :
    (OwnerPc.constructing m' : OwnerPc A).past m = true ↔ m.place < m'.place :=
  decide_eq_true_iff

/-- The mutex is there before the condition variable. -/
theorem past_mutex_of_cond {o : OwnerPc A} (h : o.past .cond = true) : o.past .mutex = true := by
  cases o with
  | constructing m =>
    rw [past_constructing] at h ⊢
    exact Nat.lt_of_succ_lt h
  | _ => rfl

theorem pastLock_of_holding {f : FuncPc} (h : f.holding = true) : f.pastLock = true := by
  cases f <;> first | rfl | cases h

theorem acquire_ne_none {p : Party} : acquire s p ≠ none ↔ s.mutex ≠ none := by
  simp [acquire]

theorem release_ne_none : release s ≠ none ↔ s.mutex ≠ none := by
  simp [release]

theorem laid_init : Laid (init garbage address) where
  mutex := iff_of_false (past_constructing.not.mpr (by decide)) (fun h => h rfl)
  cond := iff_of_false (past_constructing.not.mpr (by decide)) Bool.noConfusion
  spawned h := absurd rfl h
  published := Bool.noConfusion
  unset h := absurd (past_constructing.mp h) (by decide)
  left h := by rcases h with h | h <;> cases h

/-- A step of the owner after the constructor, which may lock or unlock the mutex. -/
theorem Laid.ownerMoves (h : Laid s) {o : OwnerPc A} {mutex : Option (Option Party)}
    (hs : ∀ m, s.owner.past m = true) (ho : ∀ m, o.past m = true)
    (hmutex : mutex ≠ none ↔ s.mutex ≠ none)
    (hleft : o = .leaving ∨ o = .returning → s.loop ≠ none) :
    Laid { s with owner := o, mutex := mutex } where
  mutex := (iff_of_true (ho _) (hs _)).trans (h.mutex.trans hmutex.symm)
  cond := (iff_of_true (ho _) (hs _)).trans h.cond
  spawned _ := ho _
  published := h.published
  unset _ := h.unset (hs _)
  left := hleft

/-- A step of the new thread other than that which sets `loop_`. -/
theorem Laid.funcMoves (h : Laid s) {f : FuncPc} {mutex : Option (Option Party)}
    (hs : s.func ≠ .absent) (hf : f.pastPublish = s.func.pastPublish)
    (hmutex : mutex ≠ none ↔ s.mutex ≠ none) :
    Laid { s with func := f, mutex := mutex } where
  mutex := h.mutex.trans hmutex.symm
  cond := h.cond
  spawned _ := h.spawned hs
  published hpast := h.published (hf ▸ hpast)
  unset hpast hpublish := h.unset hpast (hf ▸ hpublish)
  left := h.left

section Steps

variable [DecidableEq A]

/-- The members are initialised one after the other. -/
theorem Laid.initialise (h : Laid s) {m : Member} (hs : s.owner = .constructing m) :
    Laid (effect s (.initialise m)) := by
  obtain ⟨hmutex, hcond, hspawned, hpublished, hunset, hleft⟩ := h
  simp only [hs, past_constructing] at hmutex hcond hspawned hunset
  -- before `thread_` there is no new thread, and so nothing that it may have published
  cases m <;> constructor <;>
    grind [effect, EventLoopThreadStart.initialise, Member.next, OwnerPc.past, Member.place,
      FuncPc.pastPublish]

/-- The step lemma of `Laid`. -/
theorem laid_step (h : Laid s) (hstep : step s a = some t) : Laid t := by
  obtain ⟨hguard, rfl⟩ := guarded_eq_some_iff.mp hstep
  cases a
  all_goals simp only [guard, Bool.and_eq_true, Bool.or_eq_true, decide_eq_true_eq] at hguard
  case initialise m => exact h.initialise hguard
  case lock =>
    refine h.ownerMoves ?_ (fun _ => rfl) acquire_ne_none (by simp)
    rcases hguard.1 with hs | hs <;> exact fun _ => by rw [hs]; rfl
  case test =>
    refine h.ownerMoves (fun _ => by rw [hguard]; rfl) (fun _ => ?_) Iff.rfl ?_
    · split <;> rfl
    · split
      · simp
      · next hloop => exact fun _ => hloop
  case wait =>
    exact h.ownerMoves (fun _ => by rw [hguard]; rfl) (fun _ => rfl) release_ne_none (by simp)
  case wake => exact h.ownerMoves (fun _ => by rw [hguard]; rfl) (fun _ => rfl) Iff.rfl (by simp)
  case unlock =>
    exact h.ownerMoves (fun _ => by rw [hguard]; rfl) (fun _ => rfl) release_ne_none
      fun _ => h.left (Or.inl hguard)
  case returnLoop =>
    exact h.ownerMoves (fun _ => by rw [hguard]; rfl) (fun _ => rfl) Iff.rfl (by simp)
  case construct =>
    exact h.funcMoves (by rw [hguard]; exact FuncPc.noConfusion) (by rw [hguard]; rfl) Iff.rfl
  case funcLock =>
    exact h.funcMoves (by rw [hguard.1]; exact FuncPc.noConfusion) (by rw [hguard.1]; rfl)
      acquire_ne_none
  case publish =>
    -- `loop_` is set, and stays set: the constructor is past it
    have hs : s.func ≠ .absent := by rw [hguard]; exact FuncPc.noConfusion
    exact ⟨h.mutex, h.cond, fun _ => h.spawned hs, fun _ => rfl, fun _ => Bool.noConfusion,
      fun _ => Option.some_ne_none _⟩
  case notify =>
    have hmoved : Laid { s with func := .notified } :=
      h.funcMoves (by rw [hguard]; exact FuncPc.noConfusion) (by rw [hguard]; rfl) Iff.rfl
    rw [effect]
    split
    · next hs => exact hmoved.ownerMoves (fun _ => by rw [hs]; rfl) (fun _ => rfl) Iff.rfl (by simp)
    · exact hmoved
  case funcUnlock =>
    exact h.funcMoves (by rw [hguard]; exact FuncPc.noConfusion) (by rw [hguard]; rfl)
      release_ne_none

theorem laid_of_reach {ok : State A → Action → Prop}
    (hrun : Reach step ok (init garbage address) as s) : Laid s :=
  hrun.invariant laid_init fun _ h _ hstep => laid_step h hstep

end Steps

/-- Past its wait, `StartLoop` has seen what `ThreadFunc` has set. -/
theorem Laid.seen (h : Laid s) (hs : s.owner = .leaving ∨ s.owner = .returning) :
    s.func.pastPublish = true ∧ s.loop = some s.address := by
  have hpast : s.owner.past .loop = true := by rcases hs with hs | hs <;> rw [hs] <;> rfl
  have hpublish : s.func.pastPublish = true := by
    by_contra hnot
    exact h.left hs (h.unset hpast (Bool.not_eq_true _ ▸ hnot))
  exact ⟨hpublish, h.published hpublish⟩

section Runs

variable [DecidableEq A]

/-- The constructor is not entered again. -/
theorem past_cond_step (hstep : step s a = some t) (hs : s.owner.past .cond = true) :
    t.owner.past .cond = true := by
  obtain ⟨hguard, rfl⟩ := guarded_eq_some_iff.mp hstep
  cases a with
  | initialise m =>
    rw [of_decide_eq_true hguard, past_constructing] at hs
    cases m <;> exact absurd hs (by decide)
  | test =>
    rw [effect]
    split <;> rfl
  | notify =>
    rw [effect]
    split
    · rfl
    · exact hs
  | construct | funcLock | publish | funcUnlock => exact hs
  | _ => rfl

/-- `ThreadFunc` has found the constructor done when it locked the mutex. -/
def Late (s : State A) : Prop := s.func.pastLock = true → s.owner.past .cond = true

/-- The step lemma of `Late`. -/
theorem late_step (h : Late s) (ha : timely s a = true) (hstep : step s a = some t) : Late t := by
  intro hlock
  have hkept : s.func.pastLock = true → t.owner.past .cond = true :=
    fun hs => past_cond_step hstep (h hs)
  obtain ⟨hguard, rfl⟩ := guarded_eq_some_iff.mp hstep
  cases a with
  | initialise m =>
    cases m with
    | thread => cases hlock
    | _ => exact hkept hlock
  | construct => cases hlock
  -- this is the step that the condition is about
  | funcLock => exact ha
  | publish => exact hkept (by rw [of_decide_eq_true hguard]; rfl)
  | notify => exact hkept (by rw [of_decide_eq_true hguard]; rfl)
  | funcUnlock => exact hkept (by rw [of_decide_eq_true hguard]; rfl)
  | _ => exact hkept hlock

theorem late_of_reach
    (hrun : Reach step (fun s a => timely s a = true) (init garbage address) as s) :
    Late s :=
  hrun.invariant (fun h => Bool.noConfusion h) fun _ h ha hstep => late_step h ha hstep

/-- A step that comes late enough uses nothing that is not initialised. -/
theorem Laid.proper (h : Laid s) (hlate : Late s) (ha : timely s a = true)
    (hstep : step s a = some t) : Proper s a := by
  obtain ⟨hguard, -⟩ := guarded_eq_some_iff.mp hstep
  have hready : s.owner.past .cond = true → s.mutex ≠ none ∧ s.condReady = true := by
    intro hpast
    exact ⟨h.mutex.mp (past_mutex_of_cond hpast), h.cond.mp hpast⟩
  cases a with
  | initialise m =>
    cases m with
    | mutex =>
      rw [Proper, ← Bool.not_eq_true]
      intro hholding
      -- whoever holds the mutex has locked it after the constructor
      have hpast := hlate (pastLock_of_holding hholding)
      rw [of_decide_eq_true hguard, past_constructing] at hpast
      exact absurd hpast (by decide)
    | _ => trivial
  | funcLock => exact hready ha
  | notify => exact hready (hlate (by rw [of_decide_eq_true hguard]; rfl))
  | returnLoop =>
    obtain ⟨hpublish, hloop⟩ := h.seen (Or.inr (of_decide_eq_true hguard))
    refine ⟨hpublish, fun t ht => ?_⟩
    obtain ⟨-, rfl⟩ := guarded_eq_some_iff.mp ht
    exact congrArg OwnerPc.returned hloop
  | _ => trivial

/-- An interleaving is proper at each of its steps exactly if `ThreadFunc` locks the mutex
after the constructor. -/
theorem handshake_iff :
    Reach step Proper (init garbage address) as s ↔
      Reach step (fun s a => timely s a = true) (init garbage address) as s := by
  constructor
  · intro hrun
    refine hrun.imp fun {as s a t} hrun hproper _ => ?_
    cases a with
    | funcLock => exact (laid_of_reach hrun).cond.mpr hproper.2
    | _ => rfl
  · intro hrun
    exact hrun.imp fun hrun ha hstep => (laid_of_reach hrun).proper (late_of_reach hrun) ha hstep

/-- The constructor is done before `ThreadFunc` locks the mutex, and `StartLoop` waits. -/
theorem handshake_late : ∃ s : State ℕ, Reach step Proper (init none 1)
    [.initialise .loop, .initialise .exiting, .initialise .thread, .construct,
      .initialise .mutex, .initialise .cond, .lock, .test, .wait, .funcLock, .publish, .notify,
      .funcUnlock, .lock, .test, .unlock, .returnLoop] s ∧ s.owner = .returned (some 1) := by
  have hrun : Reach step (fun s a => timely s a = true) (init (none : Option ℕ) 1)
      [.initialise .loop, .initialise .exiting, .initialise .thread, .construct,
        .initialise .mutex, .initialise .cond, .lock, .test, .wait, .funcLock, .publish, .notify,
        .funcUnlock, .lock, .test, .unlock, .returnLoop] _ := reach_of_runIf rfl
  exact ⟨_, handshake_iff.mpr hrun, rfl⟩

/-- `ThreadFunc` locks and signals what the constructor has yet to initialise, and has the
mutex locked while it is initialised. -/
theorem handshake_early :
    (∃ s t : State ℕ, Reach step Always (init none 1)
      [.initialise .loop, .initialise .exiting, .initialise .thread, .construct, .funcLock,
        .publish] s ∧
      step s .notify = some t ∧ s.mutex = none ∧ ¬ Proper s .notify) ∧
    (∃ s t : State ℕ, Reach step Always (init none 1)
      [.initialise .loop, .initialise .exiting, .initialise .thread, .construct, .funcLock] s ∧
      step s (.initialise .mutex) = some t ∧ s.func = .locked ∧
      ¬ Proper s (.initialise .mutex)) := by
  have hlocked : Reach step Always (init (none : Option ℕ) 1)
      [.initialise .loop, .initialise .exiting, .initialise .thread, .construct, .funcLock] _ :=
    reach_of_run rfl
  refine ⟨⟨_, _, hlocked.snoc trivial rfl, rfl, rfl, fun hproper => hproper.1 rfl⟩,
    ⟨_, _, hlocked, rfl, rfl, fun hproper => Bool.noConfusion hproper⟩⟩

end Runs

/-! ### The steps that the started thread is known by -/

section View

variable (T F : Type*)

/-- The place of `ThreadFunc` in the model that has no mutex. -/
def FuncPc.view : FuncPc → EventLoopThread.ThreadPc
  | .absent | .start => .start
  | .constructed | .locked => .constructed
  | .published | .notified | .unlocked => .published

/-- The owner's `StartLoop` has returned. -/
def OwnerPc.hasReturned : OwnerPc A → Bool
  | .returned _ => true
  | _ => false

/-- What `EventLoopThread` says of the start. -/
def view (s : State A) : EventLoopThread.State T F :=
  { EventLoopThread.State.init T F with
    thread := s.func.view
    loopSet := s.func.pastPublish
    started := s.owner.hasReturned }

/-- The action of the model without a mutex that an action stands for, if any. -/
def label : Action → Option (EventLoopThread.Action T F)
  | .construct => some .construct
  | .publish => some .publish
  | .returnLoop => some .startLoop
  | _ => none

variable {T F}

/-- What the abstract machine sees depends on three things. -/
theorem view_eq (hfunc : t.func.view = s.func.view)
    (hpublish : t.func.pastPublish = s.func.pastPublish)
    (hreturned : t.owner.hasReturned = s.owner.hasReturned) : view T F t = view T F s := by
  rw [view, view, hfunc, hpublish, hreturned]

variable [DecidableEq A]

/-- A step without a label is not seen. -/
theorem Laid.view_eq_of_step (h : Laid s) (hstep : step s a = some t)
    (hlabel : label T F a = none) : view T F t = view T F s := by
  obtain ⟨hguard, rfl⟩ := guarded_eq_some_iff.mp hstep
  cases a
  all_goals simp only [guard, Bool.and_eq_true, Bool.or_eq_true, decide_eq_true_eq] at hguard
  case initialise m =>
    cases m with
    | thread =>
      have habsent : s.func = .absent := by
        by_contra hne
        have hpast := h.spawned hne
        rw [hguard, past_constructing] at hpast
        exact absurd hpast (by decide)
      exact view_eq (by rw [habsent]; rfl) (by rw [habsent]; rfl) (by rw [hguard]; rfl)
    | _ => exact view_eq rfl rfl (by rw [hguard]; rfl)
  case lock => exact view_eq rfl rfl (by rcases hguard.1 with hs | hs <;> rw [hs] <;> rfl)
  case test => exact view_eq rfl rfl (by rw [hguard, effect]; split <;> rfl)
  case wait => exact view_eq rfl rfl (by rw [hguard]; rfl)
  case wake => exact view_eq rfl rfl (by rw [hguard]; rfl)
  case unlock => exact view_eq rfl rfl (by rw [hguard]; rfl)
  case funcLock => exact view_eq (by rw [hguard.1]; rfl) (by rw [hguard.1]; rfl) rfl
  case notify =>
    refine view_eq (by rw [hguard]; rfl) (by rw [hguard]; rfl) ?_
    rw [effect]
    split
    · next hs => rw [hs]; rfl
    · rfl
  case funcUnlock => exact view_eq (by rw [hguard]; rfl) (by rw [hguard]; rfl) rfl
  all_goals cases hlabel

variable [DecidableEq T]

/-- Whatever the order of initialisation, a start is one of those that `EventLoopThread`
has: the loop is there, `loop_` is set, and `StartLoop` returns. -/
theorem refines_of_reach {ok : State A → Action → Prop}
    (hrun : Reach step ok (init garbage address) as s) :
    Reach EventLoopThread.step Always (.init T F) (as.filterMap (label T F)) (view T F s) := by
  refine hrun.stuttering (fun hrun hstep => (laid_of_reach hrun).view_eq_of_step hstep) ?_
  intro as s a t b hrun hstep hlabel
  obtain ⟨hguard, rfl⟩ := guarded_eq_some_iff.mp hstep
  refine guarded_eq_some_iff.mpr ?_
  cases a with
  | construct =>
    cases hlabel
    have hs : s.func = .start := of_decide_eq_true hguard
    simp [EventLoopThread.guard, EventLoopThread.effect, view, effect, EventLoopThread.State.init,
      hs, FuncPc.view, FuncPc.pastPublish]
  | publish =>
    cases hlabel
    have hs : s.func = .locked := of_decide_eq_true hguard
    simp [EventLoopThread.guard, EventLoopThread.effect, view, effect, EventLoopThread.State.init,
      hs, FuncPc.view, FuncPc.pastPublish]
  | returnLoop =>
    cases hlabel
    have hs : s.owner = .returning := of_decide_eq_true hguard
    have hpublish := ((laid_of_reach hrun).seen (Or.inr hs)).1
    simp [EventLoopThread.guard, EventLoopThread.effect, view, effect, EventLoopThread.State.init,
      hpublish, OwnerPc.hasReturned]
  | _ => cases hlabel

end View

end EventLoopThreadStart
end Bbkgl
