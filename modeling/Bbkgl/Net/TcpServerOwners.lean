import Bbkgl.Net.TcpServerReuse

/-!
# Functors with a bare `this`

`SendInLoop` and `ShutdownInLoop` are queued with a bare `this`. Until the loop
takes the batch with `ConnDestroyed`, the connection is owned on its way out: by
`connections_`, by `RemoveConnectionInLoop`, by `ConnDestroyed`. What is queued
until then is executed before that batch is dropped. What is queued later has
only the user's pointer, and the call that queues it may come late: it has read
`state_` before.
-/

set_option autoImplicit false

namespace Bbkgl
namespace TcpServer

open CS CS.Fallible CS.Transition TcpConnection Connection

/-- `SendInLoop` or `ShutdownInLoop` of `c`. -/
def isBare (c : ConnId) : Functor → Bool
  | .sendInLoop d _ _ | .shutdownInLoop d => d = c
  | _ => false

/-- The functor has a shared pointer to the connection. -/
def ownsConn (c : ConnId) (f : Functor) : Bool := f.owns = some c

/-- The queue of the connection's loop. -/
def queue (s : State) (c : ConnId) : Mailbox Functor := (s.loops (own s c)).functors

/-- `connections_` owns it, or a `RemoveConnectionInLoop`. -/
def inServer (s : State) (c : ConnId) : Bool :=
  s.connections (s.conns c).name = some c || (todo s 0).any fun f => f = .removeConnectionInLoop c

/-- `connections_`, a `RemoveConnectionInLoop`, or a functor in the queue of its
loop that no batch has taken yet owns the connection. -/
def ownedAhead (s : State) (c : ConnId) : Bool :=
  inServer s c || (queue s c).pending.any (ownsConn c)

/-- A `SendInLoop` or `ShutdownInLoop` of `c` is queued, and nothing that owns the
connection is ahead, or in the batch of that functor. -/
def late (s : State) (c : ConnId) : Bool :=
  !ownedAhead s c && ((queue s c).pending.any (isBare c) ||
    (queue s c).rest.any (isBare c) && !((queue s c).done ++ (queue s c).rest).any (ownsConn c))

/-- The user keeps a pointer while a call is too late: a functor is pushed with the
connection owned ahead or a pointer kept, and the last pointer is not dropped
before a functor that is late. -/
def keepsPointer (s : State) : Action → Bool
  | .proceed who => match s.calls who with
    | some (.send c _) | some (.shutdownSet c) => ownedAhead s c || 0 < (s.conns c).refs
    | _ => true
  | .drop c => 1 < (s.conns c).refs || !late s c
  | _ => true

/-- The condition on a step: the last pointer is not dropped too early, and no entry is lost to
another connection. -/
def keepsOwners (cfg : Config) (s : State) (a : Action) : Bool :=
  keepsPointer s a && keepsEntries cfg s a

/-- The user or the server owns the connection. -/
def Held (s : State) (c : ConnId) : Prop := 0 < (s.conns c).refs ∨ inServer s c = true

/-- What is queued with a bare `this` is executed while somebody owns the connection. -/
def Covered (s : State) (c : ConnId) : Prop :=
  (queue s c).Sheltered (isBare c) (ownsConn c) (Held s c)

/-- The step takes no owner away, and queues on the connection's loop nothing with
a bare `this` of the connection. -/
structure Spares (s t : State) (c : ConnId) : Prop where
  own : own t c = own s c
  held : Held s c → Held t c
  queue : ∃ fs : List Functor, queue t c = fs.foldl Mailbox.push (queue s c) ∧
    ∀ f ∈ fs, isBare c f = false

variable {cfg : Config} {s m t u : State} {i : LoopId} {c d : ConnId} {f : Functor} {l : Local}
  {who : Caller} {a : Action} {as : List Action}

theorem inServer_iff : inServer s c = true ↔
    s.connections (s.conns c).name = some c ∨ .removeConnectionInLoop c ∈ todo s 0 := by
  simp [inServer, List.any_eq_true]

/-! ### Steps that spare the owners -/

/-- What spares the owners keeps the connection covered. -/
theorem Covered.spares (h : Covered s c) (hspares : Spares s t c) : Covered t c := by
  obtain ⟨fs, hfs, hbare⟩ := hspares.queue
  rw [Covered, hfs]
  exact (Mailbox.Sheltered.mono h hspares.held).foldl_push hbare

namespace Spares

theorem rfl : Spares s s c := ⟨.refl _, id, [], .refl _, by simp⟩

theorem trans (h : Spares s m c) (h' : Spares m t c) : Spares s t c where
  own := h'.own.trans h.own
  held := h'.held ∘ h.held
  queue := by
    obtain ⟨fs, hfs, hbare⟩ := h.queue
    obtain ⟨fs', hfs', hbare'⟩ := h'.queue
    refine ⟨fs ++ fs', by rw [hfs', hfs, List.foldl_append], fun f hf => ?_⟩
    rcases List.mem_append.mp hf with hf | hf
    · exact hbare f hf
    · exact hbare' f hf

/-- Nothing has changed that the condition looks at. -/
theorem of_same (hloop : (t.conns c).loop = (s.conns c).loop)
    (hname : (t.conns c).name = (s.conns c).name)
    (hrefs : (s.conns c).refs ≤ (t.conns c).refs)
    (hentry : s.connections (s.conns c).name = some c → t.connections (s.conns c).name = some c)
    (hfunctors : ∀ i, (t.loops i).functors = (s.loops i).functors) : Spares s t c := by
  refine ⟨hloop, fun h => ?_, [], ?_, by simp⟩
  · rcases h with hr | hin
    · exact Or.inl (Nat.lt_of_lt_of_le hr hrefs)
    · refine Or.inr (inServer_iff.mpr ((inServer_iff.mp hin).imp (fun he => ?_) fun hmem => ?_))
      · rw [hname]
        exact hentry he
      · rw [todo, hfunctors]
        exact hmem
  · rw [TcpServer.queue, TcpServer.queue, TcpServer.own, TcpServer.own, hloop, hfunctors]
    exact .refl _

end Spares

theorem spares_setLoop {g : Loop → Loop}
    (hg : (g (s.loops i)).functors = (s.loops i).functors) : Spares s (setLoop s i g) c := by
  refine .of_same (t := setLoop s i g) rfl rfl (Nat.le_refl _) id fun j => ?_
  rw [loops_setLoop]
  split
  · next hj => rw [hj, hg]
  · rfl

theorem spares_setConn {g : TcpConnection → TcpConnection}
    (hloop : (g (s.conns d)).loop = (s.conns d).loop)
    (hname : (g (s.conns d)).name = (s.conns d).name)
    (hrefs : c = d → (s.conns d).refs ≤ (g (s.conns d)).refs) : Spares s (setConn s d g) c := by
  have hconn : (setConn s d g).conns c = if c = d then g (s.conns d) else s.conns c := conns_setConn
  refine .of_same ?_ ?_ ?_ id fun _ => rfl
  · rw [hconn]
    split
    · next h => rw [h, hloop]
    · rfl
  · rw [hconn]
    split
    · next h => rw [h, hname]
    · rfl
  · rw [hconn]
    split
    · next h => rw [h]; exact hrefs h
    · exact Nat.le_refl _

theorem spares_setCall {call : Option Call} : Spares s (setCall s who call) c :=
  .of_same rfl rfl (Nat.le_refl _) id fun _ => rfl

theorem queue_setFunctors {q : Mailbox Functor} :
    queue (setFunctors s i q) c = if own s c = i then q else queue s c := by
  have hown : own (setFunctors s i q) c = own s c := rfl
  rw [queue, hown, setFunctors, loops_setLoop, queue]
  split <;> rfl

theorem queue_push : queue (push s i f) c =
    if own s c = i then (queue s c).push f else queue s c := by
  rw [push, queue_setFunctors]
  split
  · next h => rw [queue, h]
  · rfl

/-- More in the queue holds no less. -/
theorem held_push (h : Held s c) : Held (push s i f) c := by
  have hmem : ∀ f', f' ∈ todo s 0 → f' ∈ todo (push s i f) 0 := by
    intro f' hf'
    rw [todo_push]
    split
    · exact List.mem_append_left _ hf'
    · exact hf'
  rcases h with hrefs | hin
  · exact Or.inl hrefs
  · exact Or.inr (inServer_iff.mpr ((inServer_iff.mp hin).imp_right (hmem _)))

/-- Queueing spares the owners, unless the functor has a bare `this`. -/
theorem spares_push (hf : isBare c f = false) : Spares s (push s i f) c := by
  refine ⟨rfl, held_push, if own s c = i then [f] else [], ?_, fun f' hf' => ?_⟩
  · rw [queue_push]
    split <;> rfl
  · split at hf'
    · rw [List.mem_singleton.mp hf']
      exact hf
    · exact absurd hf' List.not_mem_nil

theorem spares_nextCallback : Spares s (nextCallback s i) c := by
  rw [nextCallback]
  split
  · exact spares_setLoop rfl
  · exact .rfl

/-- A method spares the owners. -/
theorem spares_putLocal (hparts : Local.Parts d (localOf s d) l) : Spares s (putLocal s d l) c := by
  obtain ⟨fs, hqueued, hfs⟩ := hparts.queued
  have hqueued : l.queued = fs := hqueued
  have hconn : (putLocal s d l).conns c = if c = d then l.conn else s.conns c := conns_putLocal
  have hfields : ((putLocal s d l).conns c).loop = (s.conns c).loop ∧
      ((putLocal s d l).conns c).name = (s.conns c).name ∧
      ((putLocal s d l).conns c).refs = (s.conns c).refs := by
    rw [hconn]
    split
    · next h =>
      rw [h, hparts.fixed.loop, hparts.fixed.name, hparts.leaves.refs]
      exact ⟨rfl, rfl, rfl⟩
    · exact ⟨rfl, rfl, rfl⟩
  obtain ⟨hloop, hname, hrefs⟩ := hfields
  have hown : own (putLocal s d l) c = own s c := hloop
  refine ⟨hown, fun h => ?_, if own s c = own s d then fs else [], ?_, fun f hf => ?_⟩
  · refine h.imp (fun hr => hrefs ▸ hr) fun hin => inServer_iff.mpr ?_
    rw [hname, todo_putLocal]
    refine (inServer_iff.mp hin).imp id fun hmem => ?_
    split
    · exact List.mem_append_left _ hmem
    · exact hmem
  · rw [queue, hown, putLocal]
    simp only [loops_setLoop]
    split
    · next h => rw [queue, h, hqueued]
    · rfl
  · split at hf
    · rw [hfs f hf]
      rfl
    · exact absurd hf List.not_mem_nil

/-- What a step does in between spares the owners. -/
theorem Works.spares (h : Works cfg s a m t) : Spares m t c := by
  cases h with
  | push i f hown =>
    apply spares_push
    cases f with
    | sendInLoop | shutdownInLoop => exact absurd hown (by simp [Functor.isOwn])
    | _ => rfl
  | setConn d g hedited hrefs =>
    exact spares_setConn hedited.fixed.loop hedited.fixed.name fun _ => Nat.le_of_eq hrefs.symm
  | setCall => exact spares_setCall
  | method d l hd halive hparts => exact spares_putLocal hparts

/-! ### Steps that move the owners -/

/-- The bare functors that wait are among those still to be executed. -/
theorem covered_of_not_mem (h : ∀ f ∈ todo s (own s c), isBare c f = false) : Covered s c := by
  refine ⟨fun ⟨f, hf, hbare⟩ => ?_, fun ⟨f, hf, hbare⟩ => ?_⟩
  · have hno := h f (List.mem_append_right _ hf)
    exact absurd hbare (by simp [hno])
  · have hno := h f (List.mem_append_left _ hf)
    exact absurd hbare (by simp [hno])

/-- The entry of `d` goes, which no other connection has. -/
theorem spares_erase (hne : c ≠ d) (hentry : s.connections (s.conns d).name = some d) :
    Spares s { setConn s d (fun conn => { conn with log := conn.log ++ [.removed] }) with
      connections := Function.update s.connections (s.conns d).name none } c := by
  have hrecord : Spares s (setConn s d fun conn => { conn with log := conn.log ++ [.removed] }) c :=
    spares_setConn rfl rfl fun _ => Nat.le_refl _
  refine hrecord.trans (.of_same rfl rfl (Nat.le_refl _) (fun hc => ?_) fun _ => rfl)
  simp only [conns_setConn, if_neg hne] at hc ⊢
  have hname : (s.conns c).name ≠ (s.conns d).name := by
    intro heq
    have hc : s.connections (s.conns c).name = some c := hc
    rw [heq, hentry] at hc
    exact hne (Option.some_inj.mp hc).symm
  rw [Function.update_of_ne hname]
  exact hc

/-- The entry goes, and `ConnDestroyed` is pushed behind all that is queued. -/
theorem covered_removal (hentry : s.connections (s.conns d).name = some d)
    (h : c ≠ d → Covered s c) (hok : removeConnectionInLoop s d = .ok t) : Covered t c := by
  rw [removeConnectionInLoop_eq_ok hok]
  by_cases hc : c = d
  · subst hc
    rw [Covered, queue_push, if_pos]
    · apply Mailbox.Sheltered.of_pending (b := .connDestroyed c)
      · exact List.mem_append_right _ (List.mem_singleton_self _)
      · simp [ownsConn, Functor.owns]
    · simp [own, setConn]
  · exact (h hc).spares ((spares_erase hc hentry).trans (spares_push rfl))

/-- A change of a queue that keeps its shelter. -/
theorem Covered.setFunctors (h : Covered s c) {q : Mailbox Functor}
    (hq : ∀ held, (s.loops i).functors.Sheltered (isBare c) (ownsConn c) held →
      q.Sheltered (isBare c) (ownsConn c) held)
    (hremoval : .removeConnectionInLoop c ∈ todo s i → .removeConnectionInLoop c ∈ q.todo) :
    Covered (setFunctors s i q) c := by
  have hheld : Held s c → Held (TcpServer.setFunctors s i q) c := by
    rintro (hrefs | hin)
    · exact Or.inl hrefs
    · refine Or.inr (inServer_iff.mpr ((inServer_iff.mp hin).imp_right fun hmem => ?_))
      rw [todo, TcpServer.setFunctors, loops_setLoop]
      split
      · next hi => exact hremoval (hi ▸ hmem)
      · exact hmem
  rw [Covered, queue_setFunctors]
  split
  · next hi =>
    subst hi
    exact hq _ (Mailbox.Sheltered.mono h hheld)
  · exact Mailbox.Sheltered.mono h hheld

/-- The functor that is taken out was not the last owner. -/
theorem covered_advance (h : Covered s c) {fs : List Functor}
    (hrest : (s.loops i).functors.rest = f :: fs) (hne : f ≠ .removeConnectionInLoop c) :
    Covered (setFunctors s i (s.loops i).functors.advance) c := by
  refine h.setFunctors (fun _ hs => hs.advance) fun hmem => ?_
  rw [todo, Mailbox.todo_advance hrest] at hmem
  exact (List.mem_cons.mp hmem).resolve_left (Ne.symm hne)

/-- A functor with a bare `this` is queued behind an owner. -/
theorem covered_push (h : Covered s c) (hown : isBare c f = true → own s c = i ∧
    (ownedAhead s c = true ∨ 0 < (s.conns c).refs)) : Covered (push s i f) c := by
  by_cases hbare : isBare c f = true
  · obtain ⟨rfl, hahead⟩ := hown hbare
    rw [Covered, queue_push, if_pos rfl]
    refine (Mailbox.Sheltered.mono h held_push).push fun _ => ?_
    rcases hahead with hahead | hrefs
    · rw [ownedAhead, Bool.or_eq_true, List.any_eq_true] at hahead
      exact hahead.imp_left fun hin => held_push (Or.inr hin)
    · exact Or.inl (Or.inl hrefs)
  · exact h.spares (spares_push (by simpa using hbare))

/-- The push of a call, and the last steps of it. -/
theorem covered_proceed (h : Covered s c) {call : Call} (hcall : s.calls who = some call)
    (hkeeps : keepsPointer s (.proceed who) = true) : Covered (proceed s who call) c := by
  have hahead : ∀ d, (∃ message, call = .send d message) ∨ call = .shutdownSet d →
      ownedAhead s d = true ∨ 0 < (s.conns d).refs := by
    intro d hd
    rcases hd with ⟨message, rfl⟩ | rfl
    · simpa [keepsPointer, hcall] using hkeeps
    · simpa [keepsPointer, hcall] using hkeeps
  cases call with
  | send d message =>
    refine (covered_push h fun hbare => ?_).spares spares_setCall
    obtain rfl : d = c := by simpa [isBare] using hbare
    exact ⟨rfl, hahead d (Or.inl ⟨message, rfl⟩)⟩
  | shutdownSet d =>
    refine (covered_push h fun hbare => ?_).spares spares_setCall
    obtain rfl : d = c := by simpa [isBare] using hbare
    exact ⟨rfl, hahead d (Or.inr rfl)⟩
  | shutdownChecked d =>
    have hset : Spares s (setConn s d fun conn => { conn with state := .disconnecting }) c :=
      spares_setConn rfl rfl fun _ => Nat.le_refl _
    exact h.spares (hset.trans spares_setCall)

/-- What is not late does without the pointer. -/
theorem sheltered_of_not_late (hlate : late s c = false) {held : Prop}
    (hheld : inServer s c = true → held) :
    (queue s c).Sheltered (isBare c) (ownsConn c) held := by
  by_cases hin : inServer s c = true
  · exact .of_held (hheld hin)
  · by_cases hpending : (queue s c).pending.any (ownsConn c) = true
    · obtain ⟨f, hf, howns⟩ := List.any_eq_true.mp hpending
      exact .of_pending hf howns
    · have hahead : ownedAhead s c = false := by simp [ownedAhead, hin, hpending]
      simp only [late, hahead, Bool.not_false, Bool.true_and, Bool.or_eq_false_iff,
        Bool.and_eq_false_iff, Bool.not_eq_false', List.any_eq_true] at hlate
      refine ⟨fun ⟨f, hf, hbare⟩ => ?_, fun ⟨f, hf, hbare⟩ => ?_⟩
      · exact absurd hbare (List.any_eq_false.mp hlate.1 f hf)
      · rcases hlate.2 with hnone | ⟨g, hg, howns⟩
        · exact absurd hbare (List.any_eq_false.mp hnone f hf)
        · exact Or.inr ⟨g, List.mem_append_right _ hg, howns⟩

/-- A pointer is dropped that is not the last one. -/
theorem covered_drop (h : Covered s c) (hkeeps : keepsPointer s (.drop d) = true) :
    Covered (setConn s d fun conn => { conn with refs := conn.refs - 1 }) c := by
  by_cases hc : c = d
  · subst hc
    obtain ⟨t, ht⟩ : ∃ t, t = setConn s c fun conn => { conn with refs := conn.refs - 1 } :=
      ⟨_, rfl⟩
    have hconn : t.conns c = { s.conns c with refs := (s.conns c).refs - 1 } := by
      rw [ht, conns_setConn, if_pos rfl]
    have hqueue : queue t c = queue s c := by
      rw [queue, queue, own, own, hconn, ht]
      rfl
    have hin : inServer t c = inServer s c := by
      rw [inServer, inServer, hconn, ht]
      rfl
    rw [← ht, Covered, hqueue]
    simp only [keepsPointer, Bool.or_eq_true, decide_eq_true_eq, Bool.not_eq_true'] at hkeeps
    rcases hkeeps with hrefs | hlate
    · apply Mailbox.Sheltered.mono h
      intro _
      left
      rw [hconn]
      exact Nat.sub_pos_of_lt hrefs
    · exact sheltered_of_not_late hlate fun hs => Or.inr (hin.trans hs)
  · exact h.spares (spares_setConn rfl rfl fun hcd => absurd hcd hc)

/-! ### Every step -/

/-- A new connection begins with its entry and its pointer. -/
theorem covered_withNewObject (hplaced : Placed cfg s) (h : ∀ c, Covered s c) (fd : ℕ)
    (hfree : nameFree cfg s (.newConnection fd) = true) :
    Covered (withNewObject cfg s fd) c := by
  by_cases hc : c = s.nextObj
  · apply covered_of_not_mem
    intro f hf
    have hplacedf := hplaced.functors _ f hf
    by_contra hbare
    cases f with
    | sendInLoop d who message =>
      obtain rfl : d = c := by simpa [isBare] using hbare
      exact absurd hplacedf.1.1 (hc ▸ Nat.lt_irrefl _)
    | shutdownInLoop d =>
      obtain rfl : d = c := by simpa [isBare] using hbare
      exact absurd hplacedf.1 (hc ▸ Nat.lt_irrefl _)
    | _ => simp [isBare] at hbare
  · have hconn : (withNewObject cfg s fd).conns c = s.conns c := Function.update_of_ne hc _ _
    refine (h c).spares (.of_same ?_ ?_ ?_ (fun hentry => ?_) fun _ => rfl)
    · rw [hconn]
    · rw [hconn]
    · exact Nat.le_of_eq (congrArg TcpConnection.refs hconn.symm)
    · have hname : (s.conns c).name ≠ connName cfg (s.nextConnId + 1) := by
        intro heq
        rw [nameFree, ← heq, hentry] at hfree
        exact absurd hfree (by simp)
      exact (Function.update_of_ne hname _ _).trans hentry

/-- What opens the step leaves every connection covered, but for one whose removal it has
taken out of the batch. -/
theorem Opens.covered (hplaced : Placed cfg s) (h : ∀ c, Covered s c)
    (hkeeps : keepsOwners cfg s a = true) (hg : guard cfg s a = true) (hopens : Opens cfg s a m)
    (hruns : runs s a ≠ some (.removeConnectionInLoop c)) : Covered m c := by
  obtain ⟨hpointer, hentries⟩ := Bool.and_eq_true_iff.mp hkeeps
  have hc := h c
  have hmark : ∀ d b, Spares s (setEventHandling s d b) c := fun d b =>
    spares_setConn rfl rfl fun _ => Nat.le_refl _
  cases hopens with
  | poll | userReturn => exact hc.spares (spares_setLoop rfl)
  | handleEvent | endEvent => exact hc.spares ((hmark _ _).trans (spares_setLoop rfl))
  | handleClose | handleError | handleWrite => exact hc.spares spares_nextCallback
  | handleRead =>
    exact hc.spares (spares_nextCallback.trans (spares_setConn rfl rfl fun _ => Nat.le_refl _))
  | closeTimer | inputBuffer => exact hc.spares (spares_setConn rfl rfl fun _ => Nat.le_refl _)
  | newConnection fd =>
    rw [keepsEntries, Bool.and_eq_true] at hentries
    exact covered_withNewObject hplaced h fd hentries.1
  | doPendingFunctors i =>
    simp only [guard, Bool.and_eq_true, decide_eq_true_eq] at hg
    have hrest : (s.loops i).functors.rest = [] := hplaced.batch i (by simp [hg.2])
    have hswap : Covered (setFunctors s i (s.loops i).functors.swap) c := by
      refine hc.setFunctors (fun _ hs => hs.swap) fun hmem => ?_
      rw [Mailbox.todo_swap hrest]
      exact hmem
    exact hswap.spares (spares_setLoop rfl)
  | runFunctor i wr f fs hrest =>
    refine covered_advance hc hrest fun hf => hruns ?_
    rw [runs, hrest, hf]
    rfl
  | finishFunctors i =>
    simp only [guard, Bool.and_eq_true, List.isEmpty_iff] at hg
    have hfinish : Covered (setFunctors s i (s.loops i).functors.finish) c := by
      refine hc.setFunctors (fun _ hs => hs.finish) fun hmem => ?_
      rw [Mailbox.todo_finish hg.2]
      exact hmem
    exact hfinish.spares (spares_setLoop rfl)
  | proceed who call hcall => exact covered_proceed hc hcall hpointer
  | keep => exact hc.spares (spares_setConn rfl rfl fun _ => Nat.le_succ _)
  | drop d => exact covered_drop hc hpointer
  | destroy d =>
    have hdead : Spares s (setConn s d fun conn => { conn with alive := false }) c :=
      spares_setConn rfl rfl fun _ => Nat.le_refl _
    exact hc.spares (hdead.trans (spares_setLoop rfl))
  | call => exact hc

theorem spares_pushes {p : Option (LoopId × Entry)} : Spares s (pushes s p) c := by
  cases p with
  | none => exact .rfl
  | some p =>
    rw [pushes, enterUser]
    exact spares_setLoop rfl

/-- An entry is removed, and of what loses it `ConnDestroyed` is queued. -/
theorem Ends.covered (hkeeps : keepsEntries cfg s a = true)
    (hnames : removes s a ≠ none → KeepsNames s m)
    (h : ∀ c, runs s a ≠ some (.removeConnectionInLoop c) → Covered m c)
    (hends : Ends cfg s a m t) : Covered t c := by
  rw [Ends] at hends
  cases hremoves : removes s a with
  | none =>
    rw [hremoves] at hends
    have hc : Covered m c := by
      apply h
      intro hruns
      rw [removes, hruns] at hremoves
      exact absurd hremoves (by simp)
    exact hc.spares (hends ▸ spares_pushes)
  | some d =>
    rw [hremoves] at hends
    refine covered_removal (entry_of_ends hkeeps hremoves (hnames (by simp [hremoves])) hends)
      (fun hne => h c fun hruns => hne ?_) hends
    rw [removes, hruns] at hremoves
    exact Option.some_inj.mp hremoves

/-- A step that keeps owners keeps every connection covered. -/
theorem covered_effect (hplaced : Placed cfg s) (h : ∀ c, Covered s c)
    (hkeeps : keepsOwners cfg s a = true) (hg : guard cfg s a = true)
    (hok : effect cfg s a = .ok t) (c : ConnId) : Covered t c := by
  obtain ⟨-, hentries⟩ := Bool.and_eq_true_iff.mp hkeeps
  obtain ⟨k, m, hopens, hworks, hends⟩ := anatomy hg hok
  refine Ends.covered hentries (fun hremoves => ?_) (fun d hruns => ?_) hends
  · have hnew : ∀ fd, a ≠ .newConnection fd := by
      rintro fd rfl
      exact hremoves rfl
    exact works_invariant hworks (hopens.keepsNames hnew) fun h hwork => h.trans hwork.keepsNames
  · refine works_invariant (I := fun m => Covered m d) hworks ?_ fun h hwork => ?_
    · exact hopens.covered hplaced h hkeeps hg hruns
    · exact h.spares hwork.spares

/-! ### Who owns it -/

/-- Who covers a functor of the connection owns it. -/
theorem owned_of_covered (hplaced : Placed cfg s) (hc : c < s.nextObj) (h : Covered s c)
    (hmem : ∃ f ∈ (queue s c).rest, isBare c f = true) : owned cfg s c = true := by
  have hloop : ∀ i ∈ cfg.loops, holds c (s.loops i) = true → owned cfg s c = true := by
    intro i hi hholds
    have hany : cfg.loops.any (fun i => holds c (s.loops i)) = true :=
      List.any_eq_true.mpr ⟨i, hi, hholds⟩
    simp [owned, hany]
  rcases h.rest hmem with (hrefs | hin) | ⟨f, hf, howns⟩
  · simp [owned, hrefs]
  · rcases inServer_iff.mp hin with hentry | hremoval
    · simp [owned, hentry]
    · apply hloop 0 (List.mem_range.mpr (Nat.succ_pos _))
      rw [holds, Bool.or_eq_true, List.any_eq_true]
      refine Or.inr ⟨.removeConnectionInLoop c, ?_, by simp [Functor.owns]⟩
      rcases List.mem_append.mp hremoval with hrest | hpending
      · exact List.mem_append_right _ hrest
      · exact List.mem_append_left _ (List.mem_append_left _ hpending)
  · apply hloop _ (hplaced.own_mem c hc)
    rw [holds, Bool.or_eq_true, List.any_eq_true]
    refine Or.inr ⟨f, ?_, howns⟩
    rw [List.append_assoc]
    exact hf

end TcpServer
end Bbkgl
