import Bbkgl.Net.TcpServerView

/-!
# Where functors and calls stand

`Placed`: what is queued on a loop is about connections of that loop, and
addresses from `nextObj` on are not in use. The second half is about a method of
one connection: it changes what that connection sees as the method says, and
nothing that another one sees.
-/

set_option autoImplicit false

namespace Bbkgl
namespace TcpServer

open CS CS.Fallible CS.Transition TcpConnection

variable {cfg : Config} {s s' t : State} {i : LoopId} {c d : ConnId} {f : Functor}
  {l : Local} {g : Connection → Connection} {who : Caller} {a : Action}

/-- Nothing has been done with the object. -/
def Untouched (conn : TcpConnection) : Prop :=
  conn.alive = false ∧ conn.state = .connecting ∧ conn.channel.isReading = false

/-! ### What is queued -/

/-- The functor is in the queue of the right loop, and about a connection that has been made. -/
def FunctorPlaced (s : State) (i : LoopId) : Functor → Prop
  | .connEstablished c | .connDestroyed c | .shutdownInLoop c => c < s.nextObj ∧ own s c = i
  | .sendInLoop c _ message => (c < s.nextObj ∧ own s c = i) ∧ message.length ≤ Buffer.maxSize
  | .removeConnectionInLoop c => c < s.nextObj ∧ i = 0
  | .writeComplete _ | .addTimerInLoop _ | .user => True

/-- The call is about a connection that has been made. -/
def CallPlaced (s : State) : Call → Prop
  | .send c message => c < s.nextObj ∧ message.length ≤ Buffer.maxSize
  | .shutdownChecked c | .shutdownSet c => c < s.nextObj

/-- What never changes about the places of things: loops, functors, calls and buffers. -/
structure Placed (cfg : Config) (s : State) : Prop where
  fresh : ∀ c, s.nextObj ≤ c → Untouched (s.conns c)
  own_mem : ∀ c, c < s.nextObj → own s c ∈ cfg.loops
  next : cfg.numThreads = 0 ∨ s.next < cfg.numThreads
  functors : ∀ i, ∀ f ∈ todo s i, FunctorPlaced s i f
  calls : ∀ who call, s.calls who = some call → who ∈ cfg.callers ∧ CallPlaced s call
  wf : ∀ c, (s.conns c).output.WF
  batch : ∀ i, (s.loops i).phase ≠ .functors → (s.loops i).functors.rest = []

theorem placed_init : Placed cfg State.init where
  fresh _ _ := ⟨rfl, rfl, Channel.noneEvent_meets⟩
  own_mem _ hc := absurd hc (Nat.not_lt_zero _)
  next := (Nat.eq_zero_or_pos _)
  functors _ _ hf := absurd hf List.not_mem_nil
  calls _ _ hcall := absurd hcall (by simp [State.init])
  wf _ := Buffer.wf_new
  batch _ _ := rfl

theorem FunctorPlaced.congr (h : FunctorPlaced s i f) (hnext : s.nextObj ≤ s'.nextObj)
    (hown : ∀ c < s.nextObj, own s' c = own s c) : FunctorPlaced s' i f := by
  cases f with
  | connEstablished c | connDestroyed c | shutdownInLoop c =>
    exact ⟨Nat.lt_of_lt_of_le h.1 hnext, (hown c h.1).trans h.2⟩
  | sendInLoop c who message =>
    exact ⟨⟨Nat.lt_of_lt_of_le h.1.1 hnext, (hown c h.1.1).trans h.1.2⟩, h.2⟩
  | removeConnectionInLoop c => exact ⟨Nat.lt_of_lt_of_le h.1 hnext, h.2⟩
  | writeComplete c | addTimerInLoop c | user => trivial

theorem CallPlaced.congr {call : Call} (h : CallPlaced s call) (hnext : s.nextObj ≤ s'.nextObj) :
    CallPlaced s' call := by
  cases call with
  | send c message => exact ⟨Nat.lt_of_lt_of_le h.1 hnext, h.2⟩
  | shutdownChecked c | shutdownSet c => exact Nat.lt_of_lt_of_le h hnext

namespace Placed

/-- A step that creates no object: what is new in the queues and the calls is to be shown. -/
theorem of_same (h : Placed cfg s) (hnext : s'.nextObj = s.nextObj) (hturn : s'.next = s.next)
    (hown : ∀ c, own s' c = own s c)
    (hfresh : ∀ c, s.nextObj ≤ c → Untouched (s'.conns c))
    (hfunctors : ∀ i, ∀ f ∈ todo s' i, f ∈ todo s i ∨ FunctorPlaced s i f)
    (hcalls : ∀ who call, s'.calls who = some call →
      s.calls who = some call ∨ who ∈ cfg.callers ∧ CallPlaced s call)
    (hwf : ∀ c, (s'.conns c).output.WF)
    (hbatch : ∀ i, (s'.loops i).phase ≠ .functors → (s'.loops i).functors.rest = []) :
    Placed cfg s' where
  fresh c hc := hfresh c (hnext ▸ hc)
  own_mem c hc := hown c ▸ h.own_mem c (hnext ▸ hc)
  next := hturn ▸ h.next
  functors i f hf := by
    have hplaced : FunctorPlaced s i f := (hfunctors i f hf).elim (h.functors i f) id
    exact hplaced.congr (Nat.le_of_eq hnext.symm) fun c _ => hown c
  calls who call hcall := by
    have hplaced : who ∈ cfg.callers ∧ CallPlaced s call :=
      (hcalls who call hcall).elim (h.calls who call) id
    exact hplaced.imp_right fun hp => hp.congr (Nat.le_of_eq hnext.symm)
  wf := hwf
  batch := hbatch

theorem setLoop (h : Placed cfg s) {u : Loop → Loop}
    (hu : ∀ f ∈ (u (s.loops i)).functors.todo, f ∈ todo s i ∨ FunctorPlaced s i f)
    (hbatch : (u (s.loops i)).phase ≠ .functors → (u (s.loops i)).functors.rest = []) :
    Placed cfg (setLoop s i u) := by
  refine h.of_same rfl rfl (fun _ => rfl) h.fresh (fun j f hf => ?_) (fun _ _ => Or.inl) h.wf
    fun j hj => ?_
  · rw [todo, loops_setLoop] at hf
    split at hf
    · next hj => exact hj ▸ hu f hf
    · exact Or.inl hf
  · rw [loops_setLoop] at hj ⊢
    split at hj
    · next hji => rw [if_pos hji]; exact hbatch hj
    · next hji => rw [if_neg hji]; exact h.batch j hj

/-- Everything but the functors of a loop. -/
theorem setLoop_frame (h : Placed cfg s) {u : Loop → Loop}
    (hu : (u (s.loops i)).functors = (s.loops i).functors)
    (hphase : (u (s.loops i)).phase ≠ .functors → (s.loops i).phase ≠ .functors) :
    Placed cfg (TcpServer.setLoop s i u) :=
  h.setLoop (fun f hf => Or.inl (by rwa [hu] at hf)) fun hp => hu ▸ h.batch i (hphase hp)

theorem push (h : Placed cfg s) (hf : FunctorPlaced s i f) : Placed cfg (push s i f) := by
  rw [TcpServer.push, setFunctors]
  refine h.setLoop (fun f' hf' => ?_) (h.batch i)
  rw [Mailbox.todo_push, List.mem_append, List.mem_singleton] at hf'
  rcases hf' with hold | rfl
  · exact Or.inl hold
  · exact Or.inr hf

theorem advance (h : Placed cfg s) {fs : List Functor}
    (hrest : (s.loops i).functors.rest = f :: fs) :
    Placed cfg (setFunctors s i (s.loops i).functors.advance) :=
  h.setLoop (fun f' hf' => Or.inl (mem_todo_of_advance hrest hf')) fun hphase => by
    simp [h.batch i hphase] at hrest

theorem setConn (h : Placed cfg s) {u : TcpConnection → TcpConnection}
    (hloop : (u (s.conns c)).loop = (s.conns c).loop)
    (hfresh : s.nextObj ≤ c → Untouched (u (s.conns c)))
    (hwf : (u (s.conns c)).output.WF) : Placed cfg (setConn s c u) := by
  refine h.of_same rfl rfl (fun d => ?_) (fun d hd => ?_) (fun _ _ => Or.inl) (fun _ _ => Or.inl)
    (fun d => ?_) h.batch
  · rw [own, own, conns_setConn]
    split
    · next hd => rw [hd, hloop]
    · rfl
  · rw [conns_setConn]
    split
    · next hdc => exact hfresh (hdc ▸ hd)
    · exact h.fresh d hd
  · rw [conns_setConn]
    split
    · exact hwf
    · exact h.wf d

/-- A change of the object that leaves its core, less the log, alone. -/
theorem setConn_frame (h : Placed cfg s) {u : TcpConnection → TcpConnection}
    (hloop : (u (s.conns c)).loop = (s.conns c).loop)
    (halive : (u (s.conns c)).alive = (s.conns c).alive)
    (hstate : (u (s.conns c)).state = (s.conns c).state)
    (hreading : (u (s.conns c)).channel.isReading = (s.conns c).channel.isReading)
    (houtput : (u (s.conns c)).output = (s.conns c).output) :
    Placed cfg (TcpServer.setConn s c u) :=
  h.setConn hloop (fun hc => by rw [Untouched, halive, hstate, hreading]; exact h.fresh c hc)
    (by rw [houtput]; exact h.wf c)

theorem setCall (h : Placed cfg s) {call : Option Call}
    (hcall : ∀ call', call = some call' → who ∈ cfg.callers ∧ CallPlaced s call') :
    Placed cfg (setCall s who call) := by
  refine h.of_same rfl rfl (fun _ => rfl) h.fresh (fun _ _ => Or.inl) (fun w call' hw => ?_) h.wf
    h.batch
  simp only [TcpServer.setCall, Function.update_apply] at hw
  split at hw
  · next hwho => exact Or.inr (hwho ▸ hcall call' hw)
  · exact Or.inl hw

theorem connections (h : Placed cfg s) {m : String → Option ConnId} :
    Placed cfg { s with connections := m } :=
  h.of_same rfl rfl (fun _ => rfl) h.fresh (fun _ _ => Or.inl) (fun _ _ => Or.inl) h.wf h.batch

/-- An address in use, or once used, is below `nextObj`. -/
theorem lt_nextObj_of_alive (h : Placed cfg s) (halive : (s.conns c).alive = true) :
    c < s.nextObj :=
  Nat.lt_of_not_le fun hc => by simp [(h.fresh c hc).1] at halive

theorem lt_nextObj_of_state (h : Placed cfg s) (hstate : (s.conns c).state ≠ .connecting) :
    c < s.nextObj :=
  Nat.lt_of_not_le fun hc => hstate (h.fresh c hc).2.1

theorem lt_nextObj_of_reading (h : Placed cfg s)
    (hreading : (s.conns c).channel.isReading = true) : c < s.nextObj :=
  Nat.lt_of_not_le fun hc => by simp [(h.fresh c hc).2.2] at hreading

end Placed

/-! ### Changes that no connection sees -/

/-- Nothing that a connection's view shows has changed. -/
structure Unseen (cfg : Config) (s t : State) : Prop where
  placed : Placed cfg t
  fault : t.fault = s.fault
  nextObj : t.nextObj = s.nextObj
  name : ∀ c, (t.conns c).name = (s.conns c).name
  view : ∀ c, view t c = view s c

theorem Unseen.trans (h : Unseen cfg s s') (h' : Unseen cfg s' t) : Unseen cfg s t where
  placed := h'.placed
  fault := h'.fault.trans h.fault
  nextObj := h'.nextObj.trans h.nextObj
  name c := (h'.name c).trans (h.name c)
  view c := (h'.view c).trans (h.view c)

theorem unseen_self (h : Placed cfg s) : Unseen cfg s s :=
  ⟨h, rfl, rfl, fun _ => rfl, fun _ => rfl⟩

/-- Everything but the functors of a loop. -/
theorem unseen_setLoop (h : Placed cfg s) {u : Loop → Loop}
    (hu : (u (s.loops i)).functors = (s.loops i).functors)
    (hphase : (u (s.loops i)).phase ≠ .functors → (s.loops i).phase ≠ .functors) :
    Unseen cfg s (setLoop s i u) :=
  ⟨h.setLoop_frame hu hphase, rfl, rfl, fun _ => rfl, fun _ => view_setLoop (by rw [hu])⟩

theorem unseen_setPhase (h : Placed cfg s) {phase : Phase}
    (hphase : (s.loops i).phase ≠ .functors) :
    Unseen cfg s (setPhase s i phase) :=
  unseen_setLoop h rfl fun _ => hphase

theorem unseen_enterUser (h : Placed cfg s) {frame : Frame} : Unseen cfg s (enterUser s i frame) :=
  unseen_setLoop h rfl id

theorem unseen_push (h : Placed cfg s) (hplaced : FunctorPlaced s i f)
    (htask : ∀ c, taskOf c f = none) (hremove : ∀ c, f ≠ .removeConnectionInLoop c) :
    Unseen cfg s (push s i f) :=
  ⟨h.push hplaced, rfl, rfl, fun _ => rfl, fun c => view_push_of_none (htask c) (hremove c)⟩

/-- A change of the object that is not in its `core`. -/
theorem unseen_setConn (h : Placed cfg s) {u : TcpConnection → TcpConnection}
    (hloop : (u (s.conns d)).loop = (s.conns d).loop)
    (hname : (u (s.conns d)).name = (s.conns d).name)
    (halive : (u (s.conns d)).alive = (s.conns d).alive)
    (hstate : (u (s.conns d)).state = (s.conns d).state)
    (houtput : (u (s.conns d)).output = (s.conns d).output)
    (hcore : ∀ v, core v (u (s.conns d)) = core v (s.conns d)) :
    Unseen cfg s (setConn s d u) := by
  have hreading := congrArg Connection.reading (hcore (.init (.user 0)))
  refine ⟨h.setConn_frame hloop halive hstate hreading houtput, rfl, rfl, fun c => ?_,
    fun c => view_setConn hloop hname hcore⟩
  rw [conns_setConn]
  split
  · next hc => rw [hname, hc]
  · rfl

/-! ### A method -/

/-- From `s` to `t` the connection `d` has changed as `g` says, and no other has. -/
structure Touches (cfg : Config) (s t : State) (d : ConnId) (g : Connection → Connection) :
    Prop where
  placed : Placed cfg t
  fault : t.fault = s.fault
  nextObj : t.nextObj = s.nextObj
  name : ∀ c, (t.conns c).name = (s.conns c).name
  self : view t d = g (view s d)
  other : ∀ c, c ≠ d → view t c = view s c

theorem Touches.unseen (h : Touches cfg s s' d g) (h' : Unseen cfg s' t) : Touches cfg s t d g where
  placed := h'.placed
  fault := h'.fault.trans h.fault
  nextObj := h'.nextObj.trans h.nextObj
  name c := (h'.name c).trans (h.name c)
  self := (h'.view d).trans h.self
  other c hc := (h'.view c).trans (h.other c hc)

/-- A method returns if the object exists and its body returns. -/
theorem method_eq_ok_iff {site : Access} {u : Local → Except Fault Local} :
    method s c site u = .ok t ↔
      (s.conns c).alive = true ∧ ∃ l, u (localOf s c) = .ok l ∧ putLocal s c l = t := by
  rw [method, touch, check_bind_eq_ok_iff, bind_eq_ok_iff]
  simp only [pure_eq_ok_iff]

/-- A method does to its own connection what it says, and nothing to another's. -/
theorem touches_putLocal (h : Placed cfg s) (halive : (s.conns d).alive = true)
    (hacts : Local.Acts d (localOf s d) l g) : Touches cfg s (putLocal s d l) d g := by
  obtain ⟨hself, hother⟩ := view_putLocal hacts
  refine ⟨h.of_same rfl rfl (fun c => ?_) (fun c hc => ?_) (fun j f hf => ?_) (fun _ _ => Or.inl)
    (fun c => ?_) fun j hj => ?_, rfl, rfl, fun c => ?_, hself, hother⟩
  · rw [own, own, conns_putLocal]
    split
    · next hc => rw [hc]; exact hacts.same.loop
    · rfl
  · have hne : c ≠ d := fun hcd =>
      Nat.not_lt_of_le (hcd ▸ hc) (h.lt_nextObj_of_alive halive)
    rw [conns_putLocal, if_neg hne]
    exact h.fresh c hc
  · rw [todo_putLocal] at hf
    split at hf
    · rcases List.mem_append.mp hf with hf | hf
      · exact Or.inl hf
      · obtain ⟨fs, hfs, hall⟩ := hacts.queued
        have hqueued : l.queued = fs := hfs
        rw [hall f (hqueued ▸ hf)]
        exact Or.inr trivial
    · exact Or.inl hf
  · rw [conns_putLocal]
    split
    · exact hacts.wf
    · exact h.wf c
  · rw [putLocal] at hj ⊢
    simp only [loops_setLoop] at hj ⊢
    split at hj
    · next hjd =>
      rw [if_pos hjd, foldl_push_rest]
      exact h.batch _ hj
    · next hjd =>
      rw [if_neg hjd]
      exact h.batch j hj
  · rw [conns_putLocal]
    split
    · next hc => rw [hc]; exact hacts.same.name
    · rfl

theorem touches_method (h : Placed cfg s) {site : Access} {u : Local → Except Fault Local}
    (hacts : ∀ l, u (localOf s d) = .ok l → Local.Acts d (localOf s d) l g)
    (hok : method s d site u = .ok t) : (s.conns d).alive = true ∧ Touches cfg s t d g := by
  obtain ⟨halive, l, hl, rfl⟩ := method_eq_ok_iff.mp hok
  exact ⟨halive, touches_putLocal h halive (hacts l hl)⟩

/-- A method that cannot fail once it is called. -/
theorem touches_method_ok (h : Placed cfg s) {site : Access} {u : Local → Local}
    (hacts : Local.Acts d (localOf s d) (u (localOf s d)) g)
    (hok : method s d site (fun l => .ok (u l)) = .ok t) :
    (s.conns d).alive = true ∧ Touches cfg s t d g := by
  refine touches_method h (fun l hl => ?_) hok
  obtain rfl := Except.ok.inj hl
  exact hacts

end TcpServer
end Bbkgl
