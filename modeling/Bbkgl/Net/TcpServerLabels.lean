import Bbkgl.Net.TcpServerPlaced

/-!
# The steps of the server, connection by connection

`labels` says what a step of the server is for one connection: a short list of
actions of the abstract machine, empty for most steps. Here are its definition
and the steps that establish, close, remove and destroy a connection or execute
a functor; `TcpServerRefines` has the others.
-/

set_option autoImplicit false

namespace Bbkgl
namespace TcpServer

open CS CS.Fallible CS.Transition TcpConnection

/-- `RemoveConnectionInLoop` of `d`, for `c`. -/
def removal (s : State) (c d : ConnId) : List Connection.Action :=
  if c = d then [.remove]
  else if (s.conns c).name = (s.conns d).name ∧ (view s c).inMap = true then [.evict]
  else []

/-- `HandleClose` of `d`, for `c`. -/
def closing (s : State) (c d : ConnId) : List Connection.Action :=
  (if c = d then [.close] else []) ++ if own s d = 0 then removal s c d else []

/-- The functor `f`, for `c`. -/
def functorLabels (s : State) (c : ConnId) (wr : WriteResult) : Functor → List Connection.Action
  | .connEstablished d => if c = d then [.establish] else []
  | .connDestroyed d => if c = d then [.destroy] else []
  | .removeConnectionInLoop d => removal s c d
  | .sendInLoop d _ _ => if c = d then [.runSend wr] else []
  | .shutdownInLoop d => if c = d then [.runShutdown] else []
  | .writeComplete _ | .addTimerInLoop _ | .user => []

/-- The next step of a call that `who` has under way, for `c`. -/
def callLabels (c : ConnId) (who : Caller) : Call → List Connection.Action
  | .send d _ => if c = d then [.pushSend who] else []
  | .shutdownChecked d => if c = d then [.setDisconnecting who] else []
  | .shutdownSet d => if c = d then [.pushShutdown who] else []

variable (cfg : Config)

/-- What a step of the server is for the connection `c`. -/
def labels (s : State) (c : ConnId) : Action → List Connection.Action
  | .handleClose i => closing s c (handled s i)
  | .handleRead i readv => if readv = some [] then closing s c (handled s i) else []
  | .handleWrite i wr => if c = handled s i then [.handleWrite wr] else []
  | .newConnection _ =>
    if (s.conns c).name = connName cfg (s.nextConnId + 1) ∧ (view s c).inMap = true then [.evict]
    else []
  | .closeTimer d => closing s c d
  | .runFunctor i wr => match (s.loops i).functors.rest with
    | [] => []
    | f :: _ => functorLabels s c wr f
  | .send who d message wr =>
    if c = d ∧ (s.conns d).state = .connected then
      [if who = .loop (own s d) then .sendDirect who message wr else .callSend who message]
    else []
  | .shutdown who d =>
    if c = d ∧ (s.conns d).state = .connected then
      [if who = .loop (own s d) then .shutdownDirect else .callShutdown who]
    else []
  | .proceed who => match s.calls who with
    | none => []
    | some call => callLabels c who call
  | .destroy d => if c = d then [.die] else []
  | .poll _ _ | .handleEvent _ | .handleError _ | .endEvent _ | .userCode _ | .doPendingFunctors _
  | .finishFunctors _ | .userReturn _ | .close _ _ | .queueInLoop _ _ | .setWriteComplete _ _ _
  | .inputBuffer _ _ | .keep _ _ | .drop _ => []

/-- The step from `s` to `t` has created no object and is `steps c` for each connection `c`. -/
structure Follows (s t : State) (steps : ConnId → List Connection.Action) : Prop where
  placed : Placed cfg t
  fault : t.fault = s.fault
  nextObj : t.nextObj = s.nextObj
  views : ∀ c, c < s.nextObj → run Connection.step (view s c) (steps c) = some (view t c)

variable {cfg} {s s' t : State} {i : LoopId} {c d : ConnId} {f : Functor}
  {l : Local} {g : Connection → Connection} {who : Caller} {a : Action}
  {b : Connection.Action} {steps : ConnId → List Connection.Action}

theorem Unseen.follows (h : Unseen cfg s t) : Follows cfg s t fun _ => [] :=
  ⟨h.placed, h.fault, h.nextObj, fun c _ => by rw [h.view, run_nil]⟩

/-- A run of one action. -/
theorem run_singleton {v v' : Connection} (hguard : v.guard b = true) (heffect : v.effect b = v') :
    run Connection.step v [b] = some v' := by
  rw [run_cons, Connection.step, guarded_eq_some_iff.mpr ⟨hguard, heffect⟩]
  rfl

/-- A step that concerns `d` alone and is one action of its machine. -/
theorem follows_of_view_self (hplaced : Placed cfg t) (hfault : t.fault = s.fault)
    (hnext : t.nextObj = s.nextObj) (hguard : (view s d).guard b = true)
    (hself : view t d = (view s d).effect b)
    (hother : ∀ c, c ≠ d → view t c = view s c) :
    Follows cfg s t fun c => if c = d then [b] else [] := by
  refine ⟨hplaced, hfault, hnext, fun c _ => ?_⟩
  split
  · next hc => exact hc ▸ run_singleton hguard hself.symm
  · next hc => rw [hother c hc, run_nil]

/-- The first functor of the batch, taken out and executed. -/
theorem view_pop (hplaced : Placed cfg s) {fs : List Functor}
    (hrest : (s.loops i).functors.rest = f :: fs) :
    view s c = { view (setFunctors s i (s.loops i).functors.advance) c with
      tasks := (taskOf c f).toList ++ (view (setFunctors s i (s.loops i).functors.advance) c).tasks
      removals := (view (setFunctors s i (s.loops i).functors.advance) c).removals +
        if f = .removeConnectionInLoop c then 1 else 0 } := by
  have hmem : f ∈ todo s i := mem_todo_of_rest hrest
  have hf := hplaced.functors i f hmem
  have htask : (if own s c = i then (taskOf c f).toList else []) = (taskOf c f).toList := by
    split
    · rfl
    · next hown =>
      cases f with
      | connEstablished d | connDestroyed d | shutdownInLoop d =>
        have hne : d ≠ c := fun hd => hown (hd ▸ hf.2)
        simp [taskOf, hne]
      | sendInLoop d who message =>
        have hne : d ≠ c := fun hd => hown (hd ▸ hf.1.2)
        simp [taskOf, hne]
      | removeConnectionInLoop d | writeComplete d | addTimerInLoop d | user => rfl
  have hremoval : (if 0 = i ∧ f = .removeConnectionInLoop c then 1 else 0) =
      if f = .removeConnectionInLoop c then 1 else 0 := by
    by_cases hfc : f = .removeConnectionInLoop c
    · have h0 : i = 0 := by
        rw [hfc] at hf
        exact hf.2
      simp [hfc, h0]
    · simp [hfc]
  rw [view_advance hrest, htask, hremoval]

/-- A functor that is a task comes off the front of the tasks. -/
theorem view_pop_task (hplaced : Placed cfg s) {fs : List Functor} {task : Task}
    (hrest : (s.loops i).functors.rest = f :: fs) (htask : taskOf c f = some task) :
    view s c = { view (setFunctors s i (s.loops i).functors.advance) c with
      tasks := task :: (view (setFunctors s i (s.loops i).functors.advance) c).tasks } := by
  have hremoval : f ≠ .removeConnectionInLoop c := fun hf => by simp [hf, taskOf] at htask
  rw [view_pop hplaced hrest, htask, if_neg hremoval]
  rfl

/-- A functor that is no task is not seen. -/
theorem view_pop_none (hplaced : Placed cfg s) {fs : List Functor}
    (hrest : (s.loops i).functors.rest = f :: fs) (htask : taskOf c f = none)
    (hremoval : f ≠ .removeConnectionInLoop c) :
    view (setFunctors s i (s.loops i).functors.advance) c = view s c := by
  rw [view_pop hplaced hrest, htask, if_neg hremoval]
  rfl

theorem view_pop_removal (hplaced : Placed cfg s) {fs : List Functor}
    (hrest : (s.loops i).functors.rest = .removeConnectionInLoop c :: fs) :
    view s c = { view (setFunctors s i (s.loops i).functors.advance) c with
      removals := (view (setFunctors s i (s.loops i).functors.advance) c).removals + 1 } := by
  rw [view_pop hplaced hrest, if_pos rfl]
  rfl

theorem unseen_pop (hplaced : Placed cfg s) {fs : List Functor}
    (hrest : (s.loops i).functors.rest = f :: fs) (htask : ∀ c, taskOf c f = none)
    (hremoval : ∀ c, f ≠ .removeConnectionInLoop c) :
    Unseen cfg s (setFunctors s i (s.loops i).functors.advance) :=
  ⟨hplaced.advance hrest, rfl, rfl, fun _ => rfl,
    fun c => view_pop_none hplaced hrest (htask c) (hremoval c)⟩

/-- Before a step, something has changed that no connection sees. -/
theorem Follows.of_unseen (hu : Unseen cfg s s') (h : Follows cfg s' t steps) :
    Follows cfg s t steps where
  placed := h.placed
  fault := h.fault.trans hu.fault
  nextObj := h.nextObj.trans hu.nextObj
  views c hc := hu.view c ▸ h.views c (hu.nextObj ▸ hc)

theorem Follows.congr {steps' : ConnId → List Connection.Action} (h : Follows cfg s t steps)
    (hsteps : ∀ c, steps' c = steps c) : Follows cfg s t steps' where
  placed := h.placed
  fault := h.fault
  nextObj := h.nextObj
  views c hc := hsteps c ▸ h.views c hc

/-! ### Establishing, closing and removing -/

theorem removeConnectionInLoop_eq_ok (hok : removeConnectionInLoop s d = .ok t) :
    t = push { setConn s d (fun conn => { conn with log := conn.log ++ [.removed] }) with
      connections := Function.update s.connections (s.conns d).name none } (own s d)
      (.connDestroyed d) := by
  simp only [removeConnectionInLoop] at hok
  split at hok
  · exact (Except.ok.inj hok).symm
  · exact absurd hok (by simp)

theorem placed_removeConnectionInLoop (h : Placed cfg s) (hd : d < s.nextObj)
    (hok : removeConnectionInLoop s d = .ok t) : Placed cfg t := by
  rw [removeConnectionInLoop_eq_ok hok]
  have hrec : Placed cfg (setConn s d fun conn => { conn with log := conn.log ++ [.removed] }) :=
    h.setConn_frame rfl rfl rfl rfl rfl
  refine hrec.connections.push ⟨hd, ?_⟩
  simp [own, setConn]

/-- What `RemoveConnectionInLoop` is for its own connection. -/
theorem view_removeConnectionInLoop (hok : removeConnectionInLoop s d = .ok t) :
    view t d = { (view s d).record .removed with
      inMap := false, tasks := (view s d).tasks ++ [.destroy] } := by
  rw [removeConnectionInLoop_eq_ok hok]
  have hrec : view (setConn s d fun conn => { conn with log := conn.log ++ [.removed] }) d =
      (view s d).record .removed := view_setConn_self rfl rfl
  have hown : own (setConn s d fun conn => { conn with log := conn.log ++ [.removed] }) d =
      own s d := by simp [own, setConn]
  have hname :
      ((setConn s d fun conn => { conn with log := conn.log ++ [.removed] }).conns d).name =
      (s.conns d).name := by simp [setConn]
  have htask : taskOf d (.connDestroyed d) = some .destroy := if_pos rfl
  rw [← hown, view_push_task htask, view_connections, hrec, hname, Function.update_self]
  rfl

/-- For another connection it is the loss of its entry, if the name is the same. -/
theorem run_removal_of_ne (hok : removeConnectionInLoop s d = .ok t) (hc : c ≠ d) :
    run Connection.step (view s c) (removal s c d) = some (view t c) := by
  have hother : view t c = { view s c with
      inMap := (view s c).inMap && (s.conns c).name ≠ (s.conns d).name } := by
    rw [removeConnectionInLoop_eq_ok hok]
    rw [view_push_of_none (by simp [taskOf, hc.symm]) (by simp), view_connections,
      view_setConn_of_ne hc]
    have hconn : (setConn s d fun conn => { conn with log := conn.log ++ [.removed] }).conns c =
        s.conns c := Function.update_of_ne hc _ _
    rw [hconn, Function.update_apply]
    by_cases hname : (s.conns c).name = (s.conns d).name
    · simp [hname]
    · simp [hname, view]
  rw [hother, removal, if_neg hc]
  by_cases hname : (s.conns c).name = (s.conns d).name
  · cases hmap : (view s c).inMap with
    | true =>
      rw [if_pos ⟨hname, rfl⟩]
      exact run_singleton rfl (by simp [Connection.effect, hname])
    -- the name is another connection's by now; there is nothing left to take
    | false =>
      rw [if_neg (by simp), run_nil, Bool.false_and, ← hmap]
  · rw [if_neg fun h => hname h.1, run_nil]
    simp [hname]

/-- What `HandleClose` does before it calls the server. -/
theorem touches_handleClose (h : Placed cfg s) {site : Access}
    (hok : method s d site (Local.handleClose d) = .ok t) :
    ((s.conns d).alive = true ∧ (view s d).isUp = true) ∧ Touches cfg s t d fun v =>
      { v.record .closed with reading := false, writing := false } := by
  obtain ⟨halive, l, hl, rfl⟩ := method_eq_ok_iff.mp hok
  obtain ⟨hup, hacts⟩ := Local.handleClose_acts (h.wf d) hl
  exact ⟨⟨halive, hup⟩, touches_putLocal h halive hacts⟩

theorem removal_congr (hname : ∀ c, (s'.conns c).name = (s.conns c).name)
    (hview : c ≠ d → view s' c = view s c) : removal s' c d = removal s c d := by
  by_cases hc : c = d
  · rw [removal, removal, if_pos hc, if_pos hc]
  · rw [removal, removal, hname, hname, hview hc]

theorem Unseen.closing (h : Unseen cfg s s') : closing s' c d = closing s c d := by
  have hown : own s' d = own s d := Caller.loop.inj (congrArg Connection.owner (h.view d))
  rw [TcpServer.closing, TcpServer.closing, hown, removal_congr h.name fun _ => h.view c]

/-- `HandleClose` is a close, and a removal on the base loop. -/
theorem follows_handleClose (h : Placed cfg s) {site : Access}
    (hok : handleClose s d site = .ok t) : Follows cfg s t fun c => closing s c d := by
  obtain ⟨m, hm, hok⟩ := bind_eq_ok_iff.mp hok
  obtain ⟨⟨halive, hup⟩, htouches⟩ := touches_handleClose h hm
  have hd : d < m.nextObj := htouches.nextObj ▸ h.lt_nextObj_of_alive halive
  have hguard : (view s d).guard .close = true := by
    rw [Connection.guard, hup, Bool.true_and]
    exact halive
  split at hok
  · next hbase =>
    have hnext : t.nextObj = m.nextObj := by rw [removeConnectionInLoop_eq_ok hok]; rfl
    have hfault : t.fault = m.fault := by rw [removeConnectionInLoop_eq_ok hok]; rfl
    refine ⟨placed_removeConnectionInLoop htouches.placed hd hok, hfault.trans htouches.fault,
      hnext.trans htouches.nextObj, fun c _ => ?_⟩
    rw [closing, if_pos hbase]
    by_cases hc : c = d
    · subst hc
      rw [removal, if_pos rfl, if_pos rfl, view_removeConnectionInLoop hok, htouches.self,
        run_append, run_singleton hguard rfl, Option.bind_some]
      have hpending : ((view s c).effect .close).guard .remove = true := by
        simp [Connection.guard, Connection.effect]
      exact run_singleton hpending rfl
    · rw [if_neg hc, List.nil_append, ← htouches.other c hc,
        ← removal_congr htouches.name fun hne => htouches.other c hne]
      exact run_removal_of_ne hok hc
  · next hio =>
    obtain rfl := pure_eq_ok_iff.mp hok
    have hplaced := htouches.placed.push (f := .removeConnectionInLoop d) ⟨hd, rfl⟩
    refine (follows_of_view_self hplaced htouches.fault htouches.nextObj hguard ?_
      fun c hc => ?_).congr fun c => ?_
    · rw [view_push_removal, htouches.self]
      rfl
    · rw [view_push_of_none rfl (by simp [hc.symm]), htouches.other c hc]
    · rw [closing, if_neg hio, List.append_nil]

/-- `ConnEstablished` passes its assertion, and opens the connection. -/
theorem touches_connEstablished (h : Placed cfg s) (hok : connEstablished s d = .ok t) :
    (view s d).state = .connecting ∧ Touches cfg s t d fun v =>
      { v.record .up with state := .connected, reading := true } := by
  obtain ⟨m, hm, hok⟩ := bind_eq_ok_iff.mp hok
  obtain rfl := pure_eq_ok_iff.mp hok
  obtain ⟨halive, l, hl, rfl⟩ := method_eq_ok_iff.mp hm
  obtain ⟨hstate, hacts⟩ := Local.connEstablished_acts (h.wf d) hl
  have hmethod := touches_putLocal h halive hacts
  exact ⟨hstate, hmethod.unseen (unseen_enterUser hmethod.placed)⟩

/-- `ConnDestroyed` passes its assertion, and ends the connection. -/
theorem touches_connDestroyed (h : Placed cfg s) (hok : connDestroyed s d = .ok t) :
    (view s d).isUp = true ∧ Touches cfg s t d fun v =>
      { (v.record .destroyed).record .down with
        state := .disconnected, reading := false, writing := false } := by
  obtain ⟨m, hm, hok⟩ := bind_eq_ok_iff.mp hok
  obtain rfl := pure_eq_ok_iff.mp hok
  obtain ⟨halive, l, hl, rfl⟩ := method_eq_ok_iff.mp hm
  obtain ⟨hup, hacts⟩ := Local.connDestroyed_acts (h.wf d) hl
  have hmethod := touches_putLocal h halive hacts
  exact ⟨hup, hmethod.unseen (unseen_enterUser hmethod.placed)⟩

/-! ### Functors -/

/-- A functor that is a task of `d` alone. -/
theorem follows_task (h : Placed cfg s) {fs : List Functor} {task : Task}
    (hrest : (s.loops i).functors.rest = f :: fs) (htask : taskOf d f = some task)
    (hother : ∀ c, c ≠ d → taskOf c f = none)
    (htouches : Touches cfg (setFunctors s i (s.loops i).functors.advance) t d g)
    (hguard : (view s d).guard b = true) (heffect : (view s d).effect b = g (view s d).popTask) :
    Follows cfg s t fun c => if c = d then [b] else [] := by
  have hremoval : ∀ c, f ≠ .removeConnectionInLoop c := fun c hf => by simp [hf, taskOf] at htask
  have hpop : view (setFunctors s i (s.loops i).functors.advance) d = (view s d).popTask := by
    rw [view_pop_task h hrest htask]
    rfl
  refine follows_of_view_self htouches.placed htouches.fault htouches.nextObj hguard ?_
    fun c hc => ?_
  · rw [heffect, htouches.self, hpop]
  · rw [htouches.other c hc, view_pop_none h hrest (hother c hc) (hremoval c)]

/-- A queued `RemoveConnectionInLoop` is a removal. -/
theorem follows_removal (h : Placed cfg s) {fs : List Functor}
    (hrest : (s.loops i).functors.rest = .removeConnectionInLoop d :: fs) (hd : d < s.nextObj)
    (hok : removeConnectionInLoop (setFunctors s i (s.loops i).functors.advance) d = .ok t) :
    Follows cfg s t fun c => removal s c d := by
  have hview : ∀ c, c ≠ d →
      view (setFunctors s i (s.loops i).functors.advance) c = view s c := fun c hc =>
    view_pop_none h hrest rfl (by simp [hc.symm])
  refine ⟨placed_removeConnectionInLoop (h.advance hrest) hd hok, ?_, ?_, fun c _ => ?_⟩
  · rw [removeConnectionInLoop_eq_ok hok]
    rfl
  · rw [removeConnectionInLoop_eq_ok hok]
    rfl
  · by_cases hc : c = d
    · subst hc
      have hpending : (view s c).guard .remove = true := by
        rw [view_pop_removal h hrest]
        simp [Connection.guard]
      rw [removal, if_pos rfl]
      apply run_singleton hpending
      rw [view_removeConnectionInLoop hok, view_pop_removal h hrest]
      rfl
    · have hremoval : removal (setFunctors s i (s.loops i).functors.advance) c d =
          removal s c d := removal_congr (fun _ => rfl) fun hne => hview c hne
      rw [← hview c hc, ← hremoval]
      exact run_removal_of_ne hok hc

/-- Every functor is the actions that its labels say. -/
theorem follows_runFunctor (h : Placed cfg s) {fs : List Functor} {wr : WriteResult}
    (hrest : (s.loops i).functors.rest = f :: fs)
    (hok : runFunctor (setFunctors s i (s.loops i).functors.advance) i wr f = .ok t) :
    Follows cfg s t fun c => functorLabels s c wr f := by
  have hu := h.advance hrest
  have hmem : f ∈ todo s i := mem_todo_of_rest hrest
  have hplaced := h.functors i f hmem
  have hhead : ∀ {c task}, taskOf c f = some task → (view s c).tasks.head? = some task :=
    fun htask => by rw [view_pop_task h hrest htask]; rfl
  cases f with
  | connEstablished d =>
    obtain ⟨hstate, htouches⟩ := touches_connEstablished hu hok
    have hstate : (view s d).state = .connecting := hstate
    have hguard : (view s d).guard .establish = true := by
      rw [Connection.guard, hhead (if_pos rfl), hstate]
      rfl
    exact follows_task h hrest (if_pos rfl) (fun c hc => if_neg hc.symm) htouches hguard rfl
  | connDestroyed d =>
    obtain ⟨hup, htouches⟩ := touches_connDestroyed hu hok
    have hup : (view s d).isUp = true := hup
    have hguard : (view s d).guard .destroy = true := by
      rw [Connection.guard, hhead (if_pos rfl), hup]
      rfl
    exact follows_task h hrest (if_pos rfl) (fun c hc => if_neg hc.symm) htouches hguard rfl
  | removeConnectionInLoop d => exact follows_removal h hrest hplaced.1 hok
  | sendInLoop d who message =>
    have htask : taskOf d (.sendInLoop d who message) = some (.send who message) := if_pos rfl
    obtain ⟨-, htouches⟩ := touches_method hu (fun l hl =>
      Local.sendInLoop_acts (hu.wf d) hplaced.2 hl) hok
    have htasks := view_pop_task h hrest htask
    refine follows_task h hrest htask (fun c hc => if_neg hc.symm) htouches ?_ ?_
    · rw [htasks]
      rfl
    · rw [htasks]
      rfl
  | shutdownInLoop d =>
    obtain ⟨-, htouches⟩ := touches_method_ok (u := Local.shutdownInLoop) hu
      (Local.shutdownInLoop_acts (hu.wf d)) hok
    have hguard : (view s d).guard .runShutdown = true := by
      rw [Connection.guard, hhead (if_pos rfl)]
      rfl
    exact follows_task h hrest (if_pos rfl) (fun c hc => if_neg hc.symm) htouches hguard rfl
  | writeComplete d =>
    obtain rfl := Except.ok.inj hok
    exact ((unseen_pop h hrest (fun _ => rfl) (by simp)).trans (unseen_enterUser hu)).follows
  | addTimerInLoop d =>
    obtain rfl := Except.ok.inj hok
    exact ((unseen_pop h hrest (fun _ => rfl) (by simp)).trans
      (unseen_setConn hu rfl rfl rfl rfl rfl fun _ => rfl)).follows
  | user =>
    obtain rfl := Except.ok.inj hok
    exact ((unseen_pop h hrest (fun _ => rfl) (by simp)).trans (unseen_enterUser hu)).follows

end TcpServer
end Bbkgl
