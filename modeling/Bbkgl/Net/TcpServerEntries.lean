import Bbkgl.Net.TcpServerAnatomy
import Bbkgl.Net.TcpServerTeardown

/-!
# The entries in `connections_`

A connection may be closed more than once. As long as none takes the entry of
another, by its name or by a removal, it is removed once: the second
`RemoveConnectionInLoop` finds nothing, and its assertion ends the run.
-/

set_option autoImplicit false

namespace Bbkgl
namespace TcpServer

open CS.Fallible CS.Transition TcpConnection Connection

/-- No connection takes the entry of another in `connections_`. -/
def keepsEntries (cfg : Config) (s : State) (a : Action) : Bool :=
  nameFree cfg s a && (removes s a).all fun d => (s.connections (s.conns d).name).all (· = d)

/-- The names, the counter and the entries are as before. -/
structure KeepsNames (s t : State) : Prop where
  nextObj : t.nextObj = s.nextObj
  nextConnId : t.nextConnId = s.nextConnId
  connections : t.connections = s.connections
  name : ∀ c, (t.conns c).name = (s.conns c).name

variable {cfg : Config} {s m t : State} {i : LoopId} {c d : ConnId} {f : Functor} {a : Action}
  {who : Caller} {as : List Action}

/-! ### Names -/

theorem KeepsNames.rfl : KeepsNames s s := ⟨.refl _, .refl _, .refl _, fun _ => .refl _⟩

theorem KeepsNames.trans (h : KeepsNames s m) (h' : KeepsNames m t) : KeepsNames s t where
  nextObj := h'.nextObj.trans h.nextObj
  nextConnId := h'.nextConnId.trans h.nextConnId
  connections := h'.connections.trans h.connections
  name c := (h'.name c).trans (h.name c)

theorem keepsNames_setLoop {u : Loop → Loop} : KeepsNames s (setLoop s i u) :=
  ⟨rfl, rfl, rfl, fun _ => rfl⟩

theorem keepsNames_push : KeepsNames s (push s i f) := ⟨rfl, rfl, rfl, fun _ => rfl⟩

theorem keepsNames_setConn {u : TcpConnection → TcpConnection}
    (hname : (u (s.conns d)).name = (s.conns d).name) : KeepsNames s (setConn s d u) := by
  refine ⟨rfl, rfl, rfl, fun c => ?_⟩
  rw [conns_setConn]
  split
  · next hc => rw [hname, hc]
  · rfl

theorem keepsNames_nextCallback : KeepsNames s (nextCallback s i) := by
  rw [nextCallback]
  split
  · exact keepsNames_setLoop
  · exact .rfl

/-- Only `NewConnection` opens with a new name. -/
theorem Opens.keepsNames (h : Opens cfg s a m) (hnew : ∀ fd, a ≠ .newConnection fd) :
    KeepsNames s m := by
  cases h with
  | newConnection fd => exact absurd rfl (hnew fd)
  | poll | runFunctor | userReturn => exact keepsNames_setLoop
  | handleEvent | endEvent | destroy => exact (keepsNames_setConn rfl).trans keepsNames_setLoop
  | handleClose | handleError | handleWrite => exact keepsNames_nextCallback
  | handleRead => exact keepsNames_nextCallback.trans (keepsNames_setConn rfl)
  | doPendingFunctors | finishFunctors => exact keepsNames_setLoop.trans keepsNames_setLoop
  | closeTimer | inputBuffer | keep | drop => exact keepsNames_setConn rfl
  | proceed who call =>
    cases call with
    | send | shutdownSet => exact ⟨rfl, rfl, rfl, fun _ => rfl⟩
    | shutdownChecked c =>
      have hset : KeepsNames s (setConn s c fun conn => { conn with state := .disconnecting }) :=
        keepsNames_setConn rfl
      exact hset.trans ⟨rfl, rfl, rfl, fun _ => rfl⟩
  | call => exact .rfl

/-- What a step does in between leaves names and entries alone. -/
theorem Works.keepsNames (h : Works cfg s a m t) : KeepsNames m t := by
  cases h with
  | push => exact keepsNames_push
  | setConn c g hedited => exact keepsNames_setConn hedited.fixed.name
  | setCall => exact ⟨rfl, rfl, rfl, fun _ => rfl⟩
  | method c l _ _ hparts =>
    refine ⟨rfl, rfl, rfl, fun d => ?_⟩
    rw [conns_putLocal]
    split
    · next hd => rw [hd, hparts.fixed.name]; rfl
    · rfl

theorem keepsNames_pushes {p : Option (LoopId × Entry)} : KeepsNames s (pushes s p) := by
  cases p with
  | none => exact .rfl
  | some p => exact ⟨rfl, rfl, rfl, fun _ => rfl⟩

/-! ### Entries -/

/-- The assertion about the erased entry. -/
theorem entry_of_removeConnectionInLoop (hok : removeConnectionInLoop s d = .ok t) :
    s.connections (s.conns d).name ≠ none := by
  intro hnone
  rw [removeConnectionInLoop] at hok
  simp [hnone] at hok

/-- A `HandleClose` on the base loop has found an entry. -/
theorem entry_of_handleClose (hwf : (s.conns d).output.WF) {site : Access} (hbase : own s d = 0)
    (hok : handleClose s d site = .ok t) : s.connections (s.conns d).name ≠ none := by
  obtain ⟨m, hm, hok⟩ := bind_eq_ok_iff.mp hok
  obtain ⟨-, l, hl, rfl⟩ := method_eq_ok_iff.mp hm
  rw [if_pos hbase] at hok
  have hentry := entry_of_removeConnectionInLoop hok
  rwa [conns_putLocal, if_pos rfl, (Local.handleClose_acts hwf hl).2.same.name] at hentry

/-- The removal of a connection that has its entry takes no other's. -/
theorem admits_remove {v : Connection} (hd : s.connections (s.conns d).name = some d)
    (hv : c = d → v.inMap = true) : Admits Connection.step KeepsEntry v (removal s c d) := by
  rw [removal]
  split
  · next hc => exact ⟨hv hc, fun _ _ => trivial⟩
  · next hne =>
    have hmap : (view s d).inMap = true := decide_eq_true hd
    -- the entry is `d`'s, so a connection of the same name has lost it already
    rw [if_neg fun h => by simp [not_evicted hmap hne h.1] at h]
    trivial

/-- The entry that a removal finds is its own. -/
theorem entry_eq_self (hkeeps : keepsEntries cfg s a = true) (hremoves : removes s a = some d)
    (hentry : s.connections (s.conns d).name ≠ none) : s.connections (s.conns d).name = some d := by
  simp only [keepsEntries, Bool.and_eq_true, hremoves, Option.all_some] at hkeeps
  obtain ⟨e, he⟩ := Option.ne_none_iff_exists'.mp hentry
  rw [he, Option.all_some, decide_eq_true_eq] at hkeeps
  rw [he, hkeeps.2]

/-- The entry that a step removes at its end is its own. -/
theorem entry_of_ends (hkeeps : keepsEntries cfg s a = true) (hremoves : removes s a = some d)
    (hnames : KeepsNames s m) (hok : removeConnectionInLoop m d = .ok t) :
    m.connections (m.conns d).name = some d := by
  have hentry := entry_of_removeConnectionInLoop hok
  rw [hnames.connections, hnames.name] at hentry ⊢
  exact entry_eq_self hkeeps hremoves hentry

/-- The close of a connection that has its entry takes no other's. -/
theorem admits_close (hkeeps : keepsEntries cfg s a = true) (hcloses : closes s a = some d)
    (hruns : runs s a = none)
    (hentry : own s d = 0 → s.connections (s.conns d).name ≠ none) :
    Admits Connection.step KeepsEntry (view s c) (closing s c d) := by
  have hrest : ∀ v : Connection, (c = d → v.inMap = (view s c).inMap) →
      Admits Connection.step KeepsEntry v (if own s d = 0 then removal s c d else []) := by
    intro v hv
    split
    · next hbase =>
      have hd := entry_eq_self hkeeps (removes_of_closes hcloses hruns hbase) (hentry hbase)
      apply admits_remove hd
      intro hc
      rw [hv hc, hc]
      exact decide_eq_true hd
    · trivial
  rw [closing]
  split
  · refine ⟨trivial, fun v hv => hrest v fun _ => ?_⟩
    obtain ⟨-, rfl⟩ := guarded_eq_some_iff.mp hv
    rfl
  · exact hrest _ fun _ => rfl

/-- `HandleClose` from a state that differs from `s` in nothing it looks at. -/
theorem admits_handleClose (hkeeps : keepsEntries cfg s a = true) (hcloses : closes s a = some d)
    (hruns : runs s a = none) {site : Access} (hwf : (m.conns d).output.WF)
    (hown : own m d = own s d) (hname : (m.conns d).name = (s.conns d).name)
    (hmap : m.connections = s.connections) (hok : handleClose m d site = .ok t) :
    Admits Connection.step KeepsEntry (view s c) (closing s c d) := by
  apply admits_close hkeeps hcloses hruns
  intro hbase
  rw [← hname, ← hmap]
  exact entry_of_handleClose hwf (hown.trans hbase) hok

/-- A step that keeps entries is one that keeps each connection's entry. -/
theorem admits_keepsEntries (hplaced : Placed cfg s) (hkeeps : keepsEntries cfg s a = true)
    (hok : effect cfg s a = .ok t) :
    Admits Connection.step KeepsEntry (view s c) (labels cfg s c a) := by
  have hfree : nameFree cfg s a = true := by
    rw [keepsEntries, Bool.and_eq_true] at hkeeps
    exact hkeeps.1
  apply admits_of_endings _ _ _ hfree
  · intro v b _ hremove hevict
    cases b with
    | remove => exact absurd rfl hremove
    | evict => exact absurd rfl hevict
    | _ => trivial
  · intro d hcloses
    cases a with
    | handleClose i =>
      obtain rfl := Option.some_inj.mp hcloses
      have hconns := (nextCallback_frame (s := s) (i := i)).1
      exact admits_handleClose hkeeps rfl rfl (hconns ▸ hplaced.wf _) nextCallback_own
        (by rw [hconns]) nextCallback_frame.2 hok
    | handleRead i readv =>
      simp only [closes, Option.ite_none_right_eq_some, Option.some_inj] at hcloses
      obtain ⟨heof, rfl⟩ := hcloses
      obtain ⟨m, ⟨input, hm⟩, ⟨-, hclose⟩ | ⟨hmore, -⟩⟩ := handleRead_cases hok
      · have hself : m.conns (handled s i) = { s.conns (handled s i) with input := input } := by
          rw [hm, conns_setConn, if_pos rfl, nextCallback_frame.1]
        have hmap : m.connections = s.connections := hm ▸ nextCallback_frame.2
        refine admits_handleClose hkeeps (if_pos heof) rfl ?_ ?_ ?_ hmap hclose
        · rw [hself]
          exact hplaced.wf _
        · rw [own, hself]
        · rw [hself]
      · exact absurd heof hmore
    | closeTimer e =>
      obtain rfl := Option.some_inj.mp hcloses
      obtain ⟨m, hm⟩ : ∃ m, m = setConn s e fun conn =>
        { conn with closeTimers := conn.closeTimers - 1 } := ⟨_, rfl⟩
      have hclose : TcpServer.handleClose m e .closeTimer = .ok t := hm ▸ hok
      have hself : m.conns e = { s.conns e with closeTimers := (s.conns e).closeTimers - 1 } := by
        rw [hm, conns_setConn, if_pos rfl]
      refine admits_handleClose hkeeps rfl rfl ?_ ?_ ?_ (hm ▸ rfl) hclose
      · rw [hself]
        exact hplaced.wf e
      · rw [own, hself]
      · rw [hself]
    | _ => exact absurd hcloses (by simp [closes])
  · intro d hruns
    have hremoves : removes s a = some d := by rw [removes, hruns]
    cases a with
    | runFunctor i wr =>
      obtain ⟨fs, hrest⟩ := List.head?_eq_some_iff.mp hruns
      simp only [effect, hrest] at hok
      have hentry : s.connections (s.conns d).name ≠ none :=
        entry_of_removeConnectionInLoop (s := setFunctors s i (s.loops i).functors.advance) hok
      have hd := entry_eq_self hkeeps hremoves hentry
      apply admits_remove hd
      intro hc
      rw [hc]
      exact decide_eq_true hd
    | _ => exact absurd hruns (by simp [runs])

/-- Every connection that keeps its entry is removed and destroyed no more than once. -/
theorem kept_of_keepsEntries {ok : State → Action → Prop}
    (hkeeps : ∀ {s a t}, Placed cfg s → ok s a → effect cfg s a = .ok t →
      keepsEntries cfg s a = true)
    (hrun : Reach (step cfg) ok State.init as s) : ∀ c, c < s.nextObj → Kept (view s c) := by
  refine views_invariant (p := KeepsEntry) hrun kept_init ?_ ?_ ?_
  · intro owner
    trivial
  · intro v b v' h hb hstep
    exact kept_step h hb hstep
  · intro s a t hplaced _ hok heffect c _
    exact admits_keepsEntries hplaced (hkeeps hplaced hok heffect) heffect

/-- While every connection keeps its entry, each is destroyed once at most. -/
theorem kept_of_reach {ok : State → Action → Prop}
    (hkeeps : ∀ {s a}, ok s a → keepsEntries cfg s a = true)
    (hrun : Reach (step cfg) ok State.init as s) : ∀ c, c < s.nextObj → Kept (view s c) :=
  kept_of_keepsEntries (fun _ hok _ => hkeeps hok) hrun

end TcpServer
end Bbkgl
