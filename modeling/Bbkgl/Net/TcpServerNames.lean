import Mathlib.Data.Nat.ModEq
import Bbkgl.Net.TcpServerWraparound

/-!
# The names in `connections_`

The name of a connection is made from `next_conn_id_`, an `int`, so two connections
have one name exactly if the numbers of connections accepted before them are
congruent modulo 2^32. As long as no such two meet in `connections_`, it holds the
connections that have been accepted and not removed, each under its own name.
-/

set_option autoImplicit false

namespace Bbkgl
namespace TcpServer

open CS CS.Fallible CS.Transition TcpConnection Connection

variable {cfg : Config} {s m t : State} {i : LoopId} {c d : ConnId} {f : Functor} {l : Local}
  {who : Caller} {a : Action} {as : List Action}

/-! ### What a step does to the names and the entries -/

/-- `erase(conn->GetName())` of `d` has found an entry, and nothing else has changed. -/
structure Erases (s t : State) (d : ConnId) : Prop where
  lt : d < s.nextObj
  entry : s.connections (s.conns d).name ≠ none
  nextObj : t.nextObj = s.nextObj
  nextConnId : t.nextConnId = s.nextConnId
  connections : t.connections = Function.update s.connections (s.conns d).name none
  name : ∀ c, (t.conns c).name = (s.conns c).name

theorem KeepsNames.erases (h : KeepsNames s m) (h' : Erases m t d) : Erases s t d where
  lt := h.nextObj ▸ h'.lt
  entry := by
    rw [← h.connections, ← h.name d]
    exact h'.entry
  nextObj := h'.nextObj.trans h.nextObj
  nextConnId := h'.nextConnId.trans h.nextConnId
  connections := by rw [h'.connections, h.connections, h.name d]
  name c := (h'.name c).trans (h.name c)

/-- `RemoveConnectionInLoop` erases one entry, under the connection's name. -/
theorem erases_removeConnectionInLoop (hd : d < s.nextObj)
    (hok : removeConnectionInLoop s d = .ok t) : Erases s t d := by
  have hentry := entry_of_removeConnectionInLoop hok
  rw [removeConnectionInLoop_eq_ok hok]
  refine ⟨hd, hentry, rfl, rfl, rfl, fun c => ?_⟩
  exact (keepsNames_setConn (s := s) (d := d)
    (u := fun conn => { conn with log := conn.log ++ [.removed] }) rfl).name c

/-- `HandleClose` has used the object. -/
theorem alive_of_closes (hok : effect cfg s a = .ok t) (hcloses : closes s a = some d) :
    (s.conns d).alive = true := by
  have closed : ∀ {m : State} {site : Access}, (m.conns d).alive = (s.conns d).alive →
      handleClose m d site = .ok t → (s.conns d).alive = true := by
    intro m site hm hclose
    obtain ⟨k, hk, -⟩ := bind_eq_ok_iff.mp hclose
    exact hm ▸ (method_eq_ok_iff.mp hk).1
  have hconns : ∀ i, (nextCallback s i).conns = s.conns := fun _ => nextCallback_frame.1
  cases a with
  | handleClose i =>
    obtain rfl := Option.some_inj.mp hcloses
    exact closed (by rw [hconns]) hok
  | handleRead i readv =>
    simp only [closes, Option.ite_none_right_eq_some, Option.some_inj] at hcloses
    obtain ⟨-, rfl⟩ := hcloses
    have halive := (check_bind_eq_ok_iff.mp hok).1
    rwa [hconns] at halive
  | closeTimer c =>
    obtain rfl := Option.some_inj.mp hcloses
    exact closed (by rw [conns_setConn, if_pos rfl]) hok
  | _ => exact absurd hcloses (by simp [closes])

/-- What is removed has been made. -/
theorem lt_of_removes (hplaced : Placed cfg s) (hok : effect cfg s a = .ok t)
    (hremoves : removes s a = some d) : d < s.nextObj := by
  rw [removes] at hremoves
  split at hremoves
  · next e hruns =>
    obtain rfl := Option.some_inj.mp hremoves
    obtain ⟨i, hmem⟩ := mem_todo_of_runs hruns
    exact (hplaced.functors i _ hmem).1
  · obtain ⟨hcloses, -⟩ := Option.filter_eq_some_iff.mp hremoves
    exact hplaced.lt_nextObj_of_alive (alive_of_closes hok hcloses)

/-- What the step does to the names, for all steps but `NewConnection`. -/
def Renames (s : State) (a : Action) (t : State) : Prop :=
  match removes s a with
  | some d => Erases s t d
  | none => KeepsNames s t

/-- A step that makes no connection erases one entry at most. -/
theorem renames_effect (hplaced : Placed cfg s) (hg : guard cfg s a = true)
    (hok : effect cfg s a = .ok t) (hnew : ∀ fd, a ≠ .newConnection fd) : Renames s a t := by
  obtain ⟨k, m, hopens, hworks, hends⟩ := anatomy hg hok
  have hnames : KeepsNames s m :=
    works_invariant hworks (hopens.keepsNames hnew) fun h hwork => h.trans hwork.keepsNames
  rw [Ends] at hends
  rw [Renames]
  cases hremoves : removes s a with
  | some d =>
    rw [hremoves] at hends
    have hd : d < m.nextObj := hnames.nextObj ▸ lt_of_removes hplaced hok hremoves
    exact hnames.erases (erases_removeConnectionInLoop hd hends)
  | none =>
    rw [hremoves] at hends
    exact hnames.trans (hends ▸ keepsNames_pushes)

/-! ### The names of all connections -/

/-- The name that the connection with this object gets. -/
def nameOf (cfg : Config) (c : ConnId) : String := connName cfg (BitVec.ofNat 32 (c + 2))

/-- The connections are named in the order of their objects, and `connections_`
has no entry under another name than its connection's. -/
structure Named (cfg : Config) (s : State) : Prop where
  nextConnId : s.nextConnId = BitVec.ofNat 32 (s.nextObj + 1)
  name : ∀ c, c < s.nextObj → (s.conns c).name = nameOf cfg c
  entry : ∀ n c, s.connections n = some c → c < s.nextObj ∧ (s.conns c).name = n

theorem named_init : Named cfg State.init where
  nextConnId := rfl
  name _ hc := absurd hc (Nat.not_lt_zero _)
  entry _ _ hentry := absurd hentry (by simp [State.init])

/-- The counter is the number of connections made, modulo 2 to the 32. -/
theorem Named.newName (h : Named cfg s) :
    connName cfg (s.nextConnId + 1) = nameOf cfg s.nextObj := by
  rw [nameOf, h.nextConnId]
  exact congrArg _ (BitVec.ofNat_add _ 1).symm

/-- The 32-bit counter tells two connections apart unless they are congruent. -/
theorem nameOf_eq_iff : nameOf cfg c = nameOf cfg d ↔ c ≡ d [MOD 2 ^ 32] := by
  constructor
  · intro h
    -- a name tells the number in it, and the number the object up to 2^32
    have hid := congrArg BitVec.toNat (connName_injective h)
    rw [BitVec.toNat_ofNat, BitVec.toNat_ofNat] at hid
    exact Nat.ModEq.add_right_cancel' 2 hid
  · intro h
    have hid : BitVec.ofNat 32 (c + 2) = BitVec.ofNat 32 (d + 2) := by
      apply BitVec.eq_of_toNat_eq
      rw [BitVec.toNat_ofNat, BitVec.toNat_ofNat]
      exact h.add_right 2
    rw [nameOf, nameOf, hid]

theorem Named.keeps (h : Named cfg s) (hkeeps : KeepsNames s t) : Named cfg t where
  nextConnId := by rw [hkeeps.nextConnId, hkeeps.nextObj, h.nextConnId]
  name c hc := by
    rw [hkeeps.name]
    exact h.name c (hkeeps.nextObj ▸ hc)
  entry n c hentry := by
    rw [hkeeps.nextObj, hkeeps.name]
    exact h.entry n c (hkeeps.connections ▸ hentry)

/-- The removal of a connection keeps the names. -/
theorem Named.erases (h : Named cfg s) (herases : Erases s t d) : Named cfg t where
  nextConnId := by rw [herases.nextConnId, herases.nextObj, h.nextConnId]
  name c hc := by
    rw [herases.name]
    exact h.name c (herases.nextObj ▸ hc)
  entry n c hentry := by
    rw [herases.nextObj, herases.name]
    rw [herases.connections, Function.update_apply] at hentry
    split at hentry
    · exact absurd hentry (by simp)
    · exact h.entry n c hentry

theorem named_withNewObject (h : Named cfg s) {fd : ℕ} : Named cfg (withNewObject cfg s fd) := by
  have hold : ∀ c, c < s.nextObj → (withNewObject cfg s fd).conns c = s.conns c := fun c hc =>
    Function.update_of_ne (Nat.ne_of_lt hc) _ _
  have hname :
      ((withNewObject cfg s fd).conns s.nextObj).name = connName cfg (s.nextConnId + 1) := by
    simp [withNewObject, TcpConnection.new]
  refine ⟨?_, fun c hc => ?_, fun n c hentry => ?_⟩
  · simp only [withNewObject, h.nextConnId]
    exact (BitVec.ofNat_add _ 1).symm
  · rcases Nat.lt_succ_iff_lt_or_eq.mp hc with hlt | rfl
    · rw [hold c hlt]
      exact h.name c hlt
    · rw [hname, h.newName]
  · have hentry :
        Function.update s.connections (connName cfg (s.nextConnId + 1)) (some s.nextObj) n =
          some c := hentry
    rw [Function.update_apply] at hentry
    split at hentry
    · next hn =>
      obtain rfl := Option.some_inj.mp hentry
      exact ⟨Nat.lt_succ_self _, by rw [hname, hn]⟩
    · obtain ⟨hlt, hn⟩ := h.entry n c hentry
      exact ⟨Nat.lt_succ_of_lt hlt, by rw [hold c hlt, hn]⟩

/-- The step lemma of `Named`. -/
theorem named_step (hplaced : Placed cfg s) (h : Named cfg s) (hstep : step cfg s a = some t) :
    Named cfg t := by
  obtain ⟨-, hg, hok | ⟨f, -, rfl⟩⟩ := step_cases hstep
  · by_cases hnew : ∃ fd, a = .newConnection fd
    · obtain ⟨fd, rfl⟩ := hnew
      obtain ⟨k, m, hopens, hworks, hends⟩ := anatomy hg hok
      cases hopens with
      | call _ hcall => exact absurd hcall (by simp [Action.isCall])
      | newConnection =>
        have hnames : KeepsNames (withNewObject cfg s fd) m :=
          works_invariant hworks .rfl fun h hwork => h.trans hwork.keepsNames
        exact (named_withNewObject h).keeps (hnames.trans (hends ▸ keepsNames_pushes))
    · have hrenames := renames_effect hplaced hg hok fun fd ha => hnew ⟨fd, ha⟩
      rw [Renames] at hrenames
      split at hrenames
      · exact h.erases hrenames
      · exact h.keeps hrenames
  · exact ⟨h.nextConnId, h.name, h.entry⟩

/-- Names are those of the counter in every run. -/
theorem named_of_reach {ok : State → Action → Prop}
    (hrun : Reach (step cfg) ok State.init as s) : Named cfg s :=
  hrun.invariant named_init fun hprefix h _ hstep => named_step (placed_of_reach hprefix) h hstep

/-! ### Runs without a collision -/

/-- `connections_` has an entry of the connection. -/
def listed (s : State) (c : ConnId) : Bool := s.connections (s.conns c).name = some c

/-- A new connection is congruent to none in `connections_`. -/
def newApart (s : State) : Action → Bool
  | .newConnection _ => (List.range s.nextObj).all fun c =>
      !(listed s c && c % 2 ^ 32 = s.nextObj % 2 ^ 32)
  | _ => true

/-- A connection that is removed is congruent to no other in `connections_`. -/
def removedApart (s : State) (a : Action) : Bool :=
  (removes s a).all fun d => (List.range s.nextObj).all fun c =>
    !(listed s c && c % 2 ^ 32 = d % 2 ^ 32) || c = d

/-- The condition on a step: it makes or removes no connection that is congruent to another one in
`connections_`. -/
def numbersApart (s : State) (a : Action) : Bool := newApart s a && removedApart s a

/-- What has an entry is listed. -/
theorem Named.listed_of_entry (h : Named cfg s) {n : String} (hentry : s.connections n = some c) :
    listed s c = true := by
  rw [listed, (h.entry n c hentry).2]
  exact decide_eq_true hentry

/-- The condition on a new connection, in numbers. -/
theorem numbersApart_newConnection_iff {fd : ℕ} : numbersApart s (.newConnection fd) = true ↔
    ∀ c, c < s.nextObj → listed s c = true → ¬ c ≡ s.nextObj [MOD 2 ^ 32] := by
  have hremoves : removes s (.newConnection fd) = none := rfl
  simp only [numbersApart, newApart, removedApart, hremoves, Option.all_none, Bool.and_true,
    List.all_eq_true, List.mem_range, Bool.not_eq_true', Bool.and_eq_false_imp,
    decide_eq_false_iff_not, Nat.ModEq]

/-- The condition on a removal, in numbers. -/
theorem numbersApart_removes_iff (hremoves : removes s a = some d) : numbersApart s a = true ↔
    ∀ c, c < s.nextObj → listed s c = true → c ≡ d [MOD 2 ^ 32] → c = d := by
  have hnew : newApart s a = true := by
    cases a with
    | newConnection fd => exact absurd hremoves (by simp [removes, runs, closes])
    | _ => rfl
  rw [numbersApart, hnew, Bool.true_and, removedApart, hremoves]
  simp only [Option.all_some, List.all_eq_true, List.mem_range, Bool.or_eq_true,
    Bool.not_eq_true', Bool.and_eq_false_imp, decide_eq_false_iff_not, decide_eq_true_eq, Nat.ModEq]
  -- of the congruent ones, `d` itself does not count
  refine forall₂_congr fun c _ => ?_
  by_cases hcd : c = d <;> simp [hcd]

/-- `NewConnection` finds its name free exactly if no connection in `connections_`
is congruent to the new one. -/
theorem Named.newName_free_iff (h : Named cfg s) {fd : ℕ} :
    (∀ n c, s.connections n = some c → n ≠ connName cfg (s.nextConnId + 1)) ↔
      numbersApart s (.newConnection fd) = true := by
  rw [numbersApart_newConnection_iff, h.newName]
  constructor
  · intro hfree c hc hlisted hmod
    refine hfree (s.conns c).name c (of_decide_eq_true hlisted) ?_
    rw [h.name c hc, nameOf_eq_iff]
    exact hmod
  · rintro hapart n c hentry rfl
    obtain ⟨hc, hname⟩ := h.entry _ c hentry
    have hsame : nameOf cfg c = nameOf cfg s.nextObj := by rw [← h.name c hc, hname]
    exact hapart c hc (h.listed_of_entry hentry) (nameOf_eq_iff.mp hsame)

/-- `erase` takes the entry of `d` and no other exactly if no other connection in
`connections_` is congruent to `d`. -/
theorem Named.erases_iff (h : Named cfg s) (herases : Erases s t d) :
    (∀ n c, t.connections n = some c ↔ s.connections n = some c ∧ c ≠ d) ↔
      ∀ c, c < s.nextObj → listed s c = true → c ≡ d [MOD 2 ^ 32] → c = d := by
  have hsame : ∀ c, c < s.nextObj → ((s.conns c).name = (s.conns d).name ↔ c ≡ d [MOD 2 ^ 32]) := by
    intro c hc
    rw [h.name c hc, h.name d herases.lt, nameOf_eq_iff]
  constructor
  · intro hexact c hc hlisted hmod
    by_contra hne
    have hentry : s.connections (s.conns c).name = some c := of_decide_eq_true hlisted
    have hkept := (hexact (s.conns c).name c).mpr ⟨hentry, hne⟩
    rw [herases.connections, Function.update_apply, if_pos ((hsame c hc).mpr hmod)] at hkept
    exact absurd hkept (by simp)
  · intro hapart n c
    rw [herases.connections, Function.update_apply]
    split
    · next hn =>
      refine ⟨fun hnone => absurd hnone (by simp), fun ⟨hentry, hne⟩ => absurd ?_ hne⟩
      obtain ⟨hc, hname⟩ := h.entry n c hentry
      exact hapart c hc (h.listed_of_entry hentry) ((hsame c hc).mp (hname.trans hn))
    · next hn =>
      refine ⟨fun hentry => ⟨hentry, ?_⟩, fun hentry => hentry.1⟩
      rintro rfl
      exact hn (h.entry n c hentry).2.symm

/-- Where the numbers are apart, no entry is lost to another connection. -/
theorem keepsEntries_of_numbersApart (hplaced : Placed cfg s) (h : Named cfg s)
    (hg : guard cfg s a = true) (hapart : numbersApart s a = true) (hok : effect cfg s a = .ok t) :
    keepsEntries cfg s a = true := by
  by_cases hnew : ∃ fd, a = .newConnection fd
  · obtain ⟨fd, rfl⟩ := hnew
    have hfree := h.newName_free_iff.mpr hapart
    have hnone : s.connections (connName cfg (s.nextConnId + 1)) = none := by
      by_contra hsome
      obtain ⟨c, hc⟩ := Option.ne_none_iff_exists'.mp hsome
      exact hfree _ c hc rfl
    rw [keepsEntries, nameFree, hnone]
    rfl
  · have hrenames := renames_effect hplaced hg hok fun fd ha => hnew ⟨fd, ha⟩
    have hfree : nameFree cfg s a = true := by
      cases a with
      | newConnection fd => exact absurd ⟨fd, rfl⟩ hnew
      | _ => rfl
    rw [keepsEntries, hfree, Bool.true_and]
    cases hremoves : removes s a with
    | none => rfl
    | some d =>
      rw [Renames, hremoves] at hrenames
      rw [numbersApart_removes_iff hremoves] at hapart
      rw [Option.all_some]
      cases hentry : s.connections (s.conns d).name with
      | none => rfl
      | some c =>
        obtain ⟨hc, hname⟩ := h.entry _ c hentry
        have hsame : nameOf cfg c = nameOf cfg d := by
          rw [← h.name c hc, hname, h.name d hrenames.lt]
        rw [Option.all_some, decide_eq_true_iff]
        exact hapart c hc (h.listed_of_entry hentry) (nameOf_eq_iff.mp hsame)

/-- In such a run every connection keeps its entry. -/
theorem kept_of_numbersApart
    (hrun : Reach (step cfg) (fun s a => numbersApart s a = true) State.init as s) :
    ∀ c, c < s.nextObj → Kept (view s c) := by
  have hgood : Reach (step cfg) (fun s a => Named cfg s ∧ guard cfg s a = true ∧
      numbersApart s a = true) State.init as s := by
    refine hrun.imp fun hprefix hapart hstep => ?_
    exact ⟨named_of_reach hprefix, (step_cases hstep).2.1, hapart⟩
  refine kept_of_keepsEntries (fun hplaced hok heffect => ?_) hgood
  exact keepsEntries_of_numbersApart hplaced hok.1 hok.2.1 hok.2.2 heffect

/-- **Names identify connections, up to congruence.** In every run in which no two
congruent connections meet in `connections_`, it holds exactly the connections
that have been accepted and not removed, each under its own name. The next name
is free, and the next removal takes the connection itself and no other, exactly
if this goes on. -/
theorem connections_exact_of_reach
    (hrun : Reach (step cfg) (fun s a => numbersApart s a = true) State.init as s) :
    (∀ n c, s.connections n = some c ↔
      (c < s.nextObj ∧ .removed ∉ (s.conns c).log) ∧ (s.conns c).name = n) ∧
    (∀ fd, (∀ n c, s.connections n = some c → n ≠ connName cfg (s.nextConnId + 1)) ↔
      numbersApart s (.newConnection fd) = true) ∧
    ∀ a d t, removes s a = some d → step cfg s a = some t → t.fault = none →
      ((∀ n c, t.connections n = some c ↔ s.connections n = some c ∧ c ≠ d) ↔
        numbersApart s a = true) := by
  have hnamed : Named cfg s := named_of_reach hrun
  refine ⟨fun n c => ?_, fun fd => hnamed.newName_free_iff, fun a d t hremoves hstep hfault => ?_⟩
  · have hmapped : c < s.nextObj →
        (s.connections (s.conns c).name = some c ↔ .removed ∉ (s.conns c).log) := by
      intro hc
      rw [← List.count_eq_zero, ← decide_eq_true_iff (p := s.connections _ = _)]
      exact (kept_of_numbersApart hrun c hc).mapped.inMap
    constructor
    · intro hentry
      obtain ⟨hc, rfl⟩ := hnamed.entry n c hentry
      exact ⟨⟨hc, (hmapped hc).mp hentry⟩, rfl⟩
    · rintro ⟨⟨hc, hremoved⟩, rfl⟩
      exact (hmapped hc).mpr hremoved
  · obtain ⟨-, hg, hok | ⟨f, -, rfl⟩⟩ := step_cases hstep
    · have hnew : ∀ fd, a ≠ .newConnection fd := by
        rintro fd rfl
        exact absurd hremoves (by simp [removes, runs, closes])
      have hrenames := renames_effect (placed_of_reach hrun) hg hok hnew
      rw [Renames, hremoves] at hrenames
      rw [hnamed.erases_iff hrenames, numbersApart_removes_iff hremoves]
    · exact absurd hfault (by simp)

/-- A connection is accepted and stays. -/
theorem connections_exact_of_reach_opened :
    ∃ s, Reach (step noPool) (fun s a => numbersApart s a = true) State.init firstOpened s ∧
      ∀ n c, s.connections n = some c ↔
        (c < s.nextObj ∧ .removed ∉ (s.conns c).log) ∧ (s.conns c).name = n := by
  have hsome : (runIf (step noPool) (fun s a => numbersApart s a = true) State.init
      firstOpened).isSome = true := by
    decide +kernel
  have hrun := reach_get hsome
  exact ⟨_, hrun, (connections_exact_of_reach hrun).1⟩

/-- After 2^32 - 1 visits the next name is that of connection 0. It is still
open, and loses its entry to the new connection. -/
theorem not_names_apart_of_wrap :
    ∃ s t, Reach (step noPool) Always State.init (firstOpened ++ visits (2 ^ 32 - 1)) s ∧
      run (step noPool) s [.poll 0 [], .newConnection 8] = some t ∧
      s.connections (connName noPool (s.nextConnId + 1)) = some 0 ∧
      .removed ∉ (t.conns 0).log ∧ ∀ n, t.connections n ≠ some 0 := by
  obtain ⟨s₁, hs₁, hrest₁, hone⟩ := resting_firstOpened
  obtain ⟨s, hs, hrest, hround⟩ := run_visits (k := 2 ^ 32 - 1) hrest₁ hone (by norm_num)
  have hrun : Reach (step noPool) Always State.init (firstOpened ++ visits (2 ^ 32 - 1)) s := by
    apply reach_of_run
    rw [run_append, hs₁, Option.bind_some, hs]
  have hnamed : Named noPool s := named_of_reach hrun
  have hname : visitorName s = connName noPool 2 := by
    rw [visitorName, visitor_id hrest, hround.trans (by norm_num : 2 ^ 32 - 1 + 1 = 2 ^ 32)]
    rfl
  have hzero : (s.conns 0).name = visitorName s := by rw [hname, hrest.first]; rfl
  have haccepts : run (step noPool) s [.poll 0 [], .newConnection 8] =
      some (during s ⟨upAt s false, .dispatch [], some ⟨some s.nextObj, false, false⟩,
        ⟨[], [], []⟩, some s.nextObj, some (Channel.readEvent, s.nextObj), some s.nextObj⟩) := by
    rw [run_cons, hrest.step_poll (by simp) (by simp), Option.bind_some, run_cons,
      hrest.step_newConnection, Option.bind_some, run_nil]
  refine ⟨s, _, hrun, haccepts, ?_, ?_, fun n => ?_⟩
  · have hentry := hrest.entry
    rwa [← hname] at hentry
  · have hconn : (s.conns 0).log = [.up] := by rw [hrest.first]
    simp only [during]
    rw [Function.update_of_ne (Nat.ne_of_lt hrest.pos), hconn]
    simp
  · simp only [during, Function.update_apply]
    split
    · exact fun hentry => absurd (Option.some_inj.mp hentry) (Nat.ne_of_gt hrest.pos)
    · next hn => exact fun hentry => hn ((hnamed.entry n 0 hentry).2.symm.trans hzero)

end TcpServer
end Bbkgl
