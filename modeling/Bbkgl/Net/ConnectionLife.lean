import Bbkgl.Net.Connection

/-!
# Establishing and removing a connection

`ConnEstablished`, `RemoveConnectionInLoop` and `ConnDestroyed` run as often as
they are queued, and each is queued by the one before: the counts of `Tokens`.
As long as no other connection takes its entry in `connections_`, a connection is
removed at most once (`Mapped`), and as long as `HandleClose` is entered only
while the channel is subscribed for reading, it is also closed at most once.
-/

set_option autoImplicit false

namespace Bbkgl
namespace Connection

open CS.Transition

variable {v v' : Connection} {a : Action}

/-- Each event of the history has its counterpart in what is still to be executed, and their
numbers agree. -/
structure Tokens (v : Connection) : Prop where
  established : v.log.count .up + v.tasks.count .establish = 1
  closed : v.log.count .closed = v.log.count .removed + v.removals
  removed : v.log.count .removed = v.log.count .destroyed + v.tasks.count .destroy
  down : v.log.count .down = v.log.count .destroyed
  early : v.log.count .up = 0 →
    v.state = .connecting ∧ v.log.count .closed = 0 ∧ ∀ who, v.calls who = none
  up : v.log.count .up ≠ 0 → v.log.count .destroyed = 0 → v.isUp = true
  reading : v.reading = true → v.log.count .up ≠ 0 ∧ v.log.count .closed = 0

theorem tokens_init (owner : Caller) : Tokens (init owner) := by
  constructor <;> simp [init]

/-- The tokens are not about the stream. -/
theorem Tokens.streamed (h : Tokens v) (hs : Streamed v v') : Tokens v' := by
  have hup : v'.log.count .up = v.log.count .up := hs.count (by simp)
  have hdown : v'.log.count .down = v.log.count .down := hs.count (by simp)
  have hclosed : v'.log.count .closed = v.log.count .closed := hs.count (by simp)
  have hremoved : v'.log.count .removed = v.log.count .removed := hs.count (by simp)
  have hdestroyed : v'.log.count .destroyed = v.log.count .destroyed := hs.count (by simp)
  have hisUp : v'.isUp = v.isUp := by rw [isUp, isUp, hs.state]
  constructor
  · rw [hup, hs.tasks]; exact h.established
  · rw [hclosed, hremoved, hs.removals]; exact h.closed
  · rw [hremoved, hdestroyed, hs.tasks]; exact h.removed
  · rw [hdown, hdestroyed]; exact h.down
  · rw [hup, hs.state, hclosed, hs.calls]; exact h.early
  · rw [hup, hdestroyed, hisUp]; exact h.up
  · rw [hs.reading, hup, hclosed]; exact h.reading

/-- A connection that is up has been established. -/
theorem Tokens.up_ne_zero (h : Tokens v) (hstate : v.state ≠ .connecting) :
    v.log.count .up ≠ 0 := fun h0 => hstate (h.early h0).1

/-- Only the calls under way and the state have changed. -/
theorem Tokens.setCall (h : Tokens v) {who : Caller} {call : Option Pending} {state : StateE}
    (hup : v.log.count .up ≠ 0) (hstate : v.log.count .destroyed = 0 →
      state = .connected ∨ state = .disconnecting) :
    Tokens { v.setCall who call with state := state } :=
  ⟨h.established, h.closed, h.removed, h.down, fun h0 => absurd h0 hup,
    fun _ hd => by simpa [isUp] using hstate hd, h.reading⟩

/-- A task that neither establishes nor destroys has been pushed or taken. -/
theorem Tokens.setTasks (h : Tokens v) {tasks : List Task}
    (he : tasks.count .establish = v.tasks.count .establish)
    (hd : tasks.count .destroy = v.tasks.count .destroy) : Tokens { v with tasks := tasks } :=
  ⟨by rw [he]; exact h.established, h.closed, by rw [hd]; exact h.removed, h.down, h.early, h.up,
    h.reading⟩

theorem Tokens.popTask (h : Tokens v) {t : Task} {ts : List Task} (htasks : v.tasks = t :: ts)
    (he : t ≠ .establish) (hd : t ≠ .destroy) : Tokens v.popTask :=
  h.setTasks (by rw [htasks]; simp [he]) (by rw [htasks]; simp [hd])

/-- Between `ConnEstablished` and `ConnDestroyed` the state is `k_connected` or `k_disconnecting`.
-/
theorem Tokens.isUp_cases (h : Tokens v) (hup : v.log.count .up ≠ 0)
    (hd : v.log.count .destroyed = 0) : v.state = .connected ∨ v.state = .disconnecting := by
  simpa [isUp] using h.up hup hd

/-- Every step keeps the tokens. -/
theorem tokens_step (h : Tokens v) (hstep : step v a = some v') : Tokens v' := by
  obtain ⟨hg, rfl⟩ := guarded_eq_some_iff.mp hstep
  have hest := h.established
  have hclosed := h.closed
  have hremoved := h.removed
  have hdown := h.down
  cases a with
  | establish =>
    simp only [guard, Bool.and_eq_true, decide_eq_true_eq, List.head?_eq_some_iff] at hg
    obtain ⟨⟨ts, hts⟩, hstate⟩ := hg
    rw [hts, List.count_cons_self] at hest
    rw [hts] at hremoved
    obtain ⟨-, hnclosed, -⟩ := h.early (by omega)
    have hup : (v.log ++ [ConnEvent.up]).count .up ≠ 0 := by simp
    refine ⟨?_, by simpa [effect, popTask, record] using hclosed, ?_,
      by simpa [effect, popTask, record] using hdown, fun h0 => absurd h0 hup, ?_, ?_⟩
    · simp only [effect, popTask, record, hts, List.tail_cons, List.count_append]
      simp
      omega
    · simpa [effect, popTask, record, hts] using hremoved
    · simp [effect, isUp]
    · intro _
      exact ⟨hup, by simpa [effect, popTask, record] using hnclosed⟩
  | close =>
    simp only [guard, Bool.and_eq_true] at hg
    have hup : v.log.count .up ≠ 0 := h.up_ne_zero fun h0 => by simp [isUp, h0] at hg
    refine ⟨?_, ?_, ?_, ?_, ?_, ?_, by simp [effect]⟩
    · simpa [effect, record] using hest
    · simp [effect, record]
      omega
    · simpa [effect, record] using hremoved
    · simpa [effect, record] using hdown
    · intro h0
      exact absurd (by simpa [effect, record] using h0) hup
    · intro _ _
      exact hg.1
  | remove =>
    simp only [guard, decide_eq_true_eq] at hg
    refine ⟨?_, ?_, ?_, ?_, ?_, ?_, ?_⟩
    · simpa [effect, record] using hest
    · simp [effect, record]
      omega
    · simp [effect, record]
      omega
    · simpa [effect, record] using hdown
    · simpa [effect, record] using h.early
    · exact fun hup hd => h.up (by simpa [effect, record] using hup)
        (by simpa [effect, record] using hd)
    · simpa [effect, record] using h.reading
  | evict => exact ⟨hest, hclosed, hremoved, hdown, h.early, h.up, h.reading⟩
  | destroy =>
    simp only [guard, Bool.and_eq_true, decide_eq_true_eq, List.head?_eq_some_iff] at hg
    obtain ⟨⟨ts, hts⟩, hstate⟩ := hg
    have hup : v.log.count .up ≠ 0 := h.up_ne_zero fun h0 => by simp [isUp, h0] at hstate
    rw [hts] at hest
    rw [hts, List.count_cons_self] at hremoved
    refine ⟨?_, ?_, ?_, ?_, ?_, ?_, by simp [effect]⟩
    · simpa [effect, popTask, record, hts] using hest
    · simpa [effect, popTask, record] using hclosed
    · simp [effect, popTask, record, hts]
      omega
    · simp [effect, popTask, record]
      omega
    · intro h0
      exact absurd (by simpa [effect, popTask, record] using h0) hup
    · intro _ h0
      simp [effect, popTask, record] at h0
  | die => exact ⟨hest, hclosed, hremoved, hdown, h.early, h.up, h.reading⟩
  | callSend who message =>
    simp only [guard, Bool.and_eq_true, decide_eq_true_eq] at hg
    have hup : v.log.count .up ≠ 0 := h.up_ne_zero (by simp [hg.1.1])
    have hrec : Tokens (v.record (.sent who message)) := h.streamed Streamed.sent
    have hup' : (v.record (.sent who message)).log.count .up ≠ 0 := by simpa [record] using hup
    exact hrec.setCall hup' fun _ => Or.inl hg.1.1
  | pushSend who =>
    simp only [guard] at hg
    split at hg
    · next message hcall =>
      have hup : v.log.count .up ≠ 0 := fun h0 => by simp [(h.early h0).2.2 who] at hcall
      have hcalls : Tokens (v.setCall who none) := h.setCall hup (h.isUp_cases hup)
      simp only [effect, hcall]
      exact hcalls.setTasks (by simp [setCall]) (by simp [setCall])
    · simp at hg
  | runSend wr =>
    simp only [guard] at hg
    split at hg
    · next who message ts hts =>
      simp only [effect, hts]
      exact (h.popTask hts (by simp) (by simp)).streamed Streamed.sendInLoop
    · simp at hg
  | sendDirect who message wr =>
    exact h.streamed (Streamed.sent.trans Streamed.sendInLoop)
  | callShutdown who =>
    simp only [guard, Bool.and_eq_true, decide_eq_true_eq] at hg
    have hup : v.log.count .up ≠ 0 := h.up_ne_zero (by simp [hg.1.1])
    exact h.setCall hup fun _ => Or.inl hg.1.1
  | setDisconnecting who =>
    simp only [guard, decide_eq_true_eq] at hg
    have hup : v.log.count .up ≠ 0 := fun h0 => by simp [(h.early h0).2.2 who] at hg
    exact h.setCall hup fun _ => Or.inr rfl
  | pushShutdown who =>
    simp only [guard, decide_eq_true_eq] at hg
    have hup : v.log.count .up ≠ 0 := fun h0 => by simp [(h.early h0).2.2 who] at hg
    have hcalls : Tokens (v.setCall who none) := h.setCall hup (h.isUp_cases hup)
    exact hcalls.setTasks (by simp [setCall]) (by simp [setCall])
  | runShutdown =>
    simp only [guard, decide_eq_true_eq, List.head?_eq_some_iff] at hg
    obtain ⟨ts, hts⟩ := hg
    exact (h.popTask hts (by simp) (by simp)).streamed Streamed.shutdownInLoop
  | shutdownDirect =>
    simp only [guard, decide_eq_true_eq] at hg
    have hup : v.log.count .up ≠ 0 := h.up_ne_zero (by simp [hg])
    have hstate : Tokens { v with state := .disconnecting } :=
      ⟨hest, hclosed, hremoved, hdown, fun h0 => absurd h0 hup, by simp [isUp], h.reading⟩
    exact hstate.streamed Streamed.shutdownInLoop
  | handleWrite wr => exact h.streamed Streamed.handleWrite

/-! ### Removal and destruction at most once -/

/-- No other connection meddles with the entry in `connections_`. -/
def KeepsEntry (v : Connection) : Action → Prop
  | .evict => False
  | .remove => v.inMap = true
  | _ => True

/-- A connection is in `connections_` until its removal, and exists as long as it is there. -/
structure Mapped (v : Connection) : Prop where
  inMap : v.inMap = true ↔ v.log.count .removed = 0
  removed_le : v.log.count .removed ≤ 1
  alive : v.inMap = true → v.alive = true

theorem mapped_init (owner : Caller) : Mapped (init owner) := by
  constructor <;> simp [init]

/-- The entry depends on `connections_`, the removals and the object alone. -/
theorem Mapped.congr (h : Mapped v) (hlog : v'.log.count .removed = v.log.count .removed)
    (hmap : v'.inMap = v.inMap) (halive : v'.alive = v.alive) : Mapped v' := by
  refine ⟨?_, ?_, ?_⟩
  · rw [hmap, hlog]; exact h.inMap
  · rw [hlog]; exact h.removed_le
  · rw [hmap, halive]; exact h.alive

theorem Mapped.streamed (h : Mapped v) (hs : Streamed v v') : Mapped v' :=
  h.congr (hs.count (by simp)) hs.inMap hs.alive

/-- An entry that no other connection takes stays, until the connection is removed. -/
theorem mapped_step (h : Mapped v) (hok : KeepsEntry v a) (hstep : step v a = some v') :
    Mapped v' := by
  obtain ⟨hg, rfl⟩ := guarded_eq_some_iff.mp hstep
  cases a with
  | establish | close | destroy | callSend who message =>
    exact h.congr (by simp [effect, popTask, record, setCall]) rfl rfl
  | remove =>
    -- the entry is still there, so this removal is the first one
    have h0 : v.log.count .removed = 0 := h.inMap.mp hok
    refine ⟨?_, ?_, by simp [effect]⟩
    · simp [effect, record]
    · simp [effect, record, h0]
  | evict => exact hok.elim
  | die =>
    simp only [guard, Bool.and_eq_true, Bool.not_eq_true'] at hg
    -- `connections_` holds a reference, so only an object that is not in it goes
    exact ⟨h.inMap, h.removed_le, fun hm => by simp [effect, hg.1.1.1] at hm⟩
  | pushSend who =>
    simp only [effect]
    split
    · exact h.congr rfl rfl rfl
    · exact h
  | runSend wr =>
    simp only [effect]
    split
    · have hpop : Mapped v.popTask := h.congr rfl rfl rfl
      exact hpop.streamed Streamed.sendInLoop
    · exact h
  | sendDirect who message wr =>
    exact h.streamed (Streamed.sent.trans Streamed.sendInLoop)
  | callShutdown who | setDisconnecting who | pushShutdown who => exact h.congr rfl rfl rfl
  | runShutdown =>
    have hpop : Mapped v.popTask := h.congr rfl rfl rfl
    exact hpop.streamed Streamed.shutdownInLoop
  | shutdownDirect =>
    have hstate : Mapped { v with state := .disconnecting } := h.congr rfl rfl rfl
    exact hstate.streamed Streamed.shutdownInLoop
  | handleWrite wr => exact h.streamed Streamed.handleWrite

/-- `HandleClose` is entered only while the channel is subscribed for reading. -/
def ClosesWhileReading (v : Connection) : Action → Prop
  | .close => v.reading = true
  | _ => True

/-- What a step adds to the log, less the events of the stream. -/
def lifeEvents : Action → List ConnEvent
  | .establish => [.up]
  | .close => [.closed]
  | .remove => [.removed]
  | .destroy => [.destroyed, .down]
  | _ => []

/-- A step adds the events of its own to the log. -/
theorem count_step (hstep : step v a = some v') {e : ConnEvent}
    (he : e = .up ∨ e = .down ∨ e = .closed ∨ e = .removed ∨ e = .destroyed) :
    v'.log.count e = v.log.count e + (lifeEvents a).count e := by
  obtain ⟨hg, rfl⟩ := guarded_eq_some_iff.mp hstep
  have streamed : ∀ {w w' : Connection}, Streamed w w' → w.log.count e = v.log.count e →
      w'.log.count e = v.log.count e := fun hs hw => (hs.count he).trans hw
  cases a with
  | close | establish | remove | destroy =>
    simp [effect, popTask, record, lifeEvents, List.count_append, List.count_cons]
  | evict | die | callShutdown who | setDisconnecting who | pushShutdown who => rfl
  | callSend who message =>
    have hs : (v.record (.sent who message)).log.count e = v.log.count e :=
      streamed Streamed.sent rfl
    exact hs
  | pushSend who =>
    simp only [effect]
    split <;> rfl
  | runSend wr =>
    simp only [effect]
    split
    · exact streamed Streamed.sendInLoop rfl
    · rfl
  | sendDirect who message wr =>
    exact streamed (Streamed.sent.trans Streamed.sendInLoop) rfl
  | runShutdown | shutdownDirect => exact streamed Streamed.shutdownInLoop rfl
  | handleWrite wr => exact streamed Streamed.handleWrite rfl

/-- `ConnDestroyed` alone counts as one. -/
theorem destroyed_run {as : List Action} (hrun : run step v as = some v')
    (hnone : .destroy ∉ as) : v'.log.count .destroyed = v.log.count .destroyed := by
  induction as generalizing v with
  | nil =>
    obtain rfl := Option.some_inj.mp hrun
    rfl
  | cons a as ih =>
    obtain ⟨u, hu, hrun⟩ := Option.bind_eq_some_iff.mp hrun
    obtain ⟨ha, has⟩ := List.ne_and_not_mem_of_not_mem_cons hnone
    have hlife : (lifeEvents a).count .destroyed = 0 := by
      cases a with
      | destroy => exact absurd (.refl _) ha
      | _ => rfl
    rw [ih hrun has, count_step hu (by simp), hlife, Nat.add_zero]

/-- The first `HandleClose` ends the subscription. -/
theorem closed_le_one_step (htokens : Tokens v) (h : v.log.count .closed ≤ 1)
    (hok : ClosesWhileReading v a) (hstep : step v a = some v') :
    v'.log.count .closed ≤ 1 := by
  rw [count_step hstep (by simp)]
  cases a with
  | close =>
    -- subscribed for reading, so not closed before
    rw [(htokens.reading hok).2]
    exact Nat.le_refl 1
  | _ => simpa [lifeEvents] using h

/-- A removal that is still queued finds the entry, if `HandleClose` has run once. -/
theorem inMap_of_removals (htokens : Tokens v) (hmapped : Mapped v)
    (hclosed : v.log.count .closed ≤ 1) (hpending : 0 < v.removals) : v.inMap = true := by
  have := htokens.closed
  exact hmapped.inMap.mpr (by omega)

/-! ### After `ConnDestroyed` -/

/-- A connection whose entry is its own: no more than one `ConnDestroyed`, after
which the state is not `k_connected` any more. -/
structure Kept (v : Connection) : Prop where
  tokens : Tokens v
  mapped : Mapped v
  connected : v.state = .connected → v.log.count .destroyed = 0

theorem kept_init (owner : Caller) : Kept (init owner) :=
  ⟨tokens_init owner, mapped_init owner, by simp [init]⟩

/-- The step lemma of `Kept`. -/
theorem kept_step (h : Kept v) (hok : KeepsEntry v a) (hstep : step v a = some v') : Kept v' := by
  refine ⟨tokens_step h.tokens hstep, mapped_step h.mapped hok hstep, fun hstate => ?_⟩
  rw [count_step hstep (by simp)]
  obtain ⟨hg, rfl⟩ := guarded_eq_some_iff.mp hstep
  have streamed : ∀ {w w' : Connection}, Streamed w w' → w.state = v.state →
      w'.state = .connected → v.log.count .destroyed = 0 := fun hs hw hw' =>
    h.connected (hw ▸ hs.state ▸ hw')
  cases a with
  | establish =>
    simp only [guard, Bool.and_eq_true, decide_eq_true_eq, List.head?_eq_some_iff] at hg
    obtain ⟨⟨ts, hts⟩, -⟩ := hg
    have hest := h.tokens.established
    rw [hts, List.count_cons_self] at hest
    have hnone := (h.tokens.early (by omega)).2.1
    have hclosed := h.tokens.closed
    have hremoved := h.tokens.removed
    simp only [lifeEvents]
    simp
    omega
  | destroy => exact absurd hstate (by simp [effect])
  | setDisconnecting who => exact absurd hstate (by simp [effect])
  | shutdownDirect =>
    have hs : Streamed { v with state := .disconnecting } _ := Streamed.shutdownInLoop
    exact absurd (hs.state.symm.trans hstate) (by simp)
  | close | remove | evict | die | callSend who message | callShutdown who | pushShutdown who =>
    exact h.connected hstate
  | pushSend who =>
    simp only [effect] at hstate
    split at hstate <;> exact h.connected hstate
  | runSend wr =>
    simp only [effect] at hstate
    split at hstate
    · rename_i who message _ _
      have hs : Streamed v.popTask (v.popTask.sendInLoop who message wr) := Streamed.sendInLoop
      exact streamed hs rfl hstate
    · exact h.connected hstate
  | sendDirect who message wr =>
    have hs : Streamed v (v.effect (.sendDirect who message wr)) :=
      Streamed.sent.trans Streamed.sendInLoop
    exact streamed hs rfl hstate
  | runShutdown =>
    have hs : Streamed v.popTask v.popTask.shutdownInLoop := Streamed.shutdownInLoop
    exact streamed hs rfl hstate
  | handleWrite wr =>
    have hs : Streamed v (v.handleWrite wr) := Streamed.handleWrite
    exact streamed hs rfl hstate

/-- Nothing has been destroyed before `ConnEstablished`. -/
theorem Kept.not_destroyed (h : Kept v) (hqueued : .establish ∈ v.tasks) :
    v.log.count .destroyed = 0 := by
  have hest := h.tokens.established
  have hpos : 0 < v.tasks.count .establish := List.count_pos_iff.mpr hqueued
  have hnone := (h.tokens.early (by omega)).2.1
  have hclosed := h.tokens.closed
  have hremoved := h.tokens.removed
  omega

/-- Nothing has been destroyed before `ConnDestroyed`. -/
theorem Kept.destroyed_once (h : Kept v) (hqueued : .destroy ∈ v.tasks) :
    v.log.count .destroyed = 0 := by
  have hpos : 0 < v.tasks.count .destroy := List.count_pos_iff.mpr hqueued
  have hremoved := h.tokens.removed
  have hle := h.mapped.removed_le
  omega

/-- An object that can go has been destroyed. -/
theorem Kept.destroyed_of_die (h : Kept v) (hdie : v.guard .die = true) :
    v.log.count .destroyed ≠ 0 := by
  simp only [guard, Bool.and_eq_true, Bool.not_eq_true', decide_eq_true_eq] at hdie
  have hremoved := h.tokens.removed
  have hmapped : v.log.count .removed ≠ 0 := fun h0 => by
    rw [h.mapped.inMap.mpr h0] at hdie
    exact absurd hdie.1.1.1 (by simp)
  omega

/-! ### Closed, removed and destroyed at most once -/

/-- `HandleClose` finds the channel subscribed for reading, and no other
connection takes the entry in `connections_`. -/
def ClosesOnce (v : Connection) (a : Action) : Prop := ClosesWhileReading v a ∧ a ≠ .evict

/-- All that is known of a connection which is closed once at most. -/
structure Once (v : Connection) : Prop where
  tokens : Tokens v
  mapped : Mapped v
  closed_le : v.log.count .closed ≤ 1

theorem once_init (owner : Caller) : Once (init owner) :=
  ⟨tokens_init owner, mapped_init owner, by simp [init]⟩

/-- The step lemma of `Once`. -/
theorem once_step (h : Once v) (hok : ClosesOnce v a) (hstep : step v a = some v') : Once v' := by
  have hkeeps : KeepsEntry v a := by
    cases a with
    -- closed once, so removed once: the queued removal is still to find the entry
    | remove =>
      obtain ⟨hg, -⟩ := guarded_eq_some_iff.mp hstep
      exact inMap_of_removals h.tokens h.mapped h.closed_le (of_decide_eq_true hg)
    | evict => exact absurd rfl hok.2
    | _ => trivial
  exact ⟨tokens_step h.tokens hstep, mapped_step h.mapped hkeeps hstep,
    closed_le_one_step h.tokens h.closed_le hok.1 hstep⟩

namespace Once

/-- Before its first `HandleClose`, a connection is in `connections_`, and it exists. -/
theorem of_reading (h : Once v) (hreading : v.reading = true) :
    v.isUp = true ∧ v.inMap = true ∧ v.alive = true := by
  obtain ⟨hup, hclosed⟩ := h.tokens.reading hreading
  have hc := h.tokens.closed
  have hr := h.tokens.removed
  have hmap : v.inMap = true := h.mapped.inMap.mpr (by omega)
  exact ⟨h.tokens.up hup (by omega), hmap, h.mapped.alive hmap⟩

/-- `ConnDestroyed`, when it is its turn, finds the connection up. -/
theorem isUp_of_destroy (h : Once v) (hqueued : .destroy ∈ v.tasks) : v.isUp = true := by
  have hc := h.tokens.closed
  have hr := h.tokens.removed
  have hle := h.mapped.removed_le
  have hpos : 0 < v.tasks.count .destroy := List.count_pos_iff.mpr hqueued
  have hup : v.log.count .up ≠ 0 := fun h0 => by
    have hnone := (h.tokens.early h0).2.1
    omega
  exact h.tokens.up hup (by omega)

/-- Each event of the connection's life comes once at most. -/
theorem counts_le (h : Once v) : v.log.count .removed ≤ 1 ∧ v.log.count .destroyed ≤ 1 ∧
    v.log.count .up ≤ 1 ∧ v.log.count .down ≤ 1 := by
  have hle := h.mapped.removed_le
  have hr := h.tokens.removed
  have hd := h.tokens.down
  have hup := h.tokens.established
  refine ⟨hle, ?_, ?_, ?_⟩ <;> omega

end Once

/-! ### Calls from other threads -/

/-- Neither in a thread's hands nor on the queue is there a message or a shutdown. -/
def NoTraffic (v : Connection) : Prop :=
  v.calls = (fun _ => none) ∧ ∀ task ∈ v.tasks, task = .establish ∨ task = .destroy

/-- Nothing is asked of the connection's loop by another thread. -/
def NotCalled (_ : Connection) (b : Connection.Action) : Prop :=
  (∀ who message, b ≠ .callSend who message) ∧ ∀ who, b ≠ .callShutdown who

/-- Without calls from other threads nothing of theirs is ever queued. -/
theorem noTraffic_step {v v' : Connection} {b : Connection.Action} (h : NoTraffic v)
    (hb : NotCalled v b) (hstep : Connection.step v b = some v') : NoTraffic v' := by
  obtain ⟨hcalls, htasks⟩ := h
  obtain ⟨hg, rfl⟩ := guarded_eq_some_iff.mp hstep
  have htail : ∀ task ∈ v.tasks.tail, task = .establish ∨ task = .destroy := fun task htask =>
    htasks task (List.mem_of_mem_tail htask)
  have hstreamed : ∀ {w w' : Connection}, Streamed w w' → w.calls = v.calls →
      (∀ task ∈ w.tasks, task ∈ v.tasks) → NoTraffic w' := fun hs hc ht =>
    ⟨hs.calls.trans (hc.trans hcalls), fun task htask => htasks task (ht task (hs.tasks ▸ htask))⟩
  cases b with
  | callSend who message => exact absurd rfl (hb.1 who message)
  | callShutdown who => exact absurd rfl (hb.2 who)
  | establish | destroy => exact ⟨hcalls, htail⟩
  | close | evict | die => exact ⟨hcalls, htasks⟩
  | remove =>
    refine ⟨hcalls, fun task htask => ?_⟩
    rcases List.mem_append.mp htask with hold | hnew
    · exact htasks task hold
    · exact Or.inr (List.mem_singleton.mp hnew)
  | pushSend who => exact absurd hg (by simp [guard, hcalls])
  | setDisconnecting who | pushShutdown who => exact absurd hg (by simp [guard, hcalls])
  | runSend wr =>
    simp only [guard] at hg
    split at hg
    · next who message rest htask =>
      exact absurd (htasks _ (htask ▸ List.mem_cons_self)) (by simp)
    · exact absurd hg (by simp)
  | runShutdown =>
    simp only [guard, decide_eq_true_eq, List.head?_eq_some_iff] at hg
    obtain ⟨rest, htask⟩ := hg
    exact absurd (htasks _ (htask ▸ List.mem_cons_self)) (by simp)
  | sendDirect who message wr =>
    exact hstreamed (Streamed.sent.trans Streamed.sendInLoop) rfl fun _ => id
  | shutdownDirect => exact hstreamed Streamed.shutdownInLoop rfl fun _ => id
  | handleWrite wr => exact hstreamed Streamed.handleWrite rfl fun _ => id

end Connection
end Bbkgl
