import Bbkgl.Net.ConnectionLife

/-!
# The output stream of a connection

What `write()` has accepted, followed by the backlog, is what `SendInLoop` has
been given, in the order of its executions. The messages of one thread are
executed in the order in which it sent them: `SendInLoop` of a thread that is not
the loop's own goes through the queue, and never runs directly.
-/

set_option autoImplicit false

namespace Bbkgl
namespace Connection

open CS.Transition

/-- The bytes that `write()` has taken. -/
def accepted (log : List ConnEvent) : Bytes :=
  log.flatMap fun
    | .write bytes => bytes
    | _ => []

/-- The bytes of the executed calls of `SendInLoop`. -/
def executedBytes (log : List ConnEvent) : Bytes :=
  log.flatMap fun
    | .executed _ message => message
    | _ => []

/-- The messages of a thread in the order of their execution. -/
def executedBy (who : Caller) (log : List ConnEvent) : List Bytes :=
  log.filterMap fun
    | .executed w message => if w = who then some message else none
    | _ => none

/-- The messages of a thread in the order of its calls of `Send`. -/
def sentBy (who : Caller) (log : List ConnEvent) : List Bytes :=
  log.filterMap fun
    | .sent w message => if w = who then some message else none
    | _ => none

/-- The messages of a thread that are in the functor queue. -/
def queuedBy (who : Caller) (tasks : List Task) : List Bytes :=
  tasks.filterMap fun
    | .send w message => if w = who then some message else none
    | _ => none

/-- The message of a `Send` that has passed its test and is not in the queue yet. -/
def inFlight : Option Pending → List Bytes
  | some (.send message) => [message]
  | _ => []

variable {v v' : Connection} {a : Action} {log es : List ConnEvent} {who : Caller}

theorem accepted_append : accepted (log ++ es) = accepted log ++ accepted es := by
  simp [accepted]

theorem executedBytes_append :
    executedBytes (log ++ es) = executedBytes log ++ executedBytes es := by
  simp [executedBytes]

theorem executedBy_append :
    executedBy who (log ++ es) = executedBy who log ++ executedBy who es := by
  simp [executedBy]

theorem sentBy_append : sentBy who (log ++ es) = sentBy who log ++ sentBy who es := by
  simp [sentBy]

theorem queuedBy_append {ts us : List Task} :
    queuedBy who (ts ++ us) = queuedBy who ts ++ queuedBy who us := by
  simp [queuedBy]

theorem queuedBy_send {message : Bytes} {w : Caller} :
    queuedBy w [.send who message] = if who = w then [message] else [] := by
  by_cases h : who = w <;> simp [queuedBy, h]

/-- The part of the invariant that is about the bytes. -/
def Conserved (v : Connection) : Prop :=
  accepted v.log ++ v.backlog = executedBytes v.log ∧
    (v.log.count .closed = 0 → (v.backlog ≠ [] ↔ v.writing = true))

/-- An event that is neither a write nor an execution. -/
theorem Conserved.record {e : ConnEvent} (h : Conserved v) (ha : accepted [e] = [])
    (he : executedBytes [e] = []) : Conserved (v.record e) := by
  refine ⟨?_, fun h0 => h.2 ?_⟩
  · simpa only [Connection.record, accepted_append, executedBytes_append, ha, he,
      List.append_nil] using h.1
  · have hcount : (v.log ++ [e]).count .closed = 0 := h0
    rw [List.count_append] at hcount
    omega

theorem Conserved.sendInLoop {message : Bytes} {wr : WriteResult} (h : Conserved v) :
    Conserved (v.sendInLoop who message wr) := by
  obtain ⟨hbytes, hinterest⟩ := h
  have hcount : (v.sendInLoop who message wr).log.count .closed = v.log.count .closed :=
    Streamed.sendInLoop.count (by simp)
  have hexec :
      executedBytes (v.sendInLoop who message wr).log = executedBytes v.log ++ message := by
    simp only [Connection.sendInLoop, executedBytes_append]
    split <;> simp [executedBytes]
  have hdrop : message.drop (v.nwrote wr) = [] ↔ ¬ v.nwrote wr < message.length := by
    rw [List.drop_eq_nil_iff, Nat.not_lt]
  refine ⟨?_, ?_⟩
  · rw [hexec, ← hbytes]
    simp only [Connection.sendInLoop, accepted_append]
    split
    · next hd =>
      have hempty : v.backlog = [] := by
        simp only [writesDirectly, Bool.and_eq_true, List.isEmpty_iff] at hd
        exact hd.2
      simp [accepted, hempty]
    · next hd => simp [accepted, nwrote, hd]
  · rw [hcount]
    intro h0
    simp only [Connection.sendInLoop, ne_eq, List.append_eq_nil_iff, not_and_or, hdrop,
      Bool.or_eq_true, decide_eq_true_eq, not_not]
    exact or_congr_left (hinterest h0)

theorem Conserved.shutdownInLoop (h : Conserved v) : Conserved v.shutdownInLoop := by
  rw [Connection.shutdownInLoop]
  split
  · exact h
  · exact h.record rfl rfl

/-- What `write()` takes goes from the backlog to the socket. -/
theorem Conserved.bytes_written (h : Conserved v) (n : ℕ) :
    accepted (v.written n).log ++ (v.written n).backlog = executedBytes (v.written n).log := by
  have hsplit : v.backlog.take n ++ v.backlog.drop n = v.backlog := List.take_append_drop n _
  simp only [written, accepted_append, executedBytes_append, List.append_assoc]
  simpa [accepted, executedBytes, hsplit] using h.1

/-- `HandleWrite` with the backlog gone ends the subscription. -/
theorem Conserved.emptied {wr : WriteResult} (h : Conserved v) (hempties : v.empties wr = true) :
    Conserved { v.written (wr.getD 0) with writing := false } := by
  simp only [empties, Bool.and_eq_true, List.isEmpty_iff] at hempties
  exact ⟨h.bytes_written _, fun _ => by simp [written, hempties.2]⟩

theorem Conserved.handleWrite {wr : WriteResult} (h : Conserved v) :
    Conserved (v.handleWrite wr) := by
  have hcount : ∀ n, (v.written n).log.count .closed = v.log.count .closed := by simp [written]
  rw [Connection.handleWrite]
  split
  · next hwriting =>
    split
    · next hempties =>
      simp only
      split
      · exact (h.emptied hempties).shutdownInLoop
      · exact h.emptied hempties
    · next hempties =>
      refine ⟨h.bytes_written _, fun h0 => ⟨fun _ => hwriting, fun _ => ?_⟩⟩
      have hbacklog := (h.2 (hcount _ ▸ h0)).mpr hwriting
      -- nothing was accepted, or not all of it: the backlog is not gone
      rcases Nat.eq_zero_or_pos (wr.getD 0) with hn | hn
      · simpa [written, hn] using hbacklog
      · simpa [empties, hn, written] using hempties
  · exact h

/-! ### Senders -/

/-- Each thread's messages: executed, then queued, then in its own hands. -/
def Ordered (v : Connection) (who : Caller) : Prop :=
  executedBy who v.log ++ queuedBy who v.tasks ++ inFlight (v.calls who) = sentBy who v.log

/-- The bytes are conserved, each thread's messages keep their order, and the owner's thread
queues none. -/
structure Stream (v : Connection) : Prop where
  conserved : Conserved v
  order : ∀ who, Ordered v who
  owner : queuedBy v.owner v.tasks = [] ∧ v.calls v.owner = none

theorem stream_init (owner : Caller) : Stream (init owner) where
  conserved := ⟨by simp [init, accepted, executedBytes], by simp [init]⟩
  order _ := by simp [Ordered, init, executedBy, queuedBy, inFlight, sentBy]
  owner := by simp [init, queuedBy]

/-- Nothing that concerns senders has changed. -/
theorem Ordered.congr (h : Ordered v who) (hexec : executedBy who v'.log = executedBy who v.log)
    (hsent : sentBy who v'.log = sentBy who v.log)
    (hqueued : queuedBy who v'.tasks = queuedBy who v.tasks)
    (hcalls : inFlight (v'.calls who) = inFlight (v.calls who)) : Ordered v' who := by
  rw [Ordered, hexec, hsent, hqueued, hcalls]
  exact h

/-- `SendInLoop` executes the message of one `Send`. -/
theorem executedBy_sendInLoop {message : Bytes} {wr : WriteResult} {w : Caller} :
    executedBy w (v.sendInLoop who message wr).log =
      executedBy w v.log ++ if who = w then [message] else [] := by
  simp only [Connection.sendInLoop, executedBy_append]
  congr 1
  by_cases hw : who = w <;> split <;> simp [executedBy, hw]

/-- `SendInLoop` is no call of `Send`. -/
theorem sentBy_sendInLoop {message : Bytes} {wr : WriteResult} {w : Caller} :
    sentBy w (v.sendInLoop who message wr).log = sentBy w v.log := by
  simp only [Connection.sendInLoop, sentBy_append]
  split <;> simp [sentBy]

theorem Ordered.shutdownInLoop (h : Ordered v who) : Ordered v.shutdownInLoop who := by
  rw [Connection.shutdownInLoop]
  split
  · exact h
  · exact h.congr (by simp [record, executedBy]) (by simp [record, sentBy]) rfl rfl

theorem Ordered.handleWrite {wr : WriteResult} (h : Ordered v who) :
    Ordered (v.handleWrite wr) who := by
  have hwritten : ∀ n writing, Ordered { v.written n with writing := writing } who :=
    fun n writing => h.congr (by simp [written, executedBy]) (by simp [written, sentBy]) rfl rfl
  rw [Connection.handleWrite]
  split
  · split
    · simp only
      split
      · exact (hwritten _ false).shutdownInLoop
      · exact hwritten _ false
    · exact hwritten _ v.writing
  · exact h

theorem queuedBy_tail {t : Task} {ts : List Task} {w : Caller} (htasks : v.tasks = t :: ts)
    (ht : queuedBy w [t] = []) : queuedBy w v.popTask.tasks = queuedBy w v.tasks := by
  have hcons : v.tasks = [t] ++ ts := htasks
  rw [popTask, htasks, List.tail_cons, ← List.singleton_append, queuedBy_append, ht,
    List.nil_append]

/-- A thread whose call is no message moves on to another that is none. -/
theorem inFlight_setCall {call : Option Pending} {w : Caller}
    (h : inFlight call = inFlight (v.calls who)) :
    inFlight ((v.setCall who call).calls w) = inFlight (v.calls w) := by
  by_cases hw : w = who
  · subst hw
    simp only [setCall, Function.update_self, h]
  · simp only [setCall, Function.update_of_ne hw]

/-- Nothing that concerns senders has changed. -/
theorem Stream.congr (h : Stream v) (hc : Conserved v') (ho : v'.owner = v.owner)
    (hexec : ∀ who, executedBy who v'.log = executedBy who v.log)
    (hsent : ∀ who, sentBy who v'.log = sentBy who v.log)
    (hqueued : ∀ who, queuedBy who v'.tasks = queuedBy who v.tasks) (hcalls : v'.calls = v.calls) :
    Stream v' where
  conserved := hc
  order who := (h.order who).congr (hexec who) (hsent who) (hqueued who) (by rw [hcalls])
  owner := by rw [ho, hqueued, hcalls]; exact h.owner

/-- A task that sends nothing can go. -/
theorem Stream.popTask {t : Task} {ts : List Task} (h : Stream v) (htasks : v.tasks = t :: ts)
    (ht : ∀ who, queuedBy who [t] = []) : Stream v.popTask :=
  h.congr h.conserved rfl (fun _ => rfl) (fun _ => rfl)
    (fun who => queuedBy_tail htasks (ht who)) rfl

theorem Stream.setState (h : Stream v) (state : StateE) : Stream { v with state := state } :=
  h.congr h.conserved rfl (fun _ => rfl) (fun _ => rfl) (fun _ => rfl) rfl

theorem Stream.shutdownInLoop (h : Stream v) : Stream v.shutdownInLoop := by
  have hs : Streamed v v.shutdownInLoop := Streamed.shutdownInLoop
  refine ⟨h.conserved.shutdownInLoop, fun who => (h.order who).shutdownInLoop, ?_⟩
  rw [hs.owner, hs.tasks, hs.calls]
  exact h.owner

/-- A write that takes everything leaves nothing to write. -/
theorem Stream.emptied {wr : WriteResult} (h : Stream v) (hempties : v.empties wr = true) :
    Stream { v.written (wr.getD 0) with writing := false } :=
  h.congr (h.conserved.emptied hempties) rfl (fun _ => by simp [written, executedBy])
    (fun _ => by simp [written, sentBy]) (fun _ => rfl) rfl

theorem Stream.handleWrite {wr : WriteResult} (h : Stream v) : Stream (v.handleWrite wr) := by
  have hs : Streamed v (v.handleWrite wr) := Streamed.handleWrite
  refine ⟨h.conserved.handleWrite, fun who => (h.order who).handleWrite, ?_⟩
  rw [hs.owner, hs.tasks, hs.calls]
  exact h.owner

/-- Every step keeps the stream. -/
theorem stream_step (htokens : Tokens v) (h : Stream v) (hstep : step v a = some v') :
    Stream v' := by
  obtain ⟨hg, rfl⟩ := guarded_eq_some_iff.mp hstep
  have hconserved := h.conserved
  have horder := h.order
  have howner := h.owner
  cases a with
  | establish =>
    simp only [guard, Bool.and_eq_true, decide_eq_true_eq, List.head?_eq_some_iff] at hg
    obtain ⟨⟨ts, hts⟩, -⟩ := hg
    have hqueued : ∀ w, queuedBy w v.popTask.tasks = queuedBy w v.tasks := fun w =>
      queuedBy_tail hts rfl
    refine ⟨hconserved.record rfl rfl, fun w => (horder w).congr ?_ ?_ (hqueued w) rfl, ?_⟩
    · simp [effect, popTask, record, executedBy]
    · simp [effect, popTask, record, sentBy]
    · exact ⟨(hqueued _).trans howner.1, howner.2⟩
  | close =>
    -- `HandleClose` disables the interest whatever the backlog, and the promise ends
    have hclosed : (v.log ++ [ConnEvent.closed]).count .closed ≠ 0 := by simp
    refine ⟨⟨(hconserved.record rfl rfl).1, fun h0 => absurd h0 hclosed⟩,
      fun w => (horder w).congr ?_ ?_ rfl rfl, howner⟩
    · simp [effect, record, executedBy]
    · simp [effect, record, sentBy]
  | remove =>
    have hqueued : ∀ w, queuedBy w (v.tasks ++ [.destroy]) = queuedBy w v.tasks := fun w => by
      simp [queuedBy]
    refine ⟨hconserved.record rfl rfl, fun w => (horder w).congr ?_ ?_ (hqueued w) rfl, ?_⟩
    · simp [effect, record, executedBy]
    · simp [effect, record, sentBy]
    · exact ⟨(hqueued _).trans howner.1, howner.2⟩
  | evict | die => exact ⟨hconserved, horder, howner⟩
  | destroy =>
    simp only [guard, Bool.and_eq_true, decide_eq_true_eq, List.head?_eq_some_iff] at hg
    obtain ⟨⟨ts, hts⟩, -⟩ := hg
    have hqueued : ∀ w, queuedBy w v.popTask.tasks = queuedBy w v.tasks := fun w =>
      queuedBy_tail hts rfl
    have hclosed : v.log.count .closed ≠ 0 := by
      have := htokens.closed
      have := htokens.removed
      rw [hts, List.count_cons_self] at this
      omega
    have hbytes := ((hconserved.record (e := .destroyed) rfl rfl).record (e := .down) rfl rfl).1
    refine ⟨⟨hbytes, fun h0 => ?_⟩, fun w => (horder w).congr ?_ ?_ (hqueued w) rfl, ?_⟩
    · exact absurd (by simpa [effect, popTask, record] using h0) hclosed
    · simp [effect, popTask, record, executedBy]
    · simp [effect, popTask, record, sentBy]
    · exact ⟨(hqueued _).trans howner.1, howner.2⟩
  | callSend who message =>
    simp only [guard, Bool.and_eq_true, decide_eq_true_eq, Option.isNone_iff_eq_none] at hg
    obtain ⟨⟨-, hne⟩, hidle⟩ := hg
    refine ⟨hconserved.record rfl rfl, fun w => ?_, howner.1, ?_⟩
    · have hw := horder w
      rw [Ordered] at hw ⊢
      by_cases hwho : w = who
      · subst hwho
        rw [hidle] at hw
        simp [effect, setCall, record, executedBy_append, sentBy_append, ← hw]
        simp [executedBy, sentBy, inFlight]
      · simp [effect, setCall, record, executedBy_append, sentBy_append, Function.update_of_ne hwho,
          ← hw]
        simp [executedBy, sentBy, Ne.symm hwho]
    · simp [effect, setCall, record, Function.update_of_ne (Ne.symm hne), howner.2]
  | pushSend who =>
    simp only [guard] at hg
    split at hg
    · next message hcall =>
      have hne : v.owner ≠ who := fun heq => by simp [← heq, howner.2] at hcall
      simp only [effect, hcall]
      refine ⟨hconserved, fun w => ?_, ?_, ?_⟩
      · have hw := horder w
        rw [Ordered] at hw ⊢
        by_cases hwho : w = who
        · subst hwho
          rw [hcall] at hw
          simpa [setCall, queuedBy_append, queuedBy_send, inFlight] using hw
        · simpa [setCall, queuedBy_append, Function.update_of_ne hwho, queuedBy_send, Ne.symm hwho]
            using hw
      · have hnone : queuedBy v.owner [.send who message] = [] := by
          rw [queuedBy_send, if_neg (Ne.symm hne)]
        simp only [setCall, queuedBy_append, hnone, List.append_nil]
        exact howner.1
      · simp [setCall, Function.update_of_ne hne, howner.2]
    · simp at hg
  | runSend wr =>
    simp only [guard] at hg
    split at hg
    · next who message ts hts =>
      have hsplit : ∀ w, queuedBy w v.tasks =
          (if who = w then [message] else []) ++ queuedBy w ts := fun w => by
        rw [hts, ← List.singleton_append, queuedBy_append, queuedBy_send]
      have hpop : v.popTask.tasks = ts := by rw [popTask, hts]; rfl
      have hstream : Streamed v.popTask (v.popTask.sendInLoop who message wr) := .sendInLoop
      simp only [effect, hts]
      refine ⟨Conserved.sendInLoop (v := v.popTask) hconserved, fun w => ?_, ?_, ?_⟩
      · have hw := horder w
        rw [Ordered, hsplit] at hw
        rw [Ordered, executedBy_sendInLoop, sentBy_sendInLoop, hstream.tasks, hstream.calls, hpop]
        simpa [popTask] using hw
      · have := howner.1
        rw [hsplit, List.append_eq_nil_iff] at this
        rw [hstream.owner, hstream.tasks, hpop]
        exact this.2
      · rw [hstream.owner, hstream.calls]
        exact howner.2
    · simp at hg
  | sendDirect who message wr =>
    simp only [guard, Bool.and_eq_true, decide_eq_true_eq] at hg
    obtain ⟨-, rfl⟩ := hg
    have hstream : Streamed v ((v.record (.sent v.owner message)).sendInLoop v.owner message wr) :=
      Streamed.sent.trans Streamed.sendInLoop
    refine ⟨Conserved.sendInLoop (hconserved.record rfl rfl), fun w => ?_, ?_, ?_⟩
    · have hw := horder w
      simp only [effect]
      rw [Ordered] at hw ⊢
      rw [executedBy_sendInLoop, sentBy_sendInLoop, hstream.tasks, hstream.calls]
      by_cases hwho : v.owner = w
      · subst hwho
        rw [howner.1, howner.2] at hw ⊢
        simp only [record, executedBy_append, sentBy_append, ← hw]
        simp [executedBy, sentBy, inFlight]
      · simp only [record, executedBy_append, sentBy_append, ← hw]
        simp [executedBy, sentBy, hwho]
    · simp only [effect]
      rw [hstream.owner, hstream.tasks]
      exact howner.1
    · simp only [effect]
      rw [hstream.owner, hstream.calls]
      exact howner.2
  | callShutdown who =>
    simp only [guard, Bool.and_eq_true, decide_eq_true_eq, Option.isNone_iff_eq_none] at hg
    obtain ⟨⟨-, hne⟩, hidle⟩ := hg
    refine ⟨hconserved, fun w => (horder w).congr rfl rfl rfl ?_, howner.1, ?_⟩
    · exact inFlight_setCall (by rw [hidle]; rfl)
    · exact (Function.update_of_ne (Ne.symm hne) _ _).trans howner.2
  | setDisconnecting who =>
    simp only [guard, decide_eq_true_eq] at hg
    have hne : v.owner ≠ who := fun heq => by simp [← heq, howner.2] at hg
    refine ⟨hconserved, fun w => (horder w).congr rfl rfl rfl ?_, howner.1, ?_⟩
    · exact inFlight_setCall (by rw [hg]; rfl)
    · exact (Function.update_of_ne hne _ _).trans howner.2
  | pushShutdown who =>
    simp only [guard, decide_eq_true_eq] at hg
    have hne : v.owner ≠ who := fun heq => by simp [← heq, howner.2] at hg
    have hqueued : ∀ w, queuedBy w (v.tasks ++ [.shutdown]) = queuedBy w v.tasks := fun w => by
      simp [queuedBy]
    refine ⟨hconserved, fun w => (horder w).congr rfl rfl (hqueued w) ?_, ?_, ?_⟩
    · exact inFlight_setCall (by rw [hg]; rfl)
    · exact (hqueued _).trans howner.1
    · exact (Function.update_of_ne hne _ _).trans howner.2
  | runShutdown =>
    simp only [guard, decide_eq_true_eq, List.head?_eq_some_iff] at hg
    obtain ⟨ts, hts⟩ := hg
    exact (h.popTask hts fun _ => rfl).shutdownInLoop
  | shutdownDirect => exact (h.setState .disconnecting).shutdownInLoop
  | handleWrite wr => exact h.handleWrite

end Connection
end Bbkgl
