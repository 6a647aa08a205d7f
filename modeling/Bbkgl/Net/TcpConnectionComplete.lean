import Bbkgl.CS.History
import Bbkgl.Net.TcpConnectionRefines

/-!
# The write-complete callback

Both `SendInLoop` and `HandleWrite` queue the callback when nothing is left to
send. `SendInLoop` then sets it to `nullptr`, lest a callback that sends again be
called for ever; `HandleWrite` keeps it. So whether the callback is queued depends
on the path by which earlier messages went out: it is, until a message has been
taken as a whole by a direct write, and then not until it is set again.
-/

set_option autoImplicit false

namespace Bbkgl
namespace TcpConnection
namespace Local

open CS.Fallible CS.Transition

variable {c : ConnId} {l l' l'' : Local}

/-! ### What queues nothing -/

/-- Nothing is queued, and the callback stays. -/
structure Quiet (l l' : Local) : Prop where
  queued : l'.queued = l.queued
  writeComplete : l'.conn.writeComplete = l.conn.writeComplete

theorem Quiet.trans (h : Quiet l l') (h' : Quiet l' l'') : Quiet l l'' :=
  ⟨h'.queued.trans h.queued, h'.writeComplete.trans h.writeComplete⟩

/-- An update of the channel queues nothing. -/
theorem quiet_of_update {ch : Channel} (h : l.update c ch = .ok l') : Quiet l l' := by
  rw [update] at h
  split at h
  · obtain rfl := Except.ok.inj h
    exact ⟨rfl, rfl⟩
  · exact absurd h (by simp)

theorem quiet_of_append {data : Bytes} (h : l.append data = .ok l') : Quiet l l' := by
  rw [append] at h
  split at h
  · obtain rfl := Except.ok.inj h
    exact ⟨rfl, rfl⟩
  · exact absurd h (by simp)

theorem quiet_of_retrieve {len : ℕ} (h : l.retrieve len = .ok l') : Quiet l l' := by
  rw [retrieve] at h
  split at h
  · obtain rfl := Except.ok.inj h
    exact ⟨rfl, rfl⟩
  · exact absurd h (by simp)

theorem quiet_record {e : ConnEvent} : Quiet l (l.record e) := ⟨rfl, rfl⟩

theorem quiet_shutdownInLoop : Quiet l l.shutdownInLoop := by
  rw [shutdownInLoop]
  split <;> exact ⟨rfl, rfl⟩

/-- Keeping the rest of a message queues nothing. -/
theorem quiet_of_keepRest {rest : Bytes} (h : l.keepRest c rest = .ok l') : Quiet l l' := by
  obtain ⟨m, hm, h⟩ := bind_eq_ok_iff.mp h
  split at h
  · exact (quiet_of_append hm).trans (quiet_of_update h)
  · obtain rfl := pure_eq_ok_iff.mp h
    exact quiet_of_append hm

theorem quiet_of_connEstablished (h : l.connEstablished c = .ok l') : Quiet l l' := by
  obtain ⟨-, h⟩ := check_bind_eq_ok_iff.mp h
  obtain ⟨m, hm, h⟩ := bind_eq_ok_iff.mp h
  obtain rfl := pure_eq_ok_iff.mp h
  have hset : Quiet l (l.setState .connected) := ⟨rfl, rfl⟩
  exact (hset.trans (quiet_of_update hm)).trans quiet_record

/-! ### What may queue the callback -/

/-- `SendInLoop` writes directly, and `write()` takes the whole message. -/
def takesWhole (conn : TcpConnection) (message : Bytes) (wr : WriteResult) : Bool :=
  message.length ≤ nwrote conn wr

/-- The callback is queued if `b` says so, and nothing else is. -/
def Queues (c : ConnId) (l l' : Local) (b : Bool) : Prop :=
  l'.queued = l.queued ++ if b = true then [.writeComplete c] else []

theorem Quiet.queues (h : Quiet l l') : Queues c l l' false := by
  rw [Queues, h.queued]
  simp

/-- A direct write queues the callback exactly if it takes the whole message, with the callback
set; the flag is off then. -/
theorem tryWrite_queues {who : Caller} {message : Bytes} {wr : WriteResult} (hne : message ≠ []) :
    Queues c l (l.tryWrite c who message wr)
      (takesWhole l.conn message wr && l.conn.writeComplete) ∧
    (l.tryWrite c who message wr).conn.writeComplete =
      (l.conn.writeComplete && !takesWhole l.conn message wr) := by
  have hpos : 0 < message.length := List.length_pos_of_ne_nil hne
  -- `SendInLoop` tests that nothing remains; for a message that is not empty this is `takesWhole`
  have hwhole : (writesDirectly l.conn && wr.isSome && !(nwrote l.conn wr < message.length)) =
      takesWhole l.conn message wr := by
    rw [takesWhole, Bool.eq_iff_iff]
    cases hd : writesDirectly l.conn <;> cases wr <;> simp [nwrote, hd, hne]
  simp only [tryWrite]
  rw [hwhole]
  have hlog : Quiet l (if writesDirectly l.conn = true
      then (l.record (.executed who message)).record (.write (message.take (nwrote l.conn wr)))
      else l.record (.executed who message)) := by
    split <;> exact ⟨rfl, rfl⟩
  rw [hlog.writeComplete]
  split
  · next hboth =>
    obtain ⟨ht, hwc⟩ := (Bool.and_eq_true _ _).mp hboth
    refine ⟨?_, by simp [ht]⟩
    simp only [Queues, queueWriteComplete, hlog.queued, hboth, ↓reduceIte]
  · next hboth =>
    rw [Bool.not_eq_true] at hboth
    rw [hboth]
    refine ⟨hlog.queues, ?_⟩
    rw [hlog.writeComplete]
    cases hwc : l.conn.writeComplete with
    | true => simpa [hwc] using hboth
    | false => rfl

/-- `SendInLoop` queues the callback exactly if it is set and the whole message is written at
once. -/
theorem sendInLoop_queues {who : Caller} {message : Bytes} {wr : WriteResult} (hne : message ≠ [])
    (h : l.sendInLoop c who message wr = .ok l') :
    Queues c l l' (takesWhole l.conn message wr && l.conn.writeComplete) ∧
    l'.conn.writeComplete = (l.conn.writeComplete && !takesWhole l.conn message wr) := by
  have htry : Queues c l (l.tryWrite c who message wr) _ ∧ _ := tryWrite_queues hne
  obtain ⟨hqueues, hwc⟩ := htry
  have hrest : Quiet (l.tryWrite c who message wr) l' := by
    simp only [sendInLoop] at h
    split at h
    · exact quiet_of_keepRest h
    · obtain rfl := Except.ok.inj h
      exact ⟨rfl, rfl⟩
  exact ⟨hrest.queued.trans hqueues, hrest.writeComplete.trans hwc⟩

theorem output_of_update {ch : Channel} (h : l.update c ch = .ok l') :
    l'.conn.output = l.conn.output := by
  rw [update] at h
  split at h
  · obtain rfl := Except.ok.inj h
    rfl
  · exact absurd h (by simp)

/-- With everything written, `HandleWrite` queues the callback if it is set, and leaves the flag
as it is. -/
theorem drained_queues (h : l.drained c = .ok l') :
    Queues c l l' l.conn.writeComplete ∧ l'.conn.writeComplete = l.conn.writeComplete ∧
      l'.conn.output = l.conn.output := by
  obtain ⟨m, hm, h⟩ := bind_eq_ok_iff.mp h
  obtain rfl := pure_eq_ok_iff.mp h
  have hupdate := quiet_of_update hm
  have hlast : ∀ n : Local,
      Quiet n (if n.conn.state = .disconnecting then n.shutdownInLoop else n) ∧
        (if n.conn.state = .disconnecting then n.shutdownInLoop else n).conn.output =
          n.conn.output := by
    intro n
    split
    · refine ⟨quiet_shutdownInLoop, ?_⟩
      rw [shutdownInLoop]
      split <;> rfl
    · exact ⟨⟨rfl, rfl⟩, rfl⟩
  obtain ⟨hquiet, houtput⟩ :=
    hlast (if m.conn.writeComplete = true then m.queueWriteComplete c else m)
  rw [Queues, hquiet.queued, hquiet.writeComplete, houtput, ← output_of_update hm,
    hupdate.writeComplete]
  cases hwc : l.conn.writeComplete with
  | true => simp [queueWriteComplete, hupdate.queued, hupdate.writeComplete, hwc]
  | false => simp [hupdate.queued, hupdate.writeComplete, hwc]

/-- A `Retrieve` from the output buffer drops its front. -/
theorem readable_of_retrieve {len : ℕ} (hwf : l.conn.output.WF) (h : l.retrieve len = .ok l') :
    len ≤ l.conn.output.readable.length ∧
      l'.conn.output.readable = l.conn.output.readable.drop len := by
  rw [retrieve] at h
  split at h
  · next output hout =>
    have hy := Buffer.yields_of_retrieve hwf hout
    obtain rfl := Except.ok.inj h
    refine ⟨?_, hy.readable_eq⟩
    obtain ⟨hle, -⟩ := check_bind_eq_ok_iff.mp hout
    rw [hwf.length_readable]
    exact of_decide_eq_true hle
  · exact absurd h (by simp)

/-- `HandleWrite` queues the callback exactly if it empties the buffer. -/
theorem handleWrite_queues {wr : WriteResult} (hwf : l.conn.output.WF)
    (h : l.handleWrite c wr = .ok l') :
    Queues c l l' (decide (l.conn.output.readable ≠ [] ∧ l'.conn.output.readable = []) &&
      l.conn.writeComplete) ∧
    l'.conn.writeComplete = l.conn.writeComplete := by
  have unchanged : ∀ m : Local, Quiet l m → m.conn.output = l.conn.output →
      Queues c l m (decide (l.conn.output.readable ≠ [] ∧ m.conn.output.readable = []) &&
        l.conn.writeComplete) ∧ m.conn.writeComplete = l.conn.writeComplete := by
    intro m hquiet houtput
    rw [houtput, decide_eq_false fun hboth => hboth.1 hboth.2, Bool.false_and]
    exact ⟨hquiet.queues, hquiet.writeComplete⟩
  simp only [handleWrite] at h
  split at h
  · split at h
    · next hpos =>
      obtain ⟨m, hm, h⟩ := bind_eq_ok_iff.mp h
      obtain ⟨hlen, hdrop⟩ := readable_of_retrieve (l := l.record _) hwf hm
      have hquiet : Quiet l m := quiet_record.trans (quiet_of_retrieve hm)
      have hmwf : m.conn.output.WF := (retrieve_acts (c := c) (l := l.record _) hwf hm).wf
      have hne : l.conn.output.readable ≠ [] :=
        List.ne_nil_of_length_pos (Nat.lt_of_lt_of_le hpos hlen)
      split at h
      · next hempty =>
        obtain ⟨hqueues, hwc, houtput⟩ := drained_queues h
        have hnone : l'.conn.output.readable = [] := by
          rw [houtput]
          exact (readableBytes_eq_zero_iff hmwf).mp hempty
        rw [decide_eq_true ⟨hne, hnone⟩, Bool.true_and, Queues, hqueues, hquiet.queued,
          hwc, hquiet.writeComplete]
        exact ⟨rfl, rfl⟩
      · next hrest =>
        obtain rfl := pure_eq_ok_iff.mp h
        have hsome : m.conn.output.readable ≠ [] := fun hnone =>
          hrest ((readableBytes_eq_zero_iff hmwf).mpr hnone)
        rw [decide_eq_false fun hboth => hsome hboth.2, Bool.false_and]
        exact ⟨hquiet.queues, hquiet.writeComplete⟩
    · obtain rfl := Except.ok.inj h
      exact unchanged _ quiet_record rfl
  · obtain rfl := Except.ok.inj h
    exact unchanged _ ⟨rfl, rfl⟩ rfl

/-- `SendInLoop` leaves nothing behind exactly if `write()` takes the whole message. -/
theorem readable_sendInLoop_iff {who : Caller} {message : Bytes} {wr : WriteResult}
    (hwf : l.conn.output.WF) (hne : message ≠ []) (hlen : message.length ≤ Buffer.maxSize)
    (h : l.sendInLoop c who message wr = .ok l') :
    l'.conn.output.readable = [] ↔ takesWhole l.conn message wr = true := by
  have hbacklog : l'.conn.output.readable =
      l.conn.output.readable ++ message.drop (nwrote l.conn wr) := by
    have hcore := congrArg Connection.backlog
      ((sendInLoop_acts hwf hlen h).core (Connection.init (.user 0)))
    simp only [Connection.sendInLoop, nwrote_core hwf] at hcore
    exact hcore
  rw [hbacklog, List.append_eq_nil_iff, List.drop_eq_nil_iff, takesWhole, decide_eq_true_iff,
    and_iff_right_iff_imp]
  intro hall
  -- something was written, so it was written directly, and there was no backlog
  have hpos : 0 < message.length := List.length_pos_of_ne_nil hne
  have hdirect : writesDirectly l.conn = true := by
    cases hd : writesDirectly l.conn with
    | true => rfl
    | false =>
      rw [nwrote, hd] at hall
      simp only [Bool.false_eq_true, ↓reduceIte] at hall
      omega
  rw [writesDirectly, Bool.and_eq_true, decide_eq_true_iff] at hdirect
  exact (readableBytes_eq_zero_iff hwf).mp hdirect.2

/-! ### Runs of one connection -/

/-- What is done with a connection until it is closed. -/
inductive Action
  | connEstablished
  | setWriteCompleteCallback (on : Bool)
  | sendInLoop (who : Caller) (message : Bytes) (wr : WriteResult)
  | handleWrite (wr : WriteResult)
  deriving DecidableEq, Repr

namespace Action

/-- The methods that the actions stand for. -/
def exec (c : ConnId) (l : Local) : Action → Except Fault Local
  | connEstablished => l.connEstablished c
  | setWriteCompleteCallback on => .ok { l with conn.writeComplete := on }
  | sendInLoop who message wr => l.sendInLoop c who message wr
  | handleWrite wr => l.handleWrite c wr

/-- The machine: a fault ends the run. -/
def step (c : ConnId) (l : Local) (a : Action) : Option Local := (a.exec c l).toOption

/-- Messages are strings, and not empty. -/
def Admissible : Action → Prop
  | sendInLoop _ message _ => message ≠ [] ∧ message.length ≤ Buffer.maxSize
  | connEstablished | setWriteCompleteCallback _ | handleWrite _ => True

instance (a : Action) : Decidable a.Admissible :=
  match a with
  | sendInLoop _ message _ => inferInstanceAs (Decidable (message ≠ [] ∧ message.length ≤ _))
  | connEstablished | setWriteCompleteCallback _ | handleWrite _ => .isTrue trivial

/-- The bytes that the action finds unsent, the message it is given included. -/
def unsent (l : Local) : Action → Bytes
  | sendInLoop _ message _ => l.conn.output.readable ++ message
  | connEstablished | setWriteCompleteCallback _ | handleWrite _ => l.conn.output.readable

/-- The connection passes from having unsent bytes to having none. -/
def Finishes (l : Local) (a : Action) (l' : Local) : Prop :=
  a.unsent l ≠ [] ∧ l'.conn.output.readable = []

instance (l l' : Local) (a : Action) : Decidable (a.Finishes l l') :=
  inferInstanceAs (Decidable (_ ∧ _))

/-- A callback has been set, and no direct write has taken a whole message since. -/
def armed (l : Local) (set : Bool) : Action → Bool
  | setWriteCompleteCallback on => on
  | sendInLoop _ message wr => set && !takesWhole l.conn message wr
  | connEstablished | handleWrite _ => set

theorem step_eq_some_iff {a : Action} : step c l a = some l' ↔ a.exec c l = .ok l' :=
  toOption_eq_some_iff

/-- What one action queues, and what becomes of the callback and the buffer. -/
theorem exec_queues {a : Action} (hwf : l.conn.output.WF) (ha : a.Admissible)
    (h : a.exec c l = .ok l') :
    Queues c l l' (decide (a.Finishes l l') && l.conn.writeComplete) ∧
      l'.conn.writeComplete = a.armed l l.conn.writeComplete ∧ l'.conn.output.WF := by
  have idle : ∀ m : Local, Quiet l m → m.conn.output.readable = l.conn.output.readable →
      ∀ x : Bytes, x = l.conn.output.readable →
        Queues c l m (decide (x ≠ [] ∧ m.conn.output.readable = []) && l.conn.writeComplete) := by
    rintro m hquiet hread x rfl
    rw [hread, decide_eq_false fun hboth => hboth.1 hboth.2, Bool.false_and]
    exact hquiet.queues
  cases a with
  | connEstablished =>
    have hquiet : Quiet l l' := quiet_of_connEstablished h
    obtain ⟨-, hacts⟩ := connEstablished_acts hwf h
    have hread : l'.conn.output.readable = l.conn.output.readable :=
      congrArg Connection.backlog (hacts.core (Connection.init (.user 0)))
    exact ⟨idle l' hquiet hread _ rfl, hquiet.writeComplete, hacts.wf⟩
  | setWriteCompleteCallback on =>
    obtain rfl := Except.ok.inj h
    have hnot : ¬ Finishes l (.setWriteCompleteCallback on) { l with conn.writeComplete := on } :=
      fun hboth => hboth.1 hboth.2
    refine ⟨?_, rfl, hwf⟩
    rw [decide_eq_false hnot, Bool.false_and, Queues]
    simp
  -- unsent before, the message included; unsent after, what `write()` left of it
  | sendInLoop who message wr =>
    obtain ⟨hne, hlen⟩ := ha
    obtain ⟨hqueues, hwc⟩ := sendInLoop_queues hne h
    refine ⟨?_, hwc, (sendInLoop_acts hwf hlen h).wf⟩
    have hfinishes : decide (Finishes l (.sendInLoop who message wr) l') =
        takesWhole l.conn message wr := by
      rw [Bool.eq_iff_iff, decide_eq_true_iff, ← readable_sendInLoop_iff hwf hne hlen h, Finishes,
        and_iff_right_iff_imp]
      exact fun _ => List.append_ne_nil_of_right_ne_nil _ hne
    rwa [hfinishes]
  | handleWrite wr =>
    obtain ⟨hqueues, hwc⟩ := handleWrite_queues hwf h
    exact ⟨hqueues, hwc, (handleWrite_acts hwf h).wf⟩

end Action

section Runs

variable {loop : LoopId} {name : String} {fd : ℕ} {set : Bool} {poller : Epoller ConnId}
  {queued : List Functor} {as : List Action} {q : Local × Bool}

/-- The buffer is good, and the callback is what the record says. -/
def Armed (q : Local × Bool) : Prop := q.1.conn.output.WF ∧ q.1.conn.writeComplete = q.2

/-- The flag is what the history says. -/
theorem armed_of_reach
    (hrun : Reach (recorded (Action.step c) Action.armed) (fun _ a => a.Admissible)
      (⟨.new loop name fd set, poller, queued⟩, set) as q) : Armed q := by
  apply hrun.invariant (I := Armed) ⟨Buffer.wf_new, rfl⟩
  intro _ q a r _ hq ha hstep
  obtain ⟨hstep, harmed⟩ := recorded_eq_some_iff.mp hstep
  obtain ⟨-, hwc, hwf⟩ := Action.exec_queues hq.1 ha (Action.step_eq_some_iff.mp hstep)
  exact ⟨hwf, by rw [hwc, ← harmed, hq.2]⟩

/-- **When the callback is queued.** In every run of a connection, a step queues
it once if it leaves nothing of what was unsent, by whichever path, and no direct
write has taken a whole message since the callback was set. No other step does. -/
theorem queued_eq_of_finishes
    (hrun : Reach (recorded (Action.step c) Action.armed) (fun _ a => a.Admissible)
      (⟨.new loop name fd set, poller, queued⟩, set) as q)
    (a : Action) (ha : a.Admissible) (hstep : Action.step c q.1 a = some l') :
    l'.queued = q.1.queued ++
      if a.Finishes q.1 l' ∧ q.2 = true then [.writeComplete c] else [] := by
  obtain ⟨hwf, hwc⟩ := armed_of_reach hrun
  obtain ⟨hqueues, -⟩ := Action.exec_queues hwf ha (Action.step_eq_some_iff.mp hstep)
  rw [hqueues, hwc]
  simp only [Bool.and_eq_true, decide_eq_true_iff]

end Runs

/-- One message is taken in part and drained by `HandleWrite`: the callback is
queued, and it is queued again for the next one, which is written directly. -/
theorem queued_eq_of_finishes_twice :
    ∃ q : Local × Bool, ∃ l' : Local,
      Reach (recorded (Action.step 0) Action.armed) (fun _ a => a.Admissible)
        (⟨.new 0 "c" 5 true, .empty, []⟩, true)
        [.connEstablished, .sendInLoop (.loop 0) [1, 2] (some 1), .handleWrite (some 1)] q ∧
      Action.step 0 q.1 (.sendInLoop (.loop 0) [3] (some 1)) = some l' ∧
      l'.queued = q.1.queued ++
        if Action.Finishes q.1 (.sendInLoop (.loop 0) [3] (some 1)) l' ∧ q.2 = true
        then [.writeComplete 0] else [] := by
  have hsome : (runIf (recorded (Action.step 0) Action.armed) (fun _ a => a.Admissible)
      (⟨.new 0 "c" 5 true, .empty, []⟩, true)
      [.connEstablished, .sendInLoop (.loop 0) [1, 2] (some 1), .handleWrite (some 1)]).isSome =
      true := by
    decide +kernel
  have hnext : (Action.step 0 (Option.get _ hsome).1
      (.sendInLoop (.loop 0) [3] (some 1))).isSome = true := by
    decide +kernel +revert
  have hrun := reach_get hsome
  exact ⟨_, _, hrun, (Option.some_get hnext).symm,
    queued_eq_of_finishes hrun _ (by decide) (Option.some_get hnext).symm⟩

/-- Two messages are written directly and as a whole. The second one is not
followed by a notification, with the callback set from the start. -/
theorem not_queued_of_direct_twice :
    ∃ l l' : Local,
      run (Action.step 0) ⟨.new 0 "c" 5 true, .empty, []⟩
        [.connEstablished, .sendInLoop (.loop 0) [1] (some 1)] = some l ∧
      Action.step 0 l (.sendInLoop (.loop 0) [2] (some 1)) = some l' ∧
      Action.Finishes l (.sendInLoop (.loop 0) [2] (some 1)) l' ∧
      l.queued = [.writeComplete 0] ∧ l'.queued = l.queued := by
  have hsome : (run (Action.step 0) ⟨.new 0 "c" 5 true, .empty, []⟩
      [.connEstablished, .sendInLoop (.loop 0) [1] (some 1)]).isSome = true := by
    decide +kernel
  have hnext : (Action.step 0 (Option.get _ hsome)
      (.sendInLoop (.loop 0) [2] (some 1))).isSome = true := by
    decide +kernel +revert
  refine ⟨_, _, (Option.some_get hsome).symm, (Option.some_get hnext).symm, ?_, ?_, ?_⟩
  all_goals decide +kernel +revert

end Local
end TcpConnection
end Bbkgl
