import Bbkgl.CS.History
import Bbkgl.Net.TcpServerMoves
import Bbkgl.Net.TcpServerStream

/-!
# The input streams of the server

What the kernel has delivered on a connection is what user code has taken out of its
input buffer, followed by what is still there: in every run in which user code does
nothing with an input buffer but take bytes out of it. No other method of the
connection, and no other connection, touches the buffer.
-/

set_option autoImplicit false

namespace Bbkgl

open CS.Transition

namespace Buffer

/-- The call takes bytes off the front. -/
def Op.takes : Op → Bool
  | retrieve _ | retrieveUntil _ | retrieveAll | retrieveAsString => true
  | _ => false

/-- What it takes from a queue. -/
def Op.taken (q : Bytes) : Op → Bytes
  | retrieve len | retrieveUntil len => q.take len
  | retrieveAll | retrieveAsString => q
  | _ => []

variable {b b' : Buffer} {op : Op} {data : Bytes}

/-- A call that takes, and returns, had its arguments right. -/
theorem Op.admissible_of_takes (h : b.WF) (htakes : op.takes = true) (hok : op.exec b = .ok b') :
    op.Admissible b := by
  cases op with
  | retrieve len =>
    rw [exec, Buffer.retrieve, assert, CS.Fallible.check_bind_eq_ok_iff] at hok
    exact of_decide_eq_true hok.1
  | retrieveUntil len =>
    rw [exec, Buffer.retrieveUntil, assert, assert, CS.Fallible.check_bind_eq_ok_iff,
      CS.Fallible.check_bind_eq_ok_iff] at hok
    have hend : b.peek + len ≤ b.beginWrite := of_decide_eq_true hok.2.1
    have hlen : len ≤ b.readableBytes := by
      rw [h.readableBytes_eq]
      simp only [peek, beginWrite] at hend
      omega
    exact hlen
  | retrieveAll | retrieveAsString => trivial
  | append | ensureWritableBytes | write | prepend | readFd =>
    exact absurd htakes (by simp [takes])

/-- A take-only call takes from the front. -/
theorem Op.taken_append (h : b.WF) (htakes : op.takes = true) (hok : op.exec b = .ok b') :
    b'.WF ∧ op.taken b.readable ++ b'.readable = b.readable := by
  obtain ⟨c, hc, hwf, hread, -⟩ := exec_yields h (admissible_of_takes h htakes hok)
  obtain rfl : c = b' := Except.ok.inj (hc.symm.trans hok)
  refine ⟨hwf, ?_⟩
  rw [hread]
  cases op with
  | retrieve len | retrieveUntil len => exact List.take_append_drop len _
  | retrieveAll | retrieveAsString => exact List.append_nil _
  | append | ensureWritableBytes | write | prepend | readFd =>
    exact absurd htakes (by simp [takes])

/-- The call takes bytes off the front. -/
def Use.takes : Use → Bool
  | call op => op.takes
  | shrink _ | swap _ => false

/-- What it takes from a queue: `Swap` takes all that was there. -/
def Use.taken (q : Bytes) : Use → Bytes
  | call op => op.taken q
  | shrink _ => []
  | swap _ => q

/-- A take-only use by the user's code takes from the front. -/
theorem Use.taken_append {u : Use} (h : b.WF) (htakes : u.takes = true)
    (hok : u.exec b = .ok b') : b'.WF ∧ u.taken b.readable ++ b'.readable = b.readable := by
  cases u with
  | call op => exact Op.taken_append h htakes hok
  | shrink reserve | swap rhs => exact absurd htakes (by simp [takes])

/-- A `ReadFd` that returns has put at the back all that `readv` has read. -/
theorem yields_of_readFd {readv : Option Bytes} {n : ℤ} (h : b.WF)
    (hlen : ∀ data, readv = some data → data.length ≤ b.writableBytes + extraSize)
    (hok : b.readFd readv = .ok (b', n)) : b'.WF ∧ b'.readable = b.readable ++ readv.getD [] := by
  cases readv with
  | none =>
    obtain ⟨rfl, -⟩ := Prod.mk.inj (Except.ok.inj hok)
    exact ⟨h, (List.append_nil _).symm⟩
  | some data =>
    have hroom := h.writableBytes_eq
    have hwriter := h.writer_le
    simp only [readFd] at hok
    split at hok
    · obtain ⟨rfl, -⟩ := Prod.mk.inj (Except.ok.inj hok)
      have hy : Yields b ((b.store data).hasWritten data.length) (b.readable ++ data) :=
        written_yields h (by omega)
      exact ⟨hy.wf, hy.readable_eq⟩
    · next hfits =>
      obtain ⟨c, hc, hok⟩ := CS.Fallible.bind_eq_ok_iff.mp hok
      obtain ⟨rfl, -⟩ := Prod.mk.inj (Except.ok.inj hok)
      have hfilled : Yields b (b.filled data) _ := filled_yields h (by omega)
      have hrest : (data.drop b.writableBytes).length ≤ maxSize := by
        have := hlen data rfl
        rw [List.length_drop]
        simp only [extraSize, maxSize] at this ⊢
        omega
      have hy := yields_of_append hfilled.wf hrest hc
      refine ⟨hy.wf, ?_⟩
      rw [hy.readable_eq, hfilled.readable_eq, List.append_assoc, List.take_append_drop]
      rfl

end Buffer

namespace TcpServer

open TcpConnection

/-- What the kernel has delivered on each connection, and what user code has taken. -/
structure Traffic where
  received : ConnId → Bytes
  consumed : ConnId → Bytes

namespace Traffic

/-- Nothing has been received yet. -/
def init : Traffic := ⟨fun _ => [], fun _ => []⟩

/-- What a step adds to the traffic: the bytes of a `readv`, and those that user code takes. -/
def record (s : State) (h : Traffic) : Action → Traffic
  | .handleRead i readv =>
    let c := handled s i
    { h with received := Function.update h.received c (h.received c ++ readv.getD []) }
  | .inputBuffer i u => match (s.loops i).frame.bind Frame.conn with
    | none => h
    | some c => { h with
        consumed :=
          Function.update h.consumed c (h.consumed c ++ u.taken (s.conns c).input.readable) }
  | .newConnection _ =>
    { received := Function.update h.received s.nextObj []
      consumed := Function.update h.consumed s.nextObj [] }
  | _ => h

end Traffic

/-- User code only takes bytes out of an input buffer. -/
def onlyTakes : Action → Bool
  | .inputBuffer _ u => u.takes
  | _ => true

/-- The input buffer of `c`, beside what was delivered and taken. -/
structure Received (h : Traffic) (s : State) (c : ConnId) : Prop where
  wf : (s.conns c).input.WF
  bytes : h.consumed c ++ (s.conns c).input.readable = h.received c

variable {cfg : Config} {s m t : State} {h h' : Traffic} {c : ConnId} {a : Action}
  {as : List Action}

/-- The stream of a connection depends on these things alone. -/
theorem Received.congr (hc : Received h s c) (hinput : (t.conns c).input = (s.conns c).input)
    (hreceived : h'.received c = h.received c) (hconsumed : h'.consumed c = h.consumed c) :
    Received h' t c := by
  refine ⟨hinput ▸ hc.wf, ?_⟩
  rw [hinput, hreceived, hconsumed]
  exact hc.bytes

/-- `readv` has no more room than the buffer and `extrabuf`. -/
theorem readv_le_of_guard {i : LoopId} {readv : Option Bytes}
    (hg : guard cfg s (.handleRead i readv) = true) : ∀ data, readv = some data →
      data.length ≤ (s.conns (handled s i)).input.writableBytes + Buffer.extraSize := by
  rintro data rfl
  simp only [guard, callbackIs] at hg
  split at hg
  · next d cb todo active hphase =>
    simp only [Bool.and_eq_true, Option.all_some, decide_eq_true_eq] at hg
    rw [handled, hphase]
    exact hg.2.2
  · exact absurd hg (by simp)

/-- A read, or a use by the user's code, keeps the stream. -/
theorem Received.begins (hall : ∀ c, Received h s c) (hg : guard cfg s a = true)
    (hok : onlyTakes a = true) (hbegins : Begins cfg s a m) (c : ConnId) :
    Received (Traffic.record s h a) m c := by
  cases hbegins with
  | handleRead i readv input n hread =>
    obtain ⟨hwf, hreadable⟩ :=
      Buffer.yields_of_readFd (hall (handled s i)).wf (readv_le_of_guard hg) hread
    by_cases hc : c = handled s i
    · subst hc
      have hconn : (setConn (nextCallback s i) (handled s i) fun conn =>
          { conn with input := input }).conns (handled s i) =
          { s.conns (handled s i) with input := input } := by
        rw [conns_setConn, if_pos rfl, nextCallback_frame.1]
      refine ⟨by rw [hconn]; exact hwf, ?_⟩
      rw [hconn]
      simp only [Traffic.record, Function.update_self]
      rw [hreadable, ← List.append_assoc, (hall _).bytes]
    · refine (hall c).congr ?_ ?_ rfl
      · rw [conns_setConn, if_neg hc, nextCallback_frame.1]
      · exact Function.update_of_ne hc _ _
  | newConnection fd =>
    by_cases hc : c = s.nextObj
    · subst hc
      have hinput : ((withNewObject cfg s fd).conns s.nextObj).input = .new := by
        simp [withNewObject, TcpConnection.new]
      refine ⟨by rw [hinput]; exact Buffer.wf_new, ?_⟩
      rw [hinput, Buffer.readable_new]
      simp [Traffic.record]
    · refine (hall c).congr ?_ (Function.update_of_ne hc _ _) (Function.update_of_ne hc _ _)
      simp [withNewObject, hc]
  | inputBuffer i u d input hd hexec =>
    obtain ⟨hwf, htaken⟩ := Buffer.Use.taken_append (hall d).wf hok hexec
    simp only [Traffic.record, hd]
    by_cases hc : c = d
    · subst hc
      have hconn : (setConn s c fun conn => { conn with input := input }).conns c =
          { s.conns c with input := input } := by
        rw [conns_setConn, if_pos rfl]
      refine ⟨by rw [hconn]; exact hwf, ?_⟩
      rw [hconn]
      simp only [Function.update_self]
      rw [List.append_assoc, htaken, (hall c).bytes]
    · refine (hall c).congr ?_ rfl (Function.update_of_ne hc _ _)
      rw [conns_setConn, if_neg hc]
  | destroy d =>
    refine (hall c).congr ?_ rfl rfl
    have hconns : (setLoop (setConn s d fun conn => { conn with alive := false }) (own s d)
        fun l => { l with poller := l.poller.close (s.conns d).channel.fd }).conns c =
        (setConn s d fun conn => { conn with alive := false }).conns c := rfl
    rw [hconns, conns_setConn]
    split
    · next hd => rw [hd]
    · rfl
  | plain a hplain =>
    refine (hall c).congr rfl ?_ ?_
    all_goals
      cases a with
      | handleRead i readv | newConnection fd | inputBuffer i u =>
        exact absurd hplain (by simp [Action.isPlain])
      | _ => rfl

/-- The server, with a record of what the kernel delivered and user code took. -/
def withTraffic (cfg : Config) : State × Traffic → Action → Option (State × Traffic) :=
  CS.Transition.recorded (step cfg) Traffic.record

/-- In every take-only run without a fault, what was received is consumed or readable. -/
theorem received_of_reach
    (hrun : Reach (withTraffic cfg) (fun _ a => onlyTakes a = true)
      (State.init, Traffic.init) as (s, h)) (hfault : s.fault = none) :
    ∀ c, Received h s c := by
  have hinv := hrun.invariant (I := fun q => q.1.fault = none → ∀ c, Received q.2 q.1 c) ?_ ?_
  · exact hinv hfault
  · exact fun _ c => ⟨Buffer.wf_new, Buffer.readable_new⟩
  · rintro bs ⟨u, k⟩ a ⟨t, k'⟩ - hall hok hstep hnone c
    obtain ⟨hstep, rfl⟩ := recorded_eq_some_iff.mp hstep
    obtain ⟨hfree, hg, heffect | ⟨f, -, rfl⟩⟩ := step_cases hstep
    · obtain ⟨m, hbegins, hmoves⟩ := moves_effect hg heffect
      have hm := Received.begins (hall hfree) hg hok hbegins c
      exact hm.congr (hmoves.keeps.conn c).input rfl rfl
    · exact absurd hnone (by simp)

/-- What the kernel has delivered is what user code has taken, followed by what is in
the input buffer. So the next `RetrieveAsString` returns exactly what was delivered
and not yet taken. -/
theorem input_stream
    (hrun : Reach (withTraffic cfg) (fun _ a => onlyTakes a = true)
      (State.init, Traffic.init) as (s, h)) (hfault : s.fault = none) :
    h.consumed c ++ (s.conns c).input.readable = h.received c ∧
      (s.conns c).input.retrieveAsString.1 = (h.received c).drop (h.consumed c).length := by
  have hc := received_of_reach hrun hfault c
  refine ⟨hc.bytes, ?_⟩
  rw [Buffer.retrieveAsString_fst hc.wf, ← hc.bytes, List.drop_left]

/-- Two deliveries, and of the first one user code takes a byte. -/
def deliveredTwice : List Action :=
  established ++ [.poll 1 [(0, pollIn)], .handleEvent 1, .handleRead 1 (some [1, 2, 3]),
    .inputBuffer 1 (.call (.retrieve 1)), .userReturn 1, .endEvent 1, .doPendingFunctors 1,
    .finishFunctors 1, .poll 1 [(0, pollIn)], .handleEvent 1, .handleRead 1 (some [4])]

/-- Two reads, and one byte taken in between. -/
theorem input_stream_deliveredTwice :
    ∃ q, run (withTraffic oneThread) (State.init, Traffic.init)
        deliveredTwice = some q ∧
      q.2.received 0 = [1, 2, 3, 4] ∧ (q.1.conns 0).input.retrieveAsString.1 = [2, 3, 4] := by
  have hend : (runIf (withTraffic oneThread) (fun _ a => onlyTakes a = true)
      (State.init, Traffic.init) deliveredTwice).map
      (fun q => (q.1.fault, q.2.received 0, q.2.consumed 0)) = some (none, [1, 2, 3, 4], [1]) := by
    decide +kernel
  obtain ⟨⟨s, h⟩, hs, heq⟩ := Option.map_eq_some_iff.mp hend
  simp only [Prod.mk.injEq] at heq
  obtain ⟨hfault, hreceived, hconsumed⟩ := heq
  have hrun := reach_of_runIf hs
  have hinput := input_stream (c := 0) hrun hfault
  rw [hreceived, hconsumed] at hinput
  exact ⟨(s, h), hrun.run_eq, hreceived, hinput.2⟩

end TcpServer
end Bbkgl
