import Bbkgl.Net.EpollerKernel
import Bbkgl.Net.TcpConnection

/-!
# What the methods of a connection do not look at

Two objects are alike if they differ in their history, in what is counted outside them
(pointers and timers) and in `event_handling_`, which only `~Channel` reads. From alike
objects and one poller every method fails with one fault or leaves alike objects and one
poller, and queues the same.
-/

set_option autoImplicit false

namespace Bbkgl

open CS.Fallible

namespace TcpConnection

/-- The same object, but for its history, what is counted outside it and
`event_handling_`, which nothing but `~Channel` reads. -/
inductive Alike : TcpConnection → TcpConnection → Prop
  | mk (conn : TcpConnection) (b : Bool) (refs closeTimers : ℕ) (log : List ConnEvent) :
      Alike conn { conn with
        channel.eventHandling := b, refs := refs, closeTimers := closeTimers, log := log }

namespace Alike

variable {conn conn' : TcpConnection}

theorem loop (h : Alike conn conn') : conn'.loop = conn.loop := by
  cases h
  rfl

theorem name (h : Alike conn conn') : conn'.name = conn.name := by
  cases h
  rfl

theorem alive (h : Alike conn conn') : conn'.alive = conn.alive := by
  cases h
  rfl

theorem input (h : Alike conn conn') : conn'.input = conn.input := by
  cases h
  rfl

theorem fd (h : Alike conn conn') : conn'.channel.fd = conn.channel.fd := by
  cases h
  rfl

/-- A read into the input buffer keeps the likeness. -/
theorem setInput (h : Alike conn conn') (input : Buffer) :
    Alike { conn with input := input } { conn' with input := input } := by
  cases h with
  | mk b refs closeTimers log => exact .mk _ b refs closeTimers log

/-- The end of both objects keeps it, too. -/
theorem setDead (h : Alike conn conn') :
    Alike { conn with alive := false } { conn' with alive := false } := by
  cases h with
  | mk b refs closeTimers log => exact .mk _ b refs closeTimers log

/-- What is counted in one of the two is not seen. -/
theorem setTimers (h : Alike conn conn') (closeTimers : ℕ) :
    Alike { conn with closeTimers := closeTimers } conn' := by
  cases h with
  | mk b refs _ log => exact .mk _ b refs _ log

/-- Nor is its history. -/
theorem setLog (h : Alike conn conn') (log : List ConnEvent) :
    Alike { conn with log := log } conn' := by
  cases h with
  | mk b refs closeTimers log => exact .mk _ b refs closeTimers log

end Alike

namespace Local

/-- Alike connections, under one poller and with the same queued. -/
inductive Alike : Local → Local → Prop
  | mk (l : Local) (b : Bool) (refs closeTimers : ℕ) (log : List ConnEvent) :
      Alike l { l with
        conn.channel.eventHandling := b, conn.refs := refs, conn.closeTimers := closeTimers,
        conn.log := log }

/-- The method does not look at what `Alike` leaves out. -/
def Blind (g : Local → Except Fault Local) : Prop :=
  ∀ {l l'}, Alike l l' → CS.Fallible.Agree Alike (g l) (g l')

variable {c : ConnId} {l l' : Local}

theorem alike_record (h : Alike l l') (e : ConnEvent) : Alike (l.record e) (l'.record e) := by
  cases h with
  | mk b refs closeTimers log => exact .mk _ b refs closeTimers (log ++ [e])

theorem alike_setState (h : Alike l l') (state : StateE) :
    Alike (l.setState state) (l'.setState state) := by
  cases h with
  | mk b refs closeTimers log => exact .mk _ b refs closeTimers log

theorem alike_queueWriteComplete (h : Alike l l') :
    Alike (l.queueWriteComplete c) (l'.queueWriteComplete c) := by
  cases h with
  | mk b refs closeTimers log => exact .mk _ b refs closeTimers log

theorem agree_append (h : Alike l l') {data : Bytes} :
    Agree Alike (l.append data) (l'.append data) := by
  cases h with
  | mk b refs closeTimers log =>
    simp only [append]
    split
    · exact .ok (.mk _ b refs closeTimers log)
    · exact .error _

theorem agree_retrieve (h : Alike l l') {len : ℕ} :
    Agree Alike (l.retrieve len) (l'.retrieve len) := by
  cases h with
  | mk b refs closeTimers log =>
    simp only [retrieve]
    split
    · exact .ok (.mk _ b refs closeTimers log)
    · exact .error _

/-- `event_handling_` is passed on. -/
theorem updateChannel_eventHandling {ep : Epoller ConnId} {ch : Channel} {b : Bool} :
    ep.updateChannel c { ch with eventHandling := b } =
      (ep.updateChannel c ch).map fun r => (r.1, { r.2 with eventHandling := b }) := by
  simp only [Epoller.updateChannel, Channel.isNoneEvent]
  by_cases hnew : ch.index = Epoller.kNew ∨ ch.index = Epoller.kDeleted
  · rw [if_pos hnew, if_pos hnew]
    split
    · split <;> rfl
    · split <;> rfl
  · rw [if_neg hnew, if_neg hnew]
    cases decide (ep.channels ch.fd = some c) with
    | false => rfl
    | true =>
      cases decide (ch.index = Epoller.kAdded) with
      | false => rfl
      | true =>
        rcases Bool.eq_false_or_eq_true (decide (ch.events = Channel.noneEvent)) with hnone | hnone
        · simp only [hnone, if_true]
          rfl
        · simp only [hnone, Bool.false_eq_true, if_false]
          rfl

/-- `RemoveChannel` does not look at `event_handling_`. -/
theorem removeChannel_eventHandling {ep : Epoller ConnId} {ch : Channel} {b : Bool} :
    ep.removeChannel c { ch with eventHandling := b } =
      (ep.removeChannel c ch).map fun r => (r.1, { r.2 with eventHandling := b }) := by
  simp only [Epoller.removeChannel, Channel.isNoneEvent]
  cases decide (ep.channels ch.fd = some c) with
  | false => rfl
  | true =>
    cases decide (ch.events = Channel.noneEvent) with
    | false => rfl
    | true =>
      cases decide (ch.index = Epoller.kAdded ∨ ch.index = Epoller.kDeleted) with
      | false => rfl
      | true => rfl

/-- `Update()` after a change of `events_`. -/
theorem agree_update (h : Alike l l') (change : Channel.Change) :
    Agree Alike (l.update c (change.apply l.conn.channel))
      (l'.update c (change.apply l'.conn.channel)) := by
  cases h with
  | mk b refs closeTimers log =>
    have happly : change.apply { l.conn.channel with eventHandling := b } =
        { change.apply l.conn.channel with eventHandling := b } := by
      cases change <;> rfl
    simp only [update, happly, updateChannel_eventHandling]
    cases l.poller.updateChannel c (change.apply l.conn.channel) with
    | ok r => exact .ok (.mk { l with conn.channel := r.2, poller := r.1 } b refs closeTimers log)
    | error a => exact .error _

/-- Alike objects come out of `RemoveChannel` alike. -/
theorem agree_removeChannel (h : Alike l l') :
    Agree Alike (l.removeChannel c) (l'.removeChannel c) := by
  cases h with
  | mk b refs closeTimers log =>
    simp only [removeChannel, removeChannel_eventHandling]
    cases l.poller.removeChannel c l.conn.channel with
    | ok r => exact .ok (.mk { l with conn.channel := r.2, poller := r.1 } b refs closeTimers log)
    | error a => exact .error _

/-! ### The methods -/

theorem Alike.state (h : Alike l l') : l'.conn.state = l.conn.state := by
  cases h
  rfl

theorem Alike.isUp (h : Alike l l') : l'.conn.isUp = l.conn.isUp := by
  rw [TcpConnection.isUp, TcpConnection.isUp, h.state]

theorem Alike.output (h : Alike l l') : l'.conn.output = l.conn.output := by
  cases h
  rfl

theorem Alike.offered (h : Alike l l') : Local.offered l'.conn = Local.offered l.conn := by
  rw [Local.offered, Local.offered, h.output]

theorem Alike.isWriting (h : Alike l l') :
    l'.conn.channel.isWriting = l.conn.channel.isWriting := by
  cases h
  rfl

theorem alike_shutdownInLoop (h : Alike l l') : Alike l.shutdownInLoop l'.shutdownInLoop := by
  rw [shutdownInLoop, shutdownInLoop, h.isWriting]
  split
  · exact alike_record h _
  · exact h

/-- `HandleClose` does the same to alike objects. -/
theorem blind_handleClose : Blind (handleClose c) := by
  intro l l' h
  rw [handleClose, handleClose, assert, assert, h.isUp]
  refine agree_check_bind fun _ => (agree_update h .disableAll).bind fun m m' hm => ?_
  exact .ok (alike_record hm _)

/-- `ConnEstablished` does the same to alike objects. -/
theorem blind_connEstablished : Blind (connEstablished c) := by
  intro l l' h
  rw [connEstablished, connEstablished, assert, assert, h.state]
  refine agree_check_bind fun _ => ?_
  refine (agree_update (alike_setState h .connected) .enableReading).bind fun m m' hm => ?_
  exact .ok (alike_record hm _)

/-- `ConnDestroyed` does the same to alike objects. -/
theorem blind_connDestroyed : Blind (connDestroyed c) := by
  intro l l' h
  rw [connDestroyed, connDestroyed, assert, assert, h.isUp]
  refine agree_check_bind fun _ => ?_
  refine (agree_update (alike_setState h .disconnected) .disableAll).bind fun m m' hm => ?_
  exact .ok (alike_record (alike_record hm _) _)

theorem blind_removeChannel : Blind (removeChannel c) := fun h => agree_removeChannel h

theorem blind_shutdownInLoop : Blind (fun l => .ok l.shutdownInLoop) :=
  fun h => .ok (alike_shutdownInLoop h)

theorem Alike.writeComplete (h : Alike l l') :
    l'.conn.writeComplete = l.conn.writeComplete := by
  cases h
  rfl

theorem alike_clearWriteComplete (h : Alike l l') :
    Alike { l with conn.writeComplete := false } { l' with conn.writeComplete := false } := by
  cases h with
  | mk b refs closeTimers log =>
    exact .mk { l with conn.writeComplete := false } b refs closeTimers log

theorem Alike.writesDirectly (h : Alike l l') :
    Local.writesDirectly l'.conn = Local.writesDirectly l.conn := by
  cases h
  rfl

theorem Alike.nwrote (h : Alike l l') {wr : WriteResult} :
    Local.nwrote l'.conn wr = Local.nwrote l.conn wr := by
  rw [Local.nwrote, Local.nwrote, h.writesDirectly]

/-- The direct write depends on nothing that alike objects differ in. -/
theorem alike_tryWrite (h : Alike l l') {who : Caller} {message : Bytes} {wr : WriteResult} :
    Alike (l.tryWrite c who message wr) (l'.tryWrite c who message wr) := by
  simp only [tryWrite, h.nwrote, h.writesDirectly]
  have hexecuted := alike_record h (.executed who message)
  cases writesDirectly l.conn with
  | true =>
    have hwritten := alike_record hexecuted (.write (message.take (Local.nwrote l.conn wr)))
    simp only [if_true, hwritten.writeComplete]
    split
    · exact alike_clearWriteComplete (alike_queueWriteComplete hwritten)
    · exact hwritten
  | false => exact hexecuted

/-- `SendInLoop` does the same to alike objects. -/
theorem blind_sendInLoop {who : Caller} {message : Bytes} {wr : WriteResult} :
    Blind (sendInLoop c who message wr) := by
  intro l l' h
  simp only [sendInLoop, h.nwrote]
  split
  · refine (agree_append (alike_tryWrite h)).bind fun m m' hm => ?_
    rw [hm.isWriting]
    split
    · exact agree_update hm .enableWriting
    · exact .ok hm
  · exact .ok (alike_tryWrite h)

theorem alike_shutdownIf (h : Alike l l') :
    Alike (if l.conn.state = .disconnecting then l.shutdownInLoop else l)
      (if l'.conn.state = .disconnecting then l'.shutdownInLoop else l') := by
  rw [h.state]
  split
  · exact alike_shutdownInLoop h
  · exact h

/-- Alike objects that have nothing left to write come out alike. -/
theorem agree_drained (h : Alike l l') : Agree Alike (l.drained c) (l'.drained c) := by
  refine (agree_update h .disableWriting).bind fun m m' hm => .ok ?_
  simp only [hm.writeComplete]
  cases m.conn.writeComplete with
  | true => exact alike_shutdownIf (alike_queueWriteComplete hm)
  | false => exact alike_shutdownIf hm

/-- `HandleWrite` does the same to alike objects. -/
theorem blind_handleWrite {wr : WriteResult} : Blind (handleWrite c wr) := by
  intro l l' h
  simp only [handleWrite, h.isWriting, h.offered]
  split
  · have hrecord := alike_record h (.write ((offered l.conn).take (wr.getD 0)))
    split
    · refine (agree_retrieve hrecord).bind fun m m' hm => ?_
      rw [hm.output]
      split
      · exact agree_drained hm
      · exact .ok hm
    · exact .ok hrecord
  · exact .ok h

end Local
end TcpConnection

end Bbkgl
