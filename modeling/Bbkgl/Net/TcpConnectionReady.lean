import Bbkgl.Net.BufferQueue
import Bbkgl.Net.EpollerKernel
import Bbkgl.Net.TcpConnectionPolls

/-!
# Methods that do not fail

A method fails in three ways: in an assertion about the state, in an assertion of the
poller, or in a buffer. Where the poller and the channel agree the second does not
happen, and of the third only `std::length_error` is left.
-/

set_option autoImplicit false

namespace Bbkgl

open CS.Fallible

namespace Buffer

variable {b : Buffer} {data : Bytes} {f : Fault}

/-- A vector that would have to grow beyond its maximal size. -/
theorem append_of_not_holds (h : b.WF) (hlen : data.length ≤ maxSize)
    (hholds : ¬ b.Holds data.length) : b.append data = .error .lengthError := by
  have hwriter := h.writer_le
  have hsize := h.size_le
  obtain ⟨hneeds, hmax⟩ := Classical.not_imp.mp fun hroom => hholds ⟨hlen, hroom⟩
  have hfull : b.writableBytes < data.length := by
    rw [h.writableBytes_eq]
    omega
  have hadd : SizeT.add b.writerIndex data.length = b.writerIndex + data.length :=
    SizeT.add_eq (by simp only [maxSize] at hlen hsize; omega)
  rw [append, ensureWritableBytes, if_pos hfull, makeSpace, if_pos hneeds, hadd, resize,
    if_neg hmax]
  rfl

theorem append_error (h : b.WF) (hlen : data.length ≤ maxSize) (herr : b.append data = .error f) :
    f = .lengthError := by
  by_cases hholds : b.Holds data.length
  · obtain ⟨b', hb', -⟩ := append_yields h hholds
    exact absurd (hb'.symm.trans herr) (by simp)
  · exact (Except.error.inj ((append_of_not_holds h hlen hholds).symm.trans herr)).symm

theorem readFd_error {readv : Option Bytes} (h : b.WF)
    (hlen : ∀ data, readv = some data → data.length ≤ b.writableBytes + extraSize)
    (herr : b.readFd readv = .error f) : f = .lengthError := by
  cases readv with
  | none => exact absurd herr (by simp [readFd, pure, Except.pure])
  | some data =>
    simp only [readFd] at herr
    split at herr
    · exact absurd herr (by simp [pure, Except.pure])
    · next hfits =>
      have hrest : (data.drop b.writableBytes).length ≤ maxSize := by
        have := hlen data rfl
        rw [List.length_drop]
        simp only [extraSize, maxSize] at this ⊢
        omega
      rcases bind_eq_error_iff.mp herr with happend | ⟨b', -, hpure⟩
      · exact append_error (filled_yields h (by omega)).wf hrest happend
      · exact absurd hpure (by simp [pure, Except.pure])

end Buffer

namespace TcpConnection
namespace Local

open Epoller

/-- The output buffer is good, and the channel stands in the poller as its index says. -/
structure Ready (c : ConnId) (l : Local) : Prop where
  wf : l.conn.output.WF
  standing : Standing c l.conn.channel (l.poller.channels l.conn.channel.fd)
    (l.poller.kernel l.conn.channel.fd)

variable {c : ConnId} {l m l' : Local} {e : Fault} {who : Caller} {message : Bytes}
  {wr : WriteResult}

/-- A change of `events_` finds the channel where it should be. -/
theorem Ready.update (h : Ready c l) (hunpolled : Unpolled l m) (change : Channel.Change) :
    m.update c (change.apply m.conn.channel) ≠ .error e := by
  obtain ⟨events, hevents⟩ := change.apply_eq l.conn.channel
  have hfd : (change.apply l.conn.channel).fd = l.conn.channel.fd := by rw [hevents]
  have hindex : (change.apply l.conn.channel).index = l.conn.channel.index := by rw [hevents]
  have hknown : l.poller.channels (change.apply l.conn.channel).fd =
      l.poller.channels l.conn.channel.fd := by rw [hfd]
  obtain ⟨poller, ch, -, -, hupdate, -⟩ := h.standing.updateChannel hindex hknown (by rw [hfd])
  rw [Local.update, hunpolled.1, hunpolled.2, hupdate]
  simp

theorem append_error {data : Bytes} (hwf : l.conn.output.WF) (hlen : data.length ≤ Buffer.maxSize)
    (herr : l.append data = .error e) : e = .buffer .lengthError := by
  rw [append] at herr
  split at herr
  · exact absurd herr (by simp)
  · next f hf => rw [← Except.error.inj herr, Buffer.append_error hwf hlen hf]

/-- The direct write leaves the output buffer alone. -/
theorem tryWrite_output : (l.tryWrite c who message wr).conn.output = l.conn.output := by
  simp only [tryWrite]
  split <;> split <;> rfl

/-- With its channel in place, `SendInLoop` throws nothing but `std::length_error`. -/
theorem Ready.sendInLoop (h : Ready c l) (hlen : message.length ≤ Buffer.maxSize)
    (herr : l.sendInLoop c who message wr = .error e) : e = .buffer .lengthError := by
  simp only [Local.sendInLoop] at herr
  split at herr
  · rcases bind_eq_error_iff.mp herr with happend | ⟨m, hm, herr⟩
    · refine append_error ?_ ?_ happend
      · rw [tryWrite_output]
        exact h.wf
      · rw [List.length_drop]
        exact Nat.le_trans (Nat.sub_le _ _) hlen
    · have hbuffered : Unpolled l m := unpolled_tryWrite.trans (unpolled_of_append hm)
      split at herr
      · exact absurd herr (h.update hbuffered .enableWriting)
      · exact absurd herr (by simp [pure, Except.pure])
  · exact absurd herr (by simp)

/-- `write()` has accepted no more than it was offered. -/
theorem Ready.handleWrite (h : Ready c l) (haccepts : wr.getD 0 ≤ l.conn.output.readableBytes) :
    l.handleWrite c wr ≠ .error e := by
  intro herr
  simp only [Local.handleWrite] at herr
  split at herr
  · split at herr
    · rcases bind_eq_error_iff.mp herr with hretrieve | ⟨m, hm, herr⟩
      · obtain ⟨output, houtput, -⟩ := Buffer.retrieve_yields h.wf haccepts
        rw [retrieve, show (l.record _).conn.output = l.conn.output from rfl, houtput] at hretrieve
        exact absurd hretrieve (by simp)
      · have hretrieved : Unpolled l m := unpolled_record.trans (unpolled_of_retrieve hm)
        split at herr
        · rcases bind_eq_error_iff.mp herr with hupdate | ⟨k, -, herr⟩
          · exact h.update hretrieved .disableWriting hupdate
          · exact absurd herr (by simp [pure, Except.pure])
        · exact absurd herr (by simp [pure, Except.pure])
    · exact absurd herr (by simp)
  · exact absurd herr (by simp)

/-- With its channel in place, `ConnEstablished` fails by its assertion only. -/
theorem Ready.connEstablished (h : Ready c l) (herr : l.connEstablished c = .error e) :
    l.conn.state ≠ .connecting := by
  rcases check_bind_eq_error_iff.mp herr with ⟨hno, -⟩ | ⟨-, herr⟩
  · exact of_decide_eq_false hno
  · rcases bind_eq_error_iff.mp herr with hupdate | ⟨m, -, herr⟩
    · exact absurd hupdate (h.update (m := l.setState .connected) ⟨rfl, rfl⟩ .enableReading)
    · exact absurd herr (by simp [pure, Except.pure])

/-- With its channel in place, `ConnDestroyed` fails by its assertion only. -/
theorem Ready.connDestroyed (h : Ready c l) (herr : l.connDestroyed c = .error e) :
    l.conn.isUp = false := by
  rcases check_bind_eq_error_iff.mp herr with ⟨hno, -⟩ | ⟨-, herr⟩
  · exact hno
  · rcases bind_eq_error_iff.mp herr with hupdate | ⟨m, -, herr⟩
    · exact absurd hupdate (h.update (m := l.setState .disconnected) ⟨rfl, rfl⟩ .disableAll)
    · exact absurd herr (by simp [pure, Except.pure])

/-- With its channel in place, `HandleClose` fails by its assertion only. -/
theorem Ready.handleClose (h : Ready c l) (herr : l.handleClose c = .error e) :
    l.conn.isUp = false := by
  rcases check_bind_eq_error_iff.mp herr with ⟨hno, -⟩ | ⟨-, herr⟩
  · exact hno
  · rcases bind_eq_error_iff.mp herr with hupdate | ⟨m, -, herr⟩
    · exact absurd hupdate (h.update ⟨rfl, rfl⟩ .disableAll)
    · exact absurd herr (by simp [pure, Except.pure])

/-- A channel without interest that the poller knows can be removed. -/
theorem Ready.removeChannel (h : Ready c l) (hindex : l.conn.channel.index ≠ kNew)
    (hnone : l.conn.channel.isNoneEvent = true) : l.removeChannel c ≠ .error e := by
  have hknown : l.poller.channels l.conn.channel.fd = some c :=
    h.standing.channels.resolve_left fun hc => hindex (h.standing.index_iff.1.mpr hc)
  obtain ⟨poller, hremove, -⟩ := h.standing.removeChannel rfl rfl hknown hnone
  rw [Local.removeChannel, hremove]
  simp

end Local
end TcpConnection
end Bbkgl
