import Bbkgl.Net.TcpConnection

/-!
# The methods of a connection and its poller

A method changes the channel and the poller by one `UpdateChannel` at most
(`Polls`), and fails inside a buffer or the poller only as `Fails` says.
-/

set_option autoImplicit false

namespace Bbkgl
namespace TcpConnection

open CS.Fallible

/-- A fault inside a buffer or a poller. -/
def Fault.isLow : Fault → Bool
  | .buffer _ | .epoller _ => true
  | .assertion _ | .useAfterFree _ => false

namespace Local

/-- The channel and the poller are as before. -/
def Unpolled (l l' : Local) : Prop :=
  l'.conn.channel = l.conn.channel ∧ l'.poller = l.poller

/-- The channel and the poller are as before, or as one `UpdateChannel` leaves them. -/
def Polls (c : ConnId) (l l' : Local) : Prop :=
  Unpolled l l' ∨ ∃ ch, (ch.fd = l.conn.channel.fd ∧ ch.index = l.conn.channel.index) ∧
    l.poller.updateChannel c ch = .ok (l'.poller, l'.conn.channel)

/-- A fault inside a buffer or the poller: a new channel clashes with what the
poller has at its descriptor, if that is the assertion that fails. -/
structure Fails (l : Local) (e : Fault) : Prop where
  low : e.isLow = true
  clash : e = .epoller .updateNew →
    l.conn.channel.index = Epoller.kNew ∧ l.poller.channels l.conn.channel.fd ≠ none

variable {c : ConnId} {l l' l'' : Local} {e : Fault}

theorem Unpolled.trans (h : Unpolled l l') (h' : Unpolled l' l'') : Unpolled l l'' :=
  ⟨h'.1.trans h.1, h'.2.trans h.2⟩

theorem Unpolled.polls (h : Unpolled l l') (h' : Polls c l' l'') : Polls c l l'' := by
  rcases h' with h' | ⟨ch, hch, hupdate⟩
  · exact Or.inl (h.trans h')
  · rw [h.1] at hch
    rw [h.2] at hupdate
    exact Or.inr ⟨ch, hch, hupdate⟩

theorem Polls.unpolled (h : Polls c l l') (h' : Unpolled l' l'') : Polls c l l'' := by
  rcases h with h | ⟨ch, hch, hupdate⟩
  · exact Or.inl (h.trans h')
  · rw [← h'.1, ← h'.2] at hupdate
    exact Or.inr ⟨ch, hch, hupdate⟩

/-- A failure after a part that leaves the poller alone. -/
theorem Unpolled.fails (h : Unpolled l l') (h' : Fails l' e) : Fails l e := by
  refine ⟨h'.low, fun he => ?_⟩
  rw [← h.1, ← h.2]
  exact h'.clash he

variable {ch : Channel}

/-- A change of interest is one call of `UpdateChannel`. -/
theorem polls_of_update (h : l.update c ch = .ok l')
    (hch : ch.fd = l.conn.channel.fd ∧ ch.index = l.conn.channel.index) : Polls c l l' := by
  rw [update] at h
  split at h
  · next poller ch' hupdate =>
    obtain rfl := Except.ok.inj h
    exact Or.inr ⟨ch, hch, hupdate⟩
  · exact absurd h (by simp)

/-- It fails in the poller. -/
theorem fails_of_update (h : l.update c ch = .error e)
    (hch : ch.fd = l.conn.channel.fd ∧ ch.index = l.conn.channel.index) : Fails l e := by
  rw [update] at h
  split at h
  · exact absurd h (by simp)
  · next a hupdate =>
    obtain rfl := Except.error.inj h
    refine ⟨rfl, fun he => ?_⟩
    obtain rfl := Fault.epoller.inj he
    rw [← hch.1, ← hch.2]
    exact Epoller.updateNew_of_updateChannel hupdate

theorem unpolled_of_append {data : Bytes} (h : l.append data = .ok l') : Unpolled l l' := by
  rw [append] at h
  split at h
  · obtain rfl := Except.ok.inj h
    exact ⟨rfl, rfl⟩
  · exact absurd h (by simp)

theorem fails_of_append {data : Bytes} (h : l.append data = .error e) : Fails l e := by
  rw [append] at h
  split at h
  · exact absurd h (by simp)
  · obtain rfl := Except.error.inj h
    exact ⟨rfl, fun he => absurd he (by simp)⟩

theorem unpolled_of_retrieve {len : ℕ} (h : l.retrieve len = .ok l') : Unpolled l l' := by
  rw [retrieve] at h
  split at h
  · obtain rfl := Except.ok.inj h
    exact ⟨rfl, rfl⟩
  · exact absurd h (by simp)

theorem fails_of_retrieve {len : ℕ} (h : l.retrieve len = .error e) : Fails l e := by
  rw [retrieve] at h
  split at h
  · exact absurd h (by simp)
  · obtain rfl := Except.error.inj h
    exact ⟨rfl, fun he => absurd he (by simp)⟩

theorem unpolled_shutdownInLoop : Unpolled l l.shutdownInLoop := by
  rw [shutdownInLoop]
  split <;> exact ⟨rfl, rfl⟩

/-! ### `SendInLoop` -/

theorem unpolled_tryWrite {who : Caller} {message : Bytes} {wr : WriteResult} :
    Unpolled l (l.tryWrite c who message wr) := by
  simp only [tryWrite]
  split <;> split <;> exact ⟨rfl, rfl⟩

/-- `SendInLoop` goes through `UpdateChannel` once at most. -/
theorem polls_of_sendInLoop {who : Caller} {message : Bytes} {wr : WriteResult}
    (h : l.sendInLoop c who message wr = .ok l') : Polls c l l' := by
  simp only [sendInLoop] at h
  split at h
  · obtain ⟨m, hm, h⟩ := bind_eq_ok_iff.mp h
    have hbuffered : Unpolled l m := unpolled_tryWrite.trans (unpolled_of_append hm)
    split at h
    · exact hbuffered.polls (polls_of_update h ⟨rfl, rfl⟩)
    · obtain rfl := pure_eq_ok_iff.mp h
      exact Or.inl hbuffered
  · obtain rfl := Except.ok.inj h
    exact Or.inl unpolled_tryWrite

/-- With the whole message accepted, the channel is left alone. -/
theorem unpolled_of_sendInLoop {who : Caller} {message : Bytes} {wr : WriteResult}
    (hall : message.length ≤ nwrote l.conn wr) (h : l.sendInLoop c who message wr = .ok l') :
    Unpolled l l' := by
  simp only [sendInLoop, if_neg (Nat.not_lt_of_le hall)] at h
  obtain rfl := Except.ok.inj h
  exact unpolled_tryWrite

theorem fails_of_sendInLoop {who : Caller} {message : Bytes} {wr : WriteResult}
    (h : l.sendInLoop c who message wr = .error e) : Fails l e := by
  simp only [sendInLoop] at h
  split at h
  · rcases bind_eq_error_iff.mp h with happend | ⟨m, hm, h⟩
    · exact unpolled_tryWrite.fails (fails_of_append happend)
    · have hbuffered : Unpolled l m := unpolled_tryWrite.trans (unpolled_of_append hm)
      split at h
      · exact hbuffered.fails (fails_of_update h ⟨rfl, rfl⟩)
      · exact absurd h (by simp [pure, Except.pure])
  · exact absurd h (by simp)

/-! ### `HandleWrite` -/

theorem polls_of_drained (h : l.drained c = .ok l') : Polls c l l' := by
  obtain ⟨m, hm, h⟩ := bind_eq_ok_iff.mp h
  have hupdate : Polls c l m := polls_of_update hm ⟨rfl, rfl⟩
  have hqueue : Unpolled m (if m.conn.writeComplete then m.queueWriteComplete c else m) := by
    split <;> exact ⟨rfl, rfl⟩
  simp only at h
  generalize (if m.conn.writeComplete then m.queueWriteComplete c else m) = k at hqueue h
  obtain rfl := pure_eq_ok_iff.mp h
  refine hupdate.unpolled (hqueue.trans ?_)
  split
  · exact unpolled_shutdownInLoop
  · exact ⟨rfl, rfl⟩

/-- An event in the log is neither in the channel nor in the poller. -/
theorem unpolled_record {ev : ConnEvent} : Unpolled l (l.record ev) := ⟨rfl, rfl⟩

/-- `HandleWrite` goes through `UpdateChannel` once at most. -/
theorem polls_of_handleWrite {wr : WriteResult} (h : l.handleWrite c wr = .ok l') :
    Polls c l l' := by
  simp only [handleWrite] at h
  split at h
  · split at h
    · obtain ⟨m, hm, h⟩ := bind_eq_ok_iff.mp h
      have hretrieved : Unpolled l m := unpolled_record.trans (unpolled_of_retrieve hm)
      split at h
      · exact hretrieved.polls (polls_of_drained h)
      · obtain rfl := pure_eq_ok_iff.mp h
        exact Or.inl hretrieved
    · obtain rfl := Except.ok.inj h
      exact Or.inl ⟨rfl, rfl⟩
  · obtain rfl := Except.ok.inj h
    exact Or.inl ⟨rfl, rfl⟩

/-- Without a subscription for writing there is nothing to do. -/
theorem unpolled_of_handleWrite {wr : WriteResult} (hidle : l.conn.channel.isWriting = false)
    (h : l.handleWrite c wr = .ok l') : Unpolled l l' := by
  rw [handleWrite, if_neg (by simp [hidle])] at h
  obtain rfl := Except.ok.inj h
  exact ⟨rfl, rfl⟩

theorem fails_of_handleWrite {wr : WriteResult} (h : l.handleWrite c wr = .error e) :
    Fails l e := by
  simp only [handleWrite] at h
  split at h
  · split at h
    · rcases bind_eq_error_iff.mp h with hretrieve | ⟨m, hm, h⟩
      · exact unpolled_record.fails (fails_of_retrieve hretrieve)
      · have hretrieved : Unpolled l m := unpolled_record.trans (unpolled_of_retrieve hm)
        split at h
        · rcases bind_eq_error_iff.mp h with hupdate | ⟨k, -, h⟩
          · exact hretrieved.fails (fails_of_update hupdate ⟨rfl, rfl⟩)
          · exact absurd h (by simp [pure, Except.pure])
        · exact absurd h (by simp [pure, Except.pure])
    · exact absurd h (by simp)
  · exact absurd h (by simp)

/-! ### Establishing, closing and removing -/

/-- `ConnEstablished` goes through `UpdateChannel` once. -/
theorem polls_of_connEstablished (h : l.connEstablished c = .ok l') : Polls c l l' := by
  obtain ⟨-, h⟩ := check_bind_eq_ok_iff.mp h
  obtain ⟨m, hm, h⟩ := bind_eq_ok_iff.mp h
  obtain rfl := pure_eq_ok_iff.mp h
  have hset : Unpolled l (l.setState .connected) := ⟨rfl, rfl⟩
  exact hset.polls ((polls_of_update hm ⟨rfl, rfl⟩).unpolled unpolled_record)

/-- `ConnDestroyed` goes through `UpdateChannel` once. -/
theorem polls_of_connDestroyed (h : l.connDestroyed c = .ok l') : Polls c l l' := by
  obtain ⟨-, h⟩ := check_bind_eq_ok_iff.mp h
  obtain ⟨m, hm, h⟩ := bind_eq_ok_iff.mp h
  obtain rfl := pure_eq_ok_iff.mp h
  have hset : Unpolled l (l.setState .disconnected) := ⟨rfl, rfl⟩
  exact hset.polls ((polls_of_update hm ⟨rfl, rfl⟩).unpolled
    (unpolled_record.trans unpolled_record))

/-- `HandleClose` goes through `UpdateChannel` once. -/
theorem polls_of_handleClose (h : l.handleClose c = .ok l') : Polls c l l' := by
  obtain ⟨-, h⟩ := check_bind_eq_ok_iff.mp h
  obtain ⟨m, hm, h⟩ := bind_eq_ok_iff.mp h
  obtain rfl := pure_eq_ok_iff.mp h
  exact (polls_of_update hm ⟨rfl, rfl⟩).unpolled unpolled_record

/-- `ConnEstablished` fails by its assertion, or in the poller. -/
theorem connEstablished_error (h : l.connEstablished c = .error e) :
    Fails l e ∨ e = .assertion .connEstablished := by
  rcases check_bind_eq_error_iff.mp h with ⟨-, rfl⟩ | ⟨-, h⟩
  · exact Or.inr rfl
  · rcases bind_eq_error_iff.mp h with hupdate | ⟨m, -, h⟩
    · have hset : Unpolled l (l.setState .connected) := ⟨rfl, rfl⟩
      exact Or.inl (hset.fails (fails_of_update hupdate ⟨rfl, rfl⟩))
    · exact absurd h (by simp [pure, Except.pure])

/-- `ConnDestroyed` fails by its assertion, or in the poller. -/
theorem connDestroyed_error (h : l.connDestroyed c = .error e) :
    Fails l e ∨ e = .assertion .connDestroyed ∧ l.conn.isUp = false := by
  rcases check_bind_eq_error_iff.mp h with ⟨hup, rfl⟩ | ⟨-, h⟩
  · exact Or.inr ⟨rfl, hup⟩
  · rcases bind_eq_error_iff.mp h with hupdate | ⟨m, -, h⟩
    · have hset : Unpolled l (l.setState .disconnected) := ⟨rfl, rfl⟩
      exact Or.inl (hset.fails (fails_of_update hupdate ⟨rfl, rfl⟩))
    · exact absurd h (by simp [pure, Except.pure])

/-- `HandleClose` fails by its assertion, or in the poller. -/
theorem handleClose_error (h : l.handleClose c = .error e) :
    Fails l e ∨ e = .assertion .handleClose ∧ l.conn.isUp = false := by
  rcases check_bind_eq_error_iff.mp h with ⟨hup, rfl⟩ | ⟨-, h⟩
  · exact Or.inr ⟨rfl, hup⟩
  · rcases bind_eq_error_iff.mp h with hupdate | ⟨m, -, h⟩
    · exact Or.inl (fails_of_update hupdate ⟨rfl, rfl⟩)
    · exact absurd h (by simp [pure, Except.pure])

theorem removeChannel_eq_error (h : l.removeChannel c = .error e) :
    e.isLow = true ∧ e ≠ .epoller .updateNew := by
  rw [removeChannel] at h
  split at h
  · exact absurd h (by simp)
  · next a hremove =>
    obtain rfl := Except.error.inj h
    refine ⟨rfl, fun he => ?_⟩
    obtain rfl := Fault.epoller.inj he
    exact Epoller.removeChannel_ne_updateNew hremove

end Local
end TcpConnection
end Bbkgl
