import Mathlib.Logic.Relation
import Bbkgl.Net.EpollerKernel
import Bbkgl.Net.TcpConnection

/-!
# The methods of a connection, in parts

What a method does is made of a few elementary changes (`Part`), in some order. So
what every `Part` leaves alone, every method leaves alone, and what every `Part`
keeps, every method keeps. The input buffer is in no `Part`.
-/

set_option autoImplicit false

namespace Bbkgl
namespace TcpConnection

open CS.Fallible Relation

namespace Local

/-- One thing that a method does to its connection and to the poller. -/
inductive Part (c : ConnId) : Local → Local → Prop
  | record (l : Local) (e : ConnEvent) : Part c l (l.record e)
  | setState (l : Local) (state : StateE) : Part c l (l.setState state)
  | output (l : Local) (output : Buffer) : Part c l { l with conn.output := output }
  | queueWriteComplete (l : Local) : Part c l (l.queueWriteComplete c)
  | clearWriteComplete (l : Local) : Part c l { l with conn.writeComplete := false }
  | update (l l' : Local) (change : Channel.Change)
      (h : l.update c (change.apply l.conn.channel) = .ok l') : Part c l l'
  | removeChannel (l l' : Local) (h : l.removeChannel c = .ok l') : Part c l l'

/-- What a method does, one part after the other. -/
abbrev Parts (c : ConnId) : Local → Local → Prop := ReflTransGen (Part c)

variable {c : ConnId} {l l' : Local}

theorem part_of_append {data : Bytes} (h : l.append data = .ok l') : Part c l l' := by
  rw [append] at h
  split at h
  · next output _ =>
    obtain rfl := Except.ok.inj h
    exact .output l output
  · exact absurd h (by simp)

theorem part_of_retrieve {len : ℕ} (h : l.retrieve len = .ok l') : Part c l l' := by
  rw [retrieve] at h
  split at h
  · next output _ =>
    obtain rfl := Except.ok.inj h
    exact .output l output
  · exact absurd h (by simp)

theorem parts_shutdownInLoop : Parts c l l.shutdownInLoop := by
  rw [shutdownInLoop]
  split
  · exact .single (.record l .halfClosed)
  · exact .refl

/-- The direct write in parts. -/
theorem parts_tryWrite {who : Caller} {message : Bytes} {wr : WriteResult} :
    Parts c l (l.tryWrite c who message wr) := by
  have hexecuted : Parts c l (l.record (.executed who message)) := .single (.record l _)
  have hwrite : Parts c l (if writesDirectly l.conn then
      (l.record (.executed who message)).record (.write (message.take (nwrote l.conn wr)))
      else l.record (.executed who message)) := by
    split
    · exact hexecuted.tail (.record _ _)
    · exact hexecuted
  simp only [tryWrite]
  generalize (if writesDirectly l.conn then
      (l.record (.executed who message)).record (.write (message.take (nwrote l.conn wr)))
      else l.record (.executed who message)) = m at hwrite ⊢
  split
  · exact (hwrite.tail (.queueWriteComplete m)).tail (.clearWriteComplete _)
  · exact hwrite

theorem parts_of_keepRest {rest : Bytes} (h : l.keepRest c rest = .ok l') : Parts c l l' := by
  obtain ⟨m, hm, h⟩ := bind_eq_ok_iff.mp h
  have hbuffered : Parts c l m := .single (part_of_append hm)
  split at h
  · exact hbuffered.tail (.update m l' .enableWriting h)
  · obtain rfl := pure_eq_ok_iff.mp h
    exact hbuffered

/-- `SendInLoop` in parts. -/
theorem parts_of_sendInLoop {who : Caller} {message : Bytes} {wr : WriteResult}
    (h : l.sendInLoop c who message wr = .ok l') : Parts c l l' := by
  simp only [sendInLoop] at h
  split at h
  · exact parts_tryWrite.trans (parts_of_keepRest h)
  · obtain rfl := Except.ok.inj h
    exact parts_tryWrite

theorem parts_of_drained (h : l.drained c = .ok l') : Parts c l l' := by
  obtain ⟨m, hm, h⟩ := bind_eq_ok_iff.mp h
  have hupdate : Parts c l m := .single (.update l m .disableWriting hm)
  have hqueue : Parts c l (if m.conn.writeComplete then m.queueWriteComplete c else m) := by
    split
    · exact hupdate.tail (.queueWriteComplete m)
    · exact hupdate
  simp only at h
  generalize (if m.conn.writeComplete then m.queueWriteComplete c else m) = k at hqueue h
  obtain rfl := pure_eq_ok_iff.mp h
  split
  · exact hqueue.trans parts_shutdownInLoop
  · exact hqueue

/-- `HandleWrite` in parts. -/
theorem parts_of_handleWrite {wr : WriteResult} (h : l.handleWrite c wr = .ok l') :
    Parts c l l' := by
  simp only [handleWrite] at h
  split at h
  · have hrecord : Parts c l (l.record (.write ((offered l.conn).take (wr.getD 0)))) :=
      .single (.record l _)
    split at h
    · obtain ⟨m, hm, h⟩ := bind_eq_ok_iff.mp h
      have hretrieved : Parts c l m := hrecord.tail (part_of_retrieve hm)
      split at h
      · exact hretrieved.trans (parts_of_drained h)
      · obtain rfl := pure_eq_ok_iff.mp h
        exact hretrieved
    · obtain rfl := Except.ok.inj h
      exact hrecord
  · obtain rfl := Except.ok.inj h
    exact .refl

/-- `ConnEstablished` in parts. -/
theorem parts_of_connEstablished (h : l.connEstablished c = .ok l') : Parts c l l' := by
  obtain ⟨-, h⟩ := check_bind_eq_ok_iff.mp h
  obtain ⟨m, hm, h⟩ := bind_eq_ok_iff.mp h
  obtain rfl := pure_eq_ok_iff.mp h
  have hset : Parts c l (l.setState .connected) := .single (.setState l _)
  exact (hset.tail (.update _ m .enableReading hm)).tail (.record m .up)

/-- `ConnDestroyed` in parts. -/
theorem parts_of_connDestroyed (h : l.connDestroyed c = .ok l') : Parts c l l' := by
  obtain ⟨-, h⟩ := check_bind_eq_ok_iff.mp h
  obtain ⟨m, hm, h⟩ := bind_eq_ok_iff.mp h
  obtain rfl := pure_eq_ok_iff.mp h
  have hset : Parts c l (l.setState .disconnected) := .single (.setState l _)
  exact ((hset.tail (.update _ m .disableAll hm)).tail (.record m _)).tail (.record _ _)

/-- `HandleClose` in parts. -/
theorem parts_of_handleClose (h : l.handleClose c = .ok l') : Parts c l l' := by
  obtain ⟨-, h⟩ := check_bind_eq_ok_iff.mp h
  obtain ⟨m, hm, h⟩ := bind_eq_ok_iff.mp h
  obtain rfl := pure_eq_ok_iff.mp h
  have hupdate : Parts c l m := .single (.update l m .disableAll hm)
  exact hupdate.tail (.record m .closed)

/-! ### What they leave alone -/

/-- An `UpdateChannel` that returns has changed the poller, the index and the interest. -/
theorem update_ok {ch : Channel} (h : l.update c ch = .ok l') :
    ∃ poller index, l.poller.updateChannel c ch = .ok (poller, { ch with index := index }) ∧
      l' = { l with conn.channel := { ch with index := index }, poller := poller } := by
  rw [update] at h
  split at h
  · next poller ch' hupdate =>
    obtain ⟨index, rfl⟩ := Epoller.updateChannel_channel hupdate
    exact ⟨poller, index, hupdate, (Except.ok.inj h).symm⟩
  · exact absurd h (by simp)

/-- A `RemoveChannel` that returns has changed the poller and the index. -/
theorem removeChannel_ok (h : l.removeChannel c = .ok l') :
    ∃ poller, l.poller.removeChannel c l.conn.channel =
        .ok (poller, { l.conn.channel with index := Epoller.kNew }) ∧
      l' = { l with conn.channel.index := Epoller.kNew, poller := poller } := by
  rw [removeChannel] at h
  split at h
  · next poller ch hremove =>
    obtain ⟨-, rfl, -⟩ := Epoller.removeChannel_cases hremove
    exact ⟨poller, hremove, (Except.ok.inj h).symm⟩
  · exact absurd h (by simp)

/-- The same object, with the same input. -/
structure Fixed (conn conn' : TcpConnection) : Prop where
  loop : conn'.loop = conn.loop
  name : conn'.name = conn.name
  fd : conn'.channel.fd = conn.channel.fd
  alive : conn'.alive = conn.alive
  input : conn'.input = conn.input

theorem Fixed.rfl {conn : TcpConnection} : Fixed conn conn :=
  ⟨.refl _, .refl _, .refl _, .refl _, .refl _⟩

theorem Fixed.trans {conn conn' conn'' : TcpConnection} (h : Fixed conn conn')
    (h' : Fixed conn' conn'') : Fixed conn conn'' :=
  ⟨h'.loop.trans h.loop, h'.name.trans h.name, h'.fd.trans h.fd, h'.alive.trans h.alive,
    h'.input.trans h.input⟩

/-- No part of a method changes what the object is. -/
theorem Part.fixed (h : Part c l l') : Fixed l.conn l'.conn := by
  cases h with
  | record | setState | output | queueWriteComplete | clearWriteComplete =>
    exact ⟨rfl, rfl, rfl, rfl, rfl⟩
  | update _ change h =>
    obtain ⟨poller, index, -, rfl⟩ := update_ok h
    obtain ⟨events, hevents⟩ := change.apply_eq l.conn.channel
    exact ⟨rfl, rfl, by rw [hevents], rfl, rfl⟩
  | removeChannel _ h =>
    obtain ⟨poller, -, rfl⟩ := removeChannel_ok h
    exact ⟨rfl, rfl, rfl, rfl, rfl⟩

theorem Parts.fixed (h : Parts c l l') : Fixed l.conn l'.conn := by
  induction h with
  | refl => exact .rfl
  | tail _ hpart ih => exact ih.trans hpart.fixed

/-- What is counted outside the methods, and what only `HandleEvent` changes. -/
structure Leaves (conn conn' : TcpConnection) : Prop where
  refs : conn'.refs = conn.refs
  closeTimers : conn'.closeTimers = conn.closeTimers
  eventHandling : conn'.channel.eventHandling = conn.channel.eventHandling

/-- No part of a method changes the pointers, the timers or `event_handling_`. -/
theorem Part.leaves (h : Part c l l') : Leaves l.conn l'.conn := by
  cases h with
  | record | setState | output | queueWriteComplete | clearWriteComplete => exact ⟨rfl, rfl, rfl⟩
  | update _ change h =>
    obtain ⟨poller, index, -, rfl⟩ := update_ok h
    obtain ⟨events, hevents⟩ := change.apply_eq l.conn.channel
    exact ⟨rfl, rfl, by rw [hevents]⟩
  | removeChannel _ h =>
    obtain ⟨poller, -, rfl⟩ := removeChannel_ok h
    exact ⟨rfl, rfl, rfl⟩

/-- The pointers of user code, the timers of `Close` and `event_handling_` are not the
methods' business. -/
theorem Parts.leaves (h : Parts c l l') : Leaves l.conn l'.conn := by
  induction h with
  | refl => exact ⟨rfl, rfl, rfl⟩
  | tail _ hpart ih =>
    have hleaves := hpart.leaves
    exact ⟨hleaves.refs.trans ih.refs, hleaves.closeTimers.trans ih.closeTimers,
      hleaves.eventHandling.trans ih.eventHandling⟩

/-- Methods queue the write-complete callback only. -/
theorem Parts.queued (h : Parts c l l') :
    ∃ fs, l'.queued = l.queued ++ fs ∧ ∀ f ∈ fs, f = .writeComplete c := by
  induction h with
  | refl => exact ⟨[], (List.append_nil _).symm, fun _ hf => absurd hf List.not_mem_nil⟩
  | tail _ hpart ih =>
    obtain ⟨fs, hqueued, hfs⟩ := ih
    cases hpart with
    | record | setState | output | clearWriteComplete => exact ⟨fs, hqueued, hfs⟩
    | queueWriteComplete =>
      refine ⟨fs ++ [.writeComplete c], ?_, fun f hf => ?_⟩
      · rw [queueWriteComplete, hqueued, List.append_assoc]
      · exact (List.mem_append.mp hf).elim (hfs f) List.mem_singleton.mp
    | update _ _ hupdate =>
      obtain ⟨poller, index, -, rfl⟩ := update_ok hupdate
      exact ⟨fs, hqueued, hfs⟩
    | removeChannel _ hremove =>
      obtain ⟨poller, -, rfl⟩ := removeChannel_ok hremove
      exact ⟨fs, hqueued, hfs⟩

end Local
end TcpConnection
end Bbkgl
