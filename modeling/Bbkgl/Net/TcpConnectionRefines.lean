import Bbkgl.Net.BufferQueue
import Bbkgl.Net.Connection

/-!
# The methods of a connection, as steps of its life

`core` is what the abstract machine sees of the object. A method that succeeds
acts on it as the function of the same name on `Connection`, leaves the identity
of the object alone, and queues nothing but the write-complete callback.
-/

set_option autoImplicit false

namespace Bbkgl
namespace TcpConnection

open CS.Fallible

/-- The abstract connection with the members of `conn`, and with the rest of `v`. -/
def core (v : Connection) (conn : TcpConnection) : Connection :=
  { v with
    state := conn.state
    reading := conn.channel.isReading
    writing := conn.channel.isWriting
    backlog := conn.output.readable
    log := conn.log
    alive := conn.alive }

/-- `conn'` is the same object, used by the same code. -/
structure Same (conn conn' : TcpConnection) : Prop where
  loop : conn'.loop = conn.loop
  name : conn'.name = conn.name
  fd : conn'.channel.fd = conn.channel.fd
  alive : conn'.alive = conn.alive
  refs : conn'.refs = conn.refs

theorem Same.rfl {conn : TcpConnection} : Same conn conn :=
  ⟨.refl _, .refl _, .refl _, .refl _, .refl _⟩

theorem Same.trans {conn conn' conn'' : TcpConnection} (h : Same conn conn')
    (h' : Same conn' conn'') : Same conn conn'' :=
  ⟨h'.loop.trans h.loop, h'.name.trans h.name, h'.fd.trans h.fd, h'.alive.trans h.alive,
    h'.refs.trans h.refs⟩

namespace Local

/-- From `l` to `l'` a method has done to the connection what `g` says. -/
structure Acts (c : ConnId) (l l' : Local) (g : Connection → Connection) : Prop where
  core : ∀ v, core v l'.conn = g (core v l.conn)
  same : Same l.conn l'.conn
  wf : l'.conn.output.WF
  queued : ∃ fs, l'.queued = l.queued ++ fs ∧ ∀ f ∈ fs, f = .writeComplete c

variable {c : ConnId} {l l' l'' : Local} {g g' : Connection → Connection}

theorem Acts.trans (h : Acts c l l' g) (h' : Acts c l' l'' g') : Acts c l l'' (g' ∘ g) where
  core v := by rw [h'.core, h.core]; rfl
  same := h.same.trans h'.same
  wf := h'.wf
  queued := by
    obtain ⟨fs, hfs, hall⟩ := h.queued
    obtain ⟨fs', hfs', hall'⟩ := h'.queued
    refine ⟨fs ++ fs', by rw [hfs', hfs, List.append_assoc], fun f hf => ?_⟩
    rcases List.mem_append.mp hf with hf | hf
    · exact hall f hf
    · exact hall' f hf

/-- Another description of the same action. -/
theorem Acts.congr (h : Acts c l l' g)
    (hg : ∀ v, g (TcpConnection.core v l.conn) = g' (TcpConnection.core v l.conn)) :
    Acts c l l' g' :=
  ⟨fun v => (h.core v).trans (hg v), h.same, h.wf, h.queued⟩

theorem acts_of_conn (hcore : ∀ v, TcpConnection.core v l'.conn = g (TcpConnection.core v l.conn))
    (hsame : Same l.conn l'.conn) (hwf : l'.conn.output.WF) (hqueued : l'.queued = l.queued) :
    Acts c l l' g :=
  ⟨hcore, hsame, hwf, [], by simp [hqueued], by simp⟩

variable (hwf : l.conn.output.WF)
include hwf

theorem record_acts (e : ConnEvent) : Acts c l (l.record e) (·.record e) :=
  acts_of_conn (fun _ => rfl) ⟨rfl, rfl, rfl, rfl, rfl⟩ hwf rfl

theorem setState_acts (state : StateE) :
    Acts c l (l.setState state) fun v => { v with state := state } :=
  acts_of_conn (fun _ => rfl) ⟨rfl, rfl, rfl, rfl, rfl⟩ hwf rfl

theorem queueWriteComplete_acts : Acts c l (l.queueWriteComplete c) id :=
  ⟨fun _ => rfl, .rfl, hwf, [.writeComplete c], rfl, by simp⟩

theorem update_acts {ch : Channel} (hfd : ch.fd = l.conn.channel.fd) (h : l.update c ch = .ok l') :
    Acts c l l' fun v => { v with reading := ch.isReading, writing := ch.isWriting } := by
  rw [update] at h
  split at h
  · next poller ch' hupdate =>
    obtain ⟨index, rfl⟩ := Epoller.updateChannel_channel hupdate
    obtain rfl := Except.ok.inj h
    exact acts_of_conn (fun _ => rfl) ⟨rfl, rfl, hfd, rfl, rfl⟩ hwf rfl
  · exact absurd h (by simp)

theorem append_acts {data : Bytes} (hlen : data.length ≤ Buffer.maxSize)
    (h : l.append data = .ok l') :
    Acts c l l' fun v => { v with backlog := v.backlog ++ data } := by
  rw [append] at h
  split at h
  · next output hout =>
    have hy := Buffer.yields_of_append hwf hlen hout
    obtain rfl := Except.ok.inj h
    refine acts_of_conn (fun v => ?_) ⟨rfl, rfl, rfl, rfl, rfl⟩ hy.wf rfl
    simp only [TcpConnection.core, hy.readable_eq]
  · exact absurd h (by simp)

theorem retrieve_acts {len : ℕ} (h : l.retrieve len = .ok l') :
    Acts c l l' fun v => { v with backlog := v.backlog.drop len } := by
  rw [retrieve] at h
  split at h
  · next output hout =>
    have hy := Buffer.yields_of_retrieve hwf hout
    obtain rfl := Except.ok.inj h
    refine acts_of_conn (fun v => ?_) ⟨rfl, rfl, rfl, rfl, rfl⟩ hy.wf rfl
    simp only [TcpConnection.core, hy.readable_eq]
  · exact absurd h (by simp)

theorem shutdownInLoop_acts : Acts c l l.shutdownInLoop Connection.shutdownInLoop := by
  rw [shutdownInLoop]
  cases hwriting : l.conn.channel.isWriting with
  | true =>
    refine acts_of_conn (fun v => ?_) .rfl hwf rfl
    simp [Connection.shutdownInLoop, TcpConnection.core, hwriting]
  | false =>
    apply (record_acts hwf .halfClosed).congr
    intro v
    simp [Connection.shutdownInLoop, TcpConnection.core, hwriting]

theorem readableBytes_eq_zero_iff :
    l.conn.output.readableBytes = 0 ↔ l.conn.output.readable = [] := by
  rw [← hwf.length_readable, List.length_eq_zero_iff]

theorem writesDirectly_core (v : Connection) :
    (TcpConnection.core v l.conn).writesDirectly = writesDirectly l.conn := by
  rw [Connection.writesDirectly, writesDirectly, Bool.eq_iff_iff]
  simp [TcpConnection.core, readableBytes_eq_zero_iff hwf]

theorem nwrote_core (v : Connection) (wr : WriteResult) :
    (TcpConnection.core v l.conn).nwrote wr = nwrote l.conn wr := by
  rw [Connection.nwrote, nwrote, writesDirectly_core hwf]

omit hwf in
/-- Two events recorded one after the other. -/
theorem record_record_acts {e e' : ConnEvent} (hwf : l.conn.output.WF) :
    Acts c l ((l.record e).record e') fun v => { v with log := v.log ++ [e, e'] } :=
  acts_of_conn (fun _ => by simp [TcpConnection.core, record]) ⟨rfl, rfl, rfl, rfl, rfl⟩ hwf rfl

theorem tryWrite_acts {who : Caller} {message : Bytes} {wr : WriteResult} :
    Acts c l (l.tryWrite c who message wr) fun v => { v with
      log := v.log ++ .executed who message ::
        if v.writesDirectly then [.write (message.take (v.nwrote wr))] else [] } := by
  simp only [tryWrite]
  cases hd : writesDirectly l.conn with
  | true =>
    have hrec : Acts c l
        ((l.record (.executed who message)).record (.write (message.take (nwrote l.conn wr)))) _ :=
      record_record_acts hwf
    have hact : Acts c l _ fun v => { v with
        log := v.log ++ .executed who message ::
          if v.writesDirectly then [.write (message.take (v.nwrote wr))] else [] } :=
      hrec.congr fun v => by simp only [writesDirectly_core hwf, nwrote_core hwf, hd, ↓reduceIte]
    simp only [↓reduceIte]
    split
    · obtain ⟨fs, hfs, hall⟩ := hact.queued
      have hsame := hact.same
      refine ⟨hact.core, ⟨hsame.loop, hsame.name, hsame.fd, hsame.alive, hsame.refs⟩, hact.wf,
        fs ++ [.writeComplete c], ?_, ?_⟩
      · rw [← List.append_assoc, ← hfs]
        rfl
      · intro f hf
        rcases List.mem_append.mp hf with hf | hf
        · exact hall f hf
        · exact List.mem_singleton.mp hf
    · exact hact
  | false =>
    simp only [Bool.false_and, Bool.false_eq_true, ↓reduceIte]
    apply (record_acts hwf _).congr
    intro v
    simp only [writesDirectly_core hwf, hd, Bool.false_eq_true, ↓reduceIte]
    rfl

theorem keepRest_acts {rest : Bytes} (hlen : rest.length ≤ Buffer.maxSize)
    (h : l.keepRest c rest = .ok l') :
    Acts c l l' fun v => { v with backlog := v.backlog ++ rest, writing := true } := by
  obtain ⟨m, hm, h⟩ := bind_eq_ok_iff.mp h
  have happend := append_acts (c := c) hwf hlen hm
  split at h
  · have hfd : m.conn.channel.enableWriting.fd = m.conn.channel.fd := rfl
    have hupdate := update_acts (c := c) happend.wf hfd h
    apply (happend.trans hupdate).congr
    intro v
    have hm := happend.core v
    have hreading := congrArg Connection.reading hm
    simp only [TcpConnection.core] at hreading
    simp [TcpConnection.core, hreading]
  · next hwriting =>
    obtain rfl := pure_eq_ok_iff.mp h
    apply happend.congr
    intro v
    have hm := happend.core v
    have hold := congrArg Connection.writing hm
    simp only [TcpConnection.core] at hold
    have hwriting : m.conn.channel.isWriting = true := by simpa using hwriting
    simp [TcpConnection.core, ← hold, hwriting]

theorem sendInLoop_acts {who : Caller} {message : Bytes} {wr : WriteResult}
    (hlen : message.length ≤ Buffer.maxSize) (h : l.sendInLoop c who message wr = .ok l') :
    Acts c l l' (·.sendInLoop who message wr) := by
  have htry : Acts c l (l.tryWrite c who message wr) _ := tryWrite_acts hwf
  simp only [sendInLoop] at h
  split at h
  · next hrest =>
    have hdrop : (message.drop (nwrote l.conn wr)).length ≤ Buffer.maxSize := by
      rw [List.length_drop]
      omega
    apply (htry.trans (keepRest_acts htry.wf hdrop h)).congr
    intro v
    simp only [Function.comp_apply, Connection.sendInLoop, nwrote_core hwf, hrest, decide_true,
      Bool.or_true]
  · next hall =>
    obtain rfl := Except.ok.inj h
    apply htry.congr
    intro v
    have hdrop : message.drop (nwrote l.conn wr) = [] := List.drop_eq_nil_of_le (by omega)
    simp only [Connection.sendInLoop, nwrote_core hwf, hdrop, hall, decide_false, Bool.or_false,
      List.append_nil]

theorem drained_acts (h : l.drained c = .ok l') :
    Acts c l l' fun v =>
      let v' := { v with writing := false }
      if v.state = .disconnecting then v'.shutdownInLoop else v' := by
  obtain ⟨m, hm, h⟩ := bind_eq_ok_iff.mp h
  have hfd : l.conn.channel.disableWriting.fd = l.conn.channel.fd := rfl
  have hupdate : Acts c l m fun v => { v with writing := false } :=
    (update_acts hwf hfd hm).congr fun v => by simp [TcpConnection.core]
  have hqueue : Acts c l (if m.conn.writeComplete then m.queueWriteComplete c else m)
      fun v => { v with writing := false } := by
    split
    · exact hupdate.trans (queueWriteComplete_acts hupdate.wf)
    · exact hupdate
  simp only at h
  generalize (if m.conn.writeComplete then m.queueWriteComplete c else m) = k at hqueue h
  have hstate : ∀ v, (TcpConnection.core v l.conn).state = k.conn.state := fun v =>
    (congrArg Connection.state (hqueue.core v)).symm
  obtain rfl := pure_eq_ok_iff.mp h
  split
  · next hleaving =>
    apply (hqueue.trans (shutdownInLoop_acts hqueue.wf)).congr
    intro v
    exact (if_pos ((hstate v).trans hleaving)).symm
  · next hstaying =>
    apply hqueue.congr
    intro v
    exact (if_neg fun hleaving => hstaying ((hstate v).symm.trans hleaving)).symm

theorem offered_eq : offered l.conn = l.conn.output.readable := by
  rw [offered, hwf.readableBytes_eq]
  rfl

/-- `write()` has accepted `n` bytes and they leave the buffer. -/
theorem written_acts {n : ℕ}
    (h : (l.record (.write ((offered l.conn).take n))).retrieve n = .ok l') :
    Acts c l l' (·.written n) := by
  have hrec := record_acts (c := c) hwf (.write ((offered l.conn).take n))
  apply (hrec.trans (retrieve_acts hrec.wf h)).congr
  intro v
  simp only [Function.comp_apply, Connection.record, Connection.written, offered_eq hwf]
  rfl

theorem handleWrite_acts {wr : WriteResult} (h : l.handleWrite c wr = .ok l') :
    Acts c l l' (·.handleWrite wr) := by
  rw [handleWrite] at h
  split at h
  · next hwriting =>
    have hwriting : ∀ v, (TcpConnection.core v l.conn).writing = true := fun _ => hwriting
    simp only at h
    split at h
    · next hpos =>
      obtain ⟨m, hm, h⟩ := bind_eq_ok_iff.mp h
      have hwritten := written_acts (c := c) hwf hm
      have hempties : ∀ v, (TcpConnection.core v l.conn).empties wr =
          decide (m.conn.output.readableBytes = 0) := fun v => by
        have hbacklog := congrArg Connection.backlog (hwritten.core v)
        simp only [TcpConnection.core, Connection.written] at hbacklog
        rw [Bool.eq_iff_iff]
        simp [Connection.empties, hpos, readableBytes_eq_zero_iff hwritten.wf, hbacklog,
          TcpConnection.core]
      split at h
      · next hzero =>
        apply (hwritten.trans (drained_acts hwritten.wf h)).congr
        intro v
        simp only [Function.comp_apply, Connection.handleWrite, hwriting, hempties, hzero,
          decide_true, ↓reduceIte]
        rfl
      · next hrest =>
        obtain rfl := pure_eq_ok_iff.mp h
        apply hwritten.congr
        intro v
        simp only [Connection.handleWrite, hwriting, hempties, hrest, decide_false,
          Bool.false_eq_true, ↓reduceIte]
    · next hzero =>
      obtain rfl := Except.ok.inj h
      have hnone : wr.getD 0 = 0 := by omega
      apply (record_acts hwf _).congr
      intro v
      have hstays : (TcpConnection.core v l.conn).empties wr = false := by
        simp [Connection.empties, hnone]
      rw [Connection.handleWrite, if_pos (hwriting v), if_neg (by simp [hstays]), hnone]
      rfl
  · next hidle =>
    obtain rfl := Except.ok.inj h
    refine acts_of_conn (fun v => ?_) .rfl hwf rfl
    exact (if_neg hidle).symm

/-! ### Establishing, closing and removing -/

theorem connEstablished_acts (h : l.connEstablished c = .ok l') :
    l.conn.state = .connecting ∧ Acts c l l' fun v =>
      { v.record .up with state := .connected, reading := true } := by
  rw [connEstablished, assert, check_bind_eq_ok_iff] at h
  obtain ⟨hstate, h⟩ := h
  obtain ⟨m, hm, h⟩ := bind_eq_ok_iff.mp h
  obtain rfl := pure_eq_ok_iff.mp h
  have hset := setState_acts (c := c) hwf .connected
  have hfd : (l.setState .connected).conn.channel.enableReading.fd =
      (l.setState .connected).conn.channel.fd := rfl
  have hupdate := hset.trans (update_acts hset.wf hfd hm)
  refine ⟨of_decide_eq_true hstate, (hupdate.trans (record_acts hupdate.wf .up)).congr fun v => ?_⟩
  simp [Connection.record, TcpConnection.core, setState]

/-- `events_` becomes `k_none_event`. -/
theorem disableAll_acts (h : l.update c l.conn.channel.disableAll = .ok l') :
    Acts c l l' fun v => { v with reading := false, writing := false } := by
  have hfd : l.conn.channel.disableAll.fd = l.conn.channel.fd := rfl
  apply (update_acts hwf hfd h).congr
  intro v
  simp

theorem connDestroyed_acts (h : l.connDestroyed c = .ok l') :
    l.conn.isUp = true ∧ Acts c l l' fun v =>
      { (v.record .destroyed).record .down with
        state := .disconnected, reading := false, writing := false } := by
  rw [connDestroyed, assert, check_bind_eq_ok_iff] at h
  obtain ⟨hup, h⟩ := h
  obtain ⟨m, hm, h⟩ := bind_eq_ok_iff.mp h
  obtain rfl := pure_eq_ok_iff.mp h
  have hset := setState_acts (c := c) hwf .disconnected
  have hdisable := hset.trans (disableAll_acts hset.wf hm)
  have hrec := hdisable.trans (record_acts hdisable.wf .destroyed)
  exact ⟨hup, (hrec.trans (record_acts hrec.wf .down)).congr fun _ => rfl⟩

theorem handleClose_acts (h : l.handleClose c = .ok l') :
    l.conn.isUp = true ∧ Acts c l l' fun v =>
      { v.record .closed with reading := false, writing := false } := by
  rw [handleClose, assert, check_bind_eq_ok_iff] at h
  obtain ⟨hup, h⟩ := h
  obtain ⟨m, hm, h⟩ := bind_eq_ok_iff.mp h
  obtain rfl := pure_eq_ok_iff.mp h
  have hdisable := disableAll_acts hwf hm
  exact ⟨hup, (hdisable.trans (record_acts hdisable.wf .closed)).congr fun _ => rfl⟩

theorem removeChannel_acts (h : l.removeChannel c = .ok l') : Acts c l l' id := by
  rw [removeChannel] at h
  split at h
  · next poller ch hremove =>
    obtain ⟨-, rfl, -⟩ := Epoller.removeChannel_cases hremove
    obtain rfl := Except.ok.inj h
    exact acts_of_conn (fun _ => rfl) ⟨rfl, rfl, rfl, rfl, rfl⟩ hwf rfl
  · exact absurd h (by simp)

end Local
end TcpConnection
end Bbkgl
