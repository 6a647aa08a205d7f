import Mathlib.Logic.Function.Basic
import Bbkgl.CS.Transition
import Bbkgl.Net.Buffer

/-!
# Buffer is a byte queue

Each operation, called as its assertions require, succeeds and acts on
`Buffer.readable` as the operation of a byte queue that it is named after. From
one operation to whole runs over any number of buffers the result is
`buffers_refine_queues`.
-/

set_option autoImplicit false

namespace Bbkgl
namespace Buffer

open CS CS.Fallible CS.Region CS.Transition

variable {b b' : Buffer} {len : ℕ} {data : Bytes}

/-- The cheap-prepend reserve is intact. -/
def Reserved (b : Buffer) : Prop := cheapPrepend ≤ b.prependableBytes

/-- `b'` is a good buffer that holds `content`, and has the reserve if `b` had it. -/
structure Yields (b b' : Buffer) (content : Bytes) : Prop where
  wf : b'.WF
  readable_eq : b'.readable = content
  reserved : b.Reserved → b'.Reserved

/-! ### The operations one by one -/

theorem assert_ok {c : Bool} {a : Assertion} (h : c = true) : assert c a = .ok () :=
  check_eq_ok_iff.mpr h

/-- `Retrieve` drops bytes at the front. -/
theorem retrieve_yields (h : b.WF) (hlen : len ≤ b.readableBytes) :
    ∃ b', b.retrieve len = .ok b' ∧ Yields b b' (b.readable.drop len) := by
  have hlt := h.lt
  have hwriter := h.writer_le
  have hreader := h.reader_le
  rw [h.readableBytes_eq] at hlen
  have hadd : SizeT.add b.readerIndex len = b.readerIndex + len := SizeT.add_eq (by omega)
  refine ⟨{ b with readerIndex := b.readerIndex + len }, ?_, ?_, ?_, ?_⟩
  · rw [retrieve, assert_ok (by simpa [h.readableBytes_eq] using hlen), hadd]
    rfl
  · exact ⟨by simp only; omega, hwriter, h.size_le, h.cheapPrepend_le⟩
  · rw [readable, readable, drop_slice]
    congr 1
    simp only
    omega
  · exact fun hr => Nat.le_trans hr (Nat.le_add_right _ _)

/-- `RetrieveUntil` drops the bytes up to a pointer. -/
theorem retrieveUntil_yields (h : b.WF) (hlen : len ≤ b.readableBytes) :
    ∃ b', b.retrieveUntil (b.peek + len) = .ok b' ∧ Yields b b' (b.readable.drop len) := by
  obtain ⟨b', hb', hy⟩ := retrieve_yields h hlen
  have hend : b.peek + len ≤ b.beginWrite := by
    have := h.reader_le
    rw [h.readableBytes_eq] at hlen
    simp only [peek, beginWrite]
    omega
  refine ⟨b', ?_, hy⟩
  rw [retrieveUntil, assert_ok (by simp), assert_ok (by simpa using hend),
    Nat.add_sub_cancel_left]
  exact hb'

theorem retrieveAll_yields (h : b.WF) : Yields b b.retrieveAll [] where
  wf := ⟨Nat.le_refl _, h.cheapPrepend_le, h.size_le, h.cheapPrepend_le⟩
  readable_eq := by simp [readable, retrieveAll, slice_zero]
  reserved _ := Nat.le_refl _

/-- `RetrieveAsString` returns the readable bytes. -/
theorem retrieveAsString_fst (h : b.WF) : b.retrieveAsString.1 = b.readable := by
  rw [retrieveAsString, h.readableBytes_eq]
  rfl

/-- Growing the vector: the regions and their bytes stay where they are. -/
theorem resize_yields (h : b.WF) (hlen : b.writableBytes < len)
    (hmax : b.writerIndex + len ≤ maxSize) :
    ∃ v, resize b.buffer (SizeT.add b.writerIndex len) = .ok v ∧
      Yields b { b with buffer := v } b.readable ∧ b.writerIndex + len ≤ v.length := by
  have hlt := h.lt
  have hwriter := h.writer_le
  have hreader := h.reader_le
  rw [h.writableBytes_eq] at hlen
  have hadd : SizeT.add b.writerIndex len = b.writerIndex + len :=
    SizeT.add_eq (by simp only [maxSize] at hmax; omega)
  have htake : b.buffer.take (b.writerIndex + len) = b.buffer := List.take_of_length_le (by omega)
  refine ⟨_, by rw [hadd, resize, if_pos hmax], ?_, by simp; omega⟩
  rw [htake]
  exact
    { wf := ⟨hreader, by simp; omega, by simp; omega, by
        simpa using Nat.le_trans h.cheapPrepend_le (Nat.le_add_right _ _)⟩
      readable_eq := slice_append_right (by simp only; omega)
      reserved := id }

/-- Compacting: the readable bytes move to the front, past the reserve. -/
theorem compact_yields (h : b.WF) (hreader : cheapPrepend < b.readerIndex) :
    Yields b
      { buffer := moveWithin b.buffer b.peek cheapPrepend (b.beginWrite - b.peek)
        readerIndex := cheapPrepend
        writerIndex := cheapPrepend + b.readableBytes } b.readable := by
  have hwriter := h.writer_le
  have hle := h.reader_le
  have hbytes := h.readableBytes_eq
  exact
    { wf := ⟨Nat.le_add_right _ _, by simp only [length_moveWithin]; omega, by
        simpa using h.size_le, by simpa using h.cheapPrepend_le⟩
      readable_eq := by
        rw [readable, readable, hbytes, Nat.add_sub_cancel_left]
        exact slice_moveWithin (Nat.le_of_lt hreader) (by simp only [peek, beginWrite]; omega)
      reserved := fun _ => Nat.le_refl _ }

/-- `MakeSpace` keeps the bytes and makes the room asked for. -/
theorem makeSpace_yields (h : b.WF) (hlen : b.writableBytes < len) (hholds : b.Holds len) :
    ∃ b', b.makeSpace len = .ok b' ∧ Yields b b' b.readable ∧
      b'.writerIndex + len ≤ b'.buffer.length := by
  have hlt := h.lt
  have hwriter := h.writer_le
  have hle := h.reader_le
  have hbytes := h.readableBytes_eq
  rw [makeSpace]
  cases hneeds : b.needsResize len with
  | true =>
    obtain ⟨v, hv, hy, hroom⟩ := resize_yields h hlen (hholds.2 hneeds)
    exact ⟨_, by simp only [hv]; rfl, hy, hroom⟩
  | false =>
    rw [h.needsResize_eq hholds.1, decide_eq_false_iff_not] at hneeds
    rw [h.writableBytes_eq] at hlen
    have hreader : cheapPrepend < b.readerIndex := by omega
    have hy := compact_yields h hreader
    have hadd : SizeT.add cheapPrepend b.readableBytes = cheapPrepend + b.readableBytes :=
      SizeT.add_eq (by simp only [cheapPrepend]; omega)
    have hsame : b.readableBytes = cheapPrepend + b.readableBytes - cheapPrepend := by omega
    refine ⟨_, ?_, hy, by simp only [length_moveWithin]; omega⟩
    simp only [Bool.false_eq_true, ↓reduceIte, hadd, assert_ok (decide_eq_true hreader)]
    rw [assert_ok (decide_eq_true (hsame.trans hy.wf.readableBytes_eq.symm))]
    rfl

/-- `EnsureWritableBytes` does so where there is not room enough. -/
theorem ensureWritableBytes_yields (h : b.WF) (hholds : b.Holds len) :
    ∃ b', b.ensureWritableBytes len = .ok b' ∧ Yields b b' b.readable ∧
      b'.writerIndex + len ≤ b'.buffer.length := by
  have hsub : ∀ {c : Buffer}, c.WF → c.writerIndex + len ≤ c.buffer.length →
      decide (len ≤ c.writableBytes) = true := by
    intro c hc hroom
    rw [hc.writableBytes_eq, decide_eq_true_iff]
    omega
  rw [ensureWritableBytes]
  by_cases hlen : b.writableBytes < len
  · obtain ⟨b', hb', hy, hroom⟩ := makeSpace_yields h hlen hholds
    refine ⟨b', ?_, hy, hroom⟩
    rw [if_pos hlen, hb']
    change (assert _ _ >>= fun _ => pure b') = _
    rw [assert_ok (hsub hy.wf hroom)]
    rfl
  · have hroom : b.writerIndex + len ≤ b.buffer.length := by
      have := h.writer_le
      rw [h.writableBytes_eq] at hlen
      omega
    refine ⟨b, ?_, ⟨h, rfl, id⟩, hroom⟩
    rw [if_neg hlen]
    change (assert _ _ >>= fun _ => pure b) = _
    rw [assert_ok (hsub h hroom)]
    rfl

/-- Bytes stored at `BeginWrite()` and then declared written go to the back. -/
theorem written_yields (h : b.WF) (hroom : b.writerIndex + data.length ≤ b.buffer.length) :
    Yields b ((b.store data).hasWritten data.length) (b.readable ++ data) := by
  have hlt := h.lt
  have hreader := h.reader_le
  have hadd : SizeT.add b.writerIndex data.length = b.writerIndex + data.length :=
    SizeT.add_eq (by omega)
  have heq : (b.store data).hasWritten data.length =
      { buffer := writeAt b.buffer b.writerIndex data, readerIndex := b.readerIndex,
        writerIndex := b.writerIndex + data.length } := by
    rw [hasWritten, ← hadd]
    rfl
  rw [heq]
  refine ⟨⟨by simp only; omega, by simpa using hroom, by simpa using h.size_le,
    by simpa using h.cheapPrepend_le⟩, ?_, id⟩
  have hlen : b.writerIndex + data.length - b.readerIndex =
      b.writerIndex - b.readerIndex + data.length := by omega
  have hsplit : b.readerIndex + (b.writerIndex - b.readerIndex) = b.writerIndex := by omega
  -- the block begins where the readable bytes end, so it does not meet them
  simp only [readable]
  rw [hlen, ← slice_append, hsplit, slice_writeAt_self hroom,
    slice_writeAt_of_disjoint hroom (Or.inl (by omega))]

/-- `Append` adds bytes at the end. -/
theorem append_yields (h : b.WF) (hholds : b.Holds data.length) :
    ∃ b', b.append data = .ok b' ∧ Yields b b' (b.readable ++ data) := by
  obtain ⟨c, hc, hy, hroom⟩ := ensureWritableBytes_yields h hholds
  have hw := written_yields hy.wf hroom
  refine ⟨_, by rw [append, hc]; rfl, hw.wf, ?_, fun hr => hw.reserved (hy.reserved hr)⟩
  rw [hw.readable_eq, hy.readable_eq]

/-- Whatever the length, an `Append` that returns has appended. -/
theorem yields_of_append (h : b.WF) (hlen : data.length ≤ maxSize) (hok : b.append data = .ok b') :
    Yields b b' (b.readable ++ data) := by
  by_cases hholds : b.Holds data.length
  · obtain ⟨c, hc, hy⟩ := append_yields h hholds
    obtain rfl : c = b' := Except.ok.inj (hc.symm.trans hok)
    exact hy
  · -- the vector would have to grow beyond its maximal size
    have hlt := h.lt
    have hwriter := h.writer_le
    have hsize := h.size_le
    obtain ⟨hneeds, hmax⟩ : b.needsResize data.length = true ∧
        ¬ b.writerIndex + data.length ≤ maxSize := by
      rw [Holds, not_and] at hholds
      exact Classical.not_imp.mp (hholds hlen)
    have hfull : b.writableBytes < data.length := by
      rw [h.writableBytes_eq]
      omega
    have hadd : SizeT.add b.writerIndex data.length = b.writerIndex + data.length :=
      SizeT.add_eq (by simp only [maxSize] at hlen; omega)
    have hresize : resize b.buffer (SizeT.add b.writerIndex data.length) = .error .lengthError := by
      rw [hadd, resize, if_neg hmax]
    have herror : b.makeSpace data.length = .error .lengthError := by
      rw [makeSpace, if_pos hneeds, hresize]
      rfl
    rw [append, ensureWritableBytes, if_pos hfull, herror] at hok
    exact absurd hok (by simp [bind, Except.bind])

/-- A `Retrieve` that returns has dropped bytes at the front. -/
theorem yields_of_retrieve (h : b.WF) (hok : b.retrieve len = .ok b') :
    Yields b b' (b.readable.drop len) := by
  have hlen : len ≤ b.readableBytes := by
    rw [retrieve, assert, check_bind_eq_ok_iff] at hok
    exact of_decide_eq_true hok.1
  obtain ⟨c, hc, hy⟩ := retrieve_yields h hlen
  obtain rfl : c = b' := Except.ok.inj (hc.symm.trans hok)
  exact hy

/-- `Prepend` adds bytes at the front. -/
theorem prepend_yields (h : b.WF) (hlen : data.length ≤ b.prependableBytes) :
    ∃ b', b.prepend data = .ok b' ∧ b'.WF ∧ b'.readable = data ++ b.readable := by
  have hlt := h.lt
  have hreader := h.reader_le
  have hwriter := h.writer_le
  have hle : data.length ≤ b.readerIndex := hlen
  have hsub : SizeT.sub b.readerIndex data.length = b.readerIndex - data.length :=
    SizeT.sub_eq hle
  refine ⟨{ b with
      readerIndex := b.readerIndex - data.length
      buffer := writeAt b.buffer (b.readerIndex - data.length) data }, ?_, ?_, ?_⟩
  · rw [prepend, assert_ok (decide_eq_true hlen), hsub]
    rfl
  · exact ⟨by simp only; omega, by simpa using hwriter, by simpa using h.size_le,
      by simpa using h.cheapPrepend_le⟩
  · have hroom : b.readerIndex - data.length + data.length ≤ b.buffer.length := by omega
    have hsplit : b.writerIndex - (b.readerIndex - data.length) =
        data.length + (b.writerIndex - b.readerIndex) := by omega
    simp only [readable]
    rw [hsplit, ← slice_append, slice_writeAt_self hroom,
      slice_writeAt_of_disjoint hroom (Or.inr (by omega)), Nat.sub_add_cancel hle]

/-- What `readv` puts into the vector comes at the end. -/
theorem filled_yields (h : b.WF) (hlen : b.writableBytes ≤ data.length) :
    Yields b (b.filled data) (b.readable ++ data.take b.writableBytes) := by
  have hlt := h.lt
  have hwriter := h.writer_le
  have hbytes := h.writableBytes_eq
  obtain ⟨front, hfront⟩ : ∃ front, data.take b.writableBytes = front := ⟨_, rfl⟩
  have hlength : b.writerIndex + front.length = b.buffer.length := by
    rw [← hfront, List.length_take, Nat.min_eq_left hlen, hbytes]
    exact Nat.add_sub_cancel' hwriter
  have heq : b.filled data = (b.store front).hasWritten front.length := by
    have hadd : SizeT.add (b.store front).writerIndex front.length = b.buffer.length := by
      rw [← hlength]
      exact SizeT.add_eq (by rw [store]; simp only; omega)
    rw [hasWritten, hadd, filled, hfront]
  rw [hfront, heq]
  exact written_yields h (Nat.le_of_eq hlength)

/-- What `readv` has read goes to the back, whether or not it all fits into the
vector. -/
theorem readFd_yields (h : b.WF)
    (hholds : b.writableBytes < data.length →
      (b.filled data).Holds (data.length - b.writableBytes)) :
    ∃ b', b.readFd (some data) = .ok (b', data.length) ∧ Yields b b' (b.readable ++ data) := by
  have hwriter := h.writer_le
  have hbytes := h.writableBytes_eq
  by_cases hfits : data.length ≤ b.writableBytes
  · exact ⟨_, by simp only [readFd, if_pos hfits]; rfl, written_yields h (by omega)⟩
  · have hy : Yields b (b.filled data) _ := filled_yields h (by omega)
    have hlen : (data.drop b.writableBytes).length = data.length - b.writableBytes :=
      List.length_drop
    have hroom : (b.filled data).Holds (data.drop b.writableBytes).length :=
      hlen ▸ hholds (by omega)
    -- the vector is full after the first part; `Append` takes the rest from `extrabuf`
    obtain ⟨b', hb', hy'⟩ := append_yields hy.wf hroom
    refine ⟨b', by simp only [readFd, if_neg hfits, hb']; rfl, hy'.wf, ?_,
      fun hr => hy'.reserved (hy.reserved hr)⟩
    rw [hy'.readable_eq, hy.readable_eq, List.append_assoc, List.take_append_drop]

/-- `ReadFd` returns what `readv` returned. -/
theorem readFd_eq_ok {readv : Option Bytes} {n : ℤ} (hok : b.readFd readv = .ok (b', n)) :
    n = match readv with
      | none => -1
      | some data => data.length := by
  cases readv with
  | none => exact (Prod.mk.inj (Except.ok.inj hok)).2.symm
  | some data =>
    simp only [readFd] at hok
    split at hok
    · exact (Prod.mk.inj (Except.ok.inj hok)).2.symm
    · obtain ⟨b'', -, hok⟩ := CS.Fallible.bind_eq_ok_iff.mp hok
      exact (Prod.mk.inj (Except.ok.inj hok)).2.symm

/-! ### Runs over any number of buffers -/

/-- A call on one buffer, with what its environment supplies. -/
inductive Op
  | append (data : Bytes)
  | ensureWritableBytes (len : ℕ)
  /-- `data` stored at `BeginWrite()`, then `HasWritten` -/
  | write (data : Bytes)
  | retrieve (len : ℕ)
  /-- `RetrieveUntil(Peek() + len)` -/
  | retrieveUntil (len : ℕ)
  | retrieveAll
  | retrieveAsString
  | prepend (data : Bytes)
  | readFd (readv : Option Bytes)
  deriving DecidableEq, Repr

namespace Op

/-- The methods of the buffer, one operation for each. -/
def exec (b : Buffer) : Op → Except Fault Buffer
  | append data => b.append data
  | ensureWritableBytes len => b.ensureWritableBytes len
  | write data => .ok ((b.store data).hasWritten data.length)
  | retrieve len => b.retrieve len
  | retrieveUntil len => b.retrieveUntil (b.peek + len)
  | retrieveAll => .ok b.retrieveAll
  | retrieveAsString => .ok b.retrieveAsString.2
  | prepend data => b.prepend data
  | readFd readv => (b.readFd readv).map Prod.fst

/-- What the caller owes: the arguments that the assertions ask for, and lengths
that a vector can hold. -/
def Admissible (b : Buffer) : Op → Prop
  | append data => b.Holds data.length
  | ensureWritableBytes len => b.Holds len
  | write data => data.length ≤ b.writableBytes
  | retrieve len | retrieveUntil len => len ≤ b.readableBytes
  | retrieveAll | retrieveAsString | readFd none => True
  | prepend data => data.length ≤ b.prependableBytes
  | readFd (some data) => data.length ≤ b.writableBytes + extraSize ∧
      (b.writableBytes < data.length → (b.filled data).Holds (data.length - b.writableBytes))

instance (b : Buffer) (op : Op) : Decidable (op.Admissible b) :=
  match op with
  | append data => inferInstanceAs (Decidable (b.Holds data.length))
  | ensureWritableBytes len => inferInstanceAs (Decidable (b.Holds len))
  | write data => inferInstanceAs (Decidable (data.length ≤ b.writableBytes))
  | retrieve len | retrieveUntil len => inferInstanceAs (Decidable (len ≤ b.readableBytes))
  | retrieveAll | retrieveAsString | readFd none => .isTrue trivial
  | prepend data => inferInstanceAs (Decidable (data.length ≤ b.prependableBytes))
  | readFd (some _) => inferInstanceAs (Decidable (_ ∧ _))

/-- The same call on a byte queue. -/
def spec (q : Bytes) : Op → Bytes
  | append data | write data | readFd (some data) => q ++ data
  | ensureWritableBytes _ | readFd none => q
  | retrieve len | retrieveUntil len => q.drop len
  | retrieveAll | retrieveAsString => []
  | prepend data => data ++ q

/-- The operation that writes in front of the readable bytes. -/
def isPrepend : Op → Bool
  | prepend _ => true
  | _ => false

/-- One call, as its caller owes it: it succeeds, acts on the readable bytes as
on a queue, and leaves the reserve alone unless it prepends. -/
theorem exec_yields {op : Op} (h : b.WF) (hop : op.Admissible b) :
    ∃ b', op.exec b = .ok b' ∧ b'.WF ∧ b'.readable = op.spec b.readable ∧
      (op.isPrepend = false → b.Reserved → b'.Reserved) := by
  have of_yields : ∀ {b'}, op.exec b = .ok b' → Yields b b' (op.spec b.readable) →
      ∃ b', op.exec b = .ok b' ∧ b'.WF ∧ b'.readable = op.spec b.readable ∧
        (op.isPrepend = false → b.Reserved → b'.Reserved) :=
    fun hb hy => ⟨_, hb, hy.wf, hy.readable_eq, fun _ => hy.reserved⟩
  cases op with
  | append data =>
    obtain ⟨b', hb', hy⟩ := append_yields h hop
    exact of_yields hb' hy
  | ensureWritableBytes len =>
    obtain ⟨b', hb', hy, -⟩ := ensureWritableBytes_yields h hop
    exact of_yields hb' hy
  | write data =>
    have hroom : data.length ≤ b.writableBytes := hop
    rw [h.writableBytes_eq] at hroom
    have hwriter := h.writer_le
    exact of_yields rfl (written_yields h (by omega))
  | retrieve len =>
    obtain ⟨b', hb', hy⟩ := retrieve_yields h hop
    exact of_yields hb' hy
  | retrieveUntil len =>
    obtain ⟨b', hb', hy⟩ := retrieveUntil_yields h hop
    exact of_yields hb' hy
  | retrieveAll => exact of_yields rfl (retrieveAll_yields h)
  | retrieveAsString => exact of_yields rfl (retrieveAll_yields h)
  | prepend data =>
    obtain ⟨b', hb', hwf, hread⟩ := prepend_yields h hop
    exact ⟨b', hb', hwf, hread, by simp [isPrepend]⟩
  | readFd readv =>
    cases readv with
    | none => exact of_yields rfl ⟨h, rfl, id⟩
    | some data =>
      obtain ⟨b', hb', hy⟩ := readFd_yields h hop.2
      exact of_yields (by rw [exec, hb']; rfl) hy

/-- The calls on one buffer as a machine: a fault ends the run. -/
def step (b : Buffer) (op : Op) : Option Buffer := (op.exec b).toOption

theorem step_eq_some_iff {op : Op} : step b op = some b' ↔ op.exec b = .ok b' :=
  toOption_eq_some_iff

/-- The readable bytes are the queue's, from any good buffer on. -/
theorem runs_yield {ops : List Op} (h : b.WF)
    (hrun : Reach step (fun b op => op.Admissible b) b ops b') :
    b'.WF ∧ b'.readable = ops.foldl (fun q op => op.spec q) b.readable := by
  apply hrun.simulation (R := fun b q => b.WF ∧ b.readable = q) ⟨h, rfl⟩
  rintro c op t q ⟨hwf, rfl⟩ hop hstep
  obtain ⟨t', hexec, hwf', hread, -⟩ := exec_yields hwf hop
  obtain rfl := Except.ok.inj (hexec.symm.trans (step_eq_some_iff.mp hstep))
  exact ⟨hwf', hread⟩

end Op

/-- What code with a pointer to one buffer can do with it. -/
inductive Use
  | call (op : Op)
  | shrink (reserve : ℕ)
  /-- `Swap` with a buffer of the caller's own, which takes over what was here -/
  | swap (rhs : Buffer)
  deriving DecidableEq, Repr

/-- The buffer after such a call. -/
def Use.exec (b : Buffer) : Use → Except Fault Buffer
  | call op => op.exec b
  | shrink reserve => b.shrink reserve
  | swap rhs => .ok rhs

/-- A call on the buffer with index `i`, or `Swap` of two buffers. -/
inductive Cmd (ι : Type*)
  | on (i : ι) (op : Op)
  | swap (i j : ι)
  deriving DecidableEq, Repr

namespace Cmd

variable {ι : Type*} [DecidableEq ι]

/-- An operation on one buffer, or the exchange of two of them. -/
def exec (bufs : ι → Buffer) : Cmd ι → Except Fault (ι → Buffer)
  | on i op => (op.exec (bufs i)).map (Function.update bufs i)
  | swap i j => .ok (Function.update (Function.update bufs i (bufs j)) j (bufs i))

/-- The caller keeps to what the assertions of the operation require. -/
def Admissible (bufs : ι → Buffer) : Cmd ι → Prop
  | on i op => op.Admissible (bufs i)
  | swap _ _ => True

instance (bufs : ι → Buffer) (c : Cmd ι) : Decidable (c.Admissible bufs) :=
  match c with
  | on i op => inferInstanceAs (Decidable (op.Admissible (bufs i)))
  | swap _ _ => .isTrue trivial

/-- The same on a family of byte queues. -/
def spec (queues : ι → Bytes) : Cmd ι → ι → Bytes
  | on i op => Function.update queues i (op.spec (queues i))
  | swap i j => Function.update (Function.update queues i (queues j)) j (queues i)

/-- The command that writes in front of the readable bytes of a buffer. -/
def isPrepend : Cmd ι → Bool
  | on _ op => op.isPrepend
  | swap _ _ => false

/-- The machine: a fault ends the run. -/
def step (bufs : ι → Buffer) (c : Cmd ι) : Option (ι → Buffer) := (c.exec bufs).toOption

/-- Every call within its bounds returns, and does to the bytes what it does to queues. -/
theorem exec_yields {bufs : ι → Buffer} {c : Cmd ι} (h : ∀ i, (bufs i).WF)
    (hc : c.Admissible bufs) :
    ∃ bufs', c.exec bufs = .ok bufs' ∧ (∀ i, (bufs' i).WF) ∧
      (∀ i, (bufs' i).readable = c.spec (fun i => (bufs i).readable) i) ∧
      (c.isPrepend = false → (∀ i, (bufs i).Reserved) → ∀ i, (bufs' i).Reserved) := by
  cases c with
  | on i op =>
    obtain ⟨b', hb', hwf, hread, hres⟩ := Op.exec_yields (h i) hc
    refine ⟨Function.update bufs i b', by rw [exec, hb']; rfl, ?_, ?_, ?_⟩
    · exact fun k => by by_cases hk : k = i <;> simp_all
    · intro k
      by_cases hk : k = i <;> simp_all [spec]
    · intro hp hr k
      by_cases hk : k = i
      · simpa [hk] using hres hp (hr i)
      · simpa [hk] using hr k
  | swap i j =>
    refine ⟨_, rfl, ?_, ?_, fun _ hr => ?_⟩
    -- the second update wins: also `Swap` of a buffer with itself is right
    all_goals
      intro k
      by_cases hj : k = j
      · simp_all [spec]
      · by_cases hi : k = i <;> simp_all [spec]

theorem step_eq_some {bufs bufs' : ι → Buffer} {c : Cmd ι} (h : step bufs c = some bufs') :
    c.exec bufs = .ok bufs' :=
  toOption_eq_some_iff.mp h

end Cmd

section Runs

variable {ι : Type*} [DecidableEq ι] {cmds : List (Cmd ι)} {bufs : ι → Buffer}

/-- Every buffer is good and holds what its queue holds. -/
def Refines (bufs : ι → Buffer) (queues : ι → Bytes) : Prop :=
  ∀ i, (bufs i).WF ∧ (bufs i).readable = queues i

theorem refines_of_reach (hrun : Reach Cmd.step Cmd.Admissible (fun _ => new) cmds bufs) :
    Refines bufs (cmds.foldl Cmd.spec fun _ => []) := by
  apply hrun.simulation (R := Refines) (fun _ => ⟨wf_new, readable_new⟩)
  intro s c t queues hrel hc hstep
  obtain ⟨t', hexec, hwf, hread, -⟩ := Cmd.exec_yields (fun i => (hrel i).1) hc
  obtain rfl : t' = t := by simpa [hexec] using Cmd.step_eq_some hstep
  have hqueues : (fun i => (s i).readable) = queues := funext fun i => (hrel i).2
  exact fun i => ⟨hwf i, hqueues ▸ hread i⟩

/-- Every buffer is good and has its reserve. -/
def Intact (bufs : ι → Buffer) : Prop := ∀ i, (bufs i).WF ∧ (bufs i).Reserved

/-- Without `Prepend`, the reserve in front is never used. -/
theorem reserved_of_reach (hrun : Reach Cmd.step Cmd.Admissible (fun _ => new) cmds bufs)
    (hnone : ∀ c ∈ cmds, c.isPrepend = false) (i : ι) : (bufs i).Reserved := by
  have hinit : Intact fun _ : ι => new := fun _ => ⟨wf_new, Nat.le_refl _⟩
  have hintact : Intact bufs := by
    apply (hrun.restrict hnone).invariant hinit
    intro _ s c t _ hinv hc hstep
    obtain ⟨t', hexec, hwf, -, hres⟩ := Cmd.exec_yields (fun i => (hinv i).1) hc.1
    obtain rfl : t' = t := by simpa [hexec] using Cmd.step_eq_some hstep
    exact fun i => ⟨hwf i, hres hc.2 (fun i => (hinv i).2) i⟩
  exact (hintact i).2

/-- **Buffers are byte queues.** Along every run of admissible calls the indices
are in order, the readable bytes are the queue's, no call faults, a failing
`ReadFd` changes nothing, and without `Prepend` the reserve stays. -/
theorem buffers_refine_queues
    (hrun : Reach Cmd.step Cmd.Admissible (fun _ => new) cmds bufs) :
    (∀ i, (bufs i).readerIndex ≤ (bufs i).writerIndex ∧
      (bufs i).writerIndex ≤ (bufs i).buffer.length ∧
      (bufs i).readable = cmds.foldl Cmd.spec (fun _ => []) i ∧
      (bufs i).retrieveAsString.1 = (bufs i).readable ∧
      (bufs i).readFd none = .ok (bufs i, -1)) ∧
    (∀ c : Cmd ι, c.Admissible bufs → ∃ bufs', c.exec bufs = .ok bufs') ∧
    ((∀ c ∈ cmds, c.isPrepend = false) → ∀ i, 8 ≤ (bufs i).prependableBytes) := by
  have hrel := refines_of_reach hrun
  refine ⟨fun i => ?_, fun c hc => ?_, reserved_of_reach hrun⟩
  · obtain ⟨hwf, hread⟩ := hrel i
    exact ⟨hwf.reader_le, hwf.writer_le, hread, retrieveAsString_fst hwf, rfl⟩
  · obtain ⟨bufs', hexec, -⟩ := Cmd.exec_yields (fun i => (hrel i).1) hc
    exact ⟨bufs', hexec⟩

end Runs

/-- A header prepended to nothing and handed to the other buffer. -/
theorem buffers_refine_queues_swapped :
    ∃ bufs : Bool → Buffer,
      Reach Cmd.step Cmd.Admissible (fun _ => new)
        [.on false (.prepend [1, 2]), .swap false true] bufs ∧
      (bufs true).readable = [1, 2] := by
  have hrun : Reach Cmd.step Cmd.Admissible (fun _ : Bool => new)
      [.on false (.prepend [1, 2]), .swap false true] _ := reach_of_runIf rfl
  exact ⟨_, hrun, ((buffers_refine_queues hrun).1 true).2.2.1⟩

end Buffer
end Bbkgl
