import Mathlib.Algebra.Group.Nat.Defs
import Mathlib.Data.Int.Notation
import Bbkgl.CS.Fallible
import Bbkgl.CS.Region

/-!
# Buffer

The vector, the two indices and the operations on them, with the assertions of
the source and the `length_error` of `std::vector::resize` as faults. Pointers
into the vector are offsets from `Begin()`. `size_t` arithmetic wraps.
-/

set_option autoImplicit false

namespace Bbkgl

open CS.Fallible CS.Region

/-- The contents of a `std::string` or of a `std::vector<char>`. -/
abbrev Bytes := List UInt8

/-! Sum and difference of two `size_t` values, that is, of numbers below `2 ^ 64`. -/

namespace SizeT

/-- The sum of two numbers below `2 ^ 64`, modulo `2 ^ 64`. -/
def add (a b : ℕ) : ℕ := if a + b < 2 ^ 64 then a + b else a + b - 2 ^ 64

/-- The difference of two numbers below `2 ^ 64`, modulo `2 ^ 64`. -/
def sub (a b : ℕ) : ℕ := if b ≤ a then a - b else a + 2 ^ 64 - b

theorem add_eq {a b : ℕ} (h : a + b < 2 ^ 64) : add a b = a + b := if_pos h

theorem sub_eq {a b : ℕ} (h : b ≤ a) : sub a b = a - b := if_pos h

end SizeT

/-- The members of the class: the vector and the two indices into it. -/
structure Buffer where
  buffer : Bytes
  readerIndex : ℕ
  writerIndex : ℕ
  deriving DecidableEq, Repr

namespace Buffer

/-- The assertions of the methods, the constructor's aside. -/
inductive Assertion
  /-- `assert(len <= ReadableBytes())` in `Retrieve` -/
  | retrieveLen
  /-- `assert(Peek() <= end)` in `RetrieveUntil` -/
  | retrieveUntilPeek
  /-- `assert(end <= BeginWrite())` in `RetrieveUntil` -/
  | retrieveUntilWrite
  /-- `assert(WritableBytes() >= len)` in `EnsureWritableBytes` -/
  | ensureWritable
  /-- `assert(len <= PrependableBytes())` in `Prepend` -/
  | prependLen
  /-- `assert(k_cheap_prepend < reader_index_)` in `MakeSpace` -/
  | makeSpaceReader
  /-- `assert(readable == ReadableBytes())` in `MakeSpace` -/
  | makeSpaceReadable
  deriving DecidableEq, Repr

/-- What ends a method before its end. -/
inductive Fault
  | assertion (a : Assertion)
  /-- `std::length_error` -/
  | lengthError
  deriving DecidableEq, Repr

/-- The constant `k_cheap_prepend`. -/
def cheapPrepend : ℕ := 8

/-- The constant `k_initial_size`. -/
def initialSize : ℕ := 1024

/-- `max_size()` of a `std::vector<char>` -/
def maxSize : ℕ := 2 ^ 63 - 1

/-- `sizeof(extrabuf)` in `ReadFd` -/
def extraSize : ℕ := 65536

/-- The constructor: a vector of zeros, with both indices behind the reserve. -/
def new : Buffer := ⟨List.replicate (cheapPrepend + initialSize) 0, cheapPrepend, cheapPrepend⟩

/-- The difference of the two indices, as a `size_t`. -/
def readableBytes (b : Buffer) : ℕ := SizeT.sub b.writerIndex b.readerIndex

/-- What is left of the vector behind `writer_index_`, as a `size_t`. -/
def writableBytes (b : Buffer) : ℕ := SizeT.sub b.buffer.length b.writerIndex

/-- What is in front of the readable bytes. -/
def prependableBytes (b : Buffer) : ℕ := b.readerIndex

/-- The place of the first readable byte. -/
def peek (b : Buffer) : ℕ := b.readerIndex

/-- The place of the first writable byte. -/
def beginWrite (b : Buffer) : ℕ := b.writerIndex

/-- An assertion of the source: the call goes on only if `c` holds. -/
def assert (c : Bool) (a : Assertion) : Except Fault Unit := check c (.assertion a)

/-- The first `len` readable bytes are dropped. -/
def retrieve (b : Buffer) (len : ℕ) : Except Fault Buffer := do
  assert (len ≤ b.readableBytes) .retrieveLen
  return { b with readerIndex := SizeT.add b.readerIndex len }

/-- The readable bytes before the pointer `end` are dropped. -/
def retrieveUntil (b : Buffer) (end_ : ℕ) : Except Fault Buffer := do
  assert (b.peek ≤ end_) .retrieveUntilPeek
  assert (end_ ≤ b.beginWrite) .retrieveUntilWrite
  b.retrieve (end_ - b.peek)

/-- Both indices go back to where the constructor has put them. -/
def retrieveAll (b : Buffer) : Buffer :=
  { b with readerIndex := cheapPrepend, writerIndex := cheapPrepend }

/-- The readable bytes, and the buffer after `RetrieveAll`. -/
def retrieveAsString (b : Buffer) : Bytes × Buffer :=
  (slice b.buffer b.peek b.readableBytes, b.retrieveAll)

/-- `buffer_.resize(n)` -/
def resize (v : Bytes) (n : ℕ) : Except Fault Bytes :=
  if n ≤ maxSize then .ok (v.take n ++ List.replicate (n - v.length) 0) else .error .lengthError

/-- The test by which `MakeSpace` chooses between growing and compacting. -/
def needsResize (b : Buffer) (len : ℕ) : Bool :=
  SizeT.add b.writableBytes b.prependableBytes < SizeT.add len cheapPrepend

/-- The vector grows if the bytes in front and behind are too few for `len`; otherwise the
readable bytes move to the front. -/
def makeSpace (b : Buffer) (len : ℕ) : Except Fault Buffer := do
  if b.needsResize len then
    let v ← resize b.buffer (SizeT.add b.writerIndex len)
    return { b with buffer := v }
  else
    assert (cheapPrepend < b.readerIndex) .makeSpaceReader
    let readable := b.readableBytes
    let b' : Buffer :=
      { buffer := moveWithin b.buffer b.peek cheapPrepend (b.beginWrite - b.peek)
        readerIndex := cheapPrepend
        writerIndex := SizeT.add cheapPrepend readable }
    assert (readable = b'.readableBytes) .makeSpaceReadable
    return b'

/-- Room for `len` bytes behind `writer_index_`. -/
def ensureWritableBytes (b : Buffer) (len : ℕ) : Except Fault Buffer := do
  let b' ← if b.writableBytes < len then b.makeSpace len else .ok b
  assert (len ≤ b'.writableBytes) .ensureWritable
  return b'

/-- The `len` bytes behind `writer_index_` become readable. -/
def hasWritten (b : Buffer) (len : ℕ) : Buffer :=
  { b with writerIndex := SizeT.add b.writerIndex len }

/-- `std::copy` of `data` to `BeginWrite()` -/
def store (b : Buffer) (data : Bytes) : Buffer :=
  { b with buffer := writeAt b.buffer b.beginWrite data }

/-- Room for `data`, then the copy, then the index; all three overloads come to this one. -/
def append (b : Buffer) (data : Bytes) : Except Fault Buffer := do
  let b' ← b.ensureWritableBytes data.length
  return (b'.store data).hasWritten data.length

/-- The bytes go right before the readable ones, where there must be room for them. -/
def prepend (b : Buffer) (data : Bytes) : Except Fault Buffer := do
  assert (data.length ≤ b.prependableBytes) .prependLen
  let r := SizeT.sub b.readerIndex data.length
  return { b with readerIndex := r, buffer := writeAt b.buffer r data }

/-- `std::vector<char> buf(n)` -/
def allocate (n : ℕ) : Except Fault Bytes :=
  if n ≤ maxSize then .ok (List.replicate n 0) else .error .lengthError

/-- The readable bytes move into a new vector, and the indices stay as they are. -/
def shrink (b : Buffer) (reserve : ℕ) : Except Fault Buffer := do
  let buf ← allocate (SizeT.add (SizeT.add cheapPrepend b.readableBytes) reserve)
  return { b with buffer := writeAt buf cheapPrepend (slice b.buffer b.peek b.readableBytes) }

/-- The buffer once `readv` has filled its writable part: `writer_index_` is `buffer_.size()`. -/
def filled (b : Buffer) (data : Bytes) : Buffer :=
  { b.store (data.take b.writableBytes) with writerIndex := b.buffer.length }

/-- `readv` is the kernel's answer: `none` for -1, otherwise the bytes it has
put into the writable part of the vector and, past that, into `extrabuf`. The
second component of the result is the return value. -/
def readFd (b : Buffer) (readv : Option Bytes) : Except Fault (Buffer × ℤ) := do
  let writable := b.writableBytes
  match readv with
  | none => return (b, -1)
  | some data =>
    if data.length ≤ writable then
      return ((b.store data).hasWritten data.length, data.length)
    else
      let b' ← (b.filled data).append (data.drop writable)
      return (b', data.length)

/-! ### What the buffer holds -/

/-- The bytes in `[reader_index_, writer_index_)`. -/
def readable (b : Buffer) : Bytes := slice b.buffer b.readerIndex (b.writerIndex - b.readerIndex)

/-- The three regions of the class comment, in a vector that can exist. -/
structure WF (b : Buffer) : Prop where
  reader_le : b.readerIndex ≤ b.writerIndex
  writer_le : b.writerIndex ≤ b.buffer.length
  size_le : b.buffer.length ≤ maxSize
  cheapPrepend_le : cheapPrepend ≤ b.buffer.length

/-- A vector can hold `len` bytes, and also what `MakeSpace` asks for if it
resizes to make room for them. -/
def Holds (b : Buffer) (len : ℕ) : Prop :=
  len ≤ maxSize ∧ (b.needsResize len = true → b.writerIndex + len ≤ maxSize)

instance (b : Buffer) (len : ℕ) : Decidable (b.Holds len) := inferInstanceAs (Decidable (_ ∧ _))

theorem length_new : new.buffer.length = cheapPrepend + initialSize := List.length_replicate

theorem wf_new : new.WF where
  reader_le := Nat.le_refl _
  writer_le := by rw [length_new]; exact Nat.le_add_right _ _
  size_le := by rw [length_new]; decide
  cheapPrepend_le := by rw [length_new]; exact Nat.le_add_right _ _

/-- A new buffer has nothing to read. -/
theorem readable_new : new.readable = [] := by
  rw [readable, show new.writerIndex - new.readerIndex = 0 from rfl, slice_zero]

variable {b b' : Buffer} {len : ℕ} {data : Bytes}

namespace WF

/-- No vector reaches half of the range of `size_t`. -/
theorem lt (h : b.WF) : b.buffer.length < 2 ^ 63 := by
  have := h.size_le
  simp only [maxSize] at this
  omega

/-- In a well-formed buffer the subtraction in `ReadableBytes` does not wrap. -/
theorem readableBytes_eq (h : b.WF) : b.readableBytes = b.writerIndex - b.readerIndex :=
  SizeT.sub_eq h.reader_le

/-- In a well-formed buffer the subtraction in `WritableBytes` does not wrap. -/
theorem writableBytes_eq (h : b.WF) : b.writableBytes = b.buffer.length - b.writerIndex :=
  SizeT.sub_eq h.writer_le

/-- `ReadableBytes` counts the readable bytes. -/
theorem length_readable (h : b.WF) : b.readable.length = b.readableBytes := by
  have := h.reader_le
  have := h.writer_le
  rw [h.readableBytes_eq, readable, length_slice (by omega)]

/-- The test of `MakeSpace`, with no wrap-around. -/
theorem needsResize_eq (h : b.WF) (hlen : len ≤ maxSize) :
    b.needsResize len =
      decide (b.buffer.length - b.writerIndex + b.readerIndex < len + cheapPrepend) := by
  have := h.lt
  have := h.reader_le
  have := h.writer_le
  simp only [maxSize] at hlen
  rw [needsResize, h.writableBytes_eq, prependableBytes, SizeT.add_eq (by omega),
    SizeT.add_eq (by simp only [cheapPrepend]; omega)]

end WF

end Buffer
end Bbkgl
