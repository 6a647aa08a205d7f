import Bbkgl.CS.History
import Bbkgl.Net.BufferQueue

/-!
# How large the vector becomes

`MakeSpace` resizes the vector only if compacting would not make room, that is,
if less than the requested length and the reserve lies outside the readable
bytes. So the size stays within twice what was ever held and asked for at one
time, however many bytes pass through, and it never decreases.

There is one exception. `EnsureWritableBytes` is given a `size_t`, and
`writer_index_+len` can wrap around: then the vector is resized to less than it
has, and the assertion that would say so wraps around as well.
-/

set_option autoImplicit false

namespace Bbkgl
namespace Buffer

open CS CS.Fallible CS.Region CS.Transition

variable {b b' : Buffer} {len : ℕ} {data : Bytes}

/-! ### The size after one call -/

/-- What a call that asks for `len` bytes makes of the size. Either the sum that
`MakeSpace` may form does not wrap around, and the size stays or grows to what
is needed; or it does, and the size shrinks. -/
def Resized (b : Buffer) (len : ℕ) (b' : Buffer) : Prop :=
  b.writerIndex + len < 2 ^ 64 ∧ b'.WF ∧ (b'.buffer.length = b.buffer.length ∨
      b.buffer.length ≤ b'.buffer.length ∧
        b'.buffer.length ≤ 2 * (b.readableBytes + len) + cheapPrepend) ∨
    2 ^ 64 ≤ b.writerIndex + len ∧ b'.buffer.length < b.buffer.length

/-- A call that does not allocate. -/
theorem resized_of_length_eq (hlen : b.writerIndex + len < 2 ^ 64) (h' : b'.WF)
    (heq : b'.buffer.length = b.buffer.length) : Resized b len b' :=
  Or.inl ⟨hlen, h', Or.inl heq⟩

/-- A `resize` that returns has made the length asked for. -/
theorem length_resize {v v' : Bytes} {n : ℕ} (hok : resize v n = .ok v') :
    n ≤ maxSize ∧ v'.length = n := by
  rw [resize] at hok
  split at hok
  · next hn =>
    obtain rfl := Except.ok.inj hok
    rw [List.length_append, List.length_take, List.length_replicate]
    exact ⟨hn, by omega⟩
  · exact absurd hok (by simp)

/-- The two ways in which `MakeSpace` returns. -/
theorem makeSpace_eq_ok (h : b.WF) (hok : b.makeSpace len = .ok b') :
    b.needsResize len = true ∧ SizeT.add b.writerIndex len ≤ maxSize ∧
        b'.buffer.length = SizeT.add b.writerIndex len ∨
      b.needsResize len = false ∧ b'.WF ∧ b'.buffer.length = b.buffer.length := by
  rw [makeSpace] at hok
  cases hneeds : b.needsResize len with
  | true =>
    rw [if_pos hneeds] at hok
    obtain ⟨v, hv, hok⟩ := bind_eq_ok_iff.mp hok
    obtain rfl := Except.ok.inj hok
    obtain ⟨hmax, hlength⟩ := length_resize hv
    exact Or.inl ⟨rfl, hmax, hlength⟩
  | false =>
    have hlt := h.lt
    have hle := h.reader_le
    have hwriter := h.writer_le
    have hbytes := h.readableBytes_eq
    simp only [hneeds, Bool.false_eq_true, ↓reduceIte, assert, check_bind_eq_ok_iff] at hok
    obtain ⟨hreader, -, hok⟩ := hok
    have hreader := of_decide_eq_true hreader
    obtain rfl := Except.ok.inj hok
    have hadd : SizeT.add cheapPrepend b.readableBytes = cheapPrepend + b.readableBytes :=
      SizeT.add_eq (by omega)
    refine Or.inr ⟨rfl, ?_, length_moveWithin⟩
    rw [hadd]
    exact (compact_yields h hreader).wf

/-- `EnsureWritableBytes` is `MakeSpace`, if there is need, and an assertion. -/
theorem ensureWritableBytes_eq : b.ensureWritableBytes len =
    (if b.writableBytes < len then b.makeSpace len else .ok b) >>= fun c =>
      assert (len ≤ c.writableBytes) .ensureWritable >>= fun _ => pure c := by
  rw [ensureWritableBytes]
  split <;> rfl

theorem ensureWritableBytes_eq_ok (hok : b.ensureWritableBytes len = .ok b') :
    (b.writableBytes < len ∧ b.makeSpace len = .ok b' ∨ len ≤ b.writableBytes ∧ b' = b) ∧
      len ≤ b'.writableBytes := by
  rw [ensureWritableBytes_eq] at hok
  obtain ⟨c, hc, hok⟩ := bind_eq_ok_iff.mp hok
  obtain ⟨hroom, hok⟩ := check_bind_eq_ok_iff.mp hok
  obtain rfl := Except.ok.inj hok
  refine ⟨?_, of_decide_eq_true hroom⟩
  split at hc
  · next hlt => exact Or.inl ⟨hlt, hc⟩
  · next hle => exact Or.inr ⟨Nat.le_of_not_lt hle, (Except.ok.inj hc).symm⟩

/-- Unless the sum wraps around, a call that has returned was one that a vector can hold. -/
theorem holds_of_ensureWritableBytes (h : b.WF) (hlen : b.writerIndex + len < 2 ^ 64)
    (hok : b.ensureWritableBytes len = .ok b') : b.Holds len := by
  have hsize := h.size_le
  have hwriter := h.writer_le
  obtain ⟨⟨hfull, hmake⟩ | ⟨hfits, rfl⟩, hroom⟩ := ensureWritableBytes_eq_ok hok
  · rcases makeSpace_eq_ok h hmake with ⟨-, hmax, -⟩ | ⟨hneeds, hwf, hlength⟩
    · rw [SizeT.add_eq hlen] at hmax
      exact ⟨by omega, fun _ => hmax⟩
    · rw [hwf.writableBytes_eq] at hroom
      exact ⟨by omega, fun htrue => absurd (hneeds.symm.trans htrue) (by simp)⟩
  · rw [h.writableBytes_eq] at hfits
    exact ⟨by omega, fun _ => by omega⟩

theorem ensureWritableBytes_resized (h : b.WF) (hlen : len < 2 ^ 64)
    (hok : b.ensureWritableBytes len = .ok b') : Resized b len b' := by
  have hlt := h.lt
  have hreader := h.reader_le
  have hwriter := h.writer_le
  have hbytes := h.readableBytes_eq
  have hroom := h.writableBytes_eq
  obtain ⟨hcase, hleft⟩ := ensureWritableBytes_eq_ok hok
  by_cases hwrap : b.writerIndex + len < 2 ^ 64
  · have hholds := holds_of_ensureWritableBytes h hwrap hok
    obtain ⟨c, hc, hy, -⟩ := ensureWritableBytes_yields h hholds
    obtain rfl : c = b' := Except.ok.inj (hc.symm.trans hok)
    refine Or.inl ⟨hwrap, hy.wf, ?_⟩
    rcases hcase with ⟨hfull, hmake⟩ | ⟨-, rfl⟩
    · rcases makeSpace_eq_ok h hmake with ⟨hneeds, -, hlength⟩ | ⟨-, -, hlength⟩
      · rw [h.needsResize_eq hholds.1, decide_eq_true_iff] at hneeds
        rw [SizeT.add_eq hwrap] at hlength
        exact Or.inr ⟨by omega, by omega⟩
      · exact Or.inl hlength
    · exact Or.inl rfl
  -- past the range, it is resized to what is left of the sum, which is less than before
  · refine Or.inr ⟨by omega, ?_⟩
    rcases hcase with ⟨-, hmake⟩ | ⟨hfits, -⟩
    · rcases makeSpace_eq_ok h hmake with ⟨-, -, hlength⟩ | ⟨-, hwf, hlength⟩
      · rw [hlength, SizeT.add, if_neg hwrap]
        omega
      · -- compacting makes no room for a length beyond all vectors
        rw [hwf.writableBytes_eq] at hleft
        omega
    · omega

/-- What throws has not wrapped around: the wrapped sum is a size that a vector can have. -/
theorem lt_of_ensureWritableBytes_eq_lengthError (h : b.WF) (hlen : len < 2 ^ 64)
    (herr : b.ensureWritableBytes len = .error .lengthError) : b.writerIndex + len < 2 ^ 64 := by
  have hsize := h.size_le
  have hwriter := h.writer_le
  have hmax : maxSize < SizeT.add b.writerIndex len := by
    rw [ensureWritableBytes_eq, bind_eq_error_iff] at herr
    rcases herr with herr | ⟨c, -, herr⟩
    · split at herr
      · rw [makeSpace] at herr
        split at herr
        · rcases bind_eq_error_iff.mp herr with herr | ⟨v, -, herr⟩
          · rw [resize] at herr
            split at herr
            · exact absurd herr (by simp)
            · omega
          · exact absurd herr (by simp [pure, Except.pure])
        · simp [assert, check_bind_eq_error_iff, pure, Except.pure] at herr
      · exact absurd herr (by simp)
    · simp [assert, check_bind_eq_error_iff, pure, Except.pure] at herr
  -- a sum that has wrapped around is no such size
  rw [SizeT.add] at hmax
  split at hmax
  · assumption
  · omega

/-- `Append` makes room, and then it copies. -/
theorem append_eq_ok (hok : b.append data = .ok b') :
    ∃ c, b.ensureWritableBytes data.length = .ok c ∧
      b' = (c.store data).hasWritten data.length := by
  obtain ⟨c, hc, hok⟩ := bind_eq_ok_iff.mp hok
  exact ⟨c, hc, (Except.ok.inj hok).symm⟩

theorem append_resized (h : b.WF) (hlen : data.length < 2 ^ 64) (hok : b.append data = .ok b') :
    Resized b data.length b' := by
  obtain ⟨c, hc, rfl⟩ := append_eq_ok hok
  have hlength : ((c.store data).hasWritten data.length).buffer.length = c.buffer.length :=
    length_writeAt
  rcases ensureWritableBytes_resized h hlen hc with ⟨hwrap, -, hsize⟩ | ⟨hwrap, hsize⟩
  · have hholds := holds_of_ensureWritableBytes h hwrap hc
    obtain ⟨d, hd, hy⟩ := append_yields h hholds
    obtain rfl := Except.ok.inj (hd.symm.trans hok)
    exact Or.inl ⟨hwrap, hy.wf, by rwa [hlength]⟩
  · exact Or.inr ⟨hwrap, by rwa [hlength]⟩

/-- An `Append` that throws has not wrapped around. -/
theorem lt_of_append_eq_lengthError (h : b.WF) (hlen : data.length < 2 ^ 64)
    (herr : b.append data = .error .lengthError) : b.writerIndex + data.length < 2 ^ 64 := by
  rcases bind_eq_error_iff.mp herr with herr | ⟨c, -, herr⟩
  · exact lt_of_ensureWritableBytes_eq_lengthError h hlen herr
  · exact absurd herr (by simp [pure, Except.pure])

theorem readFd_resized {n : ℤ} (h : b.WF) (hlen : data.length < 2 ^ 64)
    (hok : b.readFd (some data) = .ok (b', n)) : Resized b data.length b' := by
  have hlt := h.lt
  have hwriter := h.writer_le
  have hroom := h.writableBytes_eq
  simp only [readFd] at hok
  split at hok
  · next hfits =>
    obtain ⟨rfl, -⟩ := Prod.mk.inj (Except.ok.inj hok)
    exact resized_of_length_eq (by omega) (written_yields h (by omega)).wf length_writeAt
  · next hfits =>
    obtain ⟨c, hc, hok⟩ := bind_eq_ok_iff.mp hok
    obtain ⟨rfl, -⟩ := Prod.mk.inj (Except.ok.inj hok)
    have hy : Yields b (b.filled data) _ := filled_yields h (by omega)
    have hbytes := hy.wf.length_readable
    rw [hy.readable_eq, List.length_append, h.length_readable, List.length_take,
      Nat.min_eq_left (by omega)] at hbytes
    have hsize : (b.filled data).buffer.length = b.buffer.length := length_writeAt
    have hfull : (b.filled data).writerIndex = b.buffer.length := rfl
    have hdrop : (data.drop b.writableBytes).length = data.length - b.writableBytes :=
      List.length_drop
    have hres := append_resized hy.wf (by omega) hc
    rw [Resized, hdrop, hsize, hfull, ← hbytes] at hres
    rw [Resized]
    grind

/-- A `ReadFd` that throws has not wrapped around. -/
theorem lt_of_readFd_eq_lengthError (h : b.WF) (hlen : data.length < 2 ^ 64)
    (herr : b.readFd (some data) = .error .lengthError) :
    b.writableBytes ≤ data.length ∧ b.writerIndex + data.length < 2 ^ 64 := by
  have hlt := h.lt
  have hwriter := h.writer_le
  have hroom := h.writableBytes_eq
  simp only [readFd] at herr
  split at herr
  · exact absurd herr (by simp [pure, Except.pure])
  · next hfits =>
    have hle : b.writableBytes ≤ data.length := by omega
    rcases bind_eq_error_iff.mp herr with herr | ⟨c, -, herr⟩
    · have hdrop : (data.drop b.writableBytes).length = data.length - b.writableBytes :=
        List.length_drop
      have hfull : (b.filled data).writerIndex = b.buffer.length := rfl
      have := lt_of_append_eq_lengthError (filled_yields h hle).wf (by omega) herr
      omega
    · exact absurd herr (by simp [pure, Except.pure])

/-! ### Runs -/

namespace Op

/-- The number of bytes that a call asks for. -/
def requested : Op → ℕ
  | append data | write data | prepend data | readFd (some data) => data.length
  | ensureWritableBytes len => len
  | retrieve _ | retrieveUntil _ | retrieveAll | retrieveAsString | readFd none => 0

/-- The operation that copies to `BeginWrite()` without asking for room. -/
def isWrite : Op → Bool
  | write _ => true
  | _ => false

/-- What is left when `resize` has thrown: `ReadFd` has filled the vector by then. -/
def thrown (b : Buffer) : Op → Buffer
  | readFd (some data) => b.filled data
  | _ => b

/-- The calls as a machine whose caller survives `std::length_error`. A failed
assertion ends the run. -/
def proceed (b : Buffer) (op : Op) : Option Buffer :=
  match op.exec b with
  | .ok b' => some b'
  | .error .lengthError => some (op.thrown b)
  | .error (.assertion _) => none

/-- The calls but `HasWritten`, with a `writer_index_+len` that does not wrap around. -/
def Unwrapped (b : Buffer) (op : Op) : Prop :=
  op.isWrite = false ∧ b.writerIndex + op.requested < 2 ^ 64

instance (b : Buffer) (op : Op) : Decidable (op.Unwrapped b) := inferInstanceAs (Decidable (_ ∧ _))

/-- No call but the unchecked writes allocates more than it needs. -/
theorem exec_resized {op : Op} (h : b.WF) (hwrite : op.isWrite = false)
    (hlen : op.requested < 2 ^ 64) (hok : op.exec b = .ok b') : Resized b op.requested b' := by
  have hlt := h.lt
  have hwriter := h.writer_le
  have hzero : b.writerIndex + 0 < 2 ^ 64 := by omega
  cases op with
  | append data => exact append_resized h hlen hok
  | ensureWritableBytes len => exact ensureWritableBytes_resized h hlen hok
  | write data => exact absurd hwrite (by simp [isWrite])
  | retrieve len =>
    refine resized_of_length_eq hzero (yields_of_retrieve h hok).wf ?_
    obtain ⟨-, hok⟩ := check_bind_eq_ok_iff.mp hok
    exact congrArg (fun c => c.buffer.length) (Except.ok.inj hok).symm
  | retrieveUntil len =>
    obtain ⟨-, hok⟩ := check_bind_eq_ok_iff.mp hok
    obtain ⟨-, hok⟩ := check_bind_eq_ok_iff.mp hok
    refine resized_of_length_eq hzero (yields_of_retrieve h hok).wf ?_
    obtain ⟨-, hok⟩ := check_bind_eq_ok_iff.mp hok
    exact congrArg (fun c => c.buffer.length) (Except.ok.inj hok).symm
  | retrieveAll | retrieveAsString =>
    obtain rfl := Except.ok.inj hok
    exact resized_of_length_eq hzero (retrieveAll_yields h).wf rfl
  | prepend data =>
    obtain ⟨hle, hok'⟩ := check_bind_eq_ok_iff.mp hok
    obtain ⟨c, hc, hwf, -⟩ := prepend_yields h (of_decide_eq_true hle)
    obtain rfl := Except.ok.inj (hc.symm.trans hok)
    have hprep : data.length ≤ b.readerIndex := of_decide_eq_true hle
    have hreader := h.reader_le
    refine resized_of_length_eq (by simp only [requested]; omega) hwf ?_
    obtain rfl := Except.ok.inj hok'
    exact length_writeAt
  | readFd readv =>
    obtain ⟨⟨c, n⟩, hread, rfl⟩ : ∃ q, b.readFd readv = .ok q ∧ q.1 = b' := by
      cases hread : b.readFd readv with
      | error f => simp [exec, hread, Except.map] at hok
      | ok q => exact ⟨q, rfl, by simpa [exec, hread, Except.map] using hok⟩
    cases readv with
    | none =>
      obtain ⟨rfl, -⟩ := Prod.mk.inj (Except.ok.inj hread)
      exact resized_of_length_eq hzero h rfl
    | some data => exact readFd_resized h hlen hread

/-- A call that throws leaves the vector within the bound. -/
theorem thrown_resized {op : Op} (h : b.WF) (hlen : op.requested < 2 ^ 64)
    (herr : op.exec b = .error .lengthError) : Resized b op.requested (op.thrown b) := by
  cases op with
  | append data =>
    exact resized_of_length_eq (lt_of_append_eq_lengthError h hlen herr) h rfl
  | ensureWritableBytes len =>
    exact resized_of_length_eq (lt_of_ensureWritableBytes_eq_lengthError h hlen herr) h rfl
  | write data | retrieveAll | retrieveAsString => exact absurd herr (by simp [exec])
  | retrieve len | retrieveUntil len | prepend data =>
    simp [exec, Buffer.retrieve, Buffer.retrieveUntil, Buffer.prepend, assert,
      check_bind_eq_error_iff, pure, Except.pure] at herr
  | readFd readv =>
    cases readv with
    | none => simp [exec, Buffer.readFd, pure, Except.pure, Except.map] at herr
    | some data =>
      have herr : b.readFd (some data) = .error .lengthError := by
        cases hread : b.readFd (some data) with
        | error f => simpa [exec, hread, Except.map] using herr
        | ok q => simp [exec, hread, Except.map] at herr
      obtain ⟨hle, hsum⟩ := lt_of_readFd_eq_lengthError h hlen herr
      exact resized_of_length_eq hsum (filled_yields h hle).wf length_writeAt

theorem proceed_resized {op : Op} (h : b.WF) (hwrite : op.isWrite = false)
    (hlen : op.requested < 2 ^ 64) (hstep : op.proceed b = some b') :
    Resized b op.requested b' := by
  rw [proceed] at hstep
  split at hstep
  · next hok =>
    obtain rfl := Option.some_inj.mp hstep
    exact exec_resized h hwrite hlen hok
  · next herr =>
    obtain rfl := Option.some_inj.mp hstep
    exact thrown_resized h hlen herr
  · exact absurd hstep (by simp)

/-- The size decreases exactly in a call whose sum wraps around. -/
theorem length_le_iff_unwrapped {op : Op} (h : b.WF) (hwrite : op.isWrite = false)
    (hlen : op.requested < 2 ^ 64) (hstep : op.proceed b = some b') :
    b.buffer.length ≤ b'.buffer.length ↔ op.Unwrapped b := by
  rw [Unwrapped, and_iff_right hwrite]
  rcases proceed_resized h hwrite hlen hstep with ⟨hsum, -, hsize⟩ | ⟨hsum, hsize⟩ <;> omega

/-- The most that was ever held and asked for at one time. -/
def peak (b : Buffer) (m : ℕ) (op : Op) : ℕ := max m (b.readableBytes + op.requested)

end Op

/-- A good buffer within the bound that `m` gives. -/
structure Bounded (q : Buffer × ℕ) : Prop where
  wf : q.1.WF
  length_le : q.1.buffer.length ≤ max (cheapPrepend + initialSize) (2 * q.2 + cheapPrepend)

/-- One call keeps the vector under its bound, and never makes it smaller. -/
theorem bounded_of_step {q r : Buffer × ℕ} {op : Op} (h : Bounded q) (hop : op.Unwrapped q.1)
    (hstep : recorded (fun b op => op.proceed b) Op.peak q op = some r) :
    Bounded r ∧ q.1.buffer.length ≤ r.1.buffer.length := by
  obtain ⟨hstep, hpeak⟩ := recorded_eq_some_iff.mp hstep
  have hle := h.length_le
  have hlen : op.requested < 2 ^ 64 := Nat.lt_of_le_of_lt (Nat.le_add_left _ _) hop.2
  have hmono := (Op.length_le_iff_unwrapped h.wf hop.1 hlen hstep).mpr hop
  rcases Op.proceed_resized h.wf hop.1 hlen hstep with ⟨-, hwf, hsize⟩ | ⟨-, hsize⟩
  · refine ⟨⟨hwf, ?_⟩, hmono⟩
    rw [← hpeak, Op.peak]
    omega
  · exact absurd hmono (Nat.not_le_of_lt hsize)

section Runs

variable {ops ops' : List Op} {q r : Buffer × ℕ}

/-- The machine of one buffer, with the peak beside it. -/
def metered : Buffer × ℕ → Op → Option (Buffer × ℕ) :=
  recorded (fun b op => op.proceed b) Op.peak

/-- Any number of calls keep the vector under its bound. -/
theorem bounded_of_reach (h : Bounded q)
    (hrun : Reach metered (fun q op => op.Unwrapped q.1) q ops r) :
    Bounded r ∧ q.1.buffer.length ≤ r.1.buffer.length := by
  apply hrun.invariant (I := fun r => Bounded r ∧ q.1.buffer.length ≤ r.1.buffer.length)
    ⟨h, Nat.le_refl _⟩
  intro _ s op t _ hs hop hstep
  obtain ⟨hbounded, hle⟩ := bounded_of_step hs.1 hop hstep
  exact ⟨hbounded, Nat.le_trans hs.2 hle⟩

theorem bounded_new : Bounded (new, 0) where
  wf := wf_new
  length_le := by rw [length_new]; exact Nat.le_max_left _ _

/-- **A buffer stays within twice its peak.** Along every run in which no sum
wraps around the size is bounded by the peak and does not decrease, and only a
call in which one does can make it decrease. -/
theorem length_le_peak (hrun : Reach metered (fun q op => op.Unwrapped q.1) (new, 0) ops q) :
    q.1.buffer.length ≤ max 1032 (2 * q.2 + 8) ∧
    (∀ ops' r, Reach metered (fun q op => op.Unwrapped q.1) q ops' r →
      q.1.buffer.length ≤ r.1.buffer.length) ∧
    ∀ (op : Op) b', op.isWrite = false → op.requested < 2 ^ 64 → op.proceed q.1 = some b' →
      (q.1.buffer.length ≤ b'.buffer.length ↔ op.Unwrapped q.1) := by
  obtain ⟨hbounded, -⟩ := bounded_of_reach bounded_new hrun
  refine ⟨hbounded.length_le, fun ops' r hrest => (bounded_of_reach hbounded hrest).2, ?_⟩
  intro op b' hwrite hlen hstep
  exact Op.length_le_iff_unwrapped hbounded.wf hwrite hlen hstep

end Runs

/-- A buffer that is filled and read. -/
theorem length_le_peak_read :
    ∃ q, Reach metered (fun q op => op.Unwrapped q.1) (new, 0)
      [.append [1, 2, 3], .retrieve 2, .readFd (some [4])] q ∧
      q.1.buffer.length ≤ max 1032 (2 * q.2 + 8) := by
  have hsome : (runIf metered (fun q op => op.Unwrapped q.1) (new, 0)
      [.append [1, 2, 3], .retrieve 2, .readFd (some [4])]).isSome = true := by
    decide +kernel
  have hrun := reach_get hsome
  exact ⟨_, hrun, (length_le_peak hrun).1⟩

/-- With one byte in the buffer, nine less than `2 ^ 64` more are asked for: the
vector is resized to nothing, and the call returns. -/
theorem not_length_le_of_wrap :
    ∃ b, run Op.proceed new [.append [7]] = some b ∧ b.buffer.length = 1032 ∧
      b.ensureWritableBytes (2 ^ 64 - 9) = .ok ⟨[], 8, 9⟩ := by
  have hsome : (run Op.proceed new [.append [7]]).isSome = true := by decide +kernel
  refine ⟨_, (Option.some_get hsome).symm, ?_, ?_⟩
  · decide +kernel +revert
  · decide +kernel +revert

end Buffer
end Bbkgl
