import Bbkgl.Net.BufferQueue

/-!
# Shrink

`Shrink` puts the readable bytes behind a reserve of eight bytes in a new vector,
and leaves `reader_index_` and `writer_index_` where they were. So it is right for
a buffer whose readable bytes begin at the eighth byte. Elsewhere the indices
point past the bytes, or, after a `Prepend`, to the reserve in front of them,
which makes no difference only if all of these bytes are zero.
-/

set_option autoImplicit false

namespace Bbkgl
namespace Buffer

open CS CS.Fallible CS.Region CS.Transition

variable {b b' : Buffer} {reserve : ℕ}

/-- `b'` is as good as `b`: it has the same bytes and the room that was asked for,
and goes on as a queue of these bytes. -/
structure KeptBy (b : Buffer) (reserve : ℕ) (b' : Buffer) : Prop where
  readable_eq : b'.readable = b.readable
  reader_le : b'.readerIndex ≤ b'.writerIndex
  writer_le : b'.writerIndex ≤ b'.buffer.length
  reserve_le : reserve ≤ b'.writableBytes
  runs : ∀ ops c, Reach Op.step (fun b op => op.Admissible b) b' ops c →
    c.readable = ops.foldl (fun q op => op.spec q) b.readable ∧
      ∀ op : Op, op.Admissible c → ∃ d, op.exec c = .ok d

/-- A vector can hold the bytes and the reserve, and the readable bytes begin
behind the cheap-prepend reserve, or before its end with nothing but zeros. -/
def Shrinkable (b : Buffer) (reserve : ℕ) : Prop :=
  cheapPrepend + b.readable.length + reserve ≤ maxSize ∧
    (b.readerIndex = cheapPrepend ∨
      b.readerIndex < cheapPrepend ∧ ∀ x ∈ b.readable, x = 0)

instance : Decidable (b.Shrinkable reserve) := inferInstanceAs (Decidable (_ ∧ _))

/-- The indices alone say how many bytes are readable. -/
theorem readable_replaced {v : Bytes} (h : b.WF) :
    readable { b with buffer := v } = slice v b.readerIndex b.readable.length := by
  rw [h.length_readable, h.readableBytes_eq]
  rfl

/-- The new vector: zeros, but for the readable bytes. -/
def shrunk (b : Buffer) (size : ℕ) : Bytes :=
  writeAt (List.replicate size 0) cheapPrepend b.readable

/-- `Shrink` returns if a vector can hold what is asked for, and keeps the indices. -/
theorem shrink_eq_ok_iff (h : b.WF) : b.shrink reserve = .ok b' ↔
    SizeT.add (cheapPrepend + b.readable.length) reserve ≤ maxSize ∧
      b' = { b with
        buffer := b.shrunk (SizeT.add (cheapPrepend + b.readable.length) reserve) } := by
  have hlt := h.lt
  have hwriter := h.writer_le
  have hread : slice b.buffer b.peek b.readableBytes = b.readable := by
    rw [h.readableBytes_eq]
    rfl
  have hadd : SizeT.add cheapPrepend b.readableBytes = cheapPrepend + b.readable.length := by
    rw [h.length_readable]
    refine SizeT.add_eq ?_
    rw [h.readableBytes_eq]
    simp only [cheapPrepend]
    omega
  rw [shrink, hadd, hread, allocate]
  split
  · next hsize =>
    simp only [hsize, true_and]
    exact ⟨fun heq => (Except.ok.inj heq).symm, fun heq => congrArg Except.ok heq.symm⟩
  · next hsize =>
    simp only [hsize, false_and, iff_false]
    exact fun heq => absurd heq (by simp [bind, Except.bind])

theorem length_shrunk {size : ℕ} : (b.shrunk size).length = size := by
  rw [shrunk, length_writeAt, List.length_replicate]

section Shrunk

variable {size k : ℕ} (hsize : cheapPrepend + b.readable.length ≤ size)
include hsize

/-- The readable bytes come behind the reserve, and the rest are zeros. -/
theorem getElem?_shrunk : (b.shrunk size)[k]? =
    if cheapPrepend ≤ k ∧ k < cheapPrepend + b.readable.length then b.readable[k - cheapPrepend]?
    else if k < size then some 0 else none := by
  rw [shrunk, getElem?_writeAt (by rw [List.length_replicate]; exact hsize),
    List.getElem?_replicate]

/-- The bytes that are found at index `i` are the readable bytes themselves only
if `i` is where they have been put, or if they are zeros like those in front. -/
theorem slice_shrunk_iff {i : ℕ} (hi : i ≤ cheapPrepend) :
    slice (b.shrunk size) i b.readable.length = b.readable ↔
      i = cheapPrepend ∨ i < cheapPrepend ∧ ∀ x ∈ b.readable, x = 0 := by
  constructor
  · intro heq
    rcases Nat.eq_or_lt_of_le hi with hi | hi
    · exact Or.inl hi
    · have hread : ∀ k, k < b.readable.length → (b.shrunk size)[i + k]? = b.readable[k]? := by
        intro k hk
        rw [← congrArg (fun xs : Bytes => xs[k]?) heq, getElem?_slice, if_pos hk]
      have hzero : ∀ k, k < b.readable.length → b.readable[k]? = some 0 := by
        intro k
        induction k using Nat.strongRecOn with
        | ind k ih =>
          intro hk
          rw [← hread k hk, getElem?_shrunk hsize]
          split
          · next hmem => exact ih (i + k - cheapPrepend) (by omega) (by omega)
          · rw [if_pos (by omega)]
      refine Or.inr ⟨hi, fun x hx => ?_⟩
      obtain ⟨k, hk, hxk⟩ := List.getElem_of_mem hx
      have := hzero k hk
      rw [List.getElem?_eq_getElem hk, hxk] at this
      exact Option.some_inj.mp this
  · rintro (rfl | ⟨hlt, hzero⟩)
    · exact slice_writeAt_self (by rw [List.length_replicate]; exact hsize)
    · apply List.ext_getElem?
      intro k
      rw [getElem?_slice, getElem?_shrunk hsize]
      by_cases hk : k < b.readable.length
      · have hmem : ∀ j, j < b.readable.length → b.readable[j]? = some 0 := by
          intro j hj
          rw [List.getElem?_eq_getElem hj, hzero _ (List.getElem_mem hj)]
        rw [if_pos hk, hmem k hk]
        split
        · exact hmem _ (by omega)
        · exact if_pos (by omega)
      · rw [if_neg hk, List.getElem?_eq_none (by omega)]

end Shrunk

/-- The indices bound the room, so the size has not wrapped around. -/
theorem reader_le_of_reserve_le {size : ℕ} (h : b.WF)
    (hsize : SizeT.add (cheapPrepend + b.readable.length) reserve = size) (hmax : size ≤ maxSize)
    (hwriter : b.writerIndex ≤ size) (hreserve : reserve ≤ SizeT.sub size b.writerIndex) :
    size = cheapPrepend + b.readable.length + reserve ∧ b.readerIndex ≤ cheapPrepend := by
  have hlt := h.lt
  have hle := h.reader_le
  have hlen := h.length_readable
  have hold := h.writer_le
  rw [h.readableBytes_eq] at hlen
  rw [SizeT.sub_eq hwriter] at hreserve
  simp only [maxSize] at hmax
  have hadd : SizeT.add (cheapPrepend + b.readable.length) reserve =
      cheapPrepend + b.readable.length + reserve :=
    SizeT.add_eq (by simp only [cheapPrepend]; omega)
  rw [hadd] at hsize
  exact ⟨hsize.symm, by omega⟩

/-- Nothing less than `Shrinkable` will do. -/
theorem shrinkable_of_keptBy (h : b.WF) (hb' : b.shrink reserve = .ok b')
    (hkept : KeptBy b reserve b') : b.Shrinkable reserve := by
  obtain ⟨hmax, rfl⟩ := (shrink_eq_ok_iff h).mp hb'
  obtain ⟨hsize, hreader⟩ := reader_le_of_reserve_le h rfl hmax
    (by simpa only [length_shrunk] using hkept.writer_le)
    (by simpa only [writableBytes, length_shrunk] using hkept.reserve_le)
  rw [hsize] at hmax
  refine ⟨hmax, (slice_shrunk_iff (Nat.le_add_right _ reserve) hreader).mp ?_⟩
  have heq := hkept.readable_eq
  rwa [readable_replaced h, hsize] at heq

/-- Under `Shrinkable`, the bytes are kept and there is room for the reserve. -/
theorem shrink_yields (h : b.WF) (hs : b.Shrinkable reserve) :
    ∃ b', b.shrink reserve = .ok b' ∧ b'.WF ∧ b'.readable = b.readable ∧
      b'.writerIndex + reserve ≤ b'.buffer.length := by
  obtain ⟨hmax, hcase⟩ := hs
  have hle := h.reader_le
  have hlen := h.length_readable
  rw [h.readableBytes_eq] at hlen
  have hreader : b.readerIndex ≤ cheapPrepend := by
    rcases hcase with hcase | hcase
    · exact Nat.le_of_eq hcase
    · exact Nat.le_of_lt hcase.1
  have hadd : SizeT.add (cheapPrepend + b.readable.length) reserve =
      cheapPrepend + b.readable.length + reserve :=
    SizeT.add_eq (by simp only [maxSize] at hmax; omega)
  refine ⟨_, (shrink_eq_ok_iff h).mpr ⟨by rwa [hadd], rfl⟩, ⟨hle, ?_, ?_, ?_⟩, ?_, ?_⟩
  all_goals simp only [hadd, length_shrunk]
  · omega
  · exact hmax
  · omega
  · rw [readable_replaced h]
    exact (slice_shrunk_iff (Nat.le_add_right _ _) hreader).mpr hcase
  · omega

theorem keptBy_of_readable_eq (h : b'.WF) (hread : b'.readable = b.readable)
    (hroom : b'.writerIndex + reserve ≤ b'.buffer.length) : KeptBy b reserve b' where
  readable_eq := hread
  reader_le := h.reader_le
  writer_le := h.writer_le
  reserve_le := by
    rw [h.writableBytes_eq]
    omega
  runs ops c hrun := by
    obtain ⟨hwf, hc⟩ := Op.runs_yield h hrun
    refine ⟨by rw [hc, hread], fun op hop => ?_⟩
    obtain ⟨d, hd, -⟩ := Op.exec_yields hwf hop
    exact ⟨d, hd⟩

/-- `Shrink` keeps the bytes and the room exactly under `Shrinkable`. -/
theorem shrink_keeps_iff (h : b.WF) :
    (∃ b', b.shrink reserve = .ok b' ∧ KeptBy b reserve b') ↔ b.Shrinkable reserve := by
  constructor
  · rintro ⟨b', hb', hkept⟩
    exact shrinkable_of_keptBy h hb' hkept
  · intro hs
    obtain ⟨b', hb', hwf, hread, hroom⟩ := shrink_yields h hs
    exact ⟨b', hb', keptBy_of_readable_eq hwf hread hroom⟩

/-! ### Runs with Shrink -/

/-- What the caller owes: of `Shrink`, that the indices fit the new vector; of `Swap`,
a buffer that its own calls have left in order. -/
def Use.Admissible (b : Buffer) : Use → Prop
  | call op => op.Admissible b
  | shrink reserve => b.Shrinkable reserve
  | swap rhs => rhs.WF

instance : Decidable b.WF :=
  decidable_of_iff (b.readerIndex ≤ b.writerIndex ∧ b.writerIndex ≤ b.buffer.length ∧
      b.buffer.length ≤ maxSize ∧ cheapPrepend ≤ b.buffer.length)
    ⟨fun h => ⟨h.1, h.2.1, h.2.2.1, h.2.2.2⟩, fun h => ⟨h.1, h.2, h.3, h.4⟩⟩

instance (b : Buffer) (u : Use) : Decidable (u.Admissible b) :=
  match u with
  | .call op => inferInstanceAs (Decidable (op.Admissible b))
  | .shrink reserve => inferInstanceAs (Decidable (b.Shrinkable reserve))
  | .swap rhs => inferInstanceAs (Decidable rhs.WF)

/-- Such a call succeeds, and the buffer stays in order. -/
theorem Use.exec_wf {u : Use} (h : b.WF) (hu : u.Admissible b) :
    ∃ b', u.exec b = .ok b' ∧ b'.WF := by
  cases u with
  | call op =>
    obtain ⟨b', hb', hwf, -⟩ := Op.exec_yields h hu
    exact ⟨b', hb', hwf⟩
  | shrink reserve =>
    obtain ⟨b', hb', hwf, -⟩ := shrink_yields h hu
    exact ⟨b', hb', hwf⟩
  | swap rhs => exact ⟨rhs, rfl, hu⟩

/-- A call on one of the buffers, `Shrink` included. -/
inductive Call (ι : Type*)
  | cmd (c : Cmd ι)
  | shrink (i : ι) (reserve : ℕ)
  deriving DecidableEq, Repr

namespace Call

variable {ι : Type*} [DecidableEq ι]

/-- A command, or a `Shrink` of one buffer. -/
def exec (bufs : ι → Buffer) : Call ι → Except Fault (ι → Buffer)
  | cmd c => c.exec bufs
  | shrink i reserve => ((bufs i).shrink reserve).map (Function.update bufs i)

/-- What the callers owe, and of `Shrink` that the indices fit the new vector. -/
def Admissible (bufs : ι → Buffer) : Call ι → Prop
  | cmd c => c.Admissible bufs
  | shrink i reserve => (bufs i).Shrinkable reserve

instance (bufs : ι → Buffer) (c : Call ι) : Decidable (c.Admissible bufs) :=
  match c with
  | cmd c => inferInstanceAs (Decidable (c.Admissible bufs))
  | shrink i reserve => inferInstanceAs (Decidable ((bufs i).Shrinkable reserve))

/-- The machine: a fault ends the run. -/
def step (bufs : ι → Buffer) (c : Call ι) : Option (ι → Buffer) := (c.exec bufs).toOption

/-- A call within its bounds leaves every buffer well formed, a `Shrink` too. -/
theorem wf_of_step {bufs bufs' : ι → Buffer} {c : Call ι} (h : ∀ i, (bufs i).WF)
    (hc : c.Admissible bufs) (hstep : step bufs c = some bufs') (i : ι) : (bufs' i).WF := by
  cases c with
  | cmd c =>
    obtain ⟨t, hexec, hwf, -⟩ := Cmd.exec_yields h hc
    obtain rfl : t = bufs' := by simpa [hexec] using Cmd.step_eq_some hstep
    exact hwf i
  | shrink j reserve =>
    obtain ⟨b', hb', hwf, -⟩ := shrink_yields (h j) hc
    obtain rfl : Function.update bufs j b' = bufs' := by
      simpa [step, exec, hb', Except.map, Except.toOption] using hstep
    by_cases hi : i = j
    · rw [hi, Function.update_self]
      exact hwf
    · rw [Function.update_of_ne hi]
      exact h i

end Call

section Runs

variable {ι : Type*} [DecidableEq ι] {calls : List (Call ι)} {bufs : ι → Buffer}

/-- **Shrink keeps a buffer exactly where its indices fit the new vector.** In
every state that is reached with such calls only, for every buffer and reserve. -/
theorem shrink_keeps_iff_of_reach
    (hrun : Reach Call.step Call.Admissible (fun _ => new) calls bufs) (i : ι) (reserve : ℕ) :
    (∃ b', (bufs i).shrink reserve = .ok b' ∧ KeptBy (bufs i) reserve b') ↔
      (bufs i).Shrinkable reserve := by
  have hwf : ∀ i, (bufs i).WF := by
    apply hrun.invariant (I := fun bufs => ∀ i, (bufs i).WF) fun _ => wf_new
    intro _ s c t _ hs hc hstep
    exact Call.wf_of_step hs hc hstep
  exact shrink_keeps_iff (hwf i)

end Runs

/-- A fresh buffer shrunk, filled and shrunk again. -/
theorem shrink_keeps_iff_of_reach_filled :
    ∃ bufs : Unit → Buffer,
      Reach Call.step Call.Admissible (fun _ => new)
        [.shrink () 2, .cmd (.on () (.append [1, 2]))] bufs ∧
      ∃ b', (bufs ()).shrink 3 = .ok b' ∧ KeptBy (bufs ()) 3 b' := by
  have hrun : Reach Call.step Call.Admissible (fun _ : Unit => new)
      [.shrink () 2, .cmd (.on () (.append [1, 2]))] _ := reach_of_runIf rfl
  exact ⟨_, hrun, (shrink_keeps_iff_of_reach hrun () 3).mpr (by decide)⟩

/-- Half of what was appended is read, and `Shrink(0)` leaves a vector of ten
bytes with `reader_index_` 10 and `writer_index_` 12. -/
theorem not_shrink_keeps_read :
    ∃ bufs : Unit → Buffer,
      Reach Call.step Call.Admissible (fun _ => new)
        [.cmd (.on () (.append [1, 2, 3, 4])), .cmd (.on () (.retrieve 2))] bufs ∧
      (bufs ()).shrink 0 = .ok ⟨[0, 0, 0, 0, 0, 0, 0, 0, 3, 4], 10, 12⟩ ∧
      ¬ ∃ b', (bufs ()).shrink 0 = .ok b' ∧ KeptBy (bufs ()) 0 b' := by
  have hsome : (runIf Call.step Call.Admissible (fun _ : Unit => new)
      [.cmd (.on () (.append [1, 2, 3, 4])), .cmd (.on () (.retrieve 2))]).isSome = true := by
    decide +kernel
  have hshrink : ((Option.get _ hsome) ()).shrink 0 =
      .ok ⟨[0, 0, 0, 0, 0, 0, 0, 0, 3, 4], 10, 12⟩ := by
    decide +kernel +revert
  refine ⟨_, reach_get hsome, hshrink, ?_⟩
  rintro ⟨b', hb', hkept⟩
  obtain rfl := Except.ok.inj (hshrink.symm.trans hb')
  exact absurd hkept.writer_le (by decide)

end Buffer
end Bbkgl
