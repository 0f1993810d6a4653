import Goshimmer.Library.Run
import Goshimmer.Utils.ByteBuffer

/-!
# Byte buffers as byte lists

A buffer which went through any calls, each with its own outcome of the allocation, holds in its first bytes
the list which the successful calls describe, and stays inside its block. The one call which leaves the
block is `byte_buf2str` on a buffer which has a block and no byte in use: the last byte, which it looks at,
is then at the position before the first one.
-/

namespace Goshimmer

/-- `byte_buf_set`; a null pointer is refused. -/
def byteBufSet (alloc : Allocation) (buf : ByteBuf) (data : Option (List Byte)) : Bool × ByteBuf :=
  match data with
  | none => (false, buf)
  | some data =>
    match byteBufReserve alloc buf (UInt64.ofNat data.length) with
    | (false, buf) => (false, buf)
    | (true, buf) =>
      (true, { buf with data := overwrite buf.data 0 data, len := UInt64.ofNat data.length })

/-- `byte_buf2str`; `outside` is what is found outside the block. A buffer without a block is left alone.
The verdict is that of the append, which the source does not pass on. -/
def byteBuf2Str (alloc : Allocation) (outside : Byte) (buf : ByteBuf) : Bool × ByteBuf :=
  if buf.data.isEmpty then (true, buf)
  else if buf.data.getD (buf.len - 1).toNat outside ≠ 0 then byteBufAppend alloc buf [0]
  else (true, buf)

/-- The calls on a buffer; `none` is a null pointer. -/
inductive BufferOp
  | append (data : Option (List Byte))
  | set (data : Option (List Byte))
  | reserve (len : UInt64)
  | toStr

/-- A call with the outcome of its allocation and what it may find outside the block. -/
structure BufferCall where
  op : BufferOp
  alloc : Allocation
  outside : Byte

/-- The verdict of a call and the buffer after it. -/
def BufferCall.run (buf : ByteBuf) (call : BufferCall) : Bool × ByteBuf :=
  match call.op with
  | .append none => (false, buf)
  | .append (some data) => byteBufAppend call.alloc buf data
  | .set data => byteBufSet call.alloc buf data
  | .reserve len => byteBufReserve call.alloc buf len
  | .toStr => byteBuf2Str call.alloc call.outside buf

/-- The positions which an append writes. -/
def appendWrites (alloc : Allocation) (buf : ByteBuf) (data : List Byte) : List ℕ :=
  if (byteBufAppend alloc buf data).1 then List.range' buf.len.toNat data.length else []

/-- The positions which setting a buffer writes. -/
def setWrites (alloc : Allocation) (buf : ByteBuf) (data : List Byte) : List ℕ :=
  if (byteBufSet alloc buf (some data)).1 then List.range data.length else []

/-- The positions which `byte_buf2str` writes. -/
def toStrWrites (alloc : Allocation) (outside : Byte) (buf : ByteBuf) : List ℕ :=
  if buf.data.isEmpty then []
  else if buf.data.getD (buf.len - 1).toNat outside ≠ 0 then appendWrites alloc buf [0]
  else []

/-- The positions which a call reads before it reserves memory. -/
def BufferCall.reads (buf : ByteBuf) (call : BufferCall) : List ℕ :=
  match call.op with
  | .toStr => if buf.data.isEmpty then [] else [(buf.len - 1).toNat]
  | _ => []

/-- The positions which a call writes after it has reserved memory. -/
def BufferCall.writes (buf : ByteBuf) (call : BufferCall) : List ℕ :=
  match call.op with
  | .append (some data) => appendWrites call.alloc buf data
  | .set (some data) => setWrites call.alloc buf data
  | .toStr => toStrWrites call.alloc call.outside buf
  | _ => []

/-- The size which a call asks for. -/
def BufferOp.size : BufferOp → ℕ
  | .append data => (data.getD []).length
  | .set data => (data.getD []).length
  | .reserve len => len.toNat
  | .toStr => 1

/-- What a successful call makes of a byte list. -/
def BufferOp.onBytes (bytes : List Byte) : BufferOp → List Byte
  | .append data => bytes ++ data.getD []
  | .set data => data.getD []
  | .reserve _ => bytes
  | .toStr =>
    match bytes.getLast? with
    | none => bytes
    | some last => if last = 0 then bytes else bytes ++ [0]

/-- A buffer with the byte list which the successful calls on it describe. -/
structure BufferState where
  buf : ByteBuf
  bytes : List Byte

/-- One call on the buffer, and on the list if it succeeds. -/
def BufferState.step (s : BufferState) (call : BufferCall) : BufferState where
  buf := (call.run s.buf).2
  bytes := if (call.run s.buf).1 then call.op.onBytes s.bytes else s.bytes

/-- The buffer holds the list, its length fits the capacity, and its block has the capacity. -/
structure BufferState.Refines (s : BufferState) : Prop where
  sized : s.buf.Sized
  contents : s.buf.contents = s.bytes

/-- A call leaves a buffer which holds the list, changes nothing when it fails, and stays inside the
capacity. -/
structure BufferState.RightCall (s : BufferState) (call : BufferCall) : Prop where
  refines : (s.step call).Refines
  failed : (call.run s.buf).1 = false → (call.run s.buf).2 = s.buf
  reads : ∀ pos ∈ call.reads s.buf, pos < s.buf.cap.toNat
  writes : ∀ pos ∈ call.writes s.buf, pos < (call.run s.buf).2.cap.toNat

/-- `byte_buf2str` on a buffer which has a block and no byte in use. -/
def BufferState.LooksBeforeStart (s : BufferState) (call : BufferCall) : Prop :=
  call.op = .toStr ∧ s.buf.len = 0 ∧ 0 < s.buf.cap

/-! ## What the calls do -/

/-- A refused call leaves the buffer as it was. -/
theorem byteBufSet_of_refused {alloc : Allocation} {buf buf' : ByteBuf} {data : Option (List Byte)}
    (hset : byteBufSet alloc buf data = (false, buf')) : buf' = buf := by
  cases data with
  | none => exact (Prod.mk.inj hset).2.symm
  | some data =>
    unfold byteBufSet at hset
    dsimp only at hset
    split at hset
    · next refused hreserve =>
      rw [← (Prod.mk.inj hset).2]
      exact byteBufReserve_of_refused hreserve
    · exact absurd (congrArg Prod.fst hset).symm Bool.false_ne_true

/-- What setting a buffer leaves which succeeds: the bytes in use are the given ones. -/
structure ByteBuf.SetTo (data : List Byte) (buf' : ByteBuf) : Prop where
  sized : buf'.Sized
  len_eq : buf'.len.toNat = data.length
  contents_eq : buf'.contents = data

/-- A buffer which is set holds the given bytes. -/
theorem ByteBuf.Sized.setTo {alloc : Allocation} {buf buf' : ByteBuf} {data : List Byte} (h : buf.Sized)
    (hset : byteBufSet alloc buf (some data) = (true, buf')) (hfit : data.length < 2 ^ 64) :
    buf'.SetTo data := by
  have hlength : (UInt64.ofNat data.length).toNat = data.length := UInt64.toNat_ofNat_of_lt' hfit
  unfold byteBufSet at hset
  dsimp only at hset
  split at hset
  · exact absurd (congrArg Prod.fst hset) Bool.false_ne_true
  · next reserved hreserve =>
    have hreserved := h.reserved hreserve
    have hroom : 0 + data.length ≤ reserved.data.length := by
      rw [hreserved.sized.block_length, hreserved.cap_eq, hlength]
      omega
    have hwritten := hreserved.sized.overwritten (hlength.trans (Nat.zero_add _).symm) hroom
    rw [← (Prod.mk.inj hset).2]
    exact ⟨hwritten.1, hlength, hwritten.2⟩

/-- The last byte in use, where there is one. -/
theorem ByteBuf.Sized.getLast?_contents {buf : ByteBuf} (h : buf.Sized) (hlen : 0 < buf.len.toNat)
    (outside : Byte) :
    buf.contents.getLast? = some (buf.data.getD (buf.len - 1).toNat outside) := by
  have hle := UInt64.le_iff_toNat_le.mp h.len_le
  have hlast : (buf.len - 1).toNat = buf.len.toNat - 1 :=
    UInt64.toNat_sub_of_le _ _ (UInt64.le_iff_toNat_le.mpr hlen)
  have hinside : buf.len.toNat - 1 < buf.data.length := by
    rw [h.block_length]
    omega
  rw [List.getLast?_eq_getElem?, h.contents_length, ByteBuf.contents, List.getElem?_take_of_lt (by omega), hlast,
    List.getD_eq_getElem?_getD, List.getElem?_eq_getElem hinside, Option.getD_some]

/-- A buffer without a block has no byte in use. -/
theorem ByteBuf.contents_of_isEmpty {buf : ByteBuf} (hempty : buf.data.isEmpty = true) :
    buf.contents = [] := by
  rw [ByteBuf.contents, List.isEmpty_iff.mp hempty, List.take_nil]

/-- Where there is no block or a byte in use, `byte_buf2str` looks at the last byte in use and appends a NUL
to another one. -/
theorem ByteBuf.Sized.toStr_eq {buf : ByteBuf} (h : buf.Sized) (alloc : Allocation) (outside : Byte)
    (hlooks : buf.data.isEmpty = true ∨ 0 < buf.len.toNat) :
    byteBuf2Str alloc outside buf =
      match buf.contents.getLast? with
      | none => (true, buf)
      | some last => if last = 0 then (true, buf) else byteBufAppend alloc buf [0] := by
  rw [byteBuf2Str]
  cases hempty : buf.data.isEmpty with
  | true =>
    rw [ByteBuf.contents_of_isEmpty hempty]
    rfl
  | false =>
    have hlen : 0 < buf.len.toNat := hlooks.resolve_left (by rw [hempty]; exact Bool.false_ne_true)
    rw [h.getLast?_contents hlen outside, if_neg Bool.false_ne_true, ite_not]

/-- A refused append of the NUL leaves the buffer as it was. -/
theorem byteBuf2Str_of_refused {alloc : Allocation} {outside : Byte} {buf buf' : ByteBuf}
    (htoStr : byteBuf2Str alloc outside buf = (false, buf')) : buf' = buf := by
  unfold byteBuf2Str at htoStr
  split at htoStr
  · exact (Prod.mk.inj htoStr).2.symm
  · split at htoStr
    · exact byteBufAppend_of_refused htoStr
    · exact (Prod.mk.inj htoStr).2.symm

/-! ## One call -/

/-- Where a call does not look before the start, there is no block or a byte in use. -/
theorem BufferState.Refines.isEmpty_or_pos {s : BufferState} (h : s.Refines) {call : BufferCall}
    (htoStr : call.op = .toStr) (hlooks : ¬ s.LooksBeforeStart call) :
    s.buf.data.isEmpty = true ∨ 0 < s.buf.len.toNat := by
  by_cases hlen : s.buf.len = 0
  · have hcap : s.buf.cap ≤ 0 := UInt64.not_lt.mp fun hcap => hlooks ⟨htoStr, hlen, hcap⟩
    rw [List.isEmpty_iff_length_eq_zero, h.sized.block_length]
    exact Or.inl (Nat.le_zero.mp (UInt64.le_iff_toNat_le.mp hcap))
  · exact Or.inr (UInt64.lt_iff_toNat_lt.mp (UInt64.pos_iff_ne_zero.mpr hlen))

/-- A call reads inside the capacity unless it looks before the start. -/
theorem BufferState.Refines.reads_inside_iff {s : BufferState} (h : s.Refines) (call : BufferCall) :
    (∀ pos ∈ call.reads s.buf, pos < s.buf.cap.toNat) ↔ ¬ s.LooksBeforeStart call := by
  constructor
  · rintro hreads ⟨htoStr, hlen, hcap⟩
    have hblock : s.buf.data.isEmpty = false := by
      rw [Bool.eq_false_iff, ne_eq, List.isEmpty_iff_length_eq_zero, h.sized.block_length]
      exact (UInt64.lt_iff_toNat_lt.mp hcap).ne'
    have hbound := hreads (2 ^ 64 - 1) (by simp [BufferCall.reads, htoStr, hblock, hlen])
    have hsize := s.buf.cap.toNat_lt
    omega
  · intro hlooks pos hpos
    cases hop : call.op with
    | toStr =>
      have hle := UInt64.le_iff_toNat_le.mp h.sized.len_le
      simp only [BufferCall.reads, hop] at hpos
      rcases h.isEmpty_or_pos hop hlooks with hempty | hlen
      · simp [hempty] at hpos
      · have hlast : (s.buf.len - 1).toNat = s.buf.len.toNat - 1 :=
          UInt64.toNat_sub_of_le _ _ (UInt64.le_iff_toNat_le.mpr hlen)
        have hpos' : pos = s.buf.len.toNat - 1 := by
          split at hpos
          · exact absurd hpos List.not_mem_nil
          · rw [List.mem_singleton.mp hpos, hlast]
        omega
    | append data => simp [BufferCall.reads, hop] at hpos
    | set data => simp [BufferCall.reads, hop] at hpos
    | reserve len => simp [BufferCall.reads, hop] at hpos

/-- A failed call changes nothing. -/
theorem BufferCall.run_of_failed {buf : ByteBuf} {call : BufferCall} (hfailed : (call.run buf).1 = false) :
    (call.run buf).2 = buf := by
  obtain ⟨op, alloc, outside⟩ := call
  cases op with
  | append data =>
    cases data with
    | none => rfl
    | some data => exact byteBufAppend_of_refused (Prod.ext hfailed rfl)
  | set data => exact byteBufSet_of_refused (Prod.ext hfailed rfl)
  | reserve len => exact byteBufReserve_of_refused (Prod.ext hfailed rfl)
  | toStr => exact byteBuf2Str_of_refused (Prod.ext hfailed rfl)

/-- A successful call leaves a buffer with the given bytes, which has grown by no more than a size. -/
structure ByteBuf.Becomes (buf buf' : ByteBuf) (bytes : List Byte) (size : ℕ) : Prop where
  sized : buf'.Sized
  contents_eq : buf'.contents = bytes
  len_le : buf'.len.toNat ≤ buf.len.toNat + size

/-- An append adds its bytes. -/
theorem ByteBuf.Appended.becomes {buf buf' : ByteBuf} {data : List Byte} (h : buf.Appended data buf') :
    buf.Becomes buf' (buf.contents ++ data) data.length :=
  ⟨h.sized, h.contents_eq, h.len_eq.le⟩

/-- A buffer which is set has the given bytes. -/
theorem ByteBuf.SetTo.becomes {buf buf' : ByteBuf} {data : List Byte} (h : buf'.SetTo data) :
    buf.Becomes buf' data data.length :=
  ⟨h.sized, h.contents_eq, h.len_eq.le.trans (Nat.le_add_left _ _)⟩

/-- A reservation leaves the bytes as they are. -/
theorem ByteBuf.Reserved.becomes {buf buf' : ByteBuf} {len : UInt64} (h : buf.Reserved len buf') (size : ℕ) :
    buf.Becomes buf' buf.contents size :=
  ⟨h.sized, h.contents_eq, (congrArg UInt64.toNat h.len_eq).le.trans (Nat.le_add_right _ _)⟩

/-- `byte_buf2str` makes of the bytes what it makes of the list. -/
theorem ByteBuf.Sized.toStr_becomes {buf buf' : ByteBuf} (h : buf.Sized) {alloc : Allocation} {outside : Byte}
    (hlooks : buf.data.isEmpty = true ∨ 0 < buf.len.toNat) (hfit : buf.len.toNat + 1 < 2 ^ 64)
    (htoStr : byteBuf2Str alloc outside buf = (true, buf')) :
    buf.Becomes buf' (BufferOp.toStr.onBytes buf.contents) 1 := by
  have hkept : buf.Becomes buf buf.contents 1 := ⟨h, rfl, Nat.le_add_right _ _⟩
  rw [h.toStr_eq alloc outside hlooks] at htoStr
  rw [BufferOp.onBytes]
  cases hlast : buf.contents.getLast? with
  | none =>
    rw [hlast] at htoStr
    rwa [← (Prod.mk.inj htoStr).2]
  | some last =>
    simp only [hlast] at htoStr ⊢
    by_cases hzero : last = 0
    · rw [if_pos hzero] at htoStr ⊢
      rwa [← (Prod.mk.inj htoStr).2]
    · rw [if_neg hzero] at htoStr ⊢
      exact (h.appended htoStr hfit).becomes

/-- A call which succeeds makes of the buffer what it makes of the list. -/
theorem BufferState.Refines.run_of_done {s : BufferState} (h : s.Refines) {call : BufferCall}
    (hdone : (call.run s.buf).1 = true) (hfit : s.buf.len.toNat + call.op.size < 2 ^ 64)
    (hlooks : ¬ s.LooksBeforeStart call) :
    s.buf.Becomes (call.run s.buf).2 (call.op.onBytes s.bytes) call.op.size := by
  rw [← h.contents]
  obtain ⟨op, alloc, outside⟩ := call
  cases op with
  | append data =>
    cases data with
    | none => exact absurd hdone Bool.false_ne_true
    | some data => exact (h.sized.appended (Prod.ext hdone rfl) hfit).becomes
  | set data =>
    cases data with
    | none => exact absurd hdone Bool.false_ne_true
    | some data =>
      have hsize : data.length < 2 ^ 64 := (Nat.le_add_left _ _).trans_lt hfit
      exact (h.sized.setTo (Prod.ext hdone rfl) hsize).becomes
  | reserve len => exact (h.sized.reserved (Prod.ext hdone rfl)).becomes _
  | toStr => exact h.sized.toStr_becomes (h.isEmpty_or_pos rfl hlooks) hfit (Prod.ext hdone rfl)

/-- An append writes inside the capacity. -/
theorem ByteBuf.Sized.appendWrites_inside {buf : ByteBuf} (h : buf.Sized) {alloc : Allocation}
    (data : List Byte) (hfit : buf.len.toNat + data.length < 2 ^ 64) :
    ∀ pos ∈ appendWrites alloc buf data, pos < (byteBufAppend alloc buf data).2.cap.toNat := by
  intro pos hpos
  rw [appendWrites] at hpos
  split at hpos
  · next hdone =>
    have happended := h.appended (Prod.ext hdone rfl) hfit
    have hlen := UInt64.le_iff_toNat_le.mp happended.sized.len_le
    rw [happended.len_eq] at hlen
    exact (List.mem_range'_1.mp hpos).2.trans_le hlen
  · exact absurd hpos List.not_mem_nil

/-- Setting a buffer writes inside the capacity. -/
theorem ByteBuf.Sized.setWrites_inside {buf : ByteBuf} (h : buf.Sized) {alloc : Allocation}
    {data : List Byte} (hfit : data.length < 2 ^ 64) :
    ∀ pos ∈ setWrites alloc buf data, pos < (byteBufSet alloc buf (some data)).2.cap.toNat := by
  intro pos hpos
  rw [setWrites] at hpos
  split at hpos
  · next hdone =>
    have hset := h.setTo (Prod.ext hdone rfl) hfit
    have hlen := UInt64.le_iff_toNat_le.mp hset.sized.len_le
    rw [hset.len_eq] at hlen
    exact (List.mem_range.mp hpos).trans_le hlen
  · exact absurd hpos List.not_mem_nil

/-- `byte_buf2str` writes inside the capacity. -/
theorem ByteBuf.Sized.toStrWrites_inside {buf : ByteBuf} (h : buf.Sized) {alloc : Allocation}
    {outside : Byte} (hfit : buf.len.toNat + 1 < 2 ^ 64) :
    ∀ pos ∈ toStrWrites alloc outside buf, pos < (byteBuf2Str alloc outside buf).2.cap.toNat := by
  intro pos hpos
  rw [toStrWrites] at hpos
  rw [byteBuf2Str]
  split at hpos
  · exact absurd hpos List.not_mem_nil
  · next hblock =>
    split at hpos
    · next happends =>
      rw [if_neg hblock, if_pos happends]
      exact h.appendWrites_inside [0] hfit pos hpos
    · exact absurd hpos List.not_mem_nil

/-- A call writes inside the capacity which it leaves. -/
theorem ByteBuf.Sized.writes_inside {buf : ByteBuf} (h : buf.Sized) {call : BufferCall}
    (hfit : buf.len.toNat + call.op.size < 2 ^ 64) :
    ∀ pos ∈ call.writes buf, pos < (call.run buf).2.cap.toNat := by
  intro pos hpos
  obtain ⟨op, alloc, outside⟩ := call
  cases op with
  | append data =>
    cases data with
    | none => exact absurd hpos List.not_mem_nil
    | some data => exact h.appendWrites_inside data hfit pos hpos
  | set data =>
    cases data with
    | none => exact absurd hpos List.not_mem_nil
    | some data => exact h.setWrites_inside ((Nat.le_add_left _ _).trans_lt hfit) pos hpos
  | reserve len => exact absurd hpos List.not_mem_nil
  | toStr => exact h.toStrWrites_inside hfit pos hpos

/-- A call on a buffer which holds its list is right exactly when it does not look before the start. -/
theorem BufferState.Refines.rightCall_iff {s : BufferState} (h : s.Refines) {call : BufferCall}
    (hfit : s.buf.len.toNat + call.op.size < 2 ^ 64) : s.RightCall call ↔ ¬ s.LooksBeforeStart call := by
  rw [← h.reads_inside_iff call]
  constructor
  · exact fun hright => hright.reads
  · intro hreads
    refine ⟨?_, BufferCall.run_of_failed, hreads, h.sized.writes_inside hfit⟩
    cases hdone : (call.run s.buf).1 with
    | true =>
      have hrun := h.run_of_done hdone hfit ((h.reads_inside_iff call).mp hreads)
      exact ⟨hrun.sized, by rw [BufferState.step, hdone, if_pos rfl]; exact hrun.contents_eq⟩
    | false =>
      have hkept : s.step call = s := by
        rw [BufferState.step, hdone, BufferCall.run_of_failed hdone, if_neg Bool.false_ne_true]
      rw [hkept]
      exact h

/-! ## Sequences of calls -/

/-- A new buffer and the empty list. -/
def bufferStart : BufferState := ⟨byteBufNew, []⟩

/-- The sizes of calls together. -/
def totalSize (calls : List BufferCall) : ℕ := (calls.map fun call => call.op.size).sum

/-- The buffer holds its list, and the calls to come do not make its length wrap. -/
structure BufferState.Fits (s : BufferState) (rest : List BufferCall) : Prop where
  refines : s.Refines
  total_lt : s.buf.len.toNat + totalSize rest < 2 ^ 64

/-- The next call does not make the length wrap. -/
theorem BufferState.Fits.next {s : BufferState} {call : BufferCall} {rest : List BufferCall}
    (h : s.Fits (call :: rest)) : s.buf.len.toNat + call.op.size < 2 ^ 64 := by
  have htotal := h.total_lt
  rw [totalSize, List.map_cons, List.sum_cons] at htotal
  omega

/-- A call which does not look before the start carries this on to the rest. -/
theorem BufferState.Fits.step {s : BufferState} {call : BufferCall} {rest : List BufferCall}
    (h : s.Fits (call :: rest)) (hlooks : ¬ s.LooksBeforeStart call) : (s.step call).Fits rest := by
  have hright := (h.refines.rightCall_iff h.next).mpr hlooks
  have hlen : (s.step call).buf.len.toNat ≤ s.buf.len.toNat + call.op.size := by
    cases hdone : (call.run s.buf).1 with
    | true => exact (h.refines.run_of_done hdone h.next hlooks).len_le
    | false =>
      rw [BufferState.step, hright.failed hdone]
      exact Nat.le_add_right _ _
  refine ⟨hright.refines, ?_⟩
  have htotal := h.total_lt
  rw [totalSize, List.map_cons, List.sum_cons] at htotal
  rw [totalSize]
  omega

/-- Where the sizes sum to less than 2^64, all calls on a new buffer are right exactly when none of them
looks before the start. -/
theorem rightCalls_iff (calls : List BufferCall) (hsize : totalSize calls < 2 ^ 64) :
    Throughout BufferState.step BufferState.RightCall bufferStart calls ↔
      Throughout BufferState.step (fun s call => ¬ s.LooksBeforeStart call) bufferStart calls := by
  have hstart : bufferStart.Fits calls := by
    refine ⟨⟨sized_byteBufNew, rfl⟩, ?_⟩
    show 0 + totalSize calls < 2 ^ 64
    rwa [Nat.zero_add]
  apply Throughout.iff_of_invariant _ _ hstart
  · exact fun hfits hlooks => hfits.step hlooks
  · exact fun hfits => hfits.refines.rightCall_iff hfits.next

/-- A text is appended and ended by a NUL. -/
def textCalls : List BufferCall :=
  [⟨.append (some [72, 105]), ⟨true, fun _ => 0⟩, 0⟩, ⟨.toStr, ⟨true, fun _ => 0⟩, 0⟩]

/-- These calls are right. -/
theorem rightCalls_iff_text :
    Throughout BufferState.step BufferState.RightCall bufferStart textCalls := by
  apply (rightCalls_iff textCalls (by decide)).mpr
  refine ⟨fun hlooks => ?_, fun hlooks => ?_, trivial⟩
  · exact BufferOp.noConfusion hlooks.1
  · exact absurd hlooks.2.1 (by decide)

/-- A buffer is reserved and made a text. -/
theorem toStr_looks_before_start :
    ¬ ∀ calls : List BufferCall, totalSize calls < 2 ^ 64 →
      Throughout BufferState.step BufferState.RightCall bufferStart calls := by
  intro h
  have hright := h [⟨.reserve 8, ⟨true, fun _ => 0⟩, 0⟩, ⟨.toStr, ⟨true, fun _ => 0⟩, 0⟩] (by decide)
  exact absurd hright.2.1.reads (by decide)

end Goshimmer
