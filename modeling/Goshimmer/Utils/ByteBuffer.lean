import Goshimmer.Core.Types
import Goshimmer.Library.BlockWriter

/-!
# Growable byte buffers

`utils/byte_buffer.c`. A buffer is an allocated block with a capacity and the number of bytes
in use. Growing reallocates: the old bytes are kept and the new ones are indeterminate. The
caller of a function passes the outcome of the allocation the call may request.
-/

namespace Goshimmer

/-- `byte_buf_t`: the allocated block, the bytes in use and the capacity. -/
structure ByteBuf where
  data : List Byte
  len : UInt64
  cap : UInt64
  deriving DecidableEq

/-- The bytes in use. -/
def ByteBuf.contents (buf : ByteBuf) : List Byte := buf.data.take buf.len.toNat

/-- `byte_buf_new`. -/
def byteBufNew : ByteBuf := ⟨[], 0, 0⟩

/-- `realloc`: keep the old bytes and extend them with indeterminate ones. -/
def Allocation.grow (alloc : Allocation) (data : List Byte) (size : ℕ) : List Byte :=
  data.take size ++ (alloc.block size).drop data.length

/-- `byte_buf_reserve`. -/
def byteBufReserve (alloc : Allocation) (buf : ByteBuf) (len : UInt64) : Bool × ByteBuf :=
  if len ≤ buf.cap then (true, buf)
  else if alloc.granted then
    (true, { buf with data := alloc.grow buf.data len.toNat, cap := len })
  else (false, buf)

/-- `byte_buf_append`. -/
def byteBufAppend (alloc : Allocation) (buf : ByteBuf) (data : List Byte) : Bool × ByteBuf :=
  let neededCap := buf.len + UInt64.ofNat data.length
  match byteBufReserve alloc buf neededCap with
  | (false, buf) => (false, buf)
  | (true, buf) =>
    (true, { buf with
      data := overwrite buf.data buf.len.toNat data
      len := buf.len + UInt64.ofNat data.length })

/-- A refused reservation leaves the buffer as it was. -/
theorem byteBufReserve_of_refused {alloc : Allocation} {buf buf' : ByteBuf} {len : UInt64}
    (h : byteBufReserve alloc buf len = (false, buf')) : buf' = buf := by
  unfold byteBufReserve at h
  split at h
  · simp at h
  · split at h
    · simp at h
    · exact (Prod.mk.inj h).2.symm

/-- A refused append leaves the buffer as it was. -/
theorem byteBufAppend_of_refused {alloc : Allocation} {buf buf' : ByteBuf} {data : List Byte}
    (h : byteBufAppend alloc buf data = (false, buf')) : buf' = buf := by
  unfold byteBufAppend at h
  dsimp only at h
  split at h
  · next hreserve =>
    obtain rfl := (Prod.mk.inj h).2
    exact byteBufReserve_of_refused hreserve
  · simp at h

/-! ## Buffers whose block has the declared capacity -/

/-- The block has the size of the capacity, and the bytes in use fit it. -/
structure ByteBuf.Sized (buf : ByteBuf) : Prop where
  block_length : buf.data.length = buf.cap.toNat
  len_le : buf.len ≤ buf.cap

/-- A new buffer has no block. -/
theorem sized_byteBufNew : byteBufNew.Sized := ⟨rfl, UInt64.le_refl 0⟩

/-- There are as many bytes in use as the length says. -/
theorem ByteBuf.Sized.contents_length {buf : ByteBuf} (h : buf.Sized) :
    buf.contents.length = buf.len.toNat := by
  have hle := UInt64.le_iff_toNat_le.mp h.len_le
  rw [ByteBuf.contents, List.length_take, h.block_length]
  omega

/-- A grown block has the requested size. -/
@[simp] theorem Allocation.length_grow (alloc : Allocation) (data : List Byte) (size : ℕ) :
    (alloc.grow data size).length = size := by
  rw [Allocation.grow, List.length_append, List.length_take, List.length_drop, Allocation.block_length]
  omega

/-- Growing keeps the first bytes. -/
theorem take_grow (alloc : Allocation) (data : List Byte) {n size : ℕ} (hdata : n ≤ data.length)
    (hsize : n ≤ size) : (alloc.grow data size).take n = data.take n := by
  rw [Allocation.grow, List.take_append_of_le_length (by rw [List.length_take]; omega), List.take_take,
    Nat.min_eq_left hsize]

/-- What a reservation leaves which succeeds: there is room, and the bytes in use are the old ones. -/
structure ByteBuf.Reserved (buf : ByteBuf) (len : UInt64) (buf' : ByteBuf) : Prop where
  sized : buf'.Sized
  len_eq : buf'.len = buf.len
  contents_eq : buf'.contents = buf.contents
  cap_eq : buf'.cap.toNat = max buf.cap.toNat len.toNat

/-- A reservation which succeeds makes room and keeps the bytes in use. -/
theorem ByteBuf.Sized.reserved {alloc : Allocation} {buf buf' : ByteBuf} {len : UInt64} (h : buf.Sized)
    (hreserve : byteBufReserve alloc buf len = (true, buf')) : buf.Reserved len buf' := by
  have hle := UInt64.le_iff_toNat_le.mp h.len_le
  unfold byteBufReserve at hreserve
  by_cases hroom : len ≤ buf.cap
  · rw [if_pos hroom] at hreserve
    rw [← (Prod.mk.inj hreserve).2]
    exact ⟨h, rfl, rfl, (Nat.max_eq_left (UInt64.le_iff_toNat_le.mp hroom)).symm⟩
  · have hgrows := UInt64.lt_iff_toNat_lt.mp (UInt64.not_le.mp hroom)
    rw [if_neg hroom] at hreserve
    split at hreserve
    · rw [← (Prod.mk.inj hreserve).2]
      refine ⟨⟨?_, ?_⟩, rfl, ?_, (Nat.max_eq_right hgrows.le).symm⟩
      · exact alloc.length_grow buf.data len.toNat
      · exact UInt64.le_trans h.len_le (UInt64.le_of_lt (UInt64.not_le.mp hroom))
      · have hlength : buf.len.toNat ≤ len.toNat := by omega
        exact take_grow alloc buf.data (by rw [h.block_length]; exact hle) hlength
    · exact absurd (congrArg Prod.fst hreserve) Bool.false_ne_true

/-- Bytes which are written into the block with the new length behind them are the end of those in use. -/
theorem ByteBuf.Sized.overwritten {buf : ByteBuf} (h : buf.Sized) {offset : ℕ} {data : List Byte}
    {len : UInt64} (hlen : len.toNat = offset + data.length) (hroom : offset + data.length ≤ buf.data.length) :
    ByteBuf.Sized { buf with data := overwrite buf.data offset data, len := len } ∧
      ByteBuf.contents { buf with data := overwrite buf.data offset data, len := len } =
        buf.data.take offset ++ data := by
  refine ⟨⟨?_, ?_⟩, ?_⟩
  · rw [BlockWriter.length_overwrite, h.block_length]
  · rw [UInt64.le_iff_toNat_le, hlen, ← h.block_length]
    exact hroom
  · rw [ByteBuf.contents, hlen, BlockWriter.take_overwrite hroom]

/-- What an append leaves which succeeds: the bytes in use are the old ones and the new ones. -/
structure ByteBuf.Appended (buf : ByteBuf) (data : List Byte) (buf' : ByteBuf) : Prop where
  sized : buf'.Sized
  len_eq : buf'.len.toNat = buf.len.toNat + data.length
  contents_eq : buf'.contents = buf.contents ++ data

/-- An append which succeeds adds its bytes behind those in use, when the length does not wrap. -/
theorem ByteBuf.Sized.appended {alloc : Allocation} {buf buf' : ByteBuf} {data : List Byte} (h : buf.Sized)
    (happend : byteBufAppend alloc buf data = (true, buf')) (hfit : buf.len.toNat + data.length < 2 ^ 64) :
    buf.Appended data buf' := by
  have hneeded : (buf.len + UInt64.ofNat data.length).toNat = buf.len.toNat + data.length := by
    rw [UInt64.toNat_add, UInt64.toNat_ofNat']
    omega
  unfold byteBufAppend at happend
  dsimp only at happend
  split at happend
  · exact absurd (congrArg Prod.fst happend) Bool.false_ne_true
  · next grown hreserve =>
    have hgrown := h.reserved hreserve
    have hroom : grown.len.toNat + data.length ≤ grown.data.length := by
      rw [hgrown.sized.block_length, hgrown.cap_eq, hgrown.len_eq, ← hneeded]
      exact Nat.le_max_right _ _
    have hlen : (grown.len + UInt64.ofNat data.length).toNat = grown.len.toNat + data.length := by
      rw [hgrown.len_eq, hneeded]
    have hwritten := hgrown.sized.overwritten hlen hroom
    rw [← (Prod.mk.inj happend).2]
    refine ⟨hwritten.1, by rw [hlen, hgrown.len_eq], ?_⟩
    rw [hwritten.2, ← hgrown.contents_eq, ByteBuf.contents]

/-- A granted reservation makes room and keeps the bytes in use. -/
theorem byteBufReserve_of_granted {alloc : Allocation} (hgranted : alloc.granted = true) {buf : ByteBuf}
    (h : buf.Sized) (len : UInt64) :
    ∃ buf', byteBufReserve alloc buf len = (true, buf') ∧ buf.Reserved len buf' := by
  have hverdict : (byteBufReserve alloc buf len).1 = true := by
    rw [byteBufReserve]
    split
    · rfl
    · rfl
  have hreserve : byteBufReserve alloc buf len = (true, (byteBufReserve alloc buf len).2) :=
    Prod.ext hverdict rfl
  exact ⟨_, hreserve, h.reserved hreserve⟩

/-- A granted append adds its bytes behind those in use, when the length does not wrap. -/
theorem byteBufAppend_of_granted {alloc : Allocation} (hgranted : alloc.granted = true) {buf : ByteBuf}
    (h : buf.Sized) (data : List Byte) (hfit : buf.len.toNat + data.length < 2 ^ 64) :
    ∃ buf', byteBufAppend alloc buf data = (true, buf') ∧ buf.Appended data buf' := by
  obtain ⟨grown, hreserve, -⟩ := byteBufReserve_of_granted hgranted h (buf.len + UInt64.ofNat data.length)
  have happend : ∃ buf', byteBufAppend alloc buf data = (true, buf') := by
    unfold byteBufAppend
    dsimp only
    rw [hreserve]
    exact ⟨_, rfl⟩
  obtain ⟨buf', hbuf'⟩ := happend
  exact ⟨buf', hbuf', h.appended hbuf' hfit⟩

end Goshimmer
