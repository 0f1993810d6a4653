import Goshimmer.Library.SelfDelimiting
import Mathlib.Data.UInt

/-!
# Bytes, fixed-size byte arrays and the memory image of machine integers

`core/types.h` and the facts about the C memory model which the client relies on. A byte
array of a declared size is a list of exactly that length. Integers are stored on a
little-endian machine; the one place where the client looks at the byte order is the
transaction essence.
-/

namespace Goshimmer

/-- `byte_t`. -/
abbrev Byte := UInt8

/-- A byte array of a declared size. -/
abbrev Bytes (n : ℕ) := { bytes : List Byte // bytes.length = n }

/-- A zero-initialised array. -/
def Bytes.zero (n : ℕ) : Bytes n := ⟨List.replicate n 0, List.length_replicate⟩

/-- Two arrays one behind the other. -/
def Bytes.append {m n : ℕ} (a : Bytes m) (b : Bytes n) : Bytes (m + n) :=
  ⟨a.val ++ b.val, by rw [List.length_append, a.property, b.property]⟩

/-- The first bytes of a longer array. -/
def Bytes.front {m n : ℕ} (a : Bytes (m + n)) : Bytes m :=
  ⟨a.val.take m, by rw [List.length_take, a.property]; omega⟩

/-- The bytes of a longer array from a position on. -/
def Bytes.back {m n : ℕ} (a : Bytes (m + n)) : Bytes n :=
  ⟨a.val.drop m, by rw [List.length_drop, a.property]; omega⟩

/-- The front of a concatenation. -/
@[simp] theorem Bytes.front_append {m n : ℕ} (a : Bytes m) (b : Bytes n) :
    (a.append b).front = a := by
  apply Subtype.ext
  simp [Bytes.front, Bytes.append, a.property]

/-- The back of a concatenation. -/
@[simp] theorem Bytes.back_append {m n : ℕ} (a : Bytes m) (b : Bytes n) :
    (a.append b).back = b := by
  apply Subtype.ext
  simp [Bytes.back, Bytes.append, a.property]

/-- `empty_byte_array`: every byte is zero. -/
def emptyByteArray {n : ℕ} (data : Bytes n) : Bool := data.val.all (· == 0)

/-- What holds of the bytes 0 to 255 one by one holds of every byte. -/
theorem forall_byte (p : Byte → Prop) (h : ∀ n : Fin 256, p (UInt8.ofNat n)) (b : Byte) : p b := by
  have hb := h ⟨b.toNat, b.toNat_lt⟩
  rwa [UInt8.ofNat_toNat] at hb

/-- The outcome of a request for memory: whether it is granted, and the indeterminate contents
of the new block. -/
structure Allocation where
  granted : Bool
  fresh : ℕ → Byte

/-- A freshly allocated block of the given size. -/
def Allocation.block (alloc : Allocation) (size : ℕ) : List Byte := (List.range size).map alloc.fresh

/-- A fresh block has the requested size. -/
@[simp] theorem Allocation.block_length (alloc : Allocation) (size : ℕ) :
    (alloc.block size).length = size := by
  simp [Allocation.block]

/-- The memory image of an unsigned integer of the given width on a little-endian machine. -/
def memoryImage (width value : ℕ) : List Byte := (littleEndian 256 width value).map UInt8.ofNat

/-- The image occupies exactly the width of the integer type. -/
@[simp] theorem memoryImage_length (width value : ℕ) : (memoryImage width value).length = width := by
  simp [memoryImage]

/-- Reading the image back byte by byte gives the digits. -/
theorem map_toNat_memoryImage (width value : ℕ) :
    (memoryImage width value).map UInt8.toNat = littleEndian 256 width value := by
  rw [memoryImage, List.map_map]
  conv_rhs => rw [← List.map_id (littleEndian 256 width value)]
  refine List.map_congr_left fun digit hdigit => ?_
  exact UInt8.toNat_ofNat_of_lt' (lt_of_mem_littleEndian (by decide) hdigit)

/-- Integers within the width are determined by their image. -/
theorem memoryImage_inj {width n m : ℕ} (hn : n < 256 ^ width) (hm : m < 256 ^ width)
    (h : memoryImage width n = memoryImage width m) : n = m := by
  refine littleEndian_inj hn hm ?_
  rw [← map_toNat_memoryImage, ← map_toNat_memoryImage, h]

end Goshimmer
