import Goshimmer.Core.Types

/-!
# The growing bitmask

`utils/bitmask.c`. A mask is an allocated block of bytes which grows when an operation names an
index behind its end. Reading compares the byte position with the capacity by `>`, so for the
eight indices right behind the end it reads a byte which is not part of the mask.
-/

namespace Goshimmer

/-- `bitmask_t`; the capacity is the length of the block. -/
structure Bitmask where
  byte : List Byte
  deriving DecidableEq

/-- `cap`. -/
def Bitmask.cap (mask : Bitmask) : ℕ := mask.byte.length

/-- `bitmask_op_t`. -/
inductive BitmaskOp
  | clear
  | set
  | toggle
  deriving DecidableEq

/-- `1 << bit_index` as a byte. -/
def bitOf (bitIndex : ℕ) : Byte := 1 <<< UInt8.ofNat bitIndex

/-- What an operation makes of the byte which holds the bit. -/
def BitmaskOp.onByte (op : BitmaskOp) (byte : Byte) (bitIndex : ℕ) : Byte :=
  match op with
  | .clear => byte &&& ~~~bitOf bitIndex
  | .set => byte ||| bitOf bitIndex
  | .toggle => byte ^^^ bitOf bitIndex

/-- `bitmask_new`. -/
def bitmaskNew : Bitmask := ⟨[0]⟩

/-- `bitmask_op`; `granted` is the outcome of the `realloc` of a mask which has to grow. -/
def bitmaskOp (granted : Bool) (mask : Bitmask) (index : UInt64) (op : BitmaskOp) : Int × Bitmask :=
  let byteIndex := index.toNat / 8
  let bitIndex := index.toNat % 8
  if mask.cap < byteIndex + 1 ∧ granted = false then (-1, mask)
  else
    let byte := mask.byte ++ List.replicate (byteIndex + 1 - mask.cap) 0
    (0, ⟨byte.modify byteIndex fun b => op.onByte b bitIndex⟩)

/-- `bitmask_get`; `heap index` is the byte found behind the end of the mask. -/
def bitmaskGet (heap : UInt64 → Byte) (mask : Bitmask) (index : UInt64) : Bool :=
  let byteIndex := index.toNat / 8
  let bitIndex := index.toNat % 8
  if mask.cap < byteIndex then false
  else mask.byte.getD byteIndex (heap index) &&& bitOf bitIndex != 0

/-- `bitmask_clone`. -/
def bitmaskClone (b : Bitmask) : Bitmask := ⟨b.byte⟩

/-- The bit of an index is set in a byte of the mask. -/
def Bitmask.marked (mask : Bitmask) (index : UInt64) : Bool :=
  mask.byte.getD (index.toNat / 8) 0 &&& bitOf (index.toNat % 8) != 0

/-- What an operation makes of the bit it names. -/
def BitmaskOp.onBit : BitmaskOp → Bool → Bool
  | .clear, _ => false
  | .set, _ => true
  | .toggle, bit => !bit

/-- The byte of one bit, as a bit vector. -/
theorem toBitVec_bitOf {i : ℕ} (hi : i < 8) : (bitOf i).toBitVec = BitVec.twoPow 8 i := by
  have h : ∀ i : Fin 8, (bitOf i).toBitVec = BitVec.twoPow 8 i := by decide
  exact h ⟨i, hi⟩

/-- Masking a byte with one bit tests that bit. -/
theorem and_bitOf_bne_zero (byte : Byte) {i : ℕ} (hi : i < 8) :
    (byte &&& bitOf i != 0) = byte.toBitVec.getLsbD i := by
  have hzero : ∀ b : Byte, (b != 0) = (b.toBitVec != 0#8) := by
    intro b
    rw [Bool.eq_iff_iff, bne_iff_ne, bne_iff_ne, ne_eq, ne_eq, ← UInt8.toBitVec_inj]
    rfl
  have hbit : ∀ k : Fin 8, BitVec.twoPow 8 k ≠ 0#8 := by decide
  rw [hzero, UInt8.toBitVec_and, toBitVec_bitOf hi, BitVec.and_twoPow]
  cases byte.toBitVec.getLsbD i with
  | true => simpa using hbit ⟨i, hi⟩
  | false => simp

/-- Reading one bit of a byte after an operation on one of its bits. -/
theorem onByte_bit (op : BitmaskOp) (byte : Byte) {i j : ℕ} (hi : i < 8) (hj : j < 8) :
    (op.onByte byte i &&& bitOf j != 0) =
      if j = i then op.onBit (byte &&& bitOf i != 0) else byte &&& bitOf j != 0 := by
  rw [and_bitOf_bne_zero _ hj, and_bitOf_bne_zero _ hi, and_bitOf_bne_zero _ hj]
  by_cases h : j = i
  · subst h
    cases op <;> simp [BitmaskOp.onByte, BitmaskOp.onBit, toBitVec_bitOf hj, hj]
  · cases op <;> simp [BitmaskOp.onByte, toBitVec_bitOf hi, h, hj]

/-- An operation which gets the memory it needs acts on the bit it names and on no other. -/
theorem marked_bitmaskOp (mask : Bitmask) (index : UInt64) (op : BitmaskOp) (j : UInt64) :
    (bitmaskOp true mask index op).2.marked j =
      if j = index then op.onBit (mask.marked index) else mask.marked j := by
  have hi : index.toNat % 8 < 8 := Nat.mod_lt _ (by decide)
  have hj : j.toNat % 8 < 8 := Nat.mod_lt _ (by decide)
  have hgrown : ∀ k, (mask.byte ++ List.replicate (index.toNat / 8 + 1 - mask.cap) 0).getD k 0 =
      mask.byte.getD k 0 := by
    intro k
    simp only [List.getD_eq_getElem?_getD, List.getElem?_append, List.getElem?_replicate]
    by_cases hk : k < mask.byte.length
    · rw [if_pos hk]
    · rw [if_neg hk, List.getElem?_eq_none (by omega)]
      split <;> rfl
  have hroom : index.toNat / 8 <
      (mask.byte ++ List.replicate (index.toNat / 8 + 1 - mask.cap) 0).length := by
    rw [List.length_append, List.length_replicate, Bitmask.cap]
    omega
  have hbyte : (bitmaskOp true mask index op).2.byte.getD (j.toNat / 8) 0 =
      if j.toNat / 8 = index.toNat / 8 then op.onByte (mask.byte.getD (index.toNat / 8) 0) (index.toNat % 8)
      else mask.byte.getD (j.toNat / 8) 0 := by
    rw [← hgrown (index.toNat / 8), ← hgrown (j.toNat / 8)]
    by_cases h : j.toNat / 8 = index.toNat / 8
    · simp [bitmaskOp, List.getD_eq_getElem?_getD, h, List.getElem?_eq_getElem hroom]
    · simp [bitmaskOp, List.getD_eq_getElem?_getD, h, Ne.symm h]
  unfold Bitmask.marked
  rw [hbyte]
  by_cases h : j = index
  · subst h
    rw [if_pos rfl, if_pos rfl, onByte_bit op _ hi hi, if_pos rfl]
  · rw [if_neg h]
    by_cases hdiv : j.toNat / 8 = index.toNat / 8
    · have hmod : j.toNat % 8 ≠ index.toNat % 8 := by
        intro hmod
        exact h (UInt64.toNat_inj.mp (by omega))
      rw [if_pos hdiv, onByte_bit op _ hi hj, if_neg hmod, hdiv]
    · rw [if_neg hdiv]

/-- Reading inside the mask reports whether the index is marked, whatever lies behind it. -/
theorem bitmaskGet_eq_marked (heap : UInt64 → Byte) (mask : Bitmask) (index : UInt64)
    (h : index.toNat / 8 < mask.cap) : bitmaskGet heap mask index = mask.marked index := by
  have hbyte : ∀ fallback, mask.byte.getD (index.toNat / 8) fallback =
      mask.byte[index.toNat / 8] :=
    fun fallback => by rw [List.getD_eq_getElem?_getD, List.getElem?_eq_getElem h, Option.getD_some]
  simp only [bitmaskGet, Bitmask.marked, hbyte, if_neg (by omega : ¬ mask.cap < index.toNat / 8)]

/-- The capacity after an operation which gets the memory it needs. -/
theorem cap_bitmaskOp (mask : Bitmask) (index : UInt64) (op : BitmaskOp) :
    (bitmaskOp true mask index op).2.cap = max mask.cap (index.toNat / 8 + 1) := by
  simp only [bitmaskOp, Bitmask.cap, Bool.true_eq_false, and_false, if_false, List.length_modify,
    List.length_append, List.length_replicate]
  omega

/-- No index behind the end of the mask is marked. -/
theorem marked_of_cap_le {mask : Bitmask} {index : UInt64} (h : mask.cap ≤ index.toNat / 8) :
    mask.marked index = false := by
  rw [Bitmask.marked, List.getD_eq_getElem?_getD, List.getElem?_eq_none h, Option.getD_none]
  simp

/-- Reading reports an index as clear, whatever lies behind the mask, exactly when its bit is clear and
the reading does not fall on the byte right behind the end. -/
theorem bitmaskGet_eq_false_iff (mask : Bitmask) (index : UInt64) :
    (∀ heap, bitmaskGet heap mask index = false) ↔
      mask.marked index = false ∧ index.toNat / 8 ≠ mask.cap := by
  have hbit : index.toNat % 8 < 8 := Nat.mod_lt _ (by decide)
  rcases Nat.lt_trichotomy (index.toNat / 8) mask.cap with hinside | hend | hbehind
  · have hread : ∀ heap, bitmaskGet heap mask index = mask.marked index :=
      fun heap => bitmaskGet_eq_marked heap mask index hinside
    simp only [hread, forall_const, ne_eq, hinside.ne, not_false_eq_true, and_true]
  · constructor
    · intro hall
      have hfull := hall fun _ => 255
      have hones : ∀ i : Fin 8, (255 &&& bitOf i != 0) = true := by decide
      have hset : bitmaskGet (fun _ => 255) mask index = true := by
        rw [bitmaskGet, if_neg (by omega), List.getD_eq_getElem?_getD,
          List.getElem?_eq_none (by rw [← Bitmask.cap]; omega), Option.getD_none]
        exact hones ⟨_, hbit⟩
      exact absurd (hfull.symm.trans hset) (by decide)
    · intro hclear
      exact absurd hend hclear.2
  · have hmarked := marked_of_cap_le hbehind.le
    have hread : ∀ heap, bitmaskGet heap mask index = false := by
      intro heap
      rw [bitmaskGet, if_pos hbehind]
    exact ⟨fun _ => ⟨hmarked, hbehind.ne'⟩, fun _ => hread⟩

/-- A bit which was cleared reads as clear, whatever lies behind the mask. -/
theorem bitmaskGet_clear (mask : Bitmask) (index : UInt64) (heap : UInt64 → Byte) :
    bitmaskGet heap (bitmaskOp true mask index .clear).2 index = false := by
  revert heap
  rw [bitmaskGet_eq_false_iff, marked_bitmaskOp, if_pos rfl, cap_bitmaskOp]
  exact ⟨rfl, by omega⟩

/-- A new mask has no bit set. -/
@[simp] theorem marked_bitmaskNew (index : UInt64) : bitmaskNew.marked index = false := by
  unfold Bitmask.marked bitmaskNew
  cases index.toNat / 8 <;> simp

/-- Setting several bits, one after another. -/
def Bitmask.setAll (mask : Bitmask) (indices : List UInt64) : Bitmask :=
  indices.foldl (fun mask i => (bitmaskOp true mask i .set).2) mask

/-- The bits which are set afterwards. -/
theorem Bitmask.marked_setAll (mask : Bitmask) (indices : List UInt64) (j : UInt64) :
    (mask.setAll indices).marked j = (mask.marked j || decide (j ∈ indices)) := by
  unfold Bitmask.setAll
  induction indices generalizing mask with
  | nil => simp
  | cons i rest ih =>
    rw [List.foldl_cons, ih, marked_bitmaskOp]
    by_cases h : j = i <;> simp [h, BitmaskOp.onBit]

/-- The mask afterwards reaches as far as before, and over every bit which was set. -/
theorem Bitmask.lt_cap_setAll {mask : Bitmask} {indices : List UInt64} {n : ℕ} :
    n < (mask.setAll indices).cap ↔ n < mask.cap ∨ ∃ i ∈ indices, n ≤ i.toNat / 8 := by
  unfold Bitmask.setAll
  induction indices generalizing mask with
  | nil => simp
  | cons i rest ih =>
    rw [List.foldl_cons, ih, cap_bitmaskOp, lt_max_iff, Nat.lt_succ_iff, or_assoc]
    simp only [List.mem_cons, exists_eq_or_imp]

end Goshimmer
