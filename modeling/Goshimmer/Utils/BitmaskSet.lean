import Goshimmer.Library.Run
import Goshimmer.Utils.Bitmask

/-!
# The bitmask as a set of indices

A mask which was made by `bitmask_new` and went through any operations and copies holds the bit of every
index which the operations on this index alone make of a clear bit. Reading reports it for every index but
those of the one byte right behind the end, which is read although it is not part of the mask.
-/

namespace Goshimmer

/-- A call on a mask; after a copy the copy is used. -/
inductive BitmaskStep
  | op (index : UInt64) (action : BitmaskOp)
  | clone

/-- The index which a call names. -/
def BitmaskStep.index : BitmaskStep → Option UInt64
  | .op index _ => some index
  | .clone => none

/-- What a call makes of the bit it names. -/
def BitmaskStep.onBit : BitmaskStep → Bool → Bool
  | .op _ action, bit => action.onBit bit
  | .clone, bit => bit

/-- The mask after a call which gets the memory it needs. -/
def BitmaskStep.apply (mask : Bitmask) : BitmaskStep → Bitmask
  | .op index action => (bitmaskOp true mask index action).2
  | .clone => bitmaskClone mask

/-- The positions which a call reads or writes: those which are new and cleared, and the one of the bit;
all of them in a copy. -/
def BitmaskStep.touches (mask : Bitmask) : BitmaskStep → List ℕ
  | .op index _ => List.range' mask.cap (index.toNat / 8 + 1 - mask.cap) ++ [index.toNat / 8]
  | .clone => List.range mask.cap

/-- The positions which `bitmask_get` reads. -/
def bitmaskGetReads (mask : Bitmask) (index : UInt64) : List ℕ :=
  if mask.cap < index.toNat / 8 then [] else [index.toNat / 8]

/-- The mask after a sequence of calls. -/
def maskAfter (steps : List BitmaskStep) : Bitmask := steps.foldl BitmaskStep.apply bitmaskNew

/-- A mask as a store of bits. -/
def bitmaskStore : KeyedStore Bitmask UInt64 Bool BitmaskStep where
  value := Bitmask.marked
  apply := BitmaskStep.apply
  key := BitmaskStep.index
  change := BitmaskStep.onBit
  value_apply := by
    intro mask step index hindex
    cases step with
    | op named action =>
      rw [← Option.some.inj hindex]
      exact (marked_bitmaskOp mask named action named).trans (if_pos rfl)
    | clone => exact absurd hindex.symm (Option.some_ne_none index)
  value_apply_of_ne := by
    intro mask step index hindex
    cases step with
    | op named action =>
      have hother : index ≠ named := fun h => hindex (congrArg some h.symm)
      exact (marked_bitmaskOp mask named action index).trans (if_neg hother)
    | clone => rfl

/-- The bit which the operations on an index make of a clear one. -/
def replayedBit (steps : List BitmaskStep) (index : UInt64) : Bool := bitmaskStore.replay steps index false

/-- The bits of a mask are the replayed ones. -/
theorem marked_maskAfter (steps : List BitmaskStep) (index : UInt64) :
    (maskAfter steps).marked index = replayedBit steps index := by
  rw [replayedBit, ← marked_bitmaskNew index]
  exact bitmaskStore.value_foldl steps bitmaskNew index

/-! ## The end of the mask -/

/-- The bytes up to the greatest index which a sequence of calls names, and at least one. -/
def bytesNamed (steps : List BitmaskStep) : ℕ :=
  (steps.filterMap BitmaskStep.index).foldl (fun bytes index => max bytes (index.toNat / 8 + 1)) 1

/-- The capacity after a call. -/
theorem BitmaskStep.cap_apply (mask : Bitmask) (step : BitmaskStep) :
    (step.apply mask).cap = step.index.elim mask.cap fun index => max mask.cap (index.toNat / 8 + 1) := by
  cases step with
  | op index action => exact cap_bitmaskOp mask index action
  | clone => rfl

/-- A mask reaches to the greatest index which was named. -/
theorem cap_maskAfter (steps : List BitmaskStep) : (maskAfter steps).cap = bytesNamed steps := by
  suffices h : ∀ mask : Bitmask, (steps.foldl BitmaskStep.apply mask).cap =
      (steps.filterMap BitmaskStep.index).foldl (fun bytes index => max bytes (index.toNat / 8 + 1)) mask.cap from
    h bitmaskNew
  induction steps with
  | nil => exact fun _ => rfl
  | cons step rest ih =>
    intro mask
    rw [List.foldl_cons, ih, BitmaskStep.cap_apply]
    cases hindex : step.index with
    | none => rw [List.filterMap_cons_none hindex, Option.elim_none]
    | some index => rw [List.filterMap_cons_some hindex, Option.elim_some, List.foldl_cons]

/-- A call touches the bytes of the mask it leaves, and no others. -/
theorem BitmaskStep.lt_cap_of_touches {mask : Bitmask} {step : BitmaskStep} {pos : ℕ}
    (h : pos ∈ step.touches mask) : pos < (step.apply mask).cap := by
  rw [BitmaskStep.cap_apply]
  cases step with
  | op index action =>
    show pos < max mask.cap (index.toNat / 8 + 1)
    rw [BitmaskStep.touches, List.mem_append, List.mem_range'_1, List.mem_singleton] at h
    omega
  | clone => exact List.mem_range.mp h

/-- Reading stays inside the mask unless it falls on the byte right behind the end. -/
theorem bitmaskGetReads_inside_iff (mask : Bitmask) (index : UInt64) :
    (∀ pos ∈ bitmaskGetReads mask index, pos < mask.cap) ↔ index.toNat / 8 ≠ mask.cap := by
  rw [bitmaskGetReads]
  split
  · next hbehind => simpa using hbehind.ne'
  · next hread => simp only [List.mem_singleton, forall_eq]; omega

/-! ## The set of indices -/

/-- A mask behaves at an index as the set of indices which the calls describe. -/
structure ActsAsSet (steps : List BitmaskStep) (index : UInt64) : Prop where
  value : ∀ heap, bitmaskGet heap (maskAfter steps) index = replayedBit steps index
  /-- A call which does not name the index leaves its bit. -/
  others : ∀ step : BitmaskStep, step.index ≠ some index →
    (step.apply (maskAfter steps)).marked index = (maskAfter steps).marked index
  reads : ∀ pos ∈ bitmaskGetReads (maskAfter steps) index, pos < (maskAfter steps).cap
  writes : ∀ step : BitmaskStep, ∀ pos ∈ step.touches (maskAfter steps), pos < (step.apply (maskAfter steps)).cap

/-- A mask behaves as a set at an index exactly when the index is not in the byte right behind those which
were named. -/
theorem actsAsSet_iff (steps : List BitmaskStep) (index : UInt64) :
    ActsAsSet steps index ↔ index.toNat / 8 ≠ bytesNamed steps := by
  rw [← cap_maskAfter]
  constructor
  · intro hset
    exact (bitmaskGetReads_inside_iff (maskAfter steps) index).mp hset.reads
  · intro hend
    refine ⟨fun heap => ?_, fun step => bitmaskStore.value_apply_of_ne (maskAfter steps) step index,
      (bitmaskGetReads_inside_iff (maskAfter steps) index).mpr hend, fun step pos => BitmaskStep.lt_cap_of_touches⟩
    rw [← marked_maskAfter]
    rcases hend.lt_or_gt with hinside | hbehind
    · exact bitmaskGet_eq_marked heap (maskAfter steps) index hinside
    · rw [bitmaskGet, if_pos hbehind, marked_of_cap_le hbehind.le]

/-- A new mask reads its ninth index from behind its end. -/
theorem bitmaskNew_reads_behind_end :
    ¬ ∀ (steps : List BitmaskStep) (index : UInt64), ActsAsSet steps index := by
  intro h
  exact absurd ((h [] 8).value fun _ => 255) (by decide)

end Goshimmer
