import Goshimmer.Core.Address
import Goshimmer.Library.IndexLoop
import Goshimmer.Utils.Bitmask

/-!
# The address manager

`wallet/address_manager.c`. The manager derives addresses from a seed, remembers the largest
index it handed out, marks spent indices in a bitmask and keeps two cursors, on the first and
the last unspent index. Reads behind the end of the mask see memory of the heap; the memory an
operation of the mask asks for is granted.
-/

namespace Goshimmer

/-- `wallet_am_t`. -/
structure WalletAm where
  seed : Seed
  lastAddrIndex : UInt64
  spentAddr : Bitmask
  firstUnspentIdx : UInt64
  lastUnspentIdx : UInt64
  deriving DecidableEq

/-- `am_new` with a given seed. -/
def amNew (seed : Seed) (lastAddrIndex : UInt64) (spentAddr : Option Bitmask) : WalletAm where
  seed := seed
  lastAddrIndex := lastAddrIndex
  spentAddr := match spentAddr with
    | some mask => bitmaskClone mask
    | none => bitmaskNew
  firstUnspentIdx := 0
  lastUnspentIdx := 0

/-- `am_update_spent_address`. -/
def amUpdateSpentAddress (am : WalletAm) (index : UInt64) (new : Bool) : WalletAm :=
  { am with spentAddr := (bitmaskOp true am.spentAddr index (if new then .clear else .set)).2 }

/-- `am_is_spent_address`. -/
def amIsSpentAddress (heap : UInt64 → Byte) (am : WalletAm) (index : UInt64) : Bool :=
  bitmaskGet heap am.spentAddr index

/-- `am_update_first_unspent_index`; the cursor stays when the search finds nothing. -/
def amUpdateFirstUnspentIndex (heap : UInt64 → Byte) (am : WalletAm) : WalletAm :=
  match (indicesBelow am.firstUnspentIdx am.lastAddrIndex).find?
      fun i => amIsSpentAddress heap am i = false with
  | some i => { am with firstUnspentIdx := i }
  | none => am

/-- `am_update_last_unspent_index`; index 0 is not looked at. -/
def amUpdateLastUnspentIndex (heap : UInt64 → Byte) (am : WalletAm) : WalletAm :=
  match (indicesDownFrom am.lastUnspentIdx).find? fun i => amIsSpentAddress heap am i = false with
  | some i => { am with lastUnspentIdx := i }
  | none => am

/-- `am_mark_spent_address`. -/
def amMarkSpentAddress (heap : UInt64 → Byte) (am : WalletAm) (index : UInt64) : WalletAm :=
  let am := { am with spentAddr := (bitmaskOp true am.spentAddr index .set).2 }
  let am := if index = am.firstUnspentIdx then amUpdateFirstUnspentIndex heap am else am
  if index = am.lastUnspentIdx then amUpdateLastUnspentIndex heap am else am

variable (sodium : Sodium)

/-- `am_get_address`. -/
def amGetAddress (am : WalletAm) (index : UInt64) : WalletAm × Address :=
  let am :=
    if am.lastAddrIndex < index then
      { amUpdateSpentAddress am index true with lastAddrIndex := index }
    else am
  let am := if am.lastUnspentIdx < index then { am with lastUnspentIdx := index } else am
  (am, addressGet sodium am.seed index)

/-- `am_get_new_address`. -/
def amGetNewAddress (am : WalletAm) : WalletAm × Address :=
  amGetAddress sodium am (am.lastAddrIndex + 1)

/-- `am_get_first_unspent_address`. -/
def amGetFirstUnspentAddress (am : WalletAm) : WalletAm × Address :=
  amGetAddress sodium am am.firstUnspentIdx

/-- `am_get_last_unspent_address`. -/
def amGetLastUnspentAddress (am : WalletAm) : WalletAm × Address :=
  amGetAddress sodium am am.lastUnspentIdx

/-- The addresses of the given indices. -/
def amAddressList (am : WalletAm) (indices : List UInt64) : List AddressT :=
  indices.map fun i => ⟨i, addressGet sodium am.seed i⟩

/-- `am_addresses`, unless its loop runs for ever. -/
def amAddresses (am : WalletAm) : Option (List AddressT) :=
  (indicesUpTo 0 am.lastAddrIndex).map (amAddressList sodium am)

/-- `am_unspent_addresses`, unless its loop runs for ever. -/
def amUnspentAddresses (heap : UInt64 → Byte) (am : WalletAm) : Option (List AddressT) :=
  (indicesUpTo am.firstUnspentIdx am.lastAddrIndex).map fun indices =>
    amAddressList sodium am (indices.filter fun i => !amIsSpentAddress heap am i)

/-- `am_spent_addresses`, unless its loop runs for ever. -/
def amSpentAddresses (heap : UInt64 → Byte) (am : WalletAm) : Option (List AddressT) :=
  (indicesUpTo 0 am.lastAddrIndex).map fun indices =>
    amAddressList sodium am (indices.filter (amIsSpentAddress heap am))

/-- What asking for an address does: both upper marks rise to the index, a new index is cleared,
and the address is the derived one. -/
theorem amGetAddress_eq (am : WalletAm) (index : UInt64) :
    amGetAddress sodium am index =
      ({ seed := am.seed
         lastAddrIndex := if am.lastAddrIndex < index then index else am.lastAddrIndex
         spentAddr :=
           if am.lastAddrIndex < index then (bitmaskOp true am.spentAddr index .clear).2 else am.spentAddr
         firstUnspentIdx := am.firstUnspentIdx
         lastUnspentIdx := if am.lastUnspentIdx < index then index else am.lastUnspentIdx },
        addressGet sodium am.seed index) := by
  by_cases hlast : am.lastAddrIndex < index <;> by_cases hunspent : am.lastUnspentIdx < index <;>
    simp [amGetAddress, amUpdateSpentAddress, hlast, hunspent]

/-- Asking for an address yields the derived one. -/
@[simp] theorem amGetAddress_snd (am : WalletAm) (index : UInt64) :
    (amGetAddress sodium am index).2 = addressGet sodium am.seed index := by
  rw [amGetAddress_eq]

/-- Asking for an address keeps the seed. -/
@[simp] theorem seed_amGetAddress (am : WalletAm) (index : UInt64) :
    (amGetAddress sodium am index).1.seed = am.seed := by
  rw [amGetAddress_eq]

/-- Asking for an address raises the largest index to at least the one asked for. -/
@[simp] theorem lastAddrIndex_amGetAddress (am : WalletAm) (index : UInt64) :
    (amGetAddress sodium am index).1.lastAddrIndex =
      if am.lastAddrIndex < index then index else am.lastAddrIndex := by
  rw [amGetAddress_eq]

/-- Asking for an address marks nothing. -/
theorem marked_of_marked_amGetAddress {am : WalletAm} {index j : UInt64}
    (h : (amGetAddress sodium am index).1.spentAddr.marked j = true) :
    am.spentAddr.marked j = true := by
  rw [amGetAddress_eq] at h
  dsimp only at h
  split at h
  · rw [marked_bitmaskOp] at h
    split at h
    · simp [BitmaskOp.onBit] at h
    · exact h
  · exact h

/-- The cursor search for the first unspent index moves the cursor to what it finds. -/
theorem amUpdateFirstUnspentIndex_eq (heap : UInt64 → Byte) (am : WalletAm) :
    amUpdateFirstUnspentIndex heap am =
      { am with
        firstUnspentIdx := ((indicesBelow am.firstUnspentIdx am.lastAddrIndex).find?
          fun i => bitmaskGet heap am.spentAddr i = false).getD am.firstUnspentIdx } := by
  unfold amUpdateFirstUnspentIndex amIsSpentAddress
  split
  · next i hfound => rw [hfound, Option.getD_some]
  · next hnone => rw [hnone, Option.getD_none]

/-- The cursor search for the last unspent index moves the cursor to what it finds. -/
theorem amUpdateLastUnspentIndex_eq (heap : UInt64 → Byte) (am : WalletAm) :
    amUpdateLastUnspentIndex heap am =
      { am with
        lastUnspentIdx := ((indicesDownFrom am.lastUnspentIdx).find?
          fun i => bitmaskGet heap am.spentAddr i = false).getD am.lastUnspentIdx } := by
  unfold amUpdateLastUnspentIndex amIsSpentAddress
  split
  · next i hfound => rw [hfound, Option.getD_some]
  · next hnone => rw [hnone, Option.getD_none]

/-- What marking an index does: its bit is set, and a cursor which was on it moves to the first index
which its search finds unspent, if any. -/
theorem amMarkSpentAddress_eq (heap : UInt64 → Byte) (am : WalletAm) (index : UInt64) :
    amMarkSpentAddress heap am index =
      { seed := am.seed
        lastAddrIndex := am.lastAddrIndex
        spentAddr := (bitmaskOp true am.spentAddr index .set).2
        firstUnspentIdx :=
          if index = am.firstUnspentIdx then
            ((indicesBelow am.firstUnspentIdx am.lastAddrIndex).find? fun i =>
              bitmaskGet heap (bitmaskOp true am.spentAddr index .set).2 i = false).getD am.firstUnspentIdx
          else am.firstUnspentIdx
        lastUnspentIdx :=
          if index = am.lastUnspentIdx then
            ((indicesDownFrom am.lastUnspentIdx).find? fun i =>
              bitmaskGet heap (bitmaskOp true am.spentAddr index .set).2 i = false).getD am.lastUnspentIdx
          else am.lastUnspentIdx } := by
  simp only [amMarkSpentAddress, amUpdateFirstUnspentIndex_eq, amUpdateLastUnspentIndex_eq]
  by_cases hfirst : index = am.firstUnspentIdx
  · simp only [if_pos hfirst]
    by_cases hlast : index = am.lastUnspentIdx
    · simp only [if_pos hlast]
    · simp only [if_neg hlast]
  · simp only [if_neg hfirst]
    by_cases hlast : index = am.lastUnspentIdx
    · simp only [if_pos hlast]
    · simp only [if_neg hlast]

/-- Marking an index changes the mask by one bit and keeps the seed. -/
theorem spentAddr_amMarkSpentAddress (heap : UInt64 → Byte) (am : WalletAm) (index : UInt64) :
    (amMarkSpentAddress heap am index).spentAddr = (bitmaskOp true am.spentAddr index .set).2 ∧
      (amMarkSpentAddress heap am index).seed = am.seed := by
  rw [amMarkSpentAddress_eq]
  exact ⟨rfl, rfl⟩

/-- Marking an index keeps the largest one. -/
@[simp] theorem lastAddrIndex_amMarkSpentAddress (heap : UInt64 → Byte) (am : WalletAm) (index : UInt64) :
    (amMarkSpentAddress heap am index).lastAddrIndex = am.lastAddrIndex := by
  rw [amMarkSpentAddress_eq]

end Goshimmer
