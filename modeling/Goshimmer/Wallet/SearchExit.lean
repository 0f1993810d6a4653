import Goshimmer.Wallet.Outputs
import Goshimmer.Wallet.RemainderSearch

/-!
# How the search for a remainder address ends

The counter of the search never gets behind the largest index, since a new address is made as soon
as it comes to it. So a search which starts within its bound and ends leaves its loop by the `break`,
at an index whose address is not selected. It does end, because every index which it passes over
derives an address of the finite table of consumed outputs.
-/

namespace Goshimmer

variable (libs : Libraries)

/-- The loop of the search, from a counter and an address manager on, comes to its `break`. -/
inductive LeavesByBreak (unspent : UnspentOutputs) : UInt64 → WalletAm → Prop
  /-- The address of the counter is not selected. -/
  | found {i : UInt64} {am : WalletAm} (hle : i ≤ am.lastAddrIndex)
      (hfree : unspentOutputsFind unspent (addressGet libs.sodium am.seed i) = none) :
      LeavesByBreak unspent i am
  /-- The address of the largest index is selected, and a new address is made. -/
  | raised {am : WalletAm}
      (hselected : (unspentOutputsFind unspent (addressGet libs.sodium am.seed am.lastAddrIndex)).isSome)
      (hrest : LeavesByBreak unspent (am.lastAddrIndex + 1) (amGetNewAddress libs.sodium am).1) :
      LeavesByBreak unspent am.lastAddrIndex am
  /-- The address of another index is selected. -/
  | passed {i : UInt64} {am : WalletAm} (hle : i ≤ am.lastAddrIndex) (hlast : i ≠ am.lastAddrIndex)
      (hselected : (unspentOutputsFind unspent (addressGet libs.sodium am.seed i)).isSome)
      (hrest : LeavesByBreak unspent (i + 1) am) : LeavesByBreak unspent i am

/-- A search which starts within its bound and ends leaves its loop by the `break`. -/
theorem Searched.leavesByBreak {unspent : UnspentOutputs} {i : UInt64} {am : WalletAm} {remainder : Address}
    {addrIndex : UInt64} {result : WalletAm × Address × UInt64}
    (h : Searched libs unspent i am remainder addrIndex result) (hle : i ≤ am.lastAddrIndex) :
    LeavesByBreak libs unspent i am := by
  induction h with
  | ended hend => exact absurd hle hend
  | found hbelow hfree => exact .found hbelow hfree
  | raised hselected _ ih => exact .raised hselected (ih (succ_le_lastAddrIndex_amGetNewAddress libs _))
  | passed hbelow hlast hselected _ ih =>
    exact .passed hbelow hlast hselected (ih (add_one_le_of_lt (UInt64.lt_of_le_of_ne hbelow hlast)))

/-- The search for a remainder address ends by its `break`, with an index which derives the chosen
address, which is not behind the largest index, and whose address is not selected. -/
theorem remainderSearch_leaves_by_break {am : WalletAm} {unspent : UnspentOutputs}
    (hdistinct : Function.Injective (addressGet libs.sodium am.seed))
    (hcursor : am.firstUnspentIdx ≤ am.lastAddrIndex)
    (hroom : am.lastAddrIndex.toNat + unspent.count < 2 ^ 64 - 2) (remainder : Address) :
    LeavesByBreak libs unspent am.firstUnspentIdx am ∧
      ∃ am' chosen addrIndex, remainderSearch libs unspent searchFuel am.firstUnspentIdx am remainder 0 =
          some (am', chosen, addrIndex) ∧
        chosen = addressGet libs.sodium am.seed addrIndex ∧ am'.seed = am.seed ∧
        unspentOutputsFind unspent chosen = none ∧ addrIndex ≤ am'.lastAddrIndex := by
  obtain ⟨am', j, hsearch, hfree, hseed, hlast⟩ := remainderSearch_ends hdistinct hcursor hroom remainder
  have hsearched := searched_remainderSearch libs unspent searchFuel hsearch
  exact ⟨hsearched.leavesByBreak libs hcursor, am', _, j, hsearch, rfl, hseed, hfree, hlast⟩

/-- With its only address selected, a wallet searches on to the next index. -/
theorem remainderSearch_leaves_by_break_small :
    LeavesByBreak (sampleLibraries []) (smallWallet outputIdsInit).unspent 0 (amNew (Bytes.zero 32) 0 none) ∧
      ∃ am' chosen addrIndex, remainderSearch (sampleLibraries []) (smallWallet outputIdsInit).unspent
          searchFuel 0 (amNew (Bytes.zero 32) 0 none) (Bytes.zero 33) 0 = some (am', chosen, addrIndex) ∧
        chosen = addressGet transparentSodium (Bytes.zero 32) addrIndex ∧ am'.seed = Bytes.zero 32 ∧
        unspentOutputsFind (smallWallet outputIdsInit).unspent chosen = none ∧
        addrIndex ≤ am'.lastAddrIndex :=
  @remainderSearch_leaves_by_break (sampleLibraries []) (amNew (Bytes.zero 32) 0 none) _
    (addressGet_transparentSodium_injective _) (by decide) (by decide) (Bytes.zero 33)

end Goshimmer
