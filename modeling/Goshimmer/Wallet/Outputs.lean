import Goshimmer.Wallet.Signing
import Mathlib.Data.List.Perm.Subperm

/-!
# What the outputs pay

On the default path, with an empty remainder field, the outputs pay the requested amount to the
receiver and the rest to an address which the wallet chooses. The choice ends because the indices
it passes over derive distinct addresses of the finite consumed table, and the largest index
rises at most once for each of them. A remainder address which the caller chose is not looked at
when the outputs are built, and the change is lost.
-/

namespace Goshimmer

variable (libs : Libraries)

/-! ## The search for a remainder address -/

/-- What the search keeps true: the counter is within its bound, and the indices it passed over
are distinct, lie below the counter and derive addresses of the consumed table. The bound can
still rise once for each consumed address not met yet. -/
structure SearchState (seed : Seed) (unspent : UnspentOutputs) (i : UInt64) (am : WalletAm)
    (passed : List UInt64) : Prop where
  seed_eq : am.seed = seed
  counter_le : i ≤ am.lastAddrIndex
  nodup : passed.Nodup
  below : ∀ j ∈ passed, j < i
  consumed : ∀ j ∈ passed, (unspentOutputsFind unspent (addressGet libs.sodium seed j)).isSome
  room : am.lastAddrIndex.toNat + unspent.count < 2 ^ 64 - 2 + passed.length

variable {libs}

/-- No more indices are passed over than the consumed table has addresses. -/
theorem SearchState.length_le {seed : Seed} {unspent : UnspentOutputs} {i : UInt64} {am : WalletAm}
    {passed : List UInt64} (h : SearchState libs seed unspent i am passed)
    (hinj : Function.Injective (addressGet libs.sodium seed)) : passed.length ≤ unspent.count := by
  have hsubset : passed.map (addressGet libs.sodium seed) ⊆
      unspent.entries.map UnspentOutputEntry.addr := by
    intro addr haddr
    obtain ⟨j, hj, rfl⟩ := List.mem_map.mp haddr
    obtain ⟨elm, helm⟩ := Option.isSome_iff_exists.mp (h.consumed j hj)
    have hfound := (unspent.find_eq_some_iff _ _).mp helm
    exact List.mem_map.mpr ⟨elm, hfound.1, hfound.2⟩
  have hlength := ((h.nodup.map hinj).subperm hsubset).length_le
  rwa [List.length_map, List.length_map] at hlength

/-- Passing over an index whose address is consumed, with room left under the bound. -/
theorem SearchState.step {seed : Seed} {unspent : UnspentOutputs} {i : UInt64} {am am' : WalletAm}
    {passed : List UInt64} (h : SearchState libs seed unspent i am passed)
    (hfound : (unspentOutputsFind unspent (addressGet libs.sodium seed i)).isSome)
    (hseed : am'.seed = am.seed) (hcounter : i + 1 ≤ am'.lastAddrIndex) (hwrap : i < i + 1)
    (hlast : am'.lastAddrIndex.toNat ≤ am.lastAddrIndex.toNat + 1) :
    SearchState libs seed unspent (i + 1) am' (i :: passed) := by
  have hroom := h.room
  refine ⟨hseed.trans h.seed_eq, hcounter, ?_, ?_, ?_, ?_⟩
  · refine List.nodup_cons.mpr ⟨fun hmem => ?_, h.nodup⟩
    exact absurd (h.below i hmem) (UInt64.lt_irrefl i)
  · intro j hj
    rcases List.mem_cons.mp hj with rfl | hold
    · exact hwrap
    · exact UInt64.lt_trans (h.below j hold) hwrap
  · intro j hj
    rcases List.mem_cons.mp hj with rfl | hold
    · exact hfound
    · exact h.consumed j hold
  · rw [List.length_cons]
    omega

/-- The search ends at an index whose address is not consumed. -/
theorem remainderSearch_spec {seed : Seed} {unspent : UnspentOutputs}
    (hinj : Function.Injective (addressGet libs.sodium seed)) (fuel : ℕ) {i : UInt64} {am : WalletAm}
    {passed : List UInt64} (h : SearchState libs seed unspent i am passed)
    (hfuel : unspent.count < fuel + passed.length) (remainder : Address) (addrIndex : UInt64) :
    ∃ am' j, remainderSearch libs unspent fuel i am remainder addrIndex =
        some (am', addressGet libs.sodium seed j, j) ∧
      unspentOutputsFind unspent (addressGet libs.sodium seed j) = none ∧
      am'.seed = seed ∧ j ≤ am'.lastAddrIndex := by
  induction fuel generalizing i am passed remainder addrIndex with
  | zero =>
    have hlength := h.length_le hinj
    omega
  | succ fuel ih =>
    rw [remainderSearch, if_pos h.counter_le]
    simp only [h.seed_eq]
    cases hfind : unspentOutputsFind unspent (addressGet libs.sodium seed i) with
    | none => exact ⟨am, i, by simp, hfind, h.seed_eq, h.counter_le⟩
    | some elm =>
      have hfound : (unspentOutputsFind unspent (addressGet libs.sodium seed i)).isSome := by
        rw [hfind, Option.isSome_some]
      have hlength := h.length_le hinj
      have hroom := h.room
      have hcounter := UInt64.le_iff_toNat_le.mp h.counter_le
      have hnext : (i + 1).toNat = i.toNat + 1 := toNat_add_one_of_lt (by omega)
      have hwrap : i < i + 1 := by
        rw [UInt64.lt_iff_toNat_lt]
        omega
      rw [Option.isNone_some, if_neg (by simp)]
      by_cases hlast : i = am.lastAddrIndex
      · -- the bound rises by one, to the counter's next value
        subst hlast
        have hbound : (amGetAddress libs.sodium am (am.lastAddrIndex + 1)).1.lastAddrIndex =
            am.lastAddrIndex + 1 := by
          rw [lastAddrIndex_amGetAddress, if_pos hwrap]
        rw [if_pos rfl]
        refine ih (h.step hfound (seed_amGetAddress _ _ _) ?_ hwrap ?_) ?_ _ _
        · rw [hbound]
          exact UInt64.le_refl _
        · rw [hbound, hnext]
        · rw [List.length_cons]
          omega
      · rw [if_neg hlast]
        refine ih (h.step hfound rfl ?_ hwrap (Nat.le_succ _)) ?_ _ _
        · exact add_one_le_of_lt (UInt64.lt_of_le_of_ne h.counter_le hlast)
        · rw [List.length_cons]
          omega

/-- From its first index on the search ends, when the cursors are in order and the indices which it
may need exist. -/
theorem remainderSearch_ends {am : WalletAm} {unspent : UnspentOutputs}
    (hinj : Function.Injective (addressGet libs.sodium am.seed))
    (hcursor : am.firstUnspentIdx ≤ am.lastAddrIndex)
    (hroom : am.lastAddrIndex.toNat + unspent.count < 2 ^ 64 - 2) (remainder : Address) :
    ∃ am' j, remainderSearch libs unspent searchFuel am.firstUnspentIdx am remainder 0 =
        some (am', addressGet libs.sodium am.seed j, j) ∧
      unspentOutputsFind unspent (addressGet libs.sodium am.seed j) = none ∧
      am'.seed = am.seed ∧ j ≤ am'.lastAddrIndex := by
  have hstart : SearchState libs am.seed unspent am.firstUnspentIdx am [] :=
    ⟨rfl, hcursor, List.nodup_nil, by simp, by simp, by rwa [List.length_nil, Nat.add_zero]⟩
  apply remainderSearch_spec hinj searchFuel hstart
  rw [List.length_nil, searchFuel]
  omega

/-! ## The values -/

/-- A value below 2^63 keeps its meaning as a signed value. -/
theorem toInt_toInt64 {value : UInt64} (h : value.toNat < 2 ^ 63) :
    value.toInt64.toInt = value.toNat := by
  calc value.toInt64.toInt = (UInt64.ofNat value.toNat).toInt64.toInt := by rw [UInt64.ofNat_toNat]
    _ = (Int64.ofNat value.toNat).toInt := by rw [UInt64.toInt64_ofNat']
    _ = value.toNat := Int64.toInt_ofNat_of_lt h

/-- What the outputs have to be, for a balance, a request and the chosen remainder address: the
receiver gets the amount and the remainder address the rest, or the receiver gets both in one
output. -/
def expectedPayments (balance : UInt64) (dest : SendFundsOp) (remainder : Address) :
    List (Address × List Balance) :=
  if balance = dest.amount then [(dest.receiver, [⟨dest.amount.toInt64, dest.color⟩])]
  else if dest.receiver = remainder then [(dest.receiver, [⟨balance.toInt64, dest.color⟩])]
  else
    [(remainder, [⟨(balance - dest.amount).toInt64, dest.color⟩]),
      (dest.receiver, [⟨dest.amount.toInt64, dest.color⟩])]

/-- On the default path the outputs are the expected payments. -/
theorem walletBuildOutputs_eq {am : WalletAm} {dest : SendFundsOp} {unspent : UnspentOutputs}
    (hinj : Function.Injective (addressGet libs.sodium am.seed))
    (hcursor : am.firstUnspentIdx ≤ am.lastAddrIndex)
    (hroom : am.lastAddrIndex.toNat + unspent.count < 2 ^ 64 - 2)
    (hremainder : emptyByteArray dest.remainder = true)
    (hle : dest.amount ≤ unspentOutputsBalanceWithColor unspent dest.color) :
    ∃ outputs am' dest', walletBuildOutputs libs am dest unspent = some (outputs, am', dest') ∧
      outputs.map TxOutput.payment = expectedPayments
        (unspentOutputsBalanceWithColor unspent dest.color) dest dest'.remainder := by
  unfold walletBuildOutputs expectedPayments
  dsimp only
  by_cases hequal : unspentOutputsBalanceWithColor unspent dest.color = dest.amount
  · rw [if_neg (by rw [hequal]; exact fun h => UInt64.lt_irrefl _ h.1)]
    exact ⟨_, _, _, rfl, by rw [if_pos hequal]; rfl⟩
  · have hless : dest.amount < unspentOutputsBalanceWithColor unspent dest.color :=
      UInt64.lt_of_le_of_ne hle (Ne.symm hequal)
    obtain ⟨am', j, hsearch, -, -, -⟩ := remainderSearch_ends hinj hcursor hroom dest.remainder
    rw [if_pos ⟨hless, hremainder⟩]
    simp only [if_neg hequal, buildRemainder, hsearch, Option.bind_eq_bind, Option.bind_some]
    by_cases hreceiver : dest.receiver = addressGet libs.sodium am.seed j
    · rw [if_pos hreceiver]
      refine ⟨_, _, _, rfl, ?_⟩
      rw [if_pos hreceiver, hreceiver]
      rfl
    · rw [if_neg hreceiver]
      refine ⟨_, _, _, rfl, ?_⟩
      rw [if_neg hreceiver]
      rfl

/-- The expected payments go to distinct addresses, pay positive values of the requested colour,
and pay out the whole balance. -/
theorem expectedPayments_conserve {balance : UInt64} {dest : SendFundsOp} (remainder : Address)
    (hamount : 0 < dest.amount) (hle : dest.amount ≤ balance) (hbound : balance.toNat < 2 ^ 63) :
    ((expectedPayments balance dest remainder).map Prod.fst).Nodup ∧
      (∀ payment ∈ expectedPayments balance dest remainder, ∀ b ∈ payment.2,
        b.color = dest.color ∧ 0 < b.value.toInt) ∧
      (((expectedPayments balance dest remainder).flatMap Prod.snd).map fun b => b.value.toInt).sum =
        balance.toNat := by
  have hpositive : 0 < dest.amount.toNat := by simpa using UInt64.lt_iff_toNat_lt.mp hamount
  have hamountle := UInt64.le_iff_toNat_le.mp hle
  have hrest : (balance - dest.amount).toNat = balance.toNat - dest.amount.toNat :=
    UInt64.toNat_sub_of_le _ _ hle
  have hvalue : ∀ value : UInt64, value.toNat ≤ balance.toNat → value.toInt64.toInt = value.toNat :=
    fun value hv => toInt_toInt64 (hv.trans_lt hbound)
  unfold expectedPayments
  by_cases hequal : balance = dest.amount
  · subst hequal
    simp [hvalue, hpositive]
  · have hless : dest.amount.toNat < balance.toNat :=
      lt_of_le_of_ne hamountle fun h => hequal (UInt64.toNat_inj.mp h.symm)
    rw [if_neg hequal]
    by_cases hreceiver : dest.receiver = remainder
    · simp [hreceiver, hvalue, hpositive.trans hless]
    · have hchange := hvalue (balance - dest.amount) (by omega)
      have hpaid := hvalue dest.amount hamountle
      rw [if_neg hreceiver]
      refine ⟨by simpa using Ne.symm hreceiver, ?_, ?_⟩
      · intro payment hpayment b hb
        simp only [List.mem_cons, List.not_mem_nil, or_false] at hpayment
        rcases hpayment with rfl | rfl
        · rw [List.mem_singleton.mp hb, hchange]
          exact ⟨rfl, by omega⟩
        · rw [List.mem_singleton.mp hb, hpaid]
          exact ⟨rfl, by omega⟩
      · simp only [List.flatMap_cons, List.flatMap_nil, List.append_nil, List.map_append, List.map_cons,
          List.map_nil, List.sum_append, List.sum_singleton, hchange, hpaid]
        omega

variable (libs)

/-- The requested colour is conserved on the default path: the outputs have distinct addresses,
every balance is a positive one of the requested colour, their values sum to the consumed balance,
and they are the amount for the receiver with the rest for the remainder address, or all of it in
one output when that address is the receiver. -/
theorem walletBuildOutputs_conserves_requested_color (w : Wallet) (t : UnspentOutputs)
    (requiredBalance : UInt64) (color : Color) (dest : SendFundsOp)
    (hinj : Function.Injective (addressGet libs.sodium w.addrManager.seed))
    (hcursor : w.addrManager.firstUnspentIdx ≤ w.addrManager.lastAddrIndex)
    (hroom : w.addrManager.lastAddrIndex.toNat +
      (unspentOutputsRequiredOutputs t requiredBalance color).count < 2 ^ 64 - 2)
    (hremainder : emptyByteArray dest.remainder = true) (hamount : 0 < dest.amount)
    (hle : dest.amount ≤ unspentOutputsBalanceWithColor
      (unspentOutputsRequiredOutputs t requiredBalance color) dest.color)
    (hbound : (unspentOutputsBalanceWithColor
      (unspentOutputsRequiredOutputs t requiredBalance color) dest.color).toNat < 2 ^ 63) :
    ∃ outputs am' dest',
      walletBuildOutputs libs w.addrManager dest
          (unspentOutputsRequiredOutputs t requiredBalance color) = some (outputs, am', dest') ∧
        (outputs.map TxOutput.address).Nodup ∧
        (∀ out ∈ outputs, ∀ b ∈ out.balances, b.color = dest.color ∧ 0 < b.value.toInt) ∧
        ((outputs.flatMap TxOutput.balances).map fun b => b.value.toInt).sum =
          (unspentOutputsBalanceWithColor
            (unspentOutputsRequiredOutputs t requiredBalance color) dest.color).toNat ∧
        outputs.map TxOutput.payment = expectedPayments (unspentOutputsBalanceWithColor
          (unspentOutputsRequiredOutputs t requiredBalance color) dest.color) dest dest'.remainder := by
  obtain ⟨outputs, am', dest', hbuilt, hpayments⟩ :=
    walletBuildOutputs_eq hinj hcursor hroom hremainder hle
  have hconserve := expectedPayments_conserve dest'.remainder hamount hle hbound
  rw [← hpayments] at hconserve
  obtain ⟨hnodup, hpositive, hsum⟩ := hconserve
  refine ⟨outputs, am', dest', hbuilt, ?_, ?_, ?_, hpayments⟩
  · rwa [List.map_map] at hnodup
  · intro out hout b hb
    exact hpositive out.payment (List.mem_map_of_mem hout) b hb
  · rwa [List.flatMap_map] at hsum

/-- A request for plain tokens which leaves the remainder address to the wallet. -/
def plainRequest (amount : UInt64) : SendFundsOp := ⟨amount, repeatedByte 33 9, plain, Bytes.zero 33⟩

/-- Three of five plain tokens are paid, and two go back to the wallet. -/
theorem walletBuildOutputs_conserves_requested_color_small :
    ∃ outputs am' dest',
      walletBuildOutputs (sampleLibraries []) (smallWallet fivePlain).addrManager (plainRequest 3)
          (unspentOutputsRequiredOutputs (smallWallet fivePlain).unspent 3 plain) =
        some (outputs, am', dest') ∧
        ((outputs.flatMap TxOutput.balances).map fun b => b.value.toInt).sum = 5 := by
  obtain ⟨outputs, am', dest', hbuilt, -, -, hsum, -⟩ :=
    walletBuildOutputs_conserves_requested_color (sampleLibraries []) (smallWallet fivePlain)
      (smallWallet fivePlain).unspent 3 plain (plainRequest 3)
      (addressGet_transparentSodium_injective _) (by decide) (by decide)
      (by decide) (by decide) (by decide) (by decide)
  exact ⟨outputs, am', dest', hbuilt, hsum.trans (by decide)⟩

/-! ## A remainder address chosen by the caller -/

/-- The outputs pay the change to the remainder address of the request, beside the amount for the
receiver. -/
def PaysChosenRemainder (w : Wallet) (dest : SendFundsOp) (consumed : UnspentOutputs) : Prop :=
  ∃ outputs am' dest',
    walletBuildOutputs libs w.addrManager dest consumed = some (outputs, am', dest') ∧
      (dest.remainder, [⟨(unspentOutputsBalanceWithColor consumed dest.color - dest.amount).toInt64,
        dest.color⟩]) ∈ outputs.map TxOutput.payment ∧
      (dest.receiver, [⟨dest.amount.toInt64, dest.color⟩]) ∈ outputs.map TxOutput.payment

/-- With a chosen remainder address the receiver's output is the only one. -/
theorem walletBuildOutputs_of_chosen_remainder (am : WalletAm) {dest : SendFundsOp}
    (hchosen : emptyByteArray dest.remainder = false) (consumed : UnspentOutputs) :
    walletBuildOutputs libs am dest consumed = some ([receiverOutput dest], am, dest) := by
  unfold walletBuildOutputs
  rw [if_neg (by simp [hchosen])]

/-- A chosen remainder address never gets the change, whatever the wallet and the request. -/
theorem not_paysChosenRemainder (w : Wallet) (dest : SendFundsOp) (consumed : UnspentOutputs)
    (hchosen : emptyByteArray dest.remainder = false) (hother : dest.remainder ≠ dest.receiver) :
    ¬ PaysChosenRemainder libs w dest consumed := by
  intro ⟨outputs, am', dest', hbuilt, hremainder, _⟩
  rw [walletBuildOutputs_of_chosen_remainder libs _ hchosen] at hbuilt
  obtain ⟨rfl, -, -⟩ := Prod.mk.inj (Option.some.inj hbuilt)
  rw [List.map_singleton, List.mem_singleton] at hremainder
  exact hother (congrArg Prod.fst hremainder)

/-- A request for three plain tokens which names the address for the change. -/
def requestWithRemainder : SendFundsOp := { plainRequest 3 with remainder := repeatedByte 33 8 }

/-- Three of five tokens with a chosen address for the other two. -/
theorem not_paysChosenRemainder_small :
    ¬ PaysChosenRemainder (sampleLibraries []) (smallWallet fivePlain) requestWithRemainder
      (consumedOutputs (smallWallet fivePlain) requestWithRemainder) :=
  not_paysChosenRemainder (sampleLibraries []) _ _ _ (by decide) (by decide)

/-- Not every chosen remainder address gets the change. -/
theorem chosen_remainder_lost :
    ¬ ∀ (libs : Libraries) (w : Wallet) (dest : SendFundsOp),
      emptyByteArray dest.remainder = false → dest.remainder ≠ dest.receiver →
        dest.amount < unspentOutputsBalanceWithColor (consumedOutputs w dest) dest.color →
          PaysChosenRemainder libs w dest (consumedOutputs w dest) := by
  intro h
  obtain ⟨outputs, am', dest', hbuilt, hremainder, -⟩ :=
    h (sampleLibraries []) (smallWallet fivePlain) requestWithRemainder (by decide) (by decide)
      (by decide)
  rw [walletBuildOutputs_of_chosen_remainder _ _ (by decide)] at hbuilt
  obtain ⟨rfl, -, -⟩ := Prod.mk.inj (Option.some.inj hbuilt)
  revert hremainder
  decide

end Goshimmer
