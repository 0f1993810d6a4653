import Goshimmer.Wallet.SendFunds

/-!
# The search for a remainder address

A search which ends has gone through its indices one by one: it passed over the ones whose address
is selected, asked for a new address whenever it came to the largest index, and stopped at the first
address which is not selected. It goes round in circles only where every index derives a selected address.
What the search does to the address manager is asking for new addresses, and nothing else of building
the outputs touches it.
-/

namespace Goshimmer

variable (libs : Libraries)

/-! ## Asking for new addresses -/

/-- The managers which arise from one by asking for new addresses. -/
inductive AskedNew (am : WalletAm) : WalletAm → Prop
  | same : AskedNew am am
  | next {am' : WalletAm} (h : AskedNew am am') : AskedNew am (amGetNewAddress libs.sodium am').1

/-- Asking first for one new address and then for more. -/
theorem AskedNew.cons {am am' : WalletAm} (h : AskedNew libs (amGetNewAddress libs.sodium am).1 am') :
    AskedNew libs am am' := by
  induction h with
  | same => exact .next .same
  | next _ ih => exact .next ih

/-- What holds of a manager and survives asking for a new address holds of the managers which arise. -/
theorem AskedNew.invariant {am am' : WalletAm} (h : AskedNew libs am am') (inv : WalletAm → Prop)
    (hstart : inv am) (hstep : ∀ am, inv am → inv (amGetNewAddress libs.sodium am).1) : inv am' := by
  induction h with
  | same => exact hstart
  | next _ ih => exact hstep _ ih

/-- The index behind the largest one is within the bound which it raises. -/
theorem succ_le_lastAddrIndex_amGetNewAddress (am : WalletAm) :
    am.lastAddrIndex + 1 ≤ (amGetNewAddress libs.sodium am).1.lastAddrIndex := by
  rw [amGetNewAddress, lastAddrIndex_amGetAddress]
  split
  · exact UInt64.le_refl _
  · next hwrap => exact UInt64.not_lt.mp hwrap

/-! ## The steps of the search -/

/-- The searches which end, with their results. -/
inductive Searched (unspent : UnspentOutputs) :
    UInt64 → WalletAm → Address → UInt64 → WalletAm × Address × UInt64 → Prop
  /-- The counter is behind the largest index. -/
  | ended {i : UInt64} {am : WalletAm} {remainder : Address} {addrIndex : UInt64}
      (hend : ¬ i ≤ am.lastAddrIndex) : Searched unspent i am remainder addrIndex (am, remainder, addrIndex)
  /-- The address of the counter is not selected. -/
  | found {i : UInt64} {am : WalletAm} {remainder : Address} {addrIndex : UInt64}
      (hle : i ≤ am.lastAddrIndex)
      (hfree : unspentOutputsFind unspent (addressGet libs.sodium am.seed i) = none) :
      Searched unspent i am remainder addrIndex (am, addressGet libs.sodium am.seed i, i)
  /-- The address of the largest index is selected, and the search goes on behind it. -/
  | raised {am : WalletAm} {remainder : Address} {addrIndex : UInt64} {result : WalletAm × Address × UInt64}
      (hselected : (unspentOutputsFind unspent (addressGet libs.sodium am.seed am.lastAddrIndex)).isSome)
      (hrest : Searched unspent (am.lastAddrIndex + 1) (amGetNewAddress libs.sodium am).1
        (amGetNewAddress libs.sodium am).2 ((amGetNewAddress libs.sodium am).1.lastAddrIndex + 1) result) :
      Searched unspent am.lastAddrIndex am remainder addrIndex result
  /-- The address of another index is selected. -/
  | passed {i : UInt64} {am : WalletAm} {remainder : Address} {addrIndex : UInt64}
      {result : WalletAm × Address × UInt64} (hle : i ≤ am.lastAddrIndex) (hlast : i ≠ am.lastAddrIndex)
      (hselected : (unspentOutputsFind unspent (addressGet libs.sodium am.seed i)).isSome)
      (hrest : Searched unspent (i + 1) am (addressGet libs.sodium am.seed i) addrIndex result) :
      Searched unspent i am remainder addrIndex result

/-- A search which returns is one of these. -/
theorem searched_remainderSearch (unspent : UnspentOutputs) (fuel : ℕ) {i : UInt64} {am : WalletAm}
    {remainder : Address} {addrIndex : UInt64} {result : WalletAm × Address × UInt64}
    (h : remainderSearch libs unspent fuel i am remainder addrIndex = some result) :
    Searched libs unspent i am remainder addrIndex result := by
  induction fuel generalizing i am remainder addrIndex with
  | zero => simp [remainderSearch] at h
  | succ fuel ih =>
    rw [remainderSearch] at h
    split at h
    · next hle =>
      dsimp only at h
      split at h
      · next hfree =>
        rw [← Option.some.inj h]
        exact .found hle (Option.isNone_iff_eq_none.mp hfree)
      · next hselected =>
        rw [← Option.isSome_eq_false_iff, Bool.not_eq_false] at hselected
        split at h
        · next hlast =>
          subst hlast
          exact .raised hselected (ih h)
        · next hlast => exact .passed hle hlast hselected (ih h)
    · next hend =>
      rw [← Option.some.inj h]
      exact .ended hend

/-- A search whose counter starts behind the largest index changes nothing. -/
theorem Searched.eq_of_behind {unspent : UnspentOutputs} {i : UInt64} {am : WalletAm} {remainder : Address}
    {addrIndex : UInt64} {result : WalletAm × Address × UInt64}
    (h : Searched libs unspent i am remainder addrIndex result) (hbehind : ¬ i ≤ am.lastAddrIndex) :
    result.2.1 = remainder := by
  cases h with
  | ended _ => rfl
  | found hle _ => exact absurd hle hbehind
  | raised _ _ => exact absurd (UInt64.le_refl _) hbehind
  | passed hle _ _ _ => exact absurd hle hbehind

/-- A search asks for new addresses. -/
theorem Searched.askedNew {unspent : UnspentOutputs} {i : UInt64} {am : WalletAm} {remainder : Address}
    {addrIndex : UInt64} {result : WalletAm × Address × UInt64}
    (h : Searched libs unspent i am remainder addrIndex result) : AskedNew libs am result.1 := by
  induction h with
  | ended _ => exact .same
  | found _ _ => exact .same
  | raised _ _ ih => exact ih.cons
  | passed _ _ _ _ ih => exact ih

/-! ## Where the search stops -/

/-- The address of the index which the counter of the search reaches after some steps. -/
def searchAddress (am : WalletAm) (first : UInt64) (steps : ℕ) : Address :=
  addressGet libs.sodium am.seed (first + UInt64.ofNat steps)

/-- The search starts with the address of its counter. -/
theorem searchAddress_zero (am : WalletAm) (first : UInt64) :
    searchAddress libs am first 0 = addressGet libs.sodium am.seed first :=
  congrArg (addressGet libs.sodium am.seed) (UInt64.add_zero first)

/-- A step of the counter is a step of the whole search, also where the counter wraps around. -/
theorem searchAddress_succ {am am' : WalletAm} (hseed : am'.seed = am.seed) (first : UInt64) (steps : ℕ) :
    searchAddress libs am' (first + 1) steps = searchAddress libs am first (steps + 1) := by
  rw [searchAddress, searchAddress, hseed, UInt64.ofNat_add, UInt64.add_comm (UInt64.ofNat steps),
    UInt64.add_assoc]
  rfl

/-- A search which passes over its first index stops where the search from the next one on stops. -/
theorem stops_of_next {unspent : UnspentOutputs} {am am' : WalletAm} {i : UInt64} {remainder : Address}
    (hseed : am'.seed = am.seed)
    (hselected : (unspentOutputsFind unspent (addressGet libs.sodium am.seed i)).isSome)
    (h : ∃ steps, (∀ j < steps, (unspentOutputsFind unspent (searchAddress libs am' (i + 1) j)).isSome) ∧
      unspentOutputsFind unspent (searchAddress libs am' (i + 1) steps) = none ∧
      remainder = searchAddress libs am' (i + 1) steps) :
    ∃ steps, (∀ j < steps, (unspentOutputsFind unspent (searchAddress libs am i j)).isSome) ∧
      unspentOutputsFind unspent (searchAddress libs am i steps) = none ∧
      remainder = searchAddress libs am i steps := by
  obtain ⟨steps, hbefore, hfree, heq⟩ := h
  refine ⟨steps + 1, fun j hj => ?_, ?_, ?_⟩
  · cases j with
    | zero => rwa [searchAddress_zero]
    | succ j =>
      rw [← searchAddress_succ libs hseed]
      exact hbefore j (by omega)
  · rw [← searchAddress_succ libs hseed, hfree]
  · rw [← searchAddress_succ libs hseed, heq]

/-- The search ends at the first index whose address is not selected. -/
theorem Searched.stops {unspent : UnspentOutputs} {i : UInt64} {am : WalletAm} {remainder : Address}
    {addrIndex : UInt64} {result : WalletAm × Address × UInt64}
    (h : Searched libs unspent i am remainder addrIndex result) (hle : i ≤ am.lastAddrIndex) :
    ∃ steps, (∀ j < steps, (unspentOutputsFind unspent (searchAddress libs am i j)).isSome) ∧
      unspentOutputsFind unspent (searchAddress libs am i steps) = none ∧
      result.2.1 = searchAddress libs am i steps := by
  induction h with
  | ended hend => exact absurd hle hend
  | found _ hfree => exact ⟨0, by simp, by rw [searchAddress_zero, hfree], by rw [searchAddress_zero]⟩
  | @raised am _ _ _ hselected _ ih =>
    exact stops_of_next libs (seed_amGetAddress _ _ _) hselected
      (ih (succ_le_lastAddrIndex_amGetNewAddress libs am))
  | @passed i am _ _ _ hbelow hlast hselected _ ih =>
    refine stops_of_next libs rfl hselected (ih ?_)
    exact add_one_le_of_lt (UInt64.lt_of_le_of_ne hbelow hlast)

/-- The search returns the first address which is not selected, if it is within its fuel. -/
theorem remainderSearch_of_stops {unspent : UnspentOutputs} (steps : ℕ) (fuel : ℕ) {i : UInt64} {am : WalletAm}
    (hle : i ≤ am.lastAddrIndex)
    (hbefore : ∀ j < steps, (unspentOutputsFind unspent (searchAddress libs am i j)).isSome)
    (hfree : unspentOutputsFind unspent (searchAddress libs am i steps) = none) (hfuel : steps < fuel)
    (remainder : Address) (addrIndex : UInt64) :
    ∃ am' addrIndex', remainderSearch libs unspent fuel i am remainder addrIndex =
      some (am', searchAddress libs am i steps, addrIndex') := by
  induction steps generalizing fuel i am remainder addrIndex with
  | zero =>
    obtain ⟨fuel, rfl⟩ := Nat.exists_eq_add_one_of_ne_zero hfuel.ne'
    rw [searchAddress_zero] at hfree ⊢
    rw [remainderSearch, if_pos hle]
    dsimp only
    rw [hfree, Option.isNone_none, if_pos rfl]
    exact ⟨_, _, rfl⟩
  | succ steps ih =>
    obtain ⟨fuel, rfl⟩ := Nat.exists_eq_add_one_of_ne_zero (Nat.zero_lt_of_lt hfuel).ne'
    have hselected := hbefore 0 (Nat.succ_pos steps)
    rw [searchAddress_zero] at hselected
    rw [remainderSearch, if_pos hle]
    dsimp only
    rw [if_neg (by simpa [Option.isSome_iff_ne_none] using hselected)]
    have hnext : ∀ {am' : WalletAm}, am'.seed = am.seed → i + 1 ≤ am'.lastAddrIndex →
        ∀ remainder addrIndex, ∃ am'' addrIndex',
          remainderSearch libs unspent fuel (i + 1) am' remainder addrIndex =
            some (am'', searchAddress libs am i (steps + 1), addrIndex') := by
      intro am' hseed hle' remainder addrIndex
      rw [← searchAddress_succ libs hseed]
      apply ih fuel hle'
      · intro j hj
        rw [searchAddress_succ libs hseed]
        exact hbefore (j + 1) (Nat.succ_lt_succ hj)
      · rw [searchAddress_succ libs hseed]
        exact hfree
      · exact Nat.lt_of_succ_lt_succ hfuel
    by_cases hlast : i = am.lastAddrIndex
    · subst hlast
      rw [if_pos rfl]
      exact hnext (seed_amGetAddress _ _ _) (succ_le_lastAddrIndex_amGetNewAddress libs am) _ _
    · rw [if_neg hlast]
      exact hnext rfl (add_one_le_of_lt (UInt64.lt_of_le_of_ne hle hlast)) _ _

/-- The addresses of the search repeat after 2^64 steps, so it comes to the first one which is not selected
before. -/
theorem steps_lt_of_first {unspent : UnspentOutputs} {steps : ℕ} {i : UInt64} {am : WalletAm}
    (hbefore : ∀ j < steps, (unspentOutputsFind unspent (searchAddress libs am i j)).isSome)
    (hfree : unspentOutputsFind unspent (searchAddress libs am i steps) = none) : steps < 2 ^ 64 := by
  by_contra hle
  have hselected := hbefore (steps - 2 ^ 64) (by omega)
  have hsame : searchAddress libs am i (steps - 2 ^ 64) = searchAddress libs am i steps := by
    have hword : UInt64.ofNat (steps - 2 ^ 64) = UInt64.ofNat steps := by
      rw [← UInt64.toNat_inj, UInt64.toNat_ofNat', UInt64.toNat_ofNat']
      omega
    rw [searchAddress, searchAddress, hword]
  rw [hsame, hfree] at hselected
  exact Bool.noConfusion hselected

/-- An address is taken when the selection has an entry for it. -/
theorem isSome_find_iff (t : UnspentOutputs) (addr : Address) :
    (unspentOutputsFind t addr).isSome ↔ addr ∈ t.entries.map UnspentOutputEntry.addr := by
  rw [← not_iff_not, Option.not_isSome_iff_eq_none, unspentOutputsFind, InsertionTable.find_eq_none_iff,
    List.mem_map]
  simp only [not_exists, not_and]

/-- A search from the cursor on ends exactly when the cursor is behind the largest index, or some index derives
an address which is not selected. -/
theorem isSome_remainderSearch_iff (unspent : UnspentOutputs) (am : WalletAm) (remainder : Address) :
    (remainderSearch libs unspent searchFuel am.firstUnspentIdx am remainder 0).isSome ↔
      (am.firstUnspentIdx ≤ am.lastAddrIndex →
        ∃ i, addressGet libs.sodium am.seed i ∉ unspent.entries.map UnspentOutputEntry.addr) := by
  simp only [← isSome_find_iff, Option.not_isSome_iff_eq_none]
  constructor
  · intro hends hle
    obtain ⟨result, hsearch⟩ := Option.isSome_iff_exists.mp hends
    obtain ⟨steps, -, hfree, -⟩ := (searched_remainderSearch libs unspent _ hsearch).stops libs hle
    exact ⟨_, hfree⟩
  · intro hfree
    by_cases hle : am.firstUnspentIdx ≤ am.lastAddrIndex
    · obtain ⟨i, hi⟩ := hfree hle
      have hreached : ∃ steps, unspentOutputsFind unspent
          (searchAddress libs am am.firstUnspentIdx steps) = none := by
        refine ⟨(i - am.firstUnspentIdx).toNat, ?_⟩
        rw [searchAddress, UInt64.ofNat_toNat, UInt64.add_comm, UInt64.sub_add_cancel, hi]
      -- the first one of these steps is where the search stops
      have hbefore : ∀ j < Nat.find hreached, (unspentOutputsFind unspent
          (searchAddress libs am am.firstUnspentIdx j)).isSome :=
        fun j hj => Option.isSome_iff_ne_none.mpr (Nat.find_min hreached hj)
      have hsteps := steps_lt_of_first libs hbefore (Nat.find_spec hreached)
      obtain ⟨am', addrIndex, hsearch⟩ := remainderSearch_of_stops libs _ searchFuel hle hbefore
        (Nat.find_spec hreached) (by rw [searchFuel]; omega) remainder 0
      rw [hsearch, Option.isSome_some]
    · rw [searchFuel, remainderSearch, if_neg hle, Option.isSome_some]

/-! ## Building the outputs -/

/-- The remainder of a request which needs one is searched for from the cursor on. -/
theorem searched_of_walletBuildOutputs {am am' : WalletAm} {dest dest' : SendFundsOp}
    {consumed : UnspentOutputs} {outputs : List TxOutput}
    (h : walletBuildOutputs libs am dest consumed = some (outputs, am', dest')) :
    (∃ addrIndex, dest.amount < unspentOutputsBalanceWithColor consumed dest.color ∧
        emptyByteArray dest.remainder = true ∧
        Searched libs consumed am.firstUnspentIdx am dest.remainder 0 (am', dest'.remainder, addrIndex) ∧
        dest' = { dest with remainder := dest'.remainder }) ∨
      (¬ (dest.amount < unspentOutputsBalanceWithColor consumed dest.color ∧
        emptyByteArray dest.remainder = true) ∧ am' = am ∧ dest' = dest) := by
  unfold walletBuildOutputs at h
  dsimp only at h
  split at h
  · next hneeded =>
    unfold buildRemainder at h
    cases hsearch : remainderSearch libs consumed searchFuel am.firstUnspentIdx am dest.remainder 0 with
    | none => simp [hsearch] at h
    | some found =>
      obtain ⟨am₁, remainder, addrIndex⟩ := found
      have hsearched := searched_remainderSearch libs consumed _ hsearch
      simp only [hsearch, Option.bind_eq_bind, Option.bind_some] at h
      refine Or.inl ⟨addrIndex, hneeded.1, hneeded.2, ?_⟩
      split at h
      · obtain ⟨-, rfl, rfl⟩ := by simpa using h
        exact ⟨hsearched, rfl⟩
      · obtain ⟨-, rfl, rfl⟩ := by simpa using h
        exact ⟨hsearched, rfl⟩
  · next hneeded =>
    obtain ⟨-, rfl, rfl⟩ := by simpa using h
    exact Or.inr ⟨hneeded, rfl, rfl⟩

/-- Making the remainder output ends exactly when the search does. -/
theorem isSome_buildRemainder (am : WalletAm) (dest : SendFundsOp) (unspent : UnspentOutputs)
    (outputBalance : UInt64) :
    (buildRemainder libs am dest unspent outputBalance).isSome =
      (remainderSearch libs unspent searchFuel am.firstUnspentIdx am dest.remainder 0).isSome := by
  unfold buildRemainder
  cases remainderSearch libs unspent searchFuel am.firstUnspentIdx am dest.remainder 0 with
  | none => rfl
  | some found =>
    simp only [Option.bind_eq_bind, Option.bind_some]
    split <;> rfl

/-- Building the outputs ends exactly when no remainder address is searched for, or the search ends. -/
theorem isSome_walletBuildOutputs_iff (am : WalletAm) (dest : SendFundsOp) (consumed : UnspentOutputs) :
    (walletBuildOutputs libs am dest consumed).isSome ↔
      (dest.amount < unspentOutputsBalanceWithColor consumed dest.color → emptyByteArray dest.remainder = true →
        am.firstUnspentIdx ≤ am.lastAddrIndex →
          ∃ i, addressGet libs.sodium am.seed i ∉ consumed.entries.map UnspentOutputEntry.addr) := by
  rw [walletBuildOutputs]
  dsimp only
  by_cases hneeded : dest.amount < unspentOutputsBalanceWithColor consumed dest.color ∧
      emptyByteArray dest.remainder = true
  · rw [if_pos hneeded, Option.isSome_map, isSome_buildRemainder, isSome_remainderSearch_iff]
    exact ⟨fun hends _ _ => hends, fun hends => hends hneeded.1 hneeded.2⟩
  · rw [if_neg hneeded]
    exact ⟨fun _ hless hempty => absurd ⟨hless, hempty⟩ hneeded, fun _ => rfl⟩

/-- Building the outputs asks for new addresses. -/
theorem askedNew_walletBuildOutputs {am am' : WalletAm} {dest dest' : SendFundsOp}
    {consumed : UnspentOutputs} {outputs : List TxOutput}
    (h : walletBuildOutputs libs am dest consumed = some (outputs, am', dest')) : AskedNew libs am am' := by
  rcases searched_of_walletBuildOutputs libs h with ⟨addrIndex, -, -, hsearched, -⟩ | ⟨-, rfl, -⟩
  · exact hsearched.askedNew
  · exact .same

end Goshimmer
