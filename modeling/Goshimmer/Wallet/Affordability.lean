import Goshimmer.Core.Selection
import Goshimmer.Wallet.RemainderChoice

/-!
# What a wallet can afford

The balance check compares the amount with a sum which is accumulated in a 64-bit word, and the outputs
store their values as signed words. The check agrees with the true balance unless every running sum of
the selection, taken modulo 2^64, stays below an amount which the table covers; and the stored values
are positive as long as the amount and the change stay below 2^63.
-/

namespace Goshimmer

variable (libs : Libraries)

/-! ## The address of the remainder -/

/-- The address which the remainder of a request goes to when the given addresses are taken: the first one
from the cursor on which is not, or the one of the request when the cursor is behind the largest index. -/
def RemainderGoesTo (am : WalletAm) (dest : SendFundsOp) (taken : List Address) (addr : Address) : Prop :=
  (am.InOrder → ∃ steps, addr = searchAddress libs am am.firstUnspentIdx steps ∧ addr ∉ taken ∧
    ∀ j < steps, searchAddress libs am am.firstUnspentIdx j ∈ taken) ∧
  (¬ am.InOrder → addr = dest.remainder)

/-- The search chooses an address exactly when the remainder goes there. -/
theorem remainderSearch_iff (am : WalletAm) (dest : SendFundsOp) (consumed : UnspentOutputs) (addr : Address) :
    (∃ am' addrIndex, remainderSearch libs consumed searchFuel am.firstUnspentIdx am dest.remainder 0 =
        some (am', addr, addrIndex)) ↔
      RemainderGoesTo libs am dest (consumed.entries.map UnspentOutputEntry.addr) addr := by
  constructor
  · intro ⟨am', addrIndex, hsearch⟩
    have hsearched := searched_remainderSearch libs consumed _ hsearch
    refine ⟨fun horder => ?_, fun hbehind => hsearched.eq_of_behind libs hbehind⟩
    obtain ⟨steps, hbefore, hfree, heq⟩ := hsearched.stops libs horder
    refine ⟨steps, heq, ?_, fun j hj => (isSome_find_iff consumed _).mp (hbefore j hj)⟩
    rw [← isSome_find_iff, show addr = _ from heq, hfree]
    exact Bool.noConfusion
  · intro hgoes
    by_cases horder : am.InOrder
    · obtain ⟨steps, rfl, hfree, hbefore⟩ := hgoes.1 horder
      have hbefore' : ∀ j < steps, (unspentOutputsFind consumed
          (searchAddress libs am am.firstUnspentIdx j)).isSome :=
        fun j hj => (isSome_find_iff consumed _).mpr (hbefore j hj)
      rw [← isSome_find_iff, Option.not_isSome_iff_eq_none] at hfree
      have hsteps := steps_lt_of_first libs hbefore' hfree
      exact remainderSearch_of_stops libs steps searchFuel horder hbefore' hfree
        (by rw [searchFuel]; omega) dest.remainder 0
    · have hbehind : ¬ am.firstUnspentIdx ≤ am.lastAddrIndex := horder
      rw [hgoes.2 horder, searchFuel, remainderSearch, if_neg hbehind]
      exact ⟨_, _, rfl⟩

/-! ## The values of the outputs -/

/-- The balance of a colour which a word holds for some entries. -/
def wordBalance (color : Color) (p : List UnspentOutputEntry) : ℤ :=
  (p.map (UnspentOutputEntry.trueBalance color)).sum % 2 ^ 64

/-- The values which are stored for a request and the entries it consumes stay below 2^63: the amount, and
where there is a change which the wallet has to place, the change, or both together when it goes to the
receiver. -/
def ValuesFit (am : WalletAm) (dest : SendFundsOp) (p : List UnspentOutputEntry) : Prop :=
  (wordBalance dest.color p = dest.amount.toNat ∨ emptyByteArray dest.remainder = false →
      dest.amount.toNat < 2 ^ 63) ∧
    (wordBalance dest.color p ≠ dest.amount.toNat → emptyByteArray dest.remainder = true →
      ∀ addr, RemainderGoesTo libs am dest (p.map UnspentOutputEntry.addr) addr →
        (dest.receiver = addr → wordBalance dest.color p < 2 ^ 63) ∧
        (dest.receiver ≠ addr → dest.amount.toNat < 2 ^ 63 ∧
          wordBalance dest.color p - dest.amount.toNat < 2 ^ 63))

/-- Every value of the outputs which are built is positive. -/
def BuildsPositive (am : WalletAm) (dest : SendFundsOp) (consumed : UnspentOutputs) : Prop :=
  ∀ outputs am' dest', walletBuildOutputs libs am dest consumed = some (outputs, am', dest') →
    ∀ out ∈ outputs, ∀ b ∈ out.balances, 0 < b.value.toInt

/-- The outputs which are built once the search has chosen an address. -/
theorem walletBuildOutputs_of_search {am am' : WalletAm} {dest : SendFundsOp} {consumed : UnspentOutputs}
    {addr : Address} {addrIndex : UInt64}
    (hless : dest.amount < unspentOutputsBalanceWithColor consumed dest.color)
    (hempty : emptyByteArray dest.remainder = true)
    (hsearch : remainderSearch libs consumed searchFuel am.firstUnspentIdx am dest.remainder 0 =
      some (am', addr, addrIndex)) :
    walletBuildOutputs libs am dest consumed =
      some (if dest.receiver = addr then
          [singleOutput addrIndex addr (unspentOutputsBalanceWithColor consumed dest.color).toInt64 dest.color]
        else
          [singleOutput addrIndex addr
              (unspentOutputsBalanceWithColor consumed dest.color - dest.amount).toInt64 dest.color,
            receiverOutput dest],
        am', { dest with remainder := addr }) := by
  unfold walletBuildOutputs
  dsimp only
  rw [if_pos ⟨hless, hempty⟩, buildRemainder, hsearch]
  simp only [Option.bind_eq_bind, Option.bind_some]
  by_cases hreceiver : dest.receiver = addr
  · rw [if_pos hreceiver, if_pos hreceiver]
    rfl
  · rw [if_neg hreceiver, if_neg hreceiver]
    rfl

/-- The value of an output is positive exactly when it is above 0 and stays below 2^63. -/
theorem positive_singleOutput (addrIndex : UInt64) (addr : Address) (value : UInt64) (color : Color) :
    (∀ b ∈ (singleOutput addrIndex addr value.toInt64 color).balances, 0 < b.value.toInt) ↔
      0 < value.toNat ∧ value.toNat < 2 ^ 63 := by
  rw [← toInt64_pos_iff]
  constructor
  · intro hall
    exact hall _ (List.mem_singleton_self _)
  · intro hvalue b hb
    rw [List.mem_singleton.mp hb]
    exact hvalue

/-- With a change to place, the values are positive exactly when they stay below 2^63. -/
theorem outputs_positive_iff {dest : SendFundsOp} {balance : UInt64} (hamount : 0 < dest.amount)
    (hless : dest.amount < balance) (addr : Address) (addrIndex : UInt64) :
    (∀ out ∈ (if dest.receiver = addr then [singleOutput addrIndex addr balance.toInt64 dest.color]
        else [singleOutput addrIndex addr (balance - dest.amount).toInt64 dest.color, receiverOutput dest]),
      ∀ b ∈ out.balances, 0 < b.value.toInt) ↔
      (dest.receiver = addr → (balance.toNat : ℤ) < 2 ^ 63) ∧
        (dest.receiver ≠ addr → dest.amount.toNat < 2 ^ 63 ∧
          (balance.toNat : ℤ) - dest.amount.toNat < 2 ^ 63) := by
  have hpositive : 0 < dest.amount.toNat := UInt64.lt_iff_toNat_lt.mp hamount
  have hbelow := UInt64.lt_iff_toNat_lt.mp hless
  have hchange : (balance - dest.amount).toNat = balance.toNat - dest.amount.toNat :=
    UInt64.toNat_sub_of_le _ _ (UInt64.le_of_lt hless)
  by_cases hreceiver : dest.receiver = addr
  · rw [if_pos hreceiver, List.forall_mem_singleton, positive_singleOutput]
    constructor
    · intro hvalue
      exact ⟨fun _ => by omega, fun hother => absurd hreceiver hother⟩
    · intro hfits
      have hbalance := hfits.1 hreceiver
      omega
  · rw [if_neg hreceiver, List.forall_mem_cons, List.forall_mem_singleton, positive_singleOutput, receiverOutput,
      positive_singleOutput, hchange]
    constructor
    · intro hvalues
      exact ⟨fun hsame => absurd hsame hreceiver, fun _ => by omega⟩
    · intro hfits
      have hboth := hfits.2 hreceiver
      omega

/-- With a change to place, every value which is built is positive exactly when the values stay below 2^63
with the address which the search chooses. -/
theorem buildsPositive_of_change_iff {am : WalletAm} {dest : SendFundsOp} {consumed : UnspentOutputs}
    (hamount : 0 < dest.amount) (hless : dest.amount < unspentOutputsBalanceWithColor consumed dest.color)
    (hempty : emptyByteArray dest.remainder = true) :
    BuildsPositive libs am dest consumed ↔
      ∀ addr, RemainderGoesTo libs am dest (consumed.entries.map UnspentOutputEntry.addr) addr →
        (dest.receiver = addr → ((unspentOutputsBalanceWithColor consumed dest.color).toNat : ℤ) < 2 ^ 63) ∧
        (dest.receiver ≠ addr → dest.amount.toNat < 2 ^ 63 ∧
          ((unspentOutputsBalanceWithColor consumed dest.color).toNat : ℤ) - dest.amount.toNat < 2 ^ 63) := by
  constructor
  · intro hbuilds addr haddr
    obtain ⟨am', addrIndex, hsearch⟩ := (remainderSearch_iff libs am dest consumed addr).mpr haddr
    rw [← outputs_positive_iff hamount hless addr addrIndex]
    exact hbuilds _ _ _ (walletBuildOutputs_of_search libs hless hempty hsearch)
  · intro hfit outputs am' dest' hbuilt
    cases hsearch : remainderSearch libs consumed searchFuel am.firstUnspentIdx am dest.remainder 0 with
    | none =>
      unfold walletBuildOutputs at hbuilt
      dsimp only at hbuilt
      rw [if_pos ⟨hless, hempty⟩, buildRemainder, hsearch] at hbuilt
      exact absurd hbuilt.symm (Option.some_ne_none _)
    | some found =>
      obtain ⟨am₁, addr, addrIndex⟩ := found
      rw [walletBuildOutputs_of_search libs hless hempty hsearch] at hbuilt
      rw [← (Prod.mk.inj (Option.some.inj hbuilt)).1, outputs_positive_iff hamount hless]
      exact hfit addr ((remainderSearch_iff libs am dest consumed addr).mp ⟨am₁, addrIndex, hsearch⟩)

/-- Without one, the only value is the amount. -/
theorem buildsPositive_of_plain_iff {am : WalletAm} {dest : SendFundsOp} {consumed : UnspentOutputs}
    (hamount : 0 < dest.amount)
    (hplain : ¬ (dest.amount < unspentOutputsBalanceWithColor consumed dest.color ∧
      emptyByteArray dest.remainder = true)) :
    BuildsPositive libs am dest consumed ↔ dest.amount.toNat < 2 ^ 63 := by
  have hbuilt : walletBuildOutputs libs am dest consumed = some ([receiverOutput dest], am, dest) :=
    if_neg hplain
  have hvalue := positive_singleOutput 0 dest.receiver dest.amount dest.color
  constructor
  · intro hbuilds
    exact (hvalue.mp (hbuilds _ _ _ hbuilt _ (List.mem_singleton_self _))).2
  · intro hbelow outputs am' dest' hother out hout
    rw [hbuilt] at hother
    rw [← (Prod.mk.inj (Option.some.inj hother)).1] at hout
    rw [List.mem_singleton.mp hout]
    exact hvalue.mpr ⟨UInt64.lt_iff_toNat_lt.mp hamount, hbelow⟩

/-- Every value which is built for an amount which the selection covers is positive exactly when the values
stay below 2^63. -/
theorem buildsPositive_iff {am : WalletAm} {dest : SendFundsOp} {consumed : UnspentOutputs}
    (hamount : 0 < dest.amount) (hle : dest.amount ≤ unspentOutputsBalanceWithColor consumed dest.color)
    (hbalance : ((unspentOutputsBalanceWithColor consumed dest.color).toNat : ℤ) =
      wordBalance dest.color consumed.entries) :
    BuildsPositive libs am dest consumed ↔ ValuesFit libs am dest consumed.entries := by
  rw [ValuesFit, ← hbalance]
  by_cases hneeded : dest.amount < unspentOutputsBalanceWithColor consumed dest.color ∧
      emptyByteArray dest.remainder = true
  · have hless := UInt64.lt_iff_toNat_lt.mp hneeded.1
    rw [buildsPositive_of_change_iff libs hamount hneeded.1 hneeded.2]
    constructor
    · intro hall
      refine ⟨fun hplain => ?_, fun _ _ => hall⟩
      rcases hplain with hsame | hfilled
      · omega
      · exact absurd hneeded.2 (Bool.eq_false_iff.mp hfilled)
    · exact fun hfit => hfit.2 (by omega) hneeded.2
  · have hplain : ((unspentOutputsBalanceWithColor consumed dest.color).toNat : ℤ) = dest.amount.toNat ∨
        emptyByteArray dest.remainder = false := by
      cases hempty : emptyByteArray dest.remainder with
      | false => exact Or.inr rfl
      | true =>
        have hsame := UInt64.le_antisymm hle (UInt64.not_lt.mp fun hless => hneeded ⟨hless, hempty⟩)
        rw [← hsame]
        exact Or.inl rfl
    rw [buildsPositive_of_plain_iff libs hamount hneeded]
    constructor
    · intro hbelow
      refine ⟨fun _ => hbelow, fun hne hempty => ?_⟩
      rcases hplain with hsame | hfilled
      · exact absurd hsame hne
      · exact absurd hempty (Bool.eq_false_iff.mp hfilled)
    · exact fun hfit => hfit.1 hplain

/-! ## The balance check -/

/-- The check is passed exactly when the table covers the amount, and then every value which is stored in
an output is positive. -/
def AffordabilityExact (w : Wallet) (dest : SendFundsOp) : Prop :=
  (PassesBalanceCheck w dest ↔ (dest.amount.toNat : ℤ) ≤ w.unspent.trueBalance dest.color) ∧
    (PassesBalanceCheck w dest → BuildsPositive libs w.addrManager dest (consumedOutputs w dest))

/-- The check agrees with the true balance, and every value of the outputs is positive, exactly when the
table does not cover the amount, or the shortest nonempty prefix of the eligible entries which covers it
modulo 2^64 exists and the values which are stored for it fit. -/
theorem affordability_exact_iff {w : Wallet} {dest : SendFundsOp} (hvalues : w.unspent.NonNegative)
    (hamount : 0 < dest.amount) :
    AffordabilityExact libs w dest ↔
      w.unspent.trueBalance dest.color < dest.amount.toNat ∨
        ∃ p, IsShortestPrefix (fun p => p ≠ [] ∧ CoversAsWord dest.amount dest.color p) w.unspent.eligible p ∧
          ValuesFit libs w.addrManager dest p := by
  have hcovered : PassesBalanceCheck w dest → (dest.amount.toNat : ℤ) ≤ w.unspent.trueBalance dest.color := by
    intro hpasses
    have hshortest := passesBalanceCheck_iff.mp hpasses
    obtain ⟨hnonneg, hle⟩ := hvalues.sum_prefix_bounds dest.color hshortest.isPrefix
    have hword := hshortest.isEnough.2
    rw [CoversAsWord] at hword
    omega
  have hfits : PassesBalanceCheck w dest →
      (BuildsPositive libs w.addrManager dest (consumedOutputs w dest) ↔
        ValuesFit libs w.addrManager dest (consumedOutputs w dest).entries) := by
    intro hpasses
    apply buildsPositive_iff libs hamount hpasses.2
    rw [consumedOutputs, unspentOutputsBalanceWithColor_eq_sum, eligible_requiredOutputs,
      sum_contribution_eq_ofInt, toNat_ofInt]
    rfl
  constructor
  · rintro ⟨hcheck, hpositive⟩
    by_cases hafford : (dest.amount.toNat : ℤ) ≤ w.unspent.trueBalance dest.color
    · have hpasses := hcheck.mpr hafford
      exact Or.inr ⟨_, passesBalanceCheck_iff.mp hpasses, (hfits hpasses).mp (hpositive hpasses)⟩
    · exact Or.inl (not_le.mp hafford)
  · rintro (hpoor | ⟨p, hshortest, hfit⟩)
    · have hfails : ¬ PassesBalanceCheck w dest := fun hpasses => not_le.mpr hpoor (hcovered hpasses)
      exact ⟨iff_of_false hfails (not_le.mpr hpoor), fun hpasses => absurd hpasses hfails⟩
    · have hselected : (consumedOutputs w dest).entries = p := by
        rcases requiredOutputs_cases w.unspent dest.amount dest.color with hfirst | ⟨-, hnone⟩
        · exact hfirst.eq hshortest
        · exact absurd hshortest.isEnough.2 (hnone p hshortest.isPrefix hshortest.isEnough.1)
      have hpasses : PassesBalanceCheck w dest := by
        rw [passesBalanceCheck_iff, hselected]
        exact hshortest
      refine ⟨iff_of_true hpasses (hcovered hpasses), fun _ => (hfits hpasses).mpr ?_⟩
      rw [hselected]
      exact hfit

/-- The wallet with five tokens can afford them. -/
theorem affordability_exact_iff_five : AffordabilityExact fiveLibraries fiveWallet (plainRequest 5) := by
  have hvalues : fiveWallet.unspent.NonNegative := by
    unfold UnspentOutputs.NonNegative
    decide
  apply (affordability_exact_iff fiveLibraries hvalues (by decide)).mpr
  refine Or.inr ⟨[zeroSeedEntry 0 0 false fiveIds], ⟨?_, ⟨by decide, ?_⟩, ?_⟩, ?_, ?_⟩
  · decide
  · unfold CoversAsWord
    decide
  · intro q hprefix hq
    obtain ⟨e, q, rfl⟩ := List.exists_cons_of_ne_nil hq.1
    obtain ⟨rfl, hrest⟩ := List.cons_prefix_cons.mp hprefix
    rw [List.prefix_nil.mp hrest]
  · exact fun _ => by decide
  · intro hne
    exact absurd (by decide) hne

/-- A wallet with 2^64 plain tokens in four outputs of its only address. -/
def wrappingWallet : Wallet :=
  zeroSeedWallet 0 0 [0] [zeroSeedEntry 0 0 false (([0, 1, 2, 3] : List Byte).foldl
    (fun ids id => withOutput ids id true [⟨Int64.ofNat (2 ^ 62), plain⟩]) outputIdsInit)]

/-- It cannot pay one of them. -/
theorem wrapped_balance_insufficient :
    ¬ ∀ (libs : Libraries) (w : Wallet) (dest : SendFundsOp), w.unspent.NonNegative → 0 < dest.amount →
      AffordabilityExact libs w dest := by
  intro h
  have hvalues : wrappingWallet.unspent.NonNegative := by
    unfold UnspentOutputs.NonNegative
    decide
  have hpasses := (h fiveLibraries wrappingWallet (plainRequest 1) hvalues (by decide)).1.mpr (by decide)
  have hfails : unspentOutputsBalanceWithColor (consumedOutputs wrappingWallet (plainRequest 1)) plain < 1 := by
    decide
  exact UInt64.not_le.mpr hfails hpasses.2

end Goshimmer
