import Goshimmer.Wallet.Cursors

/-!
# Where the remainder goes

The search for a remainder address takes the first index from the cursor on whose address is not
selected. It asks neither the table of unspent outputs nor the bitmask whether this address was
spent. Spent and unspent indices mix above the cursor, so the change can go to a retired address,
which is neither counted nor refreshed. It goes to a live one exactly when, from the cursor on,
every retired index which is not selected comes after a live one.
-/

namespace Goshimmer

variable (libs : Libraries)

/-- An address is retired: it is marked as spent in the table of unspent outputs, or an index which
derives it is marked in the bitmask. -/
def AddressRetired (w : Wallet) (addr : Address) : Prop :=
  unspentOutputsGetSpent w.unspent addr = true ∨
    ∃ i, addressGet libs.sodium w.addrManager.seed i = addr ∧ w.addrManager.spentAddr.marked i = true

/-- An index which the search may choose: from the cursor on, and its address is not selected. -/
def Choosable (w : Wallet) (consumed : UnspentOutputs) (steps : ℕ) : Prop :=
  unspentOutputsFind consumed (searchAddress libs w.addrManager w.addrManager.firstUnspentIdx steps) = none

/-- Every index which the search may choose and whose address is retired comes after one whose
address is live. -/
def LiveComesFirst (w : Wallet) (consumed : UnspentOutputs) : Prop :=
  ∀ steps, Choosable libs w consumed steps →
    AddressRetired libs w (searchAddress libs w.addrManager w.addrManager.firstUnspentIdx steps) →
      ∃ j < steps, Choosable libs w consumed j ∧
        ¬ AddressRetired libs w (searchAddress libs w.addrManager w.addrManager.firstUnspentIdx j)

/-- In every state which a run from an initialised wallet reaches, a request which needs a remainder
and leaves its address to the wallet sends it to an address which is not retired exactly when the
live addresses come first. -/
theorem remainder_not_retired_iff {env : Env} {url : List Byte} {port : UInt16} {seed : Seed}
    {lastAddr firstUnspent lastUnspent : UInt64} {initial w : Wallet} {log : List Submission}
    (hcursors : firstUnspent ≤ lastAddr)
    (hinit : walletInit libs env url port seed lastAddr firstUnspent lastUnspent = some initial)
    (hrun : Run (walletStep libs) (fun _ _ => True) initial w log) {env' : Env} {synced : Bool}
    {refreshed : Wallet} (hrefresh : walletRefresh libs env' w false = some (synced, refreshed))
    {dest dest' : SendFundsOp} {outputs : List TxOutput} {am : WalletAm}
    (hremainder : emptyByteArray dest.remainder = true)
    (hneeded : dest.amount < unspentOutputsBalanceWithColor (consumedOutputs refreshed dest) dest.color)
    (hbuilt : walletBuildOutputs libs refreshed.addrManager dest (consumedOutputs refreshed dest) =
      some (outputs, am, dest')) :
    ¬ AddressRetired libs refreshed dest'.remainder ↔
      LiveComesFirst libs refreshed (consumedOutputs refreshed dest) := by
  have horder : refreshed.addrManager.InOrder := by
    rw [addrManager_walletRefresh libs env' hrefresh]
    exact inOrder_of_run libs hcursors hinit hrun
  rcases searched_of_walletBuildOutputs libs hbuilt with ⟨addrIndex, -, -, hsearched, -⟩ | ⟨hnot, -, -⟩
  · obtain ⟨chosen, hbefore, hnone, heq⟩ := hsearched.stops libs horder
    dsimp only at heq
    rw [heq]
    constructor
    · intro hlive steps hchoosable hretired
      have hle : chosen ≤ steps := by
        by_contra hless
        have hsome := hbefore steps (by omega)
        rw [show unspentOutputsFind _ _ = none from hchoosable] at hsome
        simp at hsome
      rcases hle.eq_or_lt with rfl | hlt
      · exact absurd hretired hlive
      · exact ⟨chosen, hlt, hnone, hlive⟩
    · intro hfirst hretired
      obtain ⟨j, hj, hchoosable, _⟩ := hfirst chosen hnone hretired
      have hsome := hbefore j hj
      rw [show unspentOutputsFind _ _ = none from hchoosable] at hsome
      simp at hsome
  · exact absurd ⟨hneeded, hremainder⟩ hnot

/-- A wallet with two addresses. -/
def twoAddresses : Wallet :=
  zeroSeedWallet 1 0 [0] [zeroSeedEntry 0 0 false outputIdsInit, zeroSeedEntry 1 1 false outputIdsInit]

/-- It is an initialised wallet. -/
theorem walletInit_twoAddresses :
    walletInit fiveLibraries unreachable (cText "http://node/") 0 (Bytes.zero 32) 1 0 0 = some twoAddresses := by
  decide

/-- The wallet after the second address got five tokens and paid them. -/
def secondSpent : Wallet :=
  zeroSeedWallet 1 0 [2] [zeroSeedEntry 0 0 false outputIdsInit, zeroSeedEntry 1 1 true fiveIds]

/-- The addresses which the refresh before this payment asks for. -/
theorem refreshAddresses_twoAddresses :
    refreshAddresses fiveLibraries (fiveNode 1) twoAddresses false =
      some [⟨0, zeroSeedAddress 0⟩, ⟨1, zeroSeedAddress 1⟩] := by
  decide

/-- This payment is a run of one step. -/
theorem run_secondSpent :
    ∃ log, Run (walletStep fiveLibraries) (fun _ _ => True) twoAddresses secondSpent log := by
  have hpaid : (walletSendFunds fiveLibraries (fiveNode 1) twoAddresses (plainRequest 5)).map SendOutcome.wallet =
      some secondSpent := by
    rw [walletSendFunds_plainRequest (by decide) (walletRefresh_fiveNode (Or.inr rfl)
      refreshAddresses_twoAddresses (List.cons_ne_nil _ _) (by decide))]
    · decide +kernel
    · unfold PassesBalanceCheck
      decide
  obtain ⟨out, hstep⟩ := exists_step_of_walletSendFunds fiveLibraries (fiveNode 1) twoAddresses
    secondSpent (plainRequest 5) hpaid
  exact ⟨out, Run.single trivial hstep⟩

/-- The wallet after its first address got five tokens, too. -/
def secondSpentRefreshed : Wallet :=
  zeroSeedWallet 1 0 [2] [zeroSeedEntry 0 0 false fiveIds, zeroSeedEntry 1 1 true fiveIds]

/-- A refresh leads there. -/
theorem walletRefresh_secondSpent :
    walletRefresh fiveLibraries (fiveNode 0) secondSpent false = some (true, secondSpentRefreshed) := by
  have haddrs : refreshAddresses fiveLibraries (fiveNode 0) secondSpent false = some [⟨0, zeroSeedAddress 0⟩] := by
    decide
  rw [walletRefresh_fiveNode (Or.inl rfl) haddrs (List.cons_ne_nil _ _) (by decide)]
  decide

/-- A payment of three tokens from there sends its change to the second address. -/
theorem walletBuildOutputs_secondSpent :
    ∃ outputs am, walletBuildOutputs fiveLibraries secondSpentRefreshed.addrManager (plainRequest 3)
      (consumedOutputs secondSpentRefreshed (plainRequest 3)) =
        some (outputs, am, { plainRequest 3 with remainder := zeroSeedAddress 1 }) := by
  have hbuilt : (walletBuildOutputs fiveLibraries secondSpentRefreshed.addrManager (plainRequest 3)
      (consumedOutputs secondSpentRefreshed (plainRequest 3))).map (fun built => built.2.2) =
        some { plainRequest 3 with remainder := zeroSeedAddress 1 } := by
    decide
  obtain ⟨⟨outputs, am, dest'⟩, hsome, rfl⟩ := Option.map_eq_some_iff.mp hbuilt
  exact ⟨outputs, am, hsome⟩

/-- The characterisation for this payment. -/
theorem remainder_not_retired_iff_secondSpent :
    ¬ AddressRetired fiveLibraries secondSpentRefreshed (zeroSeedAddress 1) ↔
      LiveComesFirst fiveLibraries secondSpentRefreshed
        (consumedOutputs secondSpentRefreshed (plainRequest 3)) := by
  obtain ⟨log, hrun⟩ := run_secondSpent
  obtain ⟨outputs, am, hbuilt⟩ := walletBuildOutputs_secondSpent
  exact remainder_not_retired_iff fiveLibraries (by decide) walletInit_twoAddresses hrun
    walletRefresh_secondSpent (by decide) (by decide) hbuilt

/-- The change of a payment from the first address goes to the second one, which was spent. -/
theorem change_sent_to_retired_address :
    ¬ ∀ (libs : Libraries) (env : Env) (url : List Byte) (port : UInt16) (seed : Seed)
      (lastAddr firstUnspent lastUnspent : UInt64) (initial w : Wallet) (log : List Submission)
      (env' : Env) (synced : Bool) (refreshed : Wallet) (dest dest' : SendFundsOp)
      (outputs : List TxOutput) (am : WalletAm),
      firstUnspent ≤ lastAddr →
        walletInit libs env url port seed lastAddr firstUnspent lastUnspent = some initial →
        Run (walletStep libs) (fun _ _ => True) initial w log →
        walletRefresh libs env' w false = some (synced, refreshed) →
        emptyByteArray dest.remainder = true →
        dest.amount < unspentOutputsBalanceWithColor (consumedOutputs refreshed dest) dest.color →
        walletBuildOutputs libs refreshed.addrManager dest (consumedOutputs refreshed dest) =
          some (outputs, am, dest') →
          ¬ AddressRetired libs refreshed dest'.remainder := by
  intro h
  obtain ⟨log, hrun⟩ := run_secondSpent
  obtain ⟨outputs, am, hbuilt⟩ := walletBuildOutputs_secondSpent
  have hlive := h fiveLibraries unreachable (cText "http://node/") 0 (Bytes.zero 32) 1 0 0 twoAddresses
    secondSpent log (fiveNode 0) true secondSpentRefreshed (plainRequest 3) _ outputs am (by decide)
    walletInit_twoAddresses hrun walletRefresh_secondSpent (by decide) (by decide) hbuilt
  have hspent : unspentOutputsGetSpent secondSpentRefreshed.unspent (zeroSeedAddress 1) = true := by
    decide
  exact hlive (Or.inl hspent)

end Goshimmer
