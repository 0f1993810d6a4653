import Goshimmer.Wallet.Payments

/-!
# Accounts

A wallet next to its ledger does things in any order, and now and then it is restarted: it is initialised
again with its seed and its cursors. A restart forgets the table and which indices were retired behind the
first cursor. Nothing is lost by that, since there is nothing left at a retired index. So whatever the wallet
was worth at the start is what it is worth in the end with what its payments cost.
-/

namespace Goshimmer

variable (libs : Libraries)

/-! ## Restarts -/

/-- A wallet which is initialised with the seed and the cursors of another one. -/
def Wallet.restart (env : Env) (url : List Byte) (port : UInt16) (w : Wallet) : Option Wallet :=
  walletInit libs env url port w.addrManager.seed w.addrManager.lastAddrIndex w.addrManager.firstUnspentIdx
    w.addrManager.lastUnspentIdx

/-- What a restart has to meet: the mask of the new wallet reaches over its indices, and the node answers it
about its addresses. -/
def MeetsRestart (w : Wallet) (env : Env) (url : List Byte) (port : UInt16) : Prop :=
  w.addrManager.lastAddrIndex.toNat / 8 < max 1 ((w.addrManager.firstUnspentIdx.toNat + 7) / 8) ∧
    ∀ w', walletInitLocal libs url port w.addrManager.seed w.addrManager.lastAddrIndex w.addrManager.firstUnspentIdx
      w.addrManager.lastUnspentIdx = some w' → AnswersAsked libs env w' true

variable {libs}

/-- A restart keeps the records in step. -/
theorem Wallet.RecordsInStep.restart {seed : Seed} {w w' : Wallet} (h : w.RecordsInStep libs seed)
    (hfront : w.addrManager.FrontKept) (hinjective : Function.Injective (addressGet libs.sodium seed)) {env : Env}
    {url : List Byte} {port : UInt16} (hmeets : MeetsRestart libs w env url port)
    (hrestart : w.restart libs env url port = some w') :
    w'.RecordsInStep libs seed ∧ w'.addrManager.FrontKept := by
  obtain rfl := h.seed_eq
  exact ⟨(recordsInStep_walletInit libs hinjective hfront.inOrder hrestart hmeets.2).1,
    frontKept_walletInit hfront.inOrder hmeets.1 hrestart⟩

/-- Which indices an initialised wallet has marked. -/
theorem marked_walletInit {env : Env} {url : List Byte} {port : UInt16} {seed : Seed}
    {lastAddr firstUnspent lastUnspent : UInt64} {initial : Wallet}
    (hinit : walletInit libs env url port seed lastAddr firstUnspent lastUnspent = some initial) (i : UInt64) :
    initial.addrManager.spentAddr.marked i = decide (i < firstUnspent) := by
  have hmarked := Bitmask.marked_setAll bitmaskNew (indicesBelow 0 firstUnspent) i
  rw [marked_bitmaskNew, Bool.false_or] at hmarked
  rw [addrManager_walletInit libs hinit]
  refine hmarked.trans ?_
  rw [decide_eq_decide, mem_indicesBelow]
  exact and_iff_right UInt64.zero_le

/-- An initialised wallet is settled in a ledger which has nothing at the indices still to come. -/
theorem settled_walletInit {env : Env} {url : List Byte} {port : UInt16} {seed : Seed}
    {lastAddr firstUnspent lastUnspent : UInt64} {initial : Wallet} {ledger : Ledger}
    (hinjective : Function.Injective (addressGet libs.sodium seed)) (hcursors : firstUnspent ≤ lastAddr)
    (hmask : lastAddr.toNat / 8 < max 1 ((firstUnspent.toNat + 7) / 8))
    (hinit : walletInit libs env url port seed lastAddr firstUnspent lastUnspent = some initial)
    (hasked : ∀ w, walletInitLocal libs url port seed lastAddr firstUnspent lastUnspent = some w →
      AnswersAsked libs env w true)
    (hplaced : ledger.Placed) (hdistinct : ledger.Distinct)
    (huntouched : ∀ i, lastAddr < i → ledger (addressGet libs.sodium seed i) = []) :
    Settled libs seed (initial, ledger) := by
  have ham := addrManager_walletInit libs hinit
  refine ⟨(recordsInStep_walletInit libs hinjective hcursors hinit hasked).1,
    frontKept_walletInit hcursors hmask hinit, hplaced, hdistinct, fun i hi => ?_, fun i hi hmarked => ?_⟩
  · dsimp only at hi
    rw [ham] at hi
    exact huntouched i hi
  · -- only the indices in front of the first cursor are marked
    dsimp only at hi hmarked
    rw [marked_walletInit hinit] at hmarked
    rw [ham] at hi
    exact absurd (of_decide_eq_true hmarked) (UInt64.not_lt.mpr hi)

/-- A restart leaves the wallet settled, and it is worth the same. -/
theorem Settled.restart {seed : Seed} {s : Wallet × Ledger} (h : Settled libs seed s)
    (hinjective : Function.Injective (addressGet libs.sodium seed)) {env : Env} {url : List Byte} {port : UInt16}
    (hmeets : MeetsRestart libs s.1 env url port) {w' : Wallet}
    (hrestart : s.1.restart libs env url port = some w') :
    Settled libs seed (w', s.2) ∧ ∀ color, s.2.worth libs color s.1.addrManager = s.2.worth libs color w'.addrManager := by
  obtain rfl := h.inStep.seed_eq
  have hsettled := settled_walletInit hinjective h.front.inOrder hmeets.1 hrestart hmeets.2 h.placed h.distinct
    h.untouched
  refine ⟨hsettled, fun color => ?_⟩
  rw [s.2.worth_eq_sum libs color rfl, s.2.worth_eq_sum libs color hsettled.inStep.seed_eq]
  have hlast : w'.addrManager.lastAddrIndex = s.1.addrManager.lastAddrIndex := by
    rw [addrManager_walletInit libs hrestart]
  apply Finset.sum_subset
  · intro i hi
    rw [List.mem_toFinset, WalletAm.mem_unspentIndices] at hi ⊢
    rw [hlast, marked_walletInit hrestart, decide_eq_false_iff_not]
    refine ⟨hi.1, fun hbefore => ?_⟩
    have hmarked : s.1.addrManager.spentAddr.marked i = true := h.front.before i hbefore
    rw [hi.2] at hmarked
    exact Bool.noConfusion hmarked
  · intro i hi hnot
    rw [List.mem_toFinset, WalletAm.mem_unspentIndices] at hi hnot
    rw [hlast, marked_walletInit hrestart, decide_eq_false_iff_not, UInt64.not_lt] at hi
    -- the restarted wallet takes a retired index up again, and there is nothing left at it
    have hmarked : s.1.addrManager.spentAddr.marked i = true := by
      rw [← Bool.not_eq_false]
      exact fun hclear => hnot ⟨hi.1, hclear⟩
    rw [Ledger.confirmedOf, h.drained i hi.2 hmarked]
    rfl

/-! ## Whole runs -/

end Goshimmer
