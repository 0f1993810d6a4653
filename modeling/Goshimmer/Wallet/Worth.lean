import Goshimmer.Wallet.LedgerBalance

/-!
# What a wallet is worth in a ledger

A wallet is worth, of each colour, what the ledger has confirmed at the indices which are left unspent. A
ledger which takes in a transaction loses the inputs and has the outputs instead. The indices which a
transaction retires take their worth along, and the outputs bring some back.
-/

namespace Goshimmer

/-! ## A ledger which takes in a transaction -/

/-- A ledger once it took in a transaction: the inputs are gone, and the outputs are at their addresses under
the id of the transaction. -/
def Ledger.after (ledger : Ledger) (tx : Transaction) (id : TxId) (st : InclusionState) : Ledger :=
  fun addr =>
    ((ledger addr).filter fun o => decide (o.outputId ∉ tx.inputs)) ++
      (tx.outputs.filter fun out => decide (out.address = addr)).map fun out =>
        ⟨txOutputId addr id, st, out.balances⟩

/-- What outputs pay of a colour to an address. -/
def paidTo (color : Color) (outputs : List TxOutput) (addr : Address) : UInt64 :=
  ((outputs.filter fun out => decide (out.address = addr)).map fun out =>
    (out.balances.map (Balance.worth color)).sum).sum

/-- An address whose outputs are not among the inputs has what is paid to it besides. -/
theorem Ledger.confirmedOf_after {ledger : Ledger} {tx : Transaction} {addr : Address}
    (hkept : ∀ o ∈ ledger addr, o.outputId ∉ tx.inputs) (id : TxId) {st : InclusionState}
    (hconfirmed : st.confirmed = true) (color : Color) :
    (ledger.after tx id st).confirmedOf color addr =
      ledger.confirmedOf color addr + paidTo color tx.outputs addr := by
  have hall : ((ledger addr).filter fun o => decide (o.outputId ∉ tx.inputs)) = ledger addr := by
    rw [List.filter_eq_self]
    exact fun o ho => decide_eq_true (hkept o ho)
  rw [Ledger.confirmedOf, Ledger.after, hall, List.map_append, List.sum_append, List.map_map]
  congr 2
  refine List.map_congr_left fun out _ => ?_
  exact if_pos hconfirmed

/-- An address whose outputs are all consumed and which nothing is paid to has none afterwards. -/
theorem Ledger.after_eq_nil {ledger : Ledger} {tx : Transaction} {addr : Address}
    (hgone : ∀ o ∈ ledger addr, o.outputId ∈ tx.inputs) (hnone : ∀ out ∈ tx.outputs, out.address ≠ addr)
    (id : TxId) (st : InclusionState) : ledger.after tx id st addr = [] := by
  rw [Ledger.after, List.append_eq_nil_iff, List.map_eq_nil_iff, List.filter_eq_nil_iff, List.filter_eq_nil_iff]
  refine ⟨fun o ho hkept => ?_, fun out hout hpaid => hnone out hout (of_decide_eq_true hpaid)⟩
  exact of_decide_eq_true hkept (hgone o ho)

/-- The outputs still name the addresses they are at. -/
theorem Ledger.Placed.after {ledger : Ledger} (h : ledger.Placed) (tx : Transaction) (id : TxId)
    (st : InclusionState) : (ledger.after tx id st).Placed := by
  intro addr o ho
  rcases List.mem_append.mp ho with hold | hnew
  · exact h addr o (List.mem_of_mem_filter hold)
  · obtain ⟨out, -, rfl⟩ := List.mem_map.mp hnew
    exact OutputId.address_txOutputId addr id

/-- A transaction with a new id, whose outputs go to different addresses and have different colours each,
repeats nothing. -/
theorem Ledger.Distinct.after {ledger : Ledger} (h : ledger.Distinct) {tx : Transaction} {id : TxId}
    (hfresh : ∀ addr, ∀ o ∈ ledger addr, o.outputId.txId ≠ id) (haddrs : (tx.outputs.map TxOutput.address).Nodup)
    (hcolors : ∀ out ∈ tx.outputs, (out.balances.map Balance.color).Nodup) (st : InclusionState) :
    (ledger.after tx id st).Distinct := by
  constructor
  · intro addr
    rw [Ledger.after, List.map_append, List.map_map]
    have hids : ((tx.outputs.filter fun out => decide (out.address = addr)).map
        ((fun o : OutputListing => o.outputId.txId) ∘ fun out => ⟨txOutputId addr id, st, out.balances⟩)) =
          List.replicate (tx.outputs.filter fun out => decide (out.address = addr)).length id := by
      rw [← List.map_const']
      exact List.map_congr_left fun out _ => OutputId.txId_txOutputId addr id
    rw [hids]
    refine List.Nodup.append ?_ ?_ ?_
    · exact (h.txIds addr).sublist (List.filter_sublist.map _)
    · exact List.nodup_replicate.mpr (length_filter_key_le_one TxOutput.address haddrs addr)
    · intro txId hold hnew
      obtain ⟨o, ho, hid⟩ := List.mem_map.mp hold
      exact hfresh addr o (List.mem_of_mem_filter ho) (hid.trans (List.eq_of_mem_replicate hnew))
  · intro addr o ho
    rcases List.mem_append.mp ho with hold | hnew
    · exact h.colors addr o (List.mem_of_mem_filter hold)
    · obtain ⟨out, hout, rfl⟩ := List.mem_map.mp hnew
      exact hcolors out (List.mem_of_mem_filter hout)

/-- What a ledger has of a colour, confirmed, under output ids. -/
def Ledger.confirmedUnder (ledger : Ledger) (color : Color) (inputs : List OutputId) : UInt64 :=
  (inputs.map fun input =>
    (((ledger input.address).filter fun o => decide (o.outputId = input)).map (OutputListing.listed color)).sum).sum

/-- Entries which show the ledger have under their inputs what the ledger has at their addresses. -/
theorem Ledger.confirmedUnder_walletBuildInputs {ledger : Ledger} (hplaced : ledger.Placed)
    (hdistinct : ledger.Distinct) {consumed : UnspentOutputs}
    (hshown : ∀ elm ∈ consumed.entries, elm.ids = outputsTable (ledger elm.addr)) (color : Color) :
    ledger.confirmedUnder color (walletBuildInputs consumed) =
      (consumed.entries.map fun elm => ledger.confirmedOf color elm.addr).sum := by
  rw [Ledger.confirmedUnder, walletBuildInputs, List.map_flatMap, List.flatMap_def, List.sum_flatten,
    List.map_map]
  congr 1
  refine List.map_congr_left fun elm helm => ?_
  rw [Function.comp_apply, hshown elm helm, hdistinct.entries_outputsTable, List.map_map, List.map_map,
    Ledger.confirmedOf]
  congr 1
  refine List.map_congr_left fun o ho => ?_
  have hinput : txOutputId elm.addr o.entry.id = o.outputId := hplaced.txOutputId_eq ho
  have hids : ((ledger elm.addr).map OutputListing.outputId).Nodup := by
    have htxIds := hdistinct.txIds elm.addr
    rw [← Function.comp_def, ← List.map_map] at htxIds
    exact htxIds.of_map
  rw [Function.comp_apply, Function.comp_apply, hinput, hplaced elm.addr o ho,
    filter_key_of_mem OutputListing.outputId hids ho, List.map_singleton, List.sum_singleton]

/-! ## The unspent indices -/

/-- The indices up to the largest one whose bit is clear. -/
def WalletAm.unspentIndices (am : WalletAm) : List UInt64 :=
  ((List.range' 0 (am.lastAddrIndex.toNat + 1)).map UInt64.ofNat).filter fun i => !am.spentAddr.marked i

/-- Which indices these are. -/
@[simp] theorem WalletAm.mem_unspentIndices {am : WalletAm} {i : UInt64} :
    i ∈ am.unspentIndices ↔ i ≤ am.lastAddrIndex ∧ am.spentAddr.marked i = false := by
  have hlast := am.lastAddrIndex.toNat_lt
  rw [WalletAm.unspentIndices, List.mem_filter, mem_map_ofNat_range' (by omega), UInt64.le_iff_toNat_le,
    Bool.not_eq_true', Nat.zero_add, Nat.lt_succ_iff]
  exact and_congr_left fun _ => and_iff_right (Nat.zero_le _)

/-- There is each of them once. -/
theorem WalletAm.nodup_unspentIndices (am : WalletAm) : am.unspentIndices.Nodup := by
  have hlast := am.lastAddrIndex.toNat_lt
  exact ((pairwise_lt_map_ofNat_range' (by omega)).imp fun hless => UInt64.ne_of_lt hless).filter _

variable (libs : Libraries)

/-- What a wallet is worth of a colour: what the ledger has confirmed at its unspent indices. -/
def Ledger.worth (ledger : Ledger) (color : Color) (am : WalletAm) : UInt64 :=
  (am.unspentIndices.map fun i => ledger.confirmedOf color (addressGet libs.sodium am.seed i)).sum

/-- As a sum over a set of indices. -/
theorem Ledger.worth_eq_sum (ledger : Ledger) (color : Color) {am : WalletAm} {seed : Seed}
    (hseed : am.seed = seed) :
    ledger.worth libs color am =
      ∑ i ∈ am.unspentIndices.toFinset, ledger.confirmedOf color (addressGet libs.sodium seed i) := by
  rw [List.sum_toFinset _ am.nodup_unspentIndices, Ledger.worth, hseed]

end Goshimmer
