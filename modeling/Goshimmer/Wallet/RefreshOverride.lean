import Goshimmer.Library.Override
import Goshimmer.Wallet.Cursors

/-!
# A refresh overrides the outputs

The entries of a reply are put into the table of the wallet one by one. A present entry gets the outputs
of the reply in the place of its own and keeps its index and its flag; a new entry is unspent. So the
table afterwards is the old one overridden by the reply, and the same reply changes nothing when it
comes again.
-/

namespace Goshimmer

/-- How a reply is put into the table. -/
def refreshOverride : InsertionTable.Override UnspentOutputEntry.addr where
  combine new old := { old with ids := new.ids }
  fresh new := { new with spent := false }
  key_combine _ _ := rfl
  key_fresh _ := rfl

/-- The outputs of a reply stay when they are put there again. -/
theorem settles_refreshOverride : refreshOverride.Settles :=
  ⟨fun _ => rfl, fun _ _ => rfl⟩

/-- The loop body of the refresh puts one entry into the table: the flag it restores is the one which the
entry has. -/
theorem refreshEntry_eq_put (table : UnspentOutputs) (unspent : UnspentOutputEntry) :
    refreshEntry table unspent = table.put refreshOverride unspent := by
  rw [refreshEntry, InsertionTable.put, unspentOutputsFind]
  cases hfind : table.find unspent.addr with
  | none =>
    dsimp only
    rw [unspentOutputsAdd_snd]
    rfl
  | some elm =>
    apply InsertionTable.ext
    simp only [unspentOutputsUpdate, unspentOutputsSetSpent, InsertionTable.modify,
      InsertionTable.mapEntries, List.map_map, outputIdsClone_eq]
    apply List.map_congr_left
    intro v hv
    rw [Function.comp_apply]
    by_cases haddr : v.addr = unspent.addr
    · have hsame : v = elm := by
        have hfound := (table.find_eq_some_iff _ _).mpr ⟨hv, haddr⟩
        exact Option.some.inj (hfound.symm.trans hfind)
      simp only [if_pos haddr, ← hsame]
      rfl
    · simp only [if_neg haddr]

/-- So applying a reply overrides the table by it. -/
theorem refreshEntry_eq : refreshEntry = InsertionTable.put refreshOverride := by
  funext table unspent
  exact refreshEntry_eq_put table unspent

/-- What a table is after a reply was applied to it, whatever the order of the entries. -/
structure OverriddenBy (old reply new : UnspentOutputs) : Prop where
  /-- The addresses are the old ones and those of the reply. -/
  keys : ∀ addr, (unspentOutputsFind new addr).isSome ↔
    (unspentOutputsFind old addr).isSome ∨ (unspentOutputsFind reply addr).isSome
  /-- The outputs of an address of the reply are those of the reply. -/
  replaced : ∀ addr unspent, unspentOutputsFind reply addr = some unspent →
    ∃ elm, unspentOutputsFind new addr = some elm ∧ elm.ids = unspent.ids
  /-- Any other address keeps its entry. -/
  kept : ∀ addr, unspentOutputsFind reply addr = none → unspentOutputsFind new addr = unspentOutputsFind old addr
  /-- An old entry keeps its flag and its index. -/
  remembered : ∀ addr elm, unspentOutputsFind old addr = some elm →
    ∃ elm', unspentOutputsFind new addr = some elm' ∧ elm'.spent = elm.spent ∧ elm'.addrIndex = elm.addrIndex
  /-- A new entry is unspent. -/
  fresh : ∀ addr elm, unspentOutputsFind old addr = none → unspentOutputsFind new addr = some elm →
    elm.spent = false

/-- What the table is after a reply was applied. -/
theorem overriddenBy_foldl_refreshEntry (old reply : UnspentOutputs) :
    OverriddenBy old reply (reply.entries.foldl refreshEntry old) := by
  have hfind : ∀ addr, unspentOutputsFind (reply.entries.foldl refreshEntry old) addr =
      refreshOverride.entry (unspentOutputsFind reply addr) (unspentOutputsFind old addr) := by
    rw [refreshEntry_eq]
    exact InsertionTable.find_override refreshOverride old reply
  constructor
  · intro addr
    rw [hfind]
    cases unspentOutputsFind reply addr <;> cases unspentOutputsFind old addr <;>
      simp [InsertionTable.Override.entry]
  · intro addr unspent hunspent
    rw [hfind, hunspent]
    cases unspentOutputsFind old addr <;> exact ⟨_, rfl, rfl⟩
  · intro addr hnone
    rw [hfind, hnone]
    rfl
  · intro addr elm helm
    rw [hfind, helm]
    cases unspentOutputsFind reply addr <;> exact ⟨_, rfl, rfl, rfl⟩
  · intro addr elm hnone helm
    rw [hfind, hnone] at helm
    cases hreply : unspentOutputsFind reply addr with
    | none =>
      rw [hreply] at helm
      exact absurd helm.symm (Option.some_ne_none elm)
    | some unspent =>
      rw [hreply] at helm
      rw [← Option.some.inj helm]
      rfl

/-- Applying a reply again changes nothing. -/
theorem foldl_refreshEntry_again (old reply : UnspentOutputs) :
    reply.entries.foldl refreshEntry (reply.entries.foldl refreshEntry old) =
      reply.entries.foldl refreshEntry old := by
  rw [refreshEntry_eq]
  exact InsertionTable.override_again refreshOverride settles_refreshOverride old reply

variable (libs : Libraries)

/-- A refresh whose reply was decoded overrides the table of the wallet by the reply and leaves the rest
alone, and a refresh with the same reply afterwards changes nothing. -/
theorem walletRefresh_overrides {env : Env} {w : Wallet} {includeSpent : Bool} {addrs : List AddressT}
    {reply : UnspentOutputs} (haddrs : refreshAddresses libs env w includeSpent = some addrs)
    (hnonempty : addrs ≠ []) (hreply : refreshReply libs env w addrs = (0, reply)) :
    ∃ unspent, walletRefresh libs env w includeSpent = some (true, { w with unspent := unspent }) ∧
      OverriddenBy w.unspent reply unspent ∧
      reply.entries.foldl refreshEntry unspent = unspent ∧
      walletRefresh libs env { w with unspent := unspent } includeSpent =
        some (true, { w with unspent := unspent }) := by
  have hrefresh : ∀ unspent, walletRefresh libs env { w with unspent := unspent } includeSpent =
      some (true, { w with unspent := reply.entries.foldl refreshEntry unspent }) := by
    intro unspent
    have haddrs' : refreshAddresses libs env { w with unspent := unspent } includeSpent = some addrs := haddrs
    have hreply' : refreshReply libs env { w with unspent := unspent } addrs = (0, reply) := hreply
    obtain ⟨addr, rest, rfl⟩ := List.exists_cons_of_ne_nil hnonempty
    rw [walletRefresh, haddrs']
    dsimp only
    rw [hreply']
    rfl
  have hagain := foldl_refreshEntry_again w.unspent reply
  refine ⟨reply.entries.foldl refreshEntry w.unspent, hrefresh w.unspent,
    overriddenBy_foldl_refreshEntry w.unspent reply, hagain, ?_⟩
  rw [hrefresh, hagain]

/-- A wallet which consumed the tokens of its only address. -/
def paidOut : Wallet := zeroSeedWallet 0 0 [0] [zeroSeedEntry 0 0 true outputIdsInit]

/-- A reply with five tokens at this address. -/
def fiveTable : UnspentOutputs := unspentOutputsInit.insertNew (zeroSeedEntry 0 0 false fiveIds)

/-- A refresh of this wallet with this reply. -/
theorem walletRefresh_overrides_five :
    ∃ unspent, walletRefresh fiveLibraries (fiveNode 0) paidOut false =
        some (true, { paidOut with unspent := unspent }) ∧
      OverriddenBy paidOut.unspent fiveTable unspent := by
  have hreply : refreshReply fiveLibraries (fiveNode 0) paidOut [⟨0, zeroSeedAddress 0⟩] = (0, fiveTable) := by
    rw [refreshReply_fiveNode (Or.inl rfl) _ (by decide)]
    decide
  obtain ⟨unspent, hrefresh, hoverridden, -, -⟩ := @walletRefresh_overrides fiveLibraries
    (fiveNode 0) paidOut false [⟨0, zeroSeedAddress 0⟩] fiveTable (by decide) (by decide)
    hreply
  exact ⟨unspent, hrefresh, hoverridden⟩

end Goshimmer
