import Goshimmer.Core.Clone

/-!
# Appending outputs to an address

`unspent_outputs_append_id` adds the given outputs to those of a present address, where an id which is
present keeps its data. An address which is not in the table gets no entry, and the return code is 0 as
well.
-/

namespace Goshimmer

/-- What the table should be after outputs were appended to an address. -/
structure AppendsIds (t : UnspentOutputs) (addr : Address) (ids : OutputIds) (after : UnspentOutputs) : Prop where
  /-- The address has an entry with the outputs it had and the given ones; an old one keeps its data. -/
  union : ∃ elm, unspentOutputsFind after addr = some elm ∧ ∀ id,
    outputIdsFind elm.ids id =
      ((unspentOutputsFind t addr).bind fun old => outputIdsFind old.ids id).or (outputIdsFind ids id)
  /-- An old entry of the address keeps its flag and its index. -/
  kept : ∀ old, unspentOutputsFind t addr = some old →
    ∃ elm, unspentOutputsFind after addr = some elm ∧ elm.spent = old.spent ∧ elm.addrIndex = old.addrIndex
  others : ∀ other, other ≠ addr → unspentOutputsFind after other = unspentOutputsFind t other

/-- The outputs of an entry after others were appended to it. -/
theorem outputIdsFind_appended (old ids : OutputIds) (id : TxId) :
    outputIdsFind (ids.entries.foldl (fun dst src => (outputIdsAdd dst src.id src.balances src.st).2) old) id =
      (outputIdsFind old id).or (outputIdsFind ids id) := by
  simp only [outputIdsAdd_snd]
  exact InsertionTable.find_foldl_insertNew ids.entries old id

/-- A lookup after outputs were appended to an address. -/
theorem unspentOutputsFind_appendId (t : UnspentOutputs) (addr : Address) (ids : OutputIds) (other : Address) :
    unspentOutputsFind (unspentOutputsAppendId t addr ids) other =
      if addr = other then (unspentOutputsFind t other).map fun elm => { elm with
        ids := ids.entries.foldl (fun dst src => (outputIdsAdd dst src.id src.balances src.st).2) elm.ids }
      else unspentOutputsFind t other :=
  InsertionTable.find_modify t addr _ _ other

/-- Outputs are appended as they should be exactly when the address is in the table. -/
theorem appendsIds_iff (t : UnspentOutputs) (addr : Address) (ids : OutputIds) :
    AppendsIds t addr ids (unspentOutputsAppendId t addr ids) ↔ (unspentOutputsFind t addr).isSome := by
  have hfind := unspentOutputsFind_appendId t addr ids
  constructor
  · intro happends
    obtain ⟨elm, helm, -⟩ := happends.union
    rw [hfind, if_pos rfl] at helm
    rw [← Option.isSome_map, helm]
    rfl
  · intro hpresent
    obtain ⟨old, hold⟩ := Option.isSome_iff_exists.mp hpresent
    have hafter := hfind addr
    rw [if_pos rfl, hold, Option.map_some] at hafter
    refine ⟨⟨_, hafter, fun id => ?_⟩, fun other hother => ?_, fun other hne => ?_⟩
    · rw [hold, Option.bind_some]
      exact outputIdsFind_appended old.ids ids id
    · rw [← Option.some.inj (hold.symm.trans hother)]
      exact ⟨_, hafter, rfl, rfl⟩
    · rw [hfind, if_neg (Ne.symm hne)]

/-- Nothing is appended to an address which is not in the table. -/
theorem appends_nothing_to_absent_address :
    ¬ ∀ (t : UnspentOutputs) (addr : Address) (ids : OutputIds),
      AppendsIds t addr ids (unspentOutputsAppendId t addr ids) := by
  intro h
  have hpresent := (h unspentOutputsInit (Bytes.zero 33) outputIdsInit).union
  obtain ⟨elm, helm, -⟩ := hpresent
  exact absurd helm.symm (Option.some_ne_none elm)

end Goshimmer
