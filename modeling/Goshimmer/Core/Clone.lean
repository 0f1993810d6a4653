import Goshimmer.Core.UnspentOutputs

/-!
# Copying a table of unspent outputs

`unspent_outputs_clone` replays the entries of a table through `unspent_outputs_add`. The two lower
levels are copied in full, and so are the addresses, their indices and the order. The flag is not an
argument of the addition, which sets up unspent entries: a copy has no spent address.
-/

namespace Goshimmer

/-- `unspent_outputs_clone`. -/
def unspentOutputsClone (t : UnspentOutputs) : UnspentOutputs :=
  t.entries.foldl (fun dst src => (unspentOutputsAdd dst src.addr src.addrIndex src.ids).2) unspentOutputsInit

/-- `unspent_outputs_append_id`: outputs whose ids are new join those of a present address. -/
def unspentOutputsAppendId (t : UnspentOutputs) (addr : Address) (ids : OutputIds) : UnspentOutputs :=
  t.modify addr
    (fun elm => { elm with
      ids := ids.entries.foldl (fun dst src => (outputIdsAdd dst src.id src.balances src.st).2) elm.ids })
    fun _ => rfl

/-- `unspent_outputs_remove`. -/
def unspentOutputsRemove (t : UnspentOutputs) (addr : Address) : UnspentOutputs := t.erase addr

/-- The operations which change a table. -/
inductive TableOp
  | add (addr : Address) (addrIndex : UInt64) (ids : OutputIds)
  | update (addr : Address) (ids : OutputIds)
  | appendId (addr : Address) (ids : OutputIds)
  | remove (addr : Address)
  | setSpent (addr : Address) (spent : Bool)

/-- A table after one operation. -/
def tableStep (t : UnspentOutputs) : TableOp → UnspentOutputs
  | .add addr addrIndex ids => (unspentOutputsAdd t addr addrIndex ids).2
  | .update addr ids => unspentOutputsUpdate t addr ids
  | .appendId addr ids => unspentOutputsAppendId t addr ids
  | .remove addr => unspentOutputsRemove t addr
  | .setSpent addr spent => unspentOutputsSetSpent t addr spent

/-- The table which a sequence of operations makes of the empty one. -/
def tableAfter (ops : List TableOp) : UnspentOutputs := ops.foldl tableStep unspentOutputsInit

/-- The operations which enter an entry with its flag. -/
def TableOp.enter (elm : UnspentOutputEntry) : List TableOp :=
  [.add elm.addr elm.addrIndex elm.ids, .setSpent elm.addr elm.spent]

/-- Entering an entry whose address is new appends it. -/
theorem entries_foldl_enter {t : UnspentOutputs} {elm : UnspentOutputEntry} (h : t.find elm.addr = none) :
    ((TableOp.enter elm).foldl tableStep t).entries = t.entries ++ [elm] := by
  have habsent := (t.find_eq_none_iff elm.addr).mp h
  have hadded : (unspentOutputsAdd t elm.addr elm.addrIndex elm.ids).2.entries =
      t.entries ++ [{ elm with spent := false }] := by
    rw [unspentOutputsAdd_snd]
    exact InsertionTable.entries_insertNew_of_none h
  simp only [TableOp.enter, List.foldl_cons, List.foldl_nil, tableStep, unspentOutputsSetSpent,
    InsertionTable.modify, InsertionTable.mapEntries, hadded, List.map_append, List.map_singleton, if_true]
  congr 1
  nth_rewrite 2 [← List.map_id t.entries]
  apply List.map_congr_left
  intro v hv
  exact if_neg (habsent v hv)

/-- Every table is the outcome of a sequence of operations. -/
theorem exists_tableAfter (t : UnspentOutputs) : ∃ ops, tableAfter ops = t := by
  have hfrom : ∀ (l : List UnspentOutputEntry) (start : UnspentOutputs),
      (start.entries.map UnspentOutputEntry.addr ++ l.map UnspentOutputEntry.addr).Nodup →
        ((l.flatMap TableOp.enter).foldl tableStep start).entries = start.entries ++ l := by
    intro l
    induction l with
    | nil => intro start _; simp
    | cons elm rest ih =>
      intro start hnodup
      have hnone : start.find elm.addr = none := by
        rw [InsertionTable.find_eq_none_iff]
        intro v hv
        exact (List.nodup_append.mp hnodup).2.2 v.addr (List.mem_map_of_mem hv) elm.addr (by simp)
      have hentries := entries_foldl_enter hnone
      rw [List.flatMap_cons, List.foldl_append, ih, hentries, List.append_assoc, List.singleton_append]
      rw [hentries, List.map_append, List.append_assoc]
      simpa using hnodup
  refine ⟨t.entries.flatMap TableOp.enter, InsertionTable.ext ?_⟩
  rw [tableAfter, hfrom t.entries unspentOutputsInit (by simpa [unspentOutputsInit, InsertionTable.empty]
    using t.nodup)]
  simp [unspentOutputsInit, InsertionTable.empty]

/-- A copy holds the entries in the same order, each of them unspent. -/
theorem unspentOutputsClone_eq (t : UnspentOutputs) :
    unspentOutputsClone t = t.mapEntries (fun elm => { elm with spent := false }) fun _ => rfl := by
  rw [← InsertionTable.foldl_insertNew_entries (t.mapEntries _ _), unspentOutputsClone,
    InsertionTable.mapEntries, List.foldl_map]
  simp only [unspentOutputsAdd_snd]
  rfl

/-- A copy answers every question about the table as the table does. -/
structure CloneKeeps (t : UnspentOutputs) : Prop where
  entries : ∀ addr, unspentOutputsFind (unspentOutputsClone t) addr = unspentOutputsFind t addr
  getSpent : ∀ addr, unspentOutputsGetSpent (unspentOutputsClone t) addr = unspentOutputsGetSpent t addr
  balance : unspentOutputsBalance (unspentOutputsClone t) = unspentOutputsBalance t
  balanceWithColor : ∀ color,
    unspentOutputsBalanceWithColor (unspentOutputsClone t) color = unspentOutputsBalanceWithColor t color
  requiredOutputs : ∀ requiredBalance color,
    unspentOutputsRequiredOutputs (unspentOutputsClone t) requiredBalance color =
      unspentOutputsRequiredOutputs t requiredBalance color

/-- A copy of a table without spent addresses is the table. -/
theorem unspentOutputsClone_eq_self {t : UnspentOutputs} (h : ∀ elm ∈ t.entries, elm.spent = false) :
    unspentOutputsClone t = t := by
  apply InsertionTable.ext
  rw [unspentOutputsClone_eq, ← List.map_id t.entries]
  apply List.map_congr_left
  intro elm helm
  rw [← h elm helm]
  rfl

/-- A copy keeps everything exactly when no address of the table is spent. -/
theorem cloneKeeps_iff_none_spent (t : UnspentOutputs) :
    CloneKeeps t ↔ ∀ elm ∈ t.entries, elm.spent = false := by
  constructor
  · intro h elm helm
    have hcopied : elm ∈ (unspentOutputsClone t).entries := by
      have hfound := h.entries elm.addr
      rw [unspentOutputsFind, unspentOutputsFind, InsertionTable.find_key_of_mem helm] at hfound
      exact (((unspentOutputsClone t).find_eq_some_iff _ _).mp hfound).1
    rw [unspentOutputsClone_eq, InsertionTable.mapEntries] at hcopied
    obtain ⟨_, _, rfl⟩ := List.mem_map.mp hcopied
    rfl
  · intro h
    have hsame := unspentOutputsClone_eq_self h
    constructor <;> intros <;> rw [hsame]

/-- The copy of a table with one address which was added and marked as spent reports it as unspent. -/
theorem clone_forgets_spent : ¬ ∀ ops : List TableOp, CloneKeeps (tableAfter ops) := by
  intro h
  have hspent := (h [.add (Bytes.zero 33) 0 outputIdsInit, .setSpent (Bytes.zero 33) true]).getSpent
    (Bytes.zero 33)
  revert hspent
  decide

end Goshimmer
