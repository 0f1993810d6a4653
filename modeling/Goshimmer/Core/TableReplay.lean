import Goshimmer.Core.Clone
import Goshimmer.Library.Run
import Mathlib.Data.List.Perm.Basic

/-!
# What a history leaves in the table of unspent outputs

After any sequence of operations the entry of an address is what the operations on this address alone make
of nothing, and the entries stand in the order in which the addresses entered the table and stayed. So
operations on different addresses may be interleaved in any way: every lookup, every flag and every balance is
the same. Only the order of the entries, and with it the choice of outputs for a payment, may differ.
-/

namespace Goshimmer

/-- The address which an operation is about. -/
def TableOp.addr : TableOp → Address
  | .add addr _ _ | .update addr _ | .appendId addr _ | .remove addr | .setSpent addr _ => addr

/-- What an operation makes of the entry of its address. -/
def TableOp.change : TableOp → Option UnspentOutputEntry → Option UnspentOutputEntry
  | .add addr addrIndex ids, entry => entry.or (some ⟨addrIndex, addr, false, ids⟩)
  | .update _ ids, entry => entry.map fun elm => { elm with ids := ids }
  | .appendId _ ids, entry => entry.map fun elm =>
    { elm with ids := ids.entries.foldl (fun dst src => (outputIdsAdd dst src.id src.balances src.st).2) elm.ids }
  | .remove _, _ => none
  | .setSpent _ spent, entry => entry.map fun elm => { elm with spent := spent }

/-- A lookup after one operation. -/
theorem find_tableStep (t : UnspentOutputs) (op : TableOp) (addr : Address) :
    (tableStep t op).find addr = if op.addr = addr then op.change (t.find addr) else t.find addr := by
  cases op with
  | add added addrIndex ids =>
    rw [tableStep, unspentOutputsAdd_snd, InsertionTable.find_insertNew]
    by_cases haddr : added = addr
    · simp only [TableOp.addr, TableOp.change, haddr, if_true]
    · simp only [TableOp.addr, haddr, if_false, Option.or_none]
  | update updated ids =>
    rw [tableStep, unspentOutputsUpdate, InsertionTable.find_modify]
    simp only [TableOp.addr, TableOp.change, outputIdsClone_eq]
    rfl
  | appendId appended ids =>
    rw [tableStep, unspentOutputsAppendId, InsertionTable.find_modify]
    rfl
  | remove removed => exact InsertionTable.find_erase t removed addr
  | setSpent marked spent =>
    rw [tableStep, unspentOutputsSetSpent, InsertionTable.find_modify]
    rfl

/-- The table as a store of entries by address. -/
def tableStore : KeyedStore UnspentOutputs Address (Option UnspentOutputEntry) TableOp where
  value := InsertionTable.find
  apply := tableStep
  key op := some op.addr
  change := TableOp.change
  value_apply := by
    intro t op addr hkey
    rw [find_tableStep, if_pos (Option.some.inj hkey)]
  value_apply_of_ne := by
    intro t op addr hkey
    rw [find_tableStep, if_neg fun heq => hkey (congrArg some heq)]

/-- The addresses of a table after one operation: an addition appends a new one. -/
def orderStep (order : List Address) : TableOp → List Address
  | .add addr _ _ => if addr ∈ order then order else order ++ [addr]
  | .remove addr => order.filter fun other => other ≠ addr
  | _ => order

/-- The addresses which a sequence of operations leaves in the table, in the order in which they entered. -/
def addressOrder (ops : List TableOp) : List Address := ops.foldl orderStep []

/-- The entry which the operations on an address leave it. -/
def entryAfter (ops : List TableOp) (addr : Address) : Option UnspentOutputEntry :=
  (ops.filter fun op => op.addr = addr).foldl (fun entry op => op.change entry) none

/-- A change of one entry keeps the addresses in their order. -/
theorem map_addr_modify (t : UnspentOutputs) (addr : Address) (f : UnspentOutputEntry → UnspentOutputEntry)
    (hf : ∀ elm, (f elm).addr = elm.addr) :
    (t.modify addr f hf).entries.map UnspentOutputEntry.addr = t.entries.map UnspentOutputEntry.addr := by
  rw [InsertionTable.modify, InsertionTable.mapEntries, List.map_map]
  apply List.map_congr_left
  intro elm _
  by_cases haddr : elm.addr = addr
  · simp only [Function.comp_apply, haddr, if_true, hf]
  · simp only [Function.comp_apply, haddr, if_false]

/-- The addresses of the table after one operation. -/
theorem map_addr_tableStep (t : UnspentOutputs) (op : TableOp) :
    (tableStep t op).entries.map UnspentOutputEntry.addr = orderStep (t.entries.map UnspentOutputEntry.addr) op := by
  cases op with
  | add addr addrIndex ids =>
    rw [tableStep, unspentOutputsAdd_snd, orderStep]
    cases hfind : t.find addr with
    | none =>
      have habsent : addr ∉ t.entries.map UnspentOutputEntry.addr := by
        intro hmem
        obtain ⟨elm, helm, heq⟩ := List.mem_map.mp hmem
        exact (t.find_eq_none_iff addr).mp hfind elm helm heq
      rw [if_neg habsent, InsertionTable.entries_insertNew_of_none hfind, List.map_append]
      rfl
    | some elm =>
      have hpresent : addr ∈ t.entries.map UnspentOutputEntry.addr := by
        obtain ⟨helm, heq⟩ := (t.find_eq_some_iff addr elm).mp hfind
        exact List.mem_map.mpr ⟨elm, helm, heq⟩
      rw [if_pos hpresent, InsertionTable.insertNew_of_some hfind]
  | update addr ids =>
    rw [tableStep, unspentOutputsUpdate, map_addr_modify]
    rfl
  | appendId addr ids =>
    rw [tableStep, unspentOutputsAppendId, map_addr_modify]
    rfl
  | remove addr =>
    rw [tableStep, unspentOutputsRemove, InsertionTable.erase, orderStep, List.filter_map]
    rfl
  | setSpent addr spent =>
    rw [tableStep, unspentOutputsSetSpent, map_addr_modify]
    rfl

/-- The entries of a table are what its addresses are mapped to, one after another. -/
theorem entries_eq_filterMap_find (t : UnspentOutputs) :
    t.entries = (t.entries.map UnspentOutputEntry.addr).filterMap t.find := by
  rw [List.filterMap_map]
  have hfound : ∀ elm ∈ t.entries, (t.find ∘ UnspentOutputEntry.addr) elm = some elm := by
    intro elm helm
    exact InsertionTable.find_key_of_mem helm
  rw [List.filterMap_congr hfound, List.filterMap_some]

/-- The addresses of the table after a sequence of operations. -/
theorem map_addr_foldl_tableStep (ops : List TableOp) (t : UnspentOutputs) :
    (ops.foldl tableStep t).entries.map UnspentOutputEntry.addr =
      ops.foldl orderStep (t.entries.map UnspentOutputEntry.addr) := by
  induction ops generalizing t with
  | nil => rfl
  | cons op rest ih => rw [List.foldl_cons, ih, map_addr_tableStep, List.foldl_cons]

/-- The entry of an address after a sequence of operations. -/
theorem find_tableAfter (ops : List TableOp) (addr : Address) : (tableAfter ops).find addr = entryAfter ops addr := by
  have hreplay := tableStore.value_foldl ops unspentOutputsInit addr
  rw [KeyedStore.replay] at hreplay
  simp only [tableStore, Option.some.injEq] at hreplay
  exact hreplay

/-- The entries after a sequence of operations, in the order of their addresses. -/
theorem entries_tableAfter (ops : List TableOp) :
    (tableAfter ops).entries = (addressOrder ops).filterMap (entryAfter ops) := by
  rw [entries_eq_filterMap_find, tableAfter, map_addr_foldl_tableStep]
  exact List.filterMap_congr fun addr _ => find_tableAfter ops addr

/-- A table after any sequence of operations is an ordered map: the entry of an address is what the
operations on it alone make of nothing, and the entries follow the order in which their addresses entered. -/
theorem tableAfter_orderedMap (ops : List TableOp) :
    (∀ addr, unspentOutputsFind (tableAfter ops) addr = entryAfter ops addr) ∧
      (tableAfter ops).entries = (addressOrder ops).filterMap (entryAfter ops) :=
  ⟨find_tableAfter ops, entries_tableAfter ops⟩

/-- Two tables with the same lookups have the same entries, in some order. -/
theorem perm_of_find_eq {t t' : UnspentOutputs} (h : ∀ addr, t.find addr = t'.find addr) :
    t.entries.Perm t'.entries := by
  rw [List.perm_ext_iff_of_nodup (List.Nodup.of_map _ t.nodup) (List.Nodup.of_map _ t'.nodup)]
  intro elm
  have hmem : ∀ s : UnspentOutputs, elm ∈ s.entries ↔ s.find elm.addr = some elm := by
    intro s
    rw [InsertionTable.find_eq_some_iff]
    exact (and_iff_left rfl).symm
  rw [hmem, hmem, h]

/-- What can be asked of a table without going through it in order. -/
structure SameAnswers (t t' : UnspentOutputs) : Prop where
  find : ∀ addr, unspentOutputsFind t addr = unspentOutputsFind t' addr
  getSpent : ∀ addr, unspentOutputsGetSpent t addr = unspentOutputsGetSpent t' addr
  count : unspentOutputsCount t = unspentOutputsCount t'
  balance : unspentOutputsBalance t = unspentOutputsBalance t'
  balanceWithColor : ∀ color, unspentOutputsBalanceWithColor t color = unspentOutputsBalanceWithColor t' color

/-- Two tables with the same lookups give the same answers: neither the count nor the balances see the
order. -/
theorem sameAnswers_of_find_eq {t t' : UnspentOutputs} (h : ∀ addr, t.find addr = t'.find addr) :
    SameAnswers t t' := by
  have hperm := perm_of_find_eq h
  refine ⟨h, ?_, hperm.length_eq, ?_, ?_⟩
  · intro addr
    rw [unspentOutputsGetSpent, unspentOutputsGetSpent, unspentOutputsFind, unspentOutputsFind, h]
  · rw [unspentOutputsBalance, unspentOutputsBalance, foldl_add_weight_if, foldl_add_weight_if]
    rw [(hperm.map _).sum_eq]
  · intro color
    rw [unspentOutputsBalanceWithColor_eq_sum, unspentOutputsBalanceWithColor_eq_sum]
    exact ((hperm.filter _).map _).sum_eq

/-- Two sequences with the same operations on each address, in the same order for the address, leave tables
which give the same answers; they are the same table when the addresses also entered in the same order. -/
theorem tableAfter_interleaved {ops ops' : List TableOp}
    (h : ∀ addr, ops.filter (fun op => op.addr = addr) = ops'.filter fun op => op.addr = addr) :
    SameAnswers (tableAfter ops) (tableAfter ops') ∧
      (addressOrder ops = addressOrder ops' → tableAfter ops = tableAfter ops') := by
  have hentry : ∀ addr, entryAfter ops addr = entryAfter ops' addr := by
    intro addr
    rw [entryAfter, entryAfter, h]
  constructor
  · apply sameAnswers_of_find_eq
    intro addr
    rw [find_tableAfter, find_tableAfter, hentry]
  · intro horder
    apply InsertionTable.ext
    rw [entries_tableAfter, entries_tableAfter, horder]
    exact List.filterMap_congr fun addr _ => hentry addr

/-- An address of 33 equal bytes. -/
def ninesAddress : Address := ⟨List.replicate 33 9, List.length_replicate⟩

/-- Two addresses entered in either order, and one of them is spent at the end or before the other enters. -/
theorem tableAfter_interleaved_two :
    SameAnswers
      (tableAfter [.add (Bytes.zero 33) 0 outputIdsInit, .add ninesAddress 1 outputIdsInit,
        .setSpent ninesAddress true])
      (tableAfter [.add ninesAddress 1 outputIdsInit, .setSpent ninesAddress true,
        .add (Bytes.zero 33) 0 outputIdsInit]) := by
  have hne : Bytes.zero 33 ≠ ninesAddress := by decide
  apply (tableAfter_interleaved ?_).1
  intro addr
  by_cases hzero : Bytes.zero 33 = addr
  · have hother : ninesAddress ≠ addr := hzero ▸ hne.symm
    simp [TableOp.addr, hzero, hother]
  · simp [List.filter_cons, TableOp.addr, hzero]

end Goshimmer
