import Goshimmer.Core.Address
import Goshimmer.Core.OutputIds

/-!
# The table of unspent outputs

`core/unspent_outputs.c`. The table maps an address to the index it was derived from, the flag
which records that it was spent, and its outputs. Adding never overwrites an address, updating
replaces only its outputs and marking changes only its flag. Selection copies the unspent
entries with outputs, in table order, until their confirmed balance of a colour covers an
amount; this makes it the shortest covering prefix of those entries.

All memory is granted here: that of the entries and that of the copies of their outputs, also where a
selection or a refresh copies them.
-/

namespace Goshimmer

/-- One node of the table `unspent_outputs_t`. -/
structure UnspentOutputEntry where
  addrIndex : UInt64
  addr : Address
  spent : Bool
  ids : OutputIds
  deriving DecidableEq

/-- `unspent_outputs_t *`. -/
abbrev UnspentOutputs := InsertionTable UnspentOutputEntry.addr

/-- `unspent_outputs_init`. -/
def unspentOutputsInit : UnspentOutputs := .empty

/-- `unspent_outputs_find`. -/
def unspentOutputsFind (t : UnspentOutputs) (addr : Address) : Option UnspentOutputEntry := t.find addr

/-- `unspent_outputs_count`. -/
def unspentOutputsCount (t : UnspentOutputs) : ℕ := t.count

/-- `unspent_outputs_add`: a present address is refused; a new entry is unspent. Its memory and that of its
outputs is granted. -/
def unspentOutputsAdd (t : UnspentOutputs) (addr : Address) (addrIndex : UInt64) (ids : OutputIds) :
    Int × UnspentOutputs :=
  match unspentOutputsFind t addr with
  | some _ => (-1, t)
  | none => (0, t.insertNew ⟨addrIndex, addr, false, outputIdsClone ids⟩)

/-- `unspent_outputs_update`: replace the outputs of a present address. The memory of the copies is
granted. -/
def unspentOutputsUpdate (t : UnspentOutputs) (addr : Address) (ids : OutputIds) : UnspentOutputs :=
  t.modify addr (fun elm => { elm with ids := outputIdsClone ids }) fun _ => rfl

/-- `unspent_outputs_set_spent`. -/
def unspentOutputsSetSpent (t : UnspentOutputs) (addr : Address) (spent : Bool) : UnspentOutputs :=
  t.modify addr (fun elm => { elm with spent := spent }) fun _ => rfl

/-- `unspent_outputs_get_spent`: an unknown address is not spent. -/
def unspentOutputsGetSpent (t : UnspentOutputs) (addr : Address) : Bool :=
  match unspentOutputsFind t addr with
  | some elm => elm.spent
  | none => false

/-- The test `elm->spent == false && elm->ids` of the three traversals below. -/
def UnspentOutputEntry.counts (elm : UnspentOutputEntry) : Bool := !elm.spent && !elm.ids.isEmpty

/-- `unspent_outputs_balance`. -/
def unspentOutputsBalance (t : UnspentOutputs) : UInt64 :=
  t.entries.foldl (fun sum elm => if elm.counts then sum + outputIdsBalance elm.ids else sum) 0

/-- `unspent_outputs_balance_with_color`. -/
def unspentOutputsBalanceWithColor (t : UnspentOutputs) (color : Color) : UInt64 :=
  t.entries.foldl
    (fun sum elm => if elm.counts then sum + outputIdsBalanceWithColor elm.ids color else sum) 0

/-- The loop of `unspent_outputs_required_outputs`, with its running sum and the copies so far. -/
def requiredOutputsLoop (requiredBalance : UInt64) (color : Color) :
    List UnspentOutputEntry → UInt64 → UnspentOutputs → UnspentOutputs
  | [], _, required => required
  | elm :: rest, sum, required =>
    if elm.counts then
      let sum := sum + outputIdsBalanceWithColor elm.ids color
      let required := (unspentOutputsAdd required elm.addr elm.addrIndex elm.ids).2
      if requiredBalance ≤ sum then required
      else requiredOutputsLoop requiredBalance color rest sum required
    else requiredOutputsLoop requiredBalance color rest sum required

/-- `unspent_outputs_required_outputs`. -/
def unspentOutputsRequiredOutputs (t : UnspentOutputs) (requiredBalance : UInt64) (color : Color) :
    UnspentOutputs :=
  requiredOutputsLoop requiredBalance color t.entries 0 unspentOutputsInit

/-- Whatever the return code, the table afterwards is the guarded insertion. -/
theorem unspentOutputsAdd_snd (t : UnspentOutputs) (addr : Address) (addrIndex : UInt64)
    (ids : OutputIds) :
    (unspentOutputsAdd t addr addrIndex ids).2 = t.insertNew ⟨addrIndex, addr, false, ids⟩ := by
  unfold unspentOutputsAdd unspentOutputsFind
  cases h : t.find addr with
  | none => simp only [outputIdsClone_eq]
  | some e =>
    have hkey : t.find (UnspentOutputEntry.addr ⟨addrIndex, addr, false, ids⟩) = some e := h
    exact (InsertionTable.insertNew_of_some hkey).symm

/-- The spent flag of an address after it was marked. -/
theorem unspentOutputsGetSpent_setSpent (t : UnspentOutputs) (addr : Address) (spent : Bool)
    (other : Address) :
    unspentOutputsGetSpent (unspentOutputsSetSpent t addr spent) other =
      if addr = other then (t.find other).isSome && spent else unspentOutputsGetSpent t other := by
  unfold unspentOutputsGetSpent unspentOutputsSetSpent unspentOutputsFind
  rw [InsertionTable.find_modify]
  by_cases h : addr = other
  · rw [if_pos h, if_pos h]
    cases t.find other <;> simp
  · rw [if_neg h, if_neg h]

/-- Replacing the outputs of an address changes no spent flag. -/
theorem unspentOutputsGetSpent_update (t : UnspentOutputs) (addr : Address) (ids : OutputIds)
    (other : Address) :
    unspentOutputsGetSpent (unspentOutputsUpdate t addr ids) other = unspentOutputsGetSpent t other := by
  unfold unspentOutputsGetSpent unspentOutputsUpdate unspentOutputsFind
  rw [InsertionTable.find_modify]
  by_cases h : addr = other
  · rw [if_pos h]
    cases t.find other <;> simp
  · rw [if_neg h]

/-- Adding an address changes no spent flag: the new entry is unspent, as an unknown address is. -/
theorem unspentOutputsGetSpent_add (t : UnspentOutputs) (addr : Address) (addrIndex : UInt64)
    (ids : OutputIds) (other : Address) :
    unspentOutputsGetSpent (unspentOutputsAdd t addr addrIndex ids).2 other =
      unspentOutputsGetSpent t other := by
  unfold unspentOutputsGetSpent unspentOutputsFind
  rw [unspentOutputsAdd_snd, InsertionTable.find_insertNew]
  cases h : t.find other with
  | some e => simp
  | none => by_cases ha : addr = other <;> simp [ha]

/-- The entries a selection chooses from: unspent and with outputs. -/
def UnspentOutputs.eligible (t : UnspentOutputs) : List UnspentOutputEntry :=
  t.entries.filter UnspentOutputEntry.counts

/-- The confirmed balance of a colour which an entry adds to the running sum. -/
def UnspentOutputEntry.contribution (color : Color) (elm : UnspentOutputEntry) : UInt64 :=
  outputIdsBalanceWithColor elm.ids color

/-- The balance of a table is the sum of the contributions of its eligible entries. -/
theorem unspentOutputsBalanceWithColor_eq_sum (t : UnspentOutputs) (color : Color) :
    unspentOutputsBalanceWithColor t color =
      (t.eligible.map (UnspentOutputEntry.contribution color)).sum := by
  unfold unspentOutputsBalanceWithColor UnspentOutputs.eligible
  rw [← List.foldl_filter, foldl_add_weight, zero_add]
  rfl

/-- Copying an eligible entry reproduces it: its flag is the one a new entry gets. -/
theorem UnspentOutputEntry.eta_of_counts {elm : UnspentOutputEntry} (h : elm.counts = true) :
    (⟨elm.addrIndex, elm.addr, false, elm.ids⟩ : UnspentOutputEntry) = elm := by
  have hspent : elm.spent = false := by
    simp only [UnspentOutputEntry.counts, Bool.and_eq_true, Bool.not_eq_true'] at h
    exact h.1
  cases elm
  simp_all

/-- The loop appends the shortest covering prefix of the eligible entries it still has to see. -/
theorem entries_requiredOutputsLoop (requiredBalance : UInt64) (color : Color)
    (l : List UnspentOutputEntry) (sum : UInt64) (required : UnspentOutputs)
    (h : (required.entries.map UnspentOutputEntry.addr ++ l.map UnspentOutputEntry.addr).Nodup) :
    (requiredOutputsLoop requiredBalance color l sum required).entries =
      required.entries ++ coveringPrefix (UnspentOutputEntry.contribution color)
        (fun total => decide (requiredBalance ≤ total)) sum (l.filter UnspentOutputEntry.counts) := by
  induction l generalizing sum required with
  | nil => simp [requiredOutputsLoop, coveringPrefix]
  | cons elm rest ih =>
    have hdisjoint := (List.nodup_append.mp h).2.2
    by_cases hcounts : elm.counts = true
    · have hnone : required.find elm.addr = none := by
        rw [InsertionTable.find_eq_none_iff]
        intro w hw heq
        exact hdisjoint w.addr (List.mem_map_of_mem hw) elm.addr (by simp) heq
      have hentries : (unspentOutputsAdd required elm.addr elm.addrIndex elm.ids).2.entries =
          required.entries ++ [elm] := by
        rw [unspentOutputsAdd_snd, UnspentOutputEntry.eta_of_counts hcounts,
          InsertionTable.entries_insertNew_of_none hnone]
      have hcontribution : outputIdsBalanceWithColor elm.ids color = elm.contribution color := rfl
      simp only [requiredOutputsLoop, hcounts, if_true, List.filter_cons_of_pos, coveringPrefix,
        hcontribution, decide_eq_true_eq]
      by_cases hcovers : requiredBalance ≤ sum + elm.contribution color
      · rw [if_pos hcovers, if_pos hcovers, hentries]
      · rw [if_neg hcovers, if_neg hcovers, ih, hentries, List.append_assoc, List.singleton_append]
        rw [hentries, List.map_append, List.append_assoc]
        simpa using h
    · have hrest : (required.entries.map UnspentOutputEntry.addr ++
          rest.map UnspentOutputEntry.addr).Nodup :=
        h.sublist ((List.sublist_cons_self _ _).append_left _)
      simp only [requiredOutputsLoop, hcounts, Bool.false_eq_true, if_false]
      rw [List.filter_cons_of_neg hcounts]
      exact ih sum required hrest

/-- Selection yields the shortest prefix of the eligible entries whose confirmed balance of the
colour covers the amount, or all of them. -/
theorem entries_unspentOutputsRequiredOutputs (t : UnspentOutputs) (requiredBalance : UInt64)
    (color : Color) :
    (unspentOutputsRequiredOutputs t requiredBalance color).entries =
      coveringPrefix (UnspentOutputEntry.contribution color)
        (fun total => decide (requiredBalance ≤ total)) 0 t.eligible := by
  unfold unspentOutputsRequiredOutputs
  rw [entries_requiredOutputsLoop]
  · rfl
  · simpa [unspentOutputsInit, InsertionTable.empty] using t.nodup

/-- A selected entry is an eligible entry of the table, unchanged. -/
theorem mem_eligible_of_selected {t : UnspentOutputs} {requiredBalance : UInt64} {color : Color}
    {elm : UnspentOutputEntry}
    (h : elm ∈ (unspentOutputsRequiredOutputs t requiredBalance color).entries) : elm ∈ t.eligible := by
  rw [entries_unspentOutputsRequiredOutputs] at h
  exact (coveringPrefix_isPrefix _ _ _ _).subset h

/-- A selected entry is an entry of the table which is unspent and has outputs. -/
theorem mem_of_selected {t : UnspentOutputs} {requiredBalance : UInt64} {color : Color}
    {elm : UnspentOutputEntry}
    (h : elm ∈ (unspentOutputsRequiredOutputs t requiredBalance color).entries) :
    elm ∈ t.entries ∧ elm.spent = false ∧ elm.ids.entries ≠ [] := by
  have heligible := List.mem_filter.mp (mem_eligible_of_selected h)
  refine ⟨heligible.1, ?_⟩
  simpa [UnspentOutputEntry.counts, InsertionTable.isEmpty] using heligible.2

end Goshimmer
