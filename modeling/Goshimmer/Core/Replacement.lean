import Goshimmer.Core.OutputIds

/-!
# Additions and replacements under failing allocations

`output_ids_update` removes the entry of an id and adds a new one. The entry requests memory first, and
then `balance_ht_clone` requests it once for each colour and ignores a refusal. The table is left in one
of the two promised states exactly when no colour is refused after the entry was granted, and when an
entry which is refused had no predecessor. The additions of the other modules are those whose requests
are granted.

The requests of the hash table itself are not counted here: they end the program when they fail.
-/

namespace Goshimmer

/-- `balance_ht_add`; `granted` is the outcome of the request for memory. -/
def balanceHtTryAdd (granted : Bool) (t : BalanceHt) (color : Color) (value : Int64) : Int × BalanceHt :=
  match balanceHtFind t color with
  | some _ => (-1, t)
  | none => if granted then (0, t.insertNew ⟨color, value⟩) else (-1, t)

/-- `balance_ht_clone`; `grants call` is the outcome of the request in the numbered call of
`balance_ht_add`. -/
def balanceHtTryClone (grants : ℕ → Bool) (t : BalanceHt) : BalanceHt :=
  t.entries.zipIdx.foldl
    (fun dst src => (balanceHtTryAdd (grants src.2) dst src.1.color src.1.value).2) balanceHtInit

/-- `output_ids_add`; the first request is for the entry, and those after it are for its colours. -/
def outputIdsTryAdd (grants : ℕ → Bool) (t : OutputIds) (id : TxId) (balances : BalanceHt)
    (st : InclusionState) : Int × OutputIds :=
  match outputIdsFind t id with
  | some _ => (0, t)
  | none =>
    if grants 0 then
      (0, t.insertNew ⟨id, balanceHtTryClone (fun call => grants (call + 1)) balances, st⟩)
    else (-1, t)

/-- `output_ids_remove`. -/
def outputIdsRemove (t : OutputIds) (id : TxId) : OutputIds :=
  match outputIdsFind t id with
  | some _ => t.erase id
  | none => t

/-- `output_ids_update`. -/
def outputIdsTryUpdate (grants : ℕ → Bool) (t : OutputIds) (id : TxId) (balances : BalanceHt)
    (st : InclusionState) : Int × OutputIds :=
  outputIdsTryAdd grants (outputIdsRemove t id) id balances st

/-! ## Copying balances -/

/-- An addition whose request is granted. -/
theorem balanceHtTryAdd_of_granted (t : BalanceHt) (color : Color) (value : Int64) :
    balanceHtTryAdd true t color value = balanceHtAdd t color value := by
  rw [balanceHtTryAdd, balanceHtAdd]
  cases balanceHtFind t color with
  | none => rfl
  | some elm => rfl

/-- A colour which is granted its memory is added unless it is present. -/
theorem balanceHtTryAdd_snd (granted : Bool) (t : BalanceHt) (color : Color) (value : Int64) :
    (balanceHtTryAdd granted t color value).2 = if granted then t.insertNew ⟨color, value⟩ else t := by
  cases granted with
  | true =>
    rw [balanceHtTryAdd_of_granted, balanceHtAdd_snd]
    rfl
  | false =>
    rw [balanceHtTryAdd]
    split <;> rfl

/-- A copy holds the colours which were granted their memory, in the order of the source. -/
theorem entries_balanceHtTryClone (grants : ℕ → Bool) (t : BalanceHt) :
    (balanceHtTryClone grants t).entries = grantedOf grants t.entries := by
  have hloop : balanceHtTryClone grants t =
      (grantedOf grants t.entries).foldl InsertionTable.insertNew balanceHtInit := by
    rw [balanceHtTryClone, ← foldl_grantedOf]
    simp only [balanceHtTryAdd_snd]
  rw [hloop]
  apply InsertionTable.entries_foldl_insertNew
  exact ((grantedOf_sublist grants t.entries).map BalanceEntry.color).nodup t.nodup

/-- A copy is the same table exactly when no colour was refused its memory. -/
theorem balanceHtTryClone_eq_iff (grants : ℕ → Bool) (t : BalanceHt) :
    balanceHtTryClone grants t = t ↔ ∀ call < t.count, grants call = true := by
  rw [InsertionTable.ext_iff, entries_balanceHtTryClone]
  exact grantedOf_eq_self_iff grants t.entries

/-- A copy whose requests are all granted. -/
theorem balanceHtTryClone_of_granted {grants : ℕ → Bool} {t : BalanceHt}
    (hgranted : ∀ call < t.count, grants call = true) : balanceHtTryClone grants t = balanceHtClone t := by
  rw [(balanceHtTryClone_eq_iff grants t).mpr hgranted, balanceHtClone_eq]

/-- An addition whose requests are all granted. -/
theorem outputIdsTryAdd_of_granted {grants : ℕ → Bool} (t : OutputIds) (id : TxId) {balances : BalanceHt}
    (st : InclusionState) (hgranted : ∀ call ≤ balances.count, grants call = true) :
    outputIdsTryAdd grants t id balances st = outputIdsAdd t id balances st := by
  have hcolors : ∀ call < balances.count, grants (call + 1) = true := fun call hcall => hgranted (call + 1) hcall
  rw [outputIdsTryAdd, outputIdsAdd]
  cases outputIdsFind t id with
  | some elm => rfl
  | none =>
    dsimp only
    rw [hgranted 0 (Nat.zero_le _), if_pos rfl, balanceHtTryClone_of_granted hcolors]

/-! ## Removing and adding -/

/-- A lookup after a removal. -/
theorem outputIdsFind_remove (t : OutputIds) (id other : TxId) :
    outputIdsFind (outputIdsRemove t id) other = if id = other then none else outputIdsFind t other := by
  rw [outputIdsRemove]
  split
  · exact InsertionTable.find_erase t id other
  case h_2 habsent =>
    by_cases hother : id = other
    · rw [if_pos hother, ← hother, habsent]
    · rw [if_neg hother]

/-- Removing an absent id changes nothing. -/
theorem outputIdsRemove_of_none {t : OutputIds} {id : TxId} (habsent : outputIdsFind t id = none) :
    outputIdsRemove t id = t := by
  rw [outputIdsRemove, habsent]

/-- An update adds the entry without its predecessor, or leaves the predecessor removed. -/
theorem outputIdsTryUpdate_eq (grants : ℕ → Bool) (t : OutputIds) (id : TxId) (balances : BalanceHt)
    (st : InclusionState) :
    outputIdsTryUpdate grants t id balances st =
      if grants 0 then
        (0, (outputIdsRemove t id).insertNew
          ⟨id, balanceHtTryClone (fun call => grants (call + 1)) balances, st⟩)
      else (-1, outputIdsRemove t id) := by
  rw [outputIdsTryUpdate, outputIdsTryAdd, outputIdsFind_remove, if_pos rfl]

/-- A lookup after an update which got the memory of its entry. -/
theorem outputIdsFind_tryUpdate {grants : ℕ → Bool} (hentry : grants 0 = true) (t : OutputIds) (id : TxId)
    (balances : BalanceHt) (st : InclusionState) (other : TxId) :
    outputIdsFind (outputIdsTryUpdate grants t id balances st).2 other =
      if id = other then some ⟨id, balanceHtTryClone (fun call => grants (call + 1)) balances, st⟩
      else outputIdsFind t other := by
  rw [outputIdsTryUpdate_eq, if_pos hentry, outputIdsFind, InsertionTable.find_insertNew]
  show (outputIdsFind (outputIdsRemove t id) other).or _ = _
  rw [outputIdsFind_remove]
  by_cases hother : id = other
  · rw [if_pos hother, if_pos hother, if_pos hother, Option.none_or]
  · rw [if_neg hother, if_neg hother, if_neg hother, Option.or_none]

/-! ## All or nothing -/

/-- The entry of the id was replaced: it has the new data, and the other entries are the old ones. -/
structure Replaced (t : OutputIds) (id : TxId) (balances : BalanceHt) (st : InclusionState)
    (result : Int × OutputIds) : Prop where
  returns : result.1 = 0
  entry : outputIdsFind result.2 id = some ⟨id, balances, st⟩
  others : ∀ other, other ≠ id → outputIdsFind result.2 other = outputIdsFind t other

/-- The entry of the id was replaced, or the failure left the table as it was. -/
def AllOrNothing (t : OutputIds) (id : TxId) (balances : BalanceHt) (st : InclusionState)
    (result : Int × OutputIds) : Prop :=
  Replaced t id balances st result ∨ result = (-1, t)

/-- An update which got the memory of its entry is all-or-nothing exactly when all colours were copied. -/
theorem allOrNothing_of_entry {grants : ℕ → Bool} (hentry : grants 0 = true) (t : OutputIds) (id : TxId)
    (balances : BalanceHt) (st : InclusionState) :
    AllOrNothing t id balances st (outputIdsTryUpdate grants t id balances st) ↔
      balanceHtTryClone (fun call => grants (call + 1)) balances = balances := by
  have hfind := outputIdsFind_tryUpdate hentry t id balances st
  have hreturns : (outputIdsTryUpdate grants t id balances st).1 = 0 := by
    rw [outputIdsTryUpdate_eq, if_pos hentry]
  constructor
  · rintro (hreplaced | hfailed)
    · have hnew := hreplaced.entry
      rw [hfind, if_pos rfl] at hnew
      exact congrArg OutputIdEntry.balances (Option.some.inj hnew)
    · rw [hfailed] at hreturns
      exact absurd hreturns (show (-1 : Int) ≠ 0 by decide)
  · intro hcopied
    refine Or.inl ⟨hreturns, by rw [hfind, if_pos rfl, hcopied], fun other hother => ?_⟩
    rw [hfind, if_neg (Ne.symm hother)]

/-- An update which was refused the memory of its entry is all-or-nothing exactly when the id was absent. -/
theorem allOrNothing_of_no_entry {grants : ℕ → Bool} (hentry : grants 0 = false) (t : OutputIds) (id : TxId)
    (balances : BalanceHt) (st : InclusionState) :
    AllOrNothing t id balances st (outputIdsTryUpdate grants t id balances st) ↔ outputIdsFind t id = none := by
  have hresult : outputIdsTryUpdate grants t id balances st = (-1, outputIdsRemove t id) := by
    rw [outputIdsTryUpdate_eq, hentry, if_neg Bool.false_ne_true]
  rw [hresult]
  constructor
  · rintro (hreplaced | hfailed)
    · exact absurd hreplaced.returns (show (-1 : Int) ≠ 0 by decide)
    · have hkept : outputIdsRemove t id = t := congrArg Prod.snd hfailed
      have hremoved := outputIdsFind_remove t id id
      rwa [hkept, if_pos rfl] at hremoved
  · intro habsent
    rw [outputIdsRemove_of_none habsent]
    exact Or.inr rfl

/-- An update is all-or-nothing exactly when no colour is refused its memory after the entry got its own,
and an entry which is refused had no predecessor. -/
theorem outputIdsTryUpdate_allOrNothing_iff (grants : ℕ → Bool) (t : OutputIds) (id : TxId)
    (balances : BalanceHt) (st : InclusionState) :
    AllOrNothing t id balances st (outputIdsTryUpdate grants t id balances st) ↔
      if grants 0 then ∀ call < balances.count, grants (call + 1) = true else outputIdsFind t id = none := by
  cases hentry : grants 0 with
  | true =>
    rw [if_pos rfl, ← balanceHtTryClone_eq_iff fun call => grants (call + 1)]
    exact allOrNothing_of_entry hentry t id balances st
  | false =>
    rw [if_neg Bool.false_ne_true]
    exact allOrNothing_of_no_entry hentry t id balances st

/-- An update which says that it succeeded has lost a colour. -/
theorem outputIdsTryUpdate_loses_color :
    ¬ ∀ (grants : ℕ → Bool) (t : OutputIds) (id : TxId) (balances : BalanceHt) (st : InclusionState),
      AllOrNothing t id balances st (outputIdsTryUpdate grants t id balances st) := by
  intro h
  rcases h (fun call => call = 0) outputIdsInit (Bytes.zero 32) (balanceHtAdd balanceHtInit (Bytes.zero 32) 5).2
    ⟨true, true, false, true, false, true, false⟩ with hreplaced | hfailed
  · exact absurd hreplaced.entry (by decide)
  · exact absurd (congrArg Prod.fst hfailed) (by decide)

end Goshimmer
