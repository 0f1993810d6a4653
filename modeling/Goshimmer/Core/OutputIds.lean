import Goshimmer.Core.Balance

/-!
# Output ids of an address

`core/output_ids.c`. An address holds outputs, each with the id of the transaction which made
it, its coloured balances and the seven flags of its inclusion state. Only confirmed outputs
are counted; the outputs themselves stay in the table whatever their state.

The entries and their colours get their memory here. `outputIdsTryAdd` is the addition whose requests may
be refused.
-/

namespace Goshimmer

/-- `byte_t[TX_ID_BYTES]`. -/
abbrev TxId := Bytes 32

/-- `inclusion_state_t`. -/
structure InclusionState where
  solid : Bool
  confirmed : Bool
  rejected : Bool
  liked : Bool
  conflicting : Bool
  finalized : Bool
  preferred : Bool
  deriving DecidableEq

/-- One node of the table `output_ids_t`. -/
structure OutputIdEntry where
  id : TxId
  balances : BalanceHt
  st : InclusionState
  deriving DecidableEq

/-- `output_ids_t *`. -/
abbrev OutputIds := InsertionTable OutputIdEntry.id

/-- `output_ids_init`. -/
def outputIdsInit : OutputIds := .empty

/-- `output_ids_find`. -/
def outputIdsFind (t : OutputIds) (id : TxId) : Option OutputIdEntry := t.find id

/-- `output_ids_add`: a present id keeps its data, and the call still succeeds. The memory of a new entry
and of its colours is granted. -/
def outputIdsAdd (t : OutputIds) (id : TxId) (balances : BalanceHt) (st : InclusionState) :
    Int × OutputIds :=
  match outputIdsFind t id with
  | some _ => (0, t)
  | none => (0, t.insertNew ⟨id, balanceHtClone balances, st⟩)

/-- `output_ids_clone`. -/
def outputIdsClone (t : OutputIds) : OutputIds :=
  t.entries.foldl (fun dst src => (outputIdsAdd dst src.id src.balances src.st).2) outputIdsInit

/-- `output_ids_balance`. -/
def outputIdsBalance (t : OutputIds) : UInt64 :=
  t.entries.foldl
    (fun sum elm => if elm.st.confirmed then sum + balanceHtSum elm.balances else sum) 0

/-- `output_ids_balance_with_color`. -/
def outputIdsBalanceWithColor (t : OutputIds) (color : Color) : UInt64 :=
  t.entries.foldl
    (fun sum elm =>
      if elm.st.confirmed then sum + balanceHtSumWithColor elm.balances color else sum) 0

/-- Whatever was present, the table afterwards is the guarded insertion. -/
theorem outputIdsAdd_snd (t : OutputIds) (id : TxId) (balances : BalanceHt) (st : InclusionState) :
    (outputIdsAdd t id balances st).2 = t.insertNew ⟨id, balances, st⟩ := by
  unfold outputIdsAdd outputIdsFind
  cases h : t.find id with
  | none => simp only [balanceHtClone_eq]
  | some e =>
    have hkey : t.find (OutputIdEntry.id ⟨id, balances, st⟩) = some e := h
    exact (InsertionTable.insertNew_of_some hkey).symm

/-- A copy of a table of outputs holds the same outputs in the same order. -/
@[simp] theorem outputIdsClone_eq (t : OutputIds) : outputIdsClone t = t := by
  unfold outputIdsClone
  simp only [outputIdsAdd_snd]
  exact t.foldl_insertNew_entries

end Goshimmer
