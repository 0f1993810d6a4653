import Goshimmer.Core.Types
import Goshimmer.Library.InsertionTable
import Goshimmer.Library.CoveringPrefix

/-!
# Coloured balances

`core/balance.c`. A balance is a signed value of one colour. The balances of an output sit in
a table keyed by colour; its sums are accumulated in an unsigned 64-bit variable, so signed
values enter modulo 2^64.

An entry gets its memory here. `balanceHtTryAdd` is the addition whose request may be refused.
-/

namespace Goshimmer

/-- `byte_t[BALANCE_COLOR_BYTES]`. -/
abbrev Color := Bytes 32

/-- `balance_t`. -/
structure Balance where
  value : Int64
  color : Color
  deriving DecidableEq

/-- One node of the table `balance_ht_t`. -/
structure BalanceEntry where
  color : Color
  value : Int64
  deriving DecidableEq

/-- `balance_ht_t *`. -/
abbrev BalanceHt := InsertionTable BalanceEntry.color

/-- `balance_ht_init`. -/
def balanceHtInit : BalanceHt := .empty

/-- `balance_ht_find`. -/
def balanceHtFind (t : BalanceHt) (color : Color) : Option BalanceEntry := t.find color

/-- `balance_ht_add`: a colour which is present keeps its value and the call fails. The memory of a new
entry is granted. -/
def balanceHtAdd (t : BalanceHt) (color : Color) (value : Int64) : Int × BalanceHt :=
  match balanceHtFind t color with
  | some _ => (-1, t)
  | none => (0, t.insertNew ⟨color, value⟩)

/-- `balance_ht_sum`. -/
def balanceHtSum (t : BalanceHt) : UInt64 :=
  t.entries.foldl (fun sum elm => sum + elm.value.toUInt64) 0

/-- `balance_ht_sum_with_color`. -/
def balanceHtSumWithColor (t : BalanceHt) (color : Color) : UInt64 :=
  t.entries.foldl (fun sum elm => if color = elm.color then sum + elm.value.toUInt64 else sum) 0

/-- `balance_ht_clone`: replay the entries into a new table. -/
def balanceHtClone (t : BalanceHt) : BalanceHt :=
  t.entries.foldl (fun dst src => (balanceHtAdd dst src.color src.value).2) balanceHtInit

/-- Whatever the return code, the table afterwards is the guarded insertion. -/
theorem balanceHtAdd_snd (t : BalanceHt) (color : Color) (value : Int64) :
    (balanceHtAdd t color value).2 = t.insertNew ⟨color, value⟩ := by
  unfold balanceHtAdd balanceHtFind
  cases h : t.find color with
  | none => rfl
  | some e =>
    have hkey : t.find (BalanceEntry.color ⟨color, value⟩) = some e := h
    exact (InsertionTable.insertNew_of_some hkey).symm

/-- A copy of a balance table holds the same entries in the same order. -/
@[simp] theorem balanceHtClone_eq (t : BalanceHt) : balanceHtClone t = t := by
  unfold balanceHtClone
  simp only [balanceHtAdd_snd]
  exact t.foldl_insertNew_entries

end Goshimmer
