import Goshimmer.Wallet.AddressRuns

/-!
# Spent for ever

An index can be marked before it is generated. Asking for a new index clears its bit without a look at
it, so an index which was marked that way is unspent again, and the next new address may be the one of
this index. And behind the largest value of the type the next index is 0 again. A run in which neither
happens never forgets a spent index, and each of its new addresses is new.
-/

namespace Goshimmer

/-- An address manager with what happened to it: the indices whose addresses it returned, and the indices
which were marked. -/
structure AmHistory where
  am : WalletAm
  returned : List UInt64
  retired : List UInt64

/-- The index which an operation marks. -/
def AmOp.retires : AmOp → Option UInt64
  | .markSpentAddress index => some index
  | _ => none

/-- An index is spent: its bit reads as set, whatever lies behind the mask. -/
def WalletAm.Spent (am : WalletAm) (i : UInt64) : Prop := ∀ heap, amIsSpentAddress heap am i = true

/-- The bit decides, for a bit which is set is inside the mask. -/
theorem WalletAm.spent_iff (am : WalletAm) (i : UInt64) : am.Spent i ↔ am.spentAddr.marked i = true := by
  by_cases hinside : i.toNat / 8 < am.spentAddr.cap
  · have hread : ∀ heap, amIsSpentAddress heap am i = am.spentAddr.marked i :=
      fun heap => bitmaskGet_eq_marked heap _ i hinside
    simp only [WalletAm.Spent, hread, forall_const]
  · have hclear := marked_of_cap_le (Nat.not_lt.mp hinside)
    rw [hclear]
    refine ⟨fun hspent => ?_, fun hset => Bool.noConfusion hset⟩
    have hzero := hspent fun _ => 0
    rw [amIsSpentAddress, bitmaskGet] at hzero
    split at hzero
    · exact hzero
    · rw [← hzero, ← hclear, Bitmask.marked]

variable (sodium : Sodium)

/-- One operation, with the record of what it did. -/
def historyStep (history : AmHistory) (op : (UInt64 → Byte) × AmOp) : Option (AmHistory × List Address) :=
  (amStep sodium history.am op).map fun (am, out) =>
    (⟨am, (op.2.asked history.am).toList ++ history.returned, op.2.retires.toList ++ history.retired⟩, out)

/-- What a step leaves: an address was asked for and returned, or an index was marked. -/
theorem historyStep_cases {history history' : AmHistory} {heap : UInt64 → Byte} {op : AmOp} {out : List Address}
    (h : historyStep sodium history (heap, op) = some (history', out)) :
    (∃ index, op.asked history.am = some index ∧ out = [addressGet sodium history.am.seed index] ∧
        history' = ⟨(amGetAddress sodium history.am index).1, index :: history.returned, history.retired⟩) ∨
      (∃ index, op = .markSpentAddress index ∧
        history' = ⟨amMarkSpentAddress heap history.am index, history.returned, index :: history.retired⟩) := by
  obtain ⟨⟨am, out'⟩, hstep, hnext⟩ := Option.map_eq_some_iff.mp h
  obtain ⟨hhistory, hout⟩ := Prod.mk.inj hnext
  rw [← hhistory, ← hout]
  rcases amStep_cases sodium hstep with ⟨index, hasked, rfl, hreturned⟩ | ⟨index, rfl, rfl, -⟩
  · refine Or.inl ⟨index, hasked, hreturned, ?_⟩
    have hretires : op.retires = none := by
      cases op with
      | markSpentAddress _ => exact absurd hasked.symm (Option.some_ne_none index)
      | _ => rfl
    simp only [hasked, hretires, Option.toList_some, Option.toList_none, List.cons_append, List.nil_append]
  · exact Or.inr ⟨index, rfl, rfl⟩

variable (start : WalletAm)

/-- An index which was spent at the start or was marked since then is spent. -/
def SpentStays (history : AmHistory) : Prop :=
  ∀ i, start.Spent i ∨ i ∈ history.retired → history.am.Spent i

/-- What an operation which asks for a new address returns is not the address of an index which was spent at the
start, or was marked or returned since then. -/
def NewIsNew (history : AmHistory) (op : AmOp) (out : List Address) : Prop :=
  op = .getNewAddress → ∀ addr ∈ out, ∀ i, start.Spent i ∨ i ∈ history.retired ∨ i ∈ history.returned →
    addr ≠ addressGet sodium start.seed i

/-- The steps which forget nothing: an index which an operation generates was not marked before, and where
the indices start again from 0, index 0 was neither marked nor returned. -/
def ForgetsNothing (history : AmHistory) (op : AmOp) : Prop :=
  (∀ index, op.asked history.am = some index → history.am.lastAddrIndex < index → ¬ history.am.Spent index) ∧
    (op = .getNewAddress → history.am.lastAddrIndex.toNat + 1 = 2 ^ 64 →
      ¬ history.am.Spent 0 ∧ 0 ∉ history.returned)

/-- What every run keeps: the seed, returned indices which were generated, and no bit but those which were
set at the start or marked since then. -/
structure AmHistory.Sound (history : AmHistory) : Prop where
  seed_eq : history.am.seed = start.seed
  returned_le : ∀ i ∈ history.returned, i ≤ history.am.lastAddrIndex
  origin : ∀ i, history.am.Spent i → start.Spent i ∨ i ∈ history.retired

variable {start}

/-- Every step keeps this. -/
theorem AmHistory.Sound.step {history history' : AmHistory} (h : history.Sound start)
    {op : (UInt64 → Byte) × AmOp} {out : List Address}
    (hstep : historyStep sodium history op = some (history', out)) : history'.Sound start := by
  rcases historyStep_cases sodium hstep with ⟨index, -, -, rfl⟩ | ⟨index, -, rfl⟩
  · refine ⟨(seed_amGetAddress sodium _ _).trans h.seed_eq, fun i hi => ?_, fun i hi => ?_⟩
    · dsimp only
      rw [lastAddrIndex_amGetAddress]
      rcases List.mem_cons.mp hi with rfl | hearlier
      · split
        · exact UInt64.le_refl _
        · next hold => exact UInt64.not_lt.mp hold
      · have hlast := h.returned_le i hearlier
        split
        · next hnew => exact UInt64.le_trans hlast (UInt64.le_of_lt hnew)
        · exact hlast
    · apply h.origin i
      rw [WalletAm.spent_iff] at hi ⊢
      exact marked_of_marked_amGetAddress sodium hi
  · refine ⟨(spentAddr_amMarkSpentAddress _ _ _).2.trans h.seed_eq, fun i hi => ?_, fun i hi => ?_⟩
    · dsimp only
      rw [lastAddrIndex_amMarkSpentAddress]
      exact h.returned_le i hi
    · dsimp only at hi ⊢
      rw [WalletAm.spent_iff, marked_amMarkSpentAddress] at hi
      by_cases hsame : i = index
      · exact Or.inr (hsame ▸ List.mem_cons_self)
      · rw [if_neg hsame, ← WalletAm.spent_iff] at hi
        exact (h.origin i hi).imp_right (List.mem_cons_of_mem _)

/-- A step which asks for an address forgets no spent index exactly when it generates none. -/
theorem AmHistory.Sound.spentStays_ask {history : AmHistory} (h : history.Sound start)
    (hstays : SpentStays start history) (index : UInt64) (returned : List UInt64) :
    SpentStays start ⟨(amGetAddress sodium history.am index).1, returned, history.retired⟩ ↔
      (history.am.lastAddrIndex < index → ¬ history.am.Spent index) := by
  constructor
  · intro hstays' hnew hspent
    have hset := hstays' index (h.origin index hspent)
    rw [WalletAm.spent_iff, marked_amGetAddress, if_pos ⟨hnew, rfl⟩] at hset
    exact Bool.noConfusion hset
  · intro hcondition i hi
    have hspent := hstays i hi
    dsimp only
    rw [WalletAm.spent_iff, marked_amGetAddress, if_neg]
    · exact (history.am.spent_iff i).mp hspent
    · rintro ⟨hnew, rfl⟩
      exact hcondition hnew hspent

/-- Marking an index forgets no spent index. -/
theorem SpentStays.mark {history : AmHistory} (hstays : SpentStays start history) (heap : UInt64 → Byte)
    (index : UInt64) (returned : List UInt64) :
    SpentStays start ⟨amMarkSpentAddress heap history.am index, returned, index :: history.retired⟩ := by
  intro i hi
  dsimp only at hi ⊢
  rw [WalletAm.spent_iff, marked_amMarkSpentAddress]
  by_cases hsame : i = index
  · rw [if_pos hsame]
  · rw [if_neg hsame, ← WalletAm.spent_iff]
    apply hstays i
    exact hi.imp_right fun hmem => (List.mem_cons.mp hmem).resolve_left hsame

/-- A new address, of an index which was not marked, is new exactly when the indices do not start again
from 0 on one which was marked or returned. -/
theorem AmHistory.Sound.newIsNew_iff {history : AmHistory} (h : history.Sound start)
    (hdistinct : Function.Injective (addressGet sodium start.seed)) (hstays : SpentStays start history)
    (hclear : history.am.lastAddrIndex < history.am.lastAddrIndex + 1 →
      ¬ history.am.Spent (history.am.lastAddrIndex + 1)) :
    NewIsNew sodium start history .getNewAddress
        [addressGet sodium history.am.seed (history.am.lastAddrIndex + 1)] ↔
      (history.am.lastAddrIndex.toNat + 1 = 2 ^ 64 → ¬ history.am.Spent 0 ∧ 0 ∉ history.returned) := by
  rw [h.seed_eq]
  have hwraps : history.am.lastAddrIndex.toNat + 1 = 2 ^ 64 → history.am.lastAddrIndex + 1 = 0 := by
    intro hlargest
    rw [← UInt64.toNat_inj, UInt64.toNat_add, UInt64.toNat_one, hlargest]
    decide
  constructor
  · intro hnew hlargest
    have hdiffers := hnew rfl _ (List.mem_singleton_self _) 0
    rw [hwraps hlargest] at hdiffers
    refine ⟨fun hspent => hdiffers ?_ rfl, fun hreturned => hdiffers (Or.inr (Or.inr hreturned)) rfl⟩
    exact (h.origin 0 hspent).imp_right Or.inl
  · intro hcondition _ addr haddr i hi heq
    rw [List.mem_singleton.mp haddr] at heq
    obtain rfl := hdistinct heq
    have hspentOr : history.am.Spent (history.am.lastAddrIndex + 1) ∨
        history.am.lastAddrIndex + 1 ∈ history.returned := by
      rcases hi with hinitial | hretired | hreturned
      · exact Or.inl (hstays _ (Or.inl hinitial))
      · exact Or.inl (hstays _ (Or.inr hretired))
      · exact Or.inr hreturned
    by_cases hlargest : history.am.lastAddrIndex.toNat + 1 = 2 ^ 64
    · rw [hwraps hlargest] at hspentOr
      exact hspentOr.elim (hcondition hlargest).1 (hcondition hlargest).2
    · have hbound := history.am.lastAddrIndex.toNat_lt
      have hnext : history.am.lastAddrIndex < history.am.lastAddrIndex + 1 := by
        rw [UInt64.lt_iff_toNat_lt, toNat_add_one_of_lt (by omega)]
        exact Nat.lt_succ_self _
      rcases hspentOr with hspent | hreturned
      · exact hclear hnext hspent
      · exact UInt64.not_lt.mpr (h.returned_le _ hreturned) hnext

/-- A step which starts with its spent indices kept forgets nothing exactly when it meets the condition. -/
theorem AmHistory.Sound.step_iff {history : AmHistory} (h : history.Sound start)
    (hdistinct : Function.Injective (addressGet sodium start.seed)) (hstays : SpentStays start history)
    {op : (UInt64 → Byte) × AmOp} {next : AmHistory × List Address}
    (hstep : historyStep sodium history op = some next) :
    (NewIsNew sodium start history op.2 next.2 ∧ SpentStays start next.1) ↔ ForgetsNothing history op.2 := by
  obtain ⟨history', out⟩ := next
  rcases historyStep_cases sodium hstep with ⟨index, hasked, rfl, rfl⟩ | ⟨index, hop, rfl⟩
  · rw [h.spentStays_ask sodium hstays, ForgetsNothing, hasked]
    have hasks : (∀ other, some index = some other → history.am.lastAddrIndex < other →
        ¬ history.am.Spent other) ↔ (history.am.lastAddrIndex < index → ¬ history.am.Spent index) :=
      ⟨fun hall => hall index rfl, fun hclear other hother => Option.some.inj hother ▸ hclear⟩
    rw [hasks, and_comm]
    apply and_congr_right
    intro hclear
    by_cases hop : op.2 = .getNewAddress
    · rw [hop] at hasked ⊢
      obtain rfl := Option.some.inj hasked
      rw [h.newIsNew_iff sodium hdistinct hstays hclear]
      exact ⟨fun hcondition _ => hcondition, fun hcondition => hcondition rfl⟩
    · exact iff_of_true (fun hnew => absurd hnew hop) fun hnew => absurd hnew hop
  · have hother : op.2 ≠ .getNewAddress := by
      rw [hop]
      exact AmOp.noConfusion
    refine iff_of_true ⟨fun hnew => absurd hnew hother, hstays.mark op.1 index _⟩ ⟨?_, ?_⟩
    · rw [hop]
      exact fun other hasked => absurd hasked.symm (Option.some_ne_none other)
    · exact fun hnew => absurd hnew hother

/-- Along any operations on a new manager, whatever its largest index and its mask, no step forgets a spent
index and every new address which is returned is new, exactly when every step meets the condition. -/
theorem spent_for_ever_iff {seed : Seed} (hdistinct : Function.Injective (addressGet sodium seed))
    (lastAddrIndex : UInt64) (mask : Option Bitmask) (ops : List ((UInt64 → Byte) × AmOp)) :
    StepsAlong (historyStep sodium)
        (fun history op next => NewIsNew sodium (amNew seed lastAddrIndex mask) history op.2 next.2 ∧
          SpentStays (amNew seed lastAddrIndex mask) next.1)
        ⟨amNew seed lastAddrIndex mask, [], []⟩ ops ↔
      StepsAlong (historyStep sodium) (fun history op _ => ForgetsNothing history op.2)
        ⟨amNew seed lastAddrIndex mask, [], []⟩ ops := by
  have hsound : AmHistory.Sound (amNew seed lastAddrIndex mask) ⟨amNew seed lastAddrIndex mask, [], []⟩ :=
    ⟨rfl, fun _ hi => absurd hi List.not_mem_nil, fun _ => Or.inl⟩
  have hinitial : SpentStays (amNew seed lastAddrIndex mask) ⟨amNew seed lastAddrIndex mask, [], []⟩ :=
    fun _ hi => hi.resolve_right List.not_mem_nil
  refine StepsAlong.iff_of_invariant (historyStep sodium)
    (fun history => history.Sound (amNew seed lastAddrIndex mask) ∧
      SpentStays (amNew seed lastAddrIndex mask) history) ?_ ?_ ⟨hsound, hinitial⟩
    (StepsAlong.of_forall _ (fun _ _ _ => trivial) _ _)
  · intro history op next h _ hcondition hstep
    exact ⟨h.1.step sodium hstep, ((h.1.step_iff sodium hdistinct h.2 hstep).mpr hcondition).2⟩
  · exact fun h _ hstep => h.1.step_iff sodium hdistinct h.2 hstep

/-- A new manager with one address. -/
def oneGenerated : AmHistory := ⟨amNew (Bytes.zero 32) 0 none, [], []⟩

/-- Marking an index and generating the next one. -/
def markAndGenerate (index : UInt64) : List ((UInt64 → Byte) × AmOp) :=
  [(fun _ => 0, .markSpentAddress index), (fun _ => 0, .getNewAddress)]

/-- The manager with one address, after an index was marked. -/
def oneMarked (index : UInt64) : AmHistory := ⟨amMarkSpentAddress (fun _ => 0) oneGenerated.am index, [], [index]⟩

/-- A property of the two steps. -/
theorem stepsAlong_markAndGenerate
    (p : AmHistory → (UInt64 → Byte) × AmOp → AmHistory × List Address → Prop) (index : UInt64) :
    StepsAlong (historyStep transparentSodium) p oneGenerated (markAndGenerate index) ↔
      p oneGenerated (fun _ => 0, .markSpentAddress index) (oneMarked index, []) ∧
        p (oneMarked index) (fun _ => 0, .getNewAddress)
            (⟨(amGetNewAddress transparentSodium (oneMarked index).am).1,
                [(oneMarked index).am.lastAddrIndex + 1], [index]⟩,
              [addressGet transparentSodium (oneMarked index).am.seed ((oneMarked index).am.lastAddrIndex + 1)]) ∧
          True := by
  have hgenerate : historyStep transparentSodium (oneMarked index) (fun _ => 0, .getNewAddress) =
      some (⟨(amGetNewAddress transparentSodium (oneMarked index).am).1,
          [(oneMarked index).am.lastAddrIndex + 1], [index]⟩,
        [addressGet transparentSodium (oneMarked index).am.seed ((oneMarked index).am.lastAddrIndex + 1)]) := by
    rw [historyStep, amStep_of_asked transparentSodium rfl]
    rfl
  have hmark : historyStep transparentSodium oneGenerated (fun _ => 0, .markSpentAddress index) =
      some (oneMarked index, []) := rfl
  rw [markAndGenerate, StepsAlong.cons_iff _ hmark, StepsAlong.cons_iff _ hgenerate]
  exact Iff.rfl

/-- Index 0 stays spent, and the address which is generated then is new. -/
theorem spent_for_ever_iff_zero :
    StepsAlong (historyStep transparentSodium)
      (fun history op next => NewIsNew transparentSodium oneGenerated.am history op.2 next.2 ∧
        SpentStays oneGenerated.am next.1) oneGenerated (markAndGenerate 0) := by
  apply (@spent_for_ever_iff transparentSodium (Bytes.zero 32) (addressGet_transparentSodium_injective _) 0 none
    (markAndGenerate 0)).mpr
  apply (stepsAlong_markAndGenerate _ 0).mpr
  refine ⟨⟨fun _ hasked => (by cases hasked), fun hop => (by cases hop)⟩, ⟨fun index hasked _ => ?_, ?_⟩, trivial⟩
  · rw [← Option.some.inj hasked, WalletAm.spent_iff]
    decide
  · exact fun _ hlargest => absurd hlargest (by decide)

/-- After index 1 was marked, the new address of a manager with one address is the one of index 1. -/
theorem new_address_of_marked_index :
    ¬ ∀ (sodium : Sodium) (seed : Seed) (lastAddrIndex : UInt64) (mask : Option Bitmask)
      (ops : List ((UInt64 → Byte) × AmOp)), Function.Injective (addressGet sodium seed) →
        StepsAlong (historyStep sodium)
          (fun history op next => NewIsNew sodium (amNew seed lastAddrIndex mask) history op.2 next.2 ∧
            SpentStays (amNew seed lastAddrIndex mask) next.1)
          ⟨amNew seed lastAddrIndex mask, [], []⟩ ops := by
  intro h
  have hnew := ((stepsAlong_markAndGenerate _ 1).mp (h transparentSodium (Bytes.zero 32) 0 none
    (markAndGenerate 1) (addressGet_transparentSodium_injective _))).2.1.1
  exact hnew rfl _ (List.mem_singleton_self _) 1 (Or.inr (Or.inl (List.mem_singleton_self 1))) rfl

end Goshimmer
