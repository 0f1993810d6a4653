import Goshimmer.Library.Run
import Mathlib.Data.Set.Basic

/-!
# Consuming every key at most once

A system marks keys and hands out batches of items, each item under a key. A step never takes a
mark back, hands out at most one batch, and takes the items of a batch from keys which carry no
mark before the step and carry one after it. Over a whole run no item is then handed out twice,
and no two batches share a key.
-/

variable {S O I K : Type*}

/-- What a step does to the marks, and what it hands out. -/
structure ConsumesOnce (marked : S → Set K) (items : O → List I) (key : I → K) (s s' : S)
    (out : List O) : Prop where
  kept : marked s ⊆ marked s'
  single : out.length ≤ 1
  distinct : ∀ batch ∈ out, (items batch).Nodup
  fresh : ∀ batch ∈ out, ∀ item ∈ items batch, key item ∉ marked s ∧ key item ∈ marked s'

/-- What holds of the batches handed out so far: their items are distinct, no two of them share a
key, and every key is marked. -/
structure ConsumedOnce (marked : S → Set K) (items : O → List I) (key : I → K) (s : S)
    (log : List O) : Prop where
  distinct : (log.flatMap items).Nodup
  separate : log.Pairwise fun earlier later =>
    ∀ item ∈ items earlier, ∀ item' ∈ items later, key item ≠ key item'
  recorded : ∀ batch ∈ log, ∀ item ∈ items batch, key item ∈ marked s

section

variable {marked : S → Set K} {items : O → List I} {key : I → K}

/-- A step which hands out nothing and keeps the marks. -/
theorem ConsumesOnce.of_same {s s' : S} (h : marked s' = marked s) :
    ConsumesOnce marked items key s s' [] :=
  ⟨h.symm.subset, Nat.zero_le _, fun _ hbatch => absurd hbatch List.not_mem_nil,
    fun _ hbatch => absurd hbatch List.not_mem_nil⟩

/-- A step which consumes once keeps the batches apart. -/
theorem ConsumedOnce.step {s s' : S} {log out : List O} (h : ConsumedOnce marked items key s log)
    (hstep : ConsumesOnce marked items key s s' out) :
    ConsumedOnce marked items key s' (log ++ out) := by
  have hacross : ∀ earlier ∈ log, ∀ later ∈ out, ∀ item ∈ items earlier, ∀ item' ∈ items later,
      key item ≠ key item' := by
    intro earlier hearlier later hlater item hitem item' hitem' heq
    have hbefore := h.recorded earlier hearlier item hitem
    rw [heq] at hbefore
    exact (hstep.fresh later hlater item' hitem').1 hbefore
  have hout : out = [] ∨ ∃ batch, out = [batch] := by
    cases out with
    | nil => exact Or.inl rfl
    | cons batch rest =>
      have hlength := hstep.single
      rw [List.length_cons] at hlength
      exact Or.inr ⟨batch, by rw [List.length_eq_zero_iff.mp (by omega : rest.length = 0)]⟩
  refine ⟨?_, ?_, ?_⟩
  · rw [List.flatMap_append, List.nodup_append]
    refine ⟨h.distinct, ?_, ?_⟩
    · rcases hout with rfl | ⟨batch, rfl⟩
      · exact List.nodup_nil
      · rw [List.flatMap_singleton]
        exact hstep.distinct batch (List.mem_singleton_self _)
    · intro item hitem item' hitem' heq
      obtain ⟨earlier, hearlier, hin⟩ := List.mem_flatMap.mp hitem
      obtain ⟨later, hlater, hin'⟩ := List.mem_flatMap.mp hitem'
      exact hacross earlier hearlier later hlater item hin item' hin' (congrArg key heq)
  · rw [List.pairwise_append]
    refine ⟨h.separate, ?_, hacross⟩
    rcases hout with rfl | ⟨batch, rfl⟩
    · exact List.Pairwise.nil
    · exact List.pairwise_singleton _ _
  · intro batch hbatch item hitem
    rcases List.mem_append.mp hbatch with hold | hnew
    · exact hstep.kept (h.recorded batch hold item hitem)
    · exact (hstep.fresh batch hnew item hitem).2

/-- A run whose steps all consume once keeps its batches apart. -/
theorem Run.consumedOnce {A : Type*} {step : S → A → Option (S × List O)} {meets : S → A → Prop}
    {initial s : S} {log : List O}
    (hstep : ∀ {s s' : S} {a : A} {out : List O}, meets s a → step s a = some (s', out) →
      ConsumesOnce marked items key s s' out)
    (hrun : Run step meets initial s log) : ConsumedOnce marked items key s log := by
  apply Run.invariant ⟨List.nodup_nil, List.Pairwise.nil, by simp⟩ ?_ hrun
  intro s s' a log out hlog hmeets hs
  exact hlog.step (hstep hmeets hs)

end
