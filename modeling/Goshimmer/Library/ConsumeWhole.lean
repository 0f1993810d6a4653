import Goshimmer.Library.ConsumeOnce

/-!
# Emptying every key which is marked

Items are held under keys. A step which marks a key hands out everything held there, and it hands out
nothing else. When it also consumes every key at most once, a whole run hands out an item once if its key
was marked during the run, and never otherwise: what was handed out is known from the marks alone.
-/

variable {S A O I K : Type*} {marked : S → Set K} {items : O → List I} {key : I → K} {held : K → Set I}

/-- What a step hands out is held under its key, and what is held under a key which the step marks is
handed out. -/
structure ConsumesWhole (marked : S → Set K) (items : O → List I) (key : I → K) (held : K → Set I)
    (s s' : S) (out : List O) : Prop where
  present : ∀ item ∈ out.flatMap items, item ∈ held (key item)
  emptied : ∀ k ∈ marked s', k ∉ marked s → ∀ item ∈ held k, item ∈ out.flatMap items

/-- A step which hands out nothing and keeps the marks. -/
theorem ConsumesWhole.of_same {s s' : S} (h : marked s' = marked s) :
    ConsumesWhole marked items key held s s' [] :=
  ⟨fun _ hitem => absurd hitem List.not_mem_nil, fun _ hnew hold => absurd (h ▸ hnew) hold⟩

/-- The items handed out so far are those held under the keys marked so far. -/
structure ConsumedWhole (marked : S → Set K) (items : O → List I) (key : I → K) (held : K → Set I)
    (initial s : S) (log : List O) : Prop where
  kept : marked initial ⊆ marked s
  mem_iff : ∀ item, item ∈ log.flatMap items ↔
    key item ∈ marked s ∧ key item ∉ marked initial ∧ item ∈ held (key item)

/-- One more step which empties the keys it marks. -/
theorem ConsumedWhole.step {initial s s' : S} {log out : List O}
    (h : ConsumedWhole marked items key held initial s log)
    (honce : ConsumesOnce marked items key s s' out)
    (hwhole : ConsumesWhole marked items key held s s' out) :
    ConsumedWhole marked items key held initial s' (log ++ out) := by
  refine ⟨h.kept.trans honce.kept, fun item => ?_⟩
  rw [List.flatMap_append, List.mem_append]
  constructor
  · rintro (hold | hnew)
    · obtain ⟨hmarked, hfresh, hheld⟩ := (h.mem_iff item).mp hold
      exact ⟨honce.kept hmarked, hfresh, hheld⟩
    · obtain ⟨batch, hbatch, hitem⟩ := List.mem_flatMap.mp hnew
      obtain ⟨hbefore, hafter⟩ := honce.fresh batch hbatch item hitem
      exact ⟨hafter, fun hinitial => hbefore (h.kept hinitial), hwhole.present item hnew⟩
  · rintro ⟨hmarked, hfresh, hheld⟩
    by_cases hbefore : key item ∈ marked s
    · exact Or.inl ((h.mem_iff item).mpr ⟨hbefore, hfresh, hheld⟩)
    · exact Or.inr (hwhole.emptied _ hmarked hbefore item hheld)

/-- In a run whose steps consume once and empty what they mark, an item is handed out exactly when its
key was marked on the way and holds it, and no item is handed out twice. -/
theorem Run.consumedWhole {step : S → A → Option (S × List O)} {meets : S → A → Prop} (inv : S → Prop)
    {initial s : S} {log : List O} (hstart : inv initial)
    (hinv : ∀ {s s' : S} {a : A} {out : List O}, inv s → meets s a → step s a = some (s', out) → inv s')
    (honce : ∀ {s s' : S} {a : A} {out : List O}, meets s a → step s a = some (s', out) →
      ConsumesOnce marked items key s s' out)
    (hwhole : ∀ {s s' : S} {a : A} {out : List O}, inv s → meets s a → step s a = some (s', out) →
      ConsumesWhole marked items key held s s' out)
    (hrun : Run step meets initial s log) :
    (log.flatMap items).Nodup ∧ ConsumedWhole marked items key held initial s log := by
  refine ⟨(Run.consumedOnce honce hrun).distinct, ?_⟩
  have hall : inv s ∧ ConsumedWhole marked items key held initial s log := by
    induction hrun with
    | start =>
      refine ⟨hstart, Set.Subset.refl _, fun item => ?_⟩
      constructor
      · exact fun hitem => absurd hitem List.not_mem_nil
      · exact fun ⟨hmarked, hfresh, _⟩ => absurd hmarked hfresh
    | next _ hmeets hstep ih =>
      exact ⟨hinv ih.1 hmeets hstep, ih.2.step (honce hmeets hstep) (hwhole ih.1 hmeets hstep)⟩
  exact hall.2
