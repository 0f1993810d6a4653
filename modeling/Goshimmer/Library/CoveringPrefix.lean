import Mathlib.Algebra.BigOperators.Group.List.Basic

/-!
# The shortest prefix whose running total covers a demand

A collecting loop walks a list, adds the weight of each element to a running total and stops
right after the element with which the demand is covered. What it collects is a prefix of the
list. An element is collected exactly when no shorter nonempty prefix already covers the
demand. The total may live in any commutative monoid, such as a wrapping machine word.
-/

section CoveringPrefix

variable {A M : Type*} [AddCommMonoid M]

/-- Collect elements from a running total on, up to the first total that covers the demand. -/
def coveringPrefix (weight : A → M) (covers : M → Bool) : M → List A → List A
  | _, [] => []
  | total, a :: rest =>
    a :: if covers (total + weight a) then [] else coveringPrefix weight covers (total + weight a) rest

/-- Accumulating weights from a start value adds their sum to it. -/
theorem foldl_add_weight (weight : A → M) (l : List A) (total : M) :
    l.foldl (fun sum a => sum + weight a) total = total + (l.map weight).sum := by
  induction l generalizing total with
  | nil => simp
  | cons a rest ih => rw [List.foldl_cons, ih, List.map_cons, List.sum_cons, add_assoc]

/-- Accumulating the weights of some elements adds the sum of these to a start value. -/
theorem foldl_add_weight_if (p : A → Prop) [DecidablePred p] (weight : A → M) (l : List A) (total : M) :
    l.foldl (fun sum a => if p a then sum + weight a else sum) total =
      total + (l.map fun a => if p a then weight a else 0).sum := by
  have hstep : (fun sum a => if p a then sum + weight a else sum) =
      fun (sum : M) a => sum + if p a then weight a else 0 := by
    funext sum a
    by_cases h : p a
    · rw [if_pos h, if_pos h]
    · rw [if_neg h, if_neg h, add_zero]
  rw [hstep, foldl_add_weight]

/-- The collected elements are the first ones of the list. -/
theorem coveringPrefix_isPrefix (weight : A → M) (covers : M → Bool) (total : M) (l : List A) :
    coveringPrefix weight covers total l <+: l := by
  induction l generalizing total with
  | nil => exact List.nil_prefix
  | cons a rest ih =>
    rw [coveringPrefix]
    split
    · exact ⟨rest, rfl⟩
    · exact List.cons_prefix_cons.mpr ⟨rfl, ih _⟩

/-- An element is collected exactly when no nonempty prefix before it covers the demand. -/
theorem mem_coveringPrefix_iff (weight : A → M) (covers : M → Bool) (total : M) (l : List A) (a : A) :
    a ∈ coveringPrefix weight covers total l ↔
      ∃ before after, l = before ++ a :: after ∧ ∀ shorter, shorter ≠ [] → shorter <+: before →
        covers (total + (shorter.map weight).sum) = false := by
  induction l generalizing total with
  | nil => simp [coveringPrefix]
  | cons b rest ih =>
    constructor
    · intro h
      rw [coveringPrefix] at h
      rcases List.mem_cons.mp h with rfl | htail
      · refine ⟨[], rest, rfl, fun shorter hne hprefix => ?_⟩
        exact absurd (List.prefix_nil.mp hprefix) hne
      · cases hcovers : covers (total + weight b) with
        | true => simp [hcovers] at htail
        | false =>
          rw [hcovers] at htail
          obtain ⟨before, after, rfl, hshorter⟩ := (ih (total + weight b)).mp htail
          refine ⟨b :: before, after, rfl, fun shorter hne hprefix => ?_⟩
          obtain ⟨c, shorter, rfl⟩ := List.exists_cons_of_ne_nil hne
          obtain ⟨rfl, htailprefix⟩ := List.cons_prefix_cons.mp hprefix
          rw [List.map_cons, List.sum_cons, ← add_assoc]
          by_cases hnil : shorter = []
          · simpa [hnil] using hcovers
          · exact hshorter shorter hnil htailprefix
    · rintro ⟨before, after, heq, hshorter⟩
      rw [coveringPrefix]
      cases before with
      | nil =>
        obtain ⟨rfl, -⟩ := List.cons.inj heq
        exact List.mem_cons_self
      | cons c before =>
        obtain ⟨rfl, rfl⟩ := List.cons.inj heq
        have hfirst : covers (total + weight b) = false := by
          simpa using hshorter [b] (by simp) (List.cons_prefix_cons.mpr ⟨rfl, List.nil_prefix⟩)
        rw [hfirst]
        refine List.mem_cons_of_mem _ ((ih _).mpr ⟨before, after, rfl, fun shorter hne hprefix => ?_⟩)
        have h := hshorter (b :: shorter) (by simp) (List.cons_prefix_cons.mpr ⟨rfl, hprefix⟩)
        rwa [List.map_cons, List.sum_cons, ← add_assoc] at h

/-- A prefix which is enough, while no shorter one is. -/
structure IsShortestPrefix (enough : List A → Prop) (l p : List A) : Prop where
  isPrefix : p <+: l
  isEnough : enough p
  shortest : ∀ q, q <+: p → enough q → q = p

/-- There is at most one shortest prefix. -/
theorem IsShortestPrefix.eq {enough : List A → Prop} {l p q : List A} (hp : IsShortestPrefix enough l p)
    (hq : IsShortestPrefix enough l q) : p = q := by
  rcases List.prefix_or_prefix_of_prefix hp.isPrefix hq.isPrefix with h | h
  · exact hq.shortest p h hp.isEnough
  · exact (hp.shortest q h hq.isEnough).symm

/-- Where nothing is not enough, a shortest prefix behind the first element continues it. -/
theorem IsShortestPrefix.cons {enough : List A → Prop} {l p : List A} {a : A}
    (h : IsShortestPrefix (fun q => enough (a :: q)) l p) (hnil : ¬ enough []) :
    IsShortestPrefix enough (a :: l) (a :: p) := by
  refine ⟨List.cons_prefix_cons.mpr ⟨rfl, h.isPrefix⟩, h.isEnough, fun q hprefix hq => ?_⟩
  cases q with
  | nil => exact absurd hq hnil
  | cons b q =>
    obtain ⟨rfl, htail⟩ := List.cons_prefix_cons.mp hprefix
    rw [h.shortest q htail hq]

/-- The collected elements are the shortest nonempty prefix which covers the demand, or the whole list
when none does. -/
theorem coveringPrefix_cases (weight : A → M) (covers : M → Bool) (total : M) (l : List A) :
    IsShortestPrefix (fun p => p ≠ [] ∧ covers (total + (p.map weight).sum) = true) l
        (coveringPrefix weight covers total l) ∨
      (coveringPrefix weight covers total l = l ∧
        ∀ p, p <+: l → p ≠ [] → covers (total + (p.map weight).sum) = false) := by
  induction l generalizing total with
  | nil => exact Or.inr ⟨rfl, fun p hp hne => absurd (List.prefix_nil.mp hp) hne⟩
  | cons a rest ih =>
    rw [coveringPrefix]
    cases hcovers : covers (total + weight a) with
    | true =>
      refine Or.inl ⟨List.cons_prefix_cons.mpr ⟨rfl, List.nil_prefix⟩, ⟨by simp, by simpa using hcovers⟩, ?_⟩
      intro q hprefix hq
      obtain ⟨b, q, rfl⟩ := List.exists_cons_of_ne_nil hq.1
      obtain ⟨rfl, htail⟩ := List.cons_prefix_cons.mp hprefix
      rw [List.prefix_nil.mp htail, if_pos rfl]
    | false =>
      rw [if_neg (by decide)]
      have htotal : ∀ q : List A, covers (total + ((a :: q).map weight).sum) =
          covers (total + weight a + (q.map weight).sum) := by
        intro q
        rw [List.map_cons, List.sum_cons, add_assoc]
      rcases ih (total + weight a) with hshortest | ⟨hall, hnone⟩
      · refine Or.inl (IsShortestPrefix.cons ⟨hshortest.isPrefix, ⟨by simp, ?_⟩, ?_⟩ fun h => h.1 rfl)
        · rw [htotal]
          exact hshortest.isEnough.2
        · intro q hprefix hq
          rw [htotal] at hq
          refine hshortest.shortest q hprefix ⟨?_, hq.2⟩
          rintro rfl
          rw [List.map_nil, List.sum_nil, add_zero, hcovers] at hq
          exact absurd hq.2 (by decide)
      · refine Or.inr ⟨by rw [hall], fun p hprefix hne => ?_⟩
        obtain ⟨b, q, rfl⟩ := List.exists_cons_of_ne_nil hne
        obtain ⟨rfl, htail⟩ := List.cons_prefix_cons.mp hprefix
        rw [htotal]
        by_cases hnil : q = []
        · simpa [hnil] using hcovers
        · exact hnone q htail hnil

end CoveringPrefix
