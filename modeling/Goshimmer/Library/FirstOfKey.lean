import Goshimmer.Library.InsertionTable
import Mathlib.Algebra.BigOperators.Group.List.Basic
import Mathlib.Data.List.Induction

/-!
# What a replay into a table keeps

Values which are added one by one to a table of distinct keys meet two fates: the first value of
each key is kept, and a later value of the same key is refused. A sum over all values splits into
a sum over the kept ones, which the table shows, and a sum over the refused ones. Whatever the
table shows was added by some step of the loop which filled it.
-/

section FirstOfKey

variable {V K M : Type*} [DecidableEq K]

/-- The values whose key is neither among the given ones nor the key of an earlier value. -/
def firstOfKey (key : V → K) : List K → List V → List V
  | _, [] => []
  | seen, v :: rest =>
    if key v ∈ seen then firstOfKey key seen rest else v :: firstOfKey key (seen ++ [key v]) rest

/-- The values whose key is among the given ones or is the key of an earlier value. -/
def repeatOfKey (key : V → K) : List K → List V → List V
  | _, [] => []
  | seen, v :: rest =>
    if key v ∈ seen then v :: repeatOfKey key seen rest else repeatOfKey key (seen ++ [key v]) rest

/-- A sum over all values splits into the kept and the refused ones. -/
theorem sum_eq_sum_firstOfKey_add [AddCommMonoid M] (key : V → K) (f : V → M) (seen : List K)
    (l : List V) :
    (l.map f).sum = ((firstOfKey key seen l).map f).sum + ((repeatOfKey key seen l).map f).sum := by
  induction l generalizing seen with
  | nil => simp [firstOfKey, repeatOfKey]
  | cons v rest ih =>
    rw [firstOfKey, repeatOfKey, List.map_cons, List.sum_cons]
    by_cases h : key v ∈ seen
    · rw [if_pos h, if_pos h, ih seen, List.map_cons, List.sum_cons, add_left_comm]
    · rw [if_neg h, if_neg h, ih (seen ++ [key v]), List.map_cons, List.sum_cons, add_assoc]

/-- Values of new and pairwise distinct keys are all kept. -/
theorem firstOfKey_of_nodup (key : V → K) (seen : List K) (l : List V)
    (h : (seen ++ l.map key).Nodup) : firstOfKey key seen l = l := by
  induction l generalizing seen with
  | nil => rfl
  | cons v rest ih =>
    have hnew : key v ∉ seen := fun hseen =>
      (List.nodup_append.mp h).2.2 (key v) hseen (key v) (by simp) rfl
    rw [firstOfKey, if_neg hnew, ih]
    rw [List.append_assoc, List.singleton_append]
    exact h

/-- A list of values with distinct keys has at most one value of a key. -/
theorem length_filter_key_le_one (key : V → K) {l : List V} (h : (l.map key).Nodup) (k : K) :
    (l.filter fun v => decide (key v = k)).length ≤ 1 := by
  have hkeys : (l.filter fun v => decide (key v = k)).map key =
      List.replicate (l.filter fun v => decide (key v = k)).length k := by
    have hkey : ∀ v ∈ l.filter fun v => decide (key v = k), key v = k :=
      fun v hv => of_decide_eq_true (List.mem_filter.mp hv).2
    rw [List.map_congr_left hkey, List.map_const']
  have hnodup := h.sublist (List.filter_sublist.map key : ((l.filter fun v => decide (key v = k)).map key).Sublist _)
  rwa [hkeys, List.nodup_replicate] at hnodup

/-- The one value of its key is itself. -/
theorem filter_key_of_mem (key : V → K) {l : List V} (h : (l.map key).Nodup) {v : V} (hv : v ∈ l) :
    (l.filter fun other => decide (key other = key v)) = [v] := by
  have hmem : v ∈ l.filter fun other => decide (key other = key v) :=
    List.mem_filter.mpr ⟨hv, decide_eq_true rfl⟩
  have hone := length_filter_key_le_one key h (key v)
  obtain ⟨other, hother⟩ := List.length_eq_one_iff.mp (Nat.le_antisymm hone (List.length_pos_of_mem hmem))
  rw [hother] at hmem ⊢
  rw [List.mem_singleton.mp hmem]

/-- Adding entries for values one by one appends the entries of the kept values. -/
theorem InsertionTable.entries_foldl_insertNew_eq {E : Type*} {entryKey : E → K} (entry : V → E)
    (l : List V) (t : InsertionTable entryKey) :
    (l.foldl (fun t v => t.insertNew (entry v)) t).entries =
      t.entries ++ (firstOfKey (fun v => entryKey (entry v)) (t.entries.map entryKey) l).map entry := by
  induction l generalizing t with
  | nil => simp [firstOfKey]
  | cons v rest ih =>
    rw [List.foldl_cons, ih, firstOfKey]
    cases hfind : t.find (entryKey (entry v)) with
    | none =>
      have hnew : entryKey (entry v) ∉ t.entries.map entryKey := by
        intro hmem
        obtain ⟨w, hw, hkey⟩ := List.mem_map.mp hmem
        exact (t.find_eq_none_iff _).mp hfind w hw hkey
      rw [if_neg hnew, InsertionTable.entries_insertNew_of_none hfind, List.map_append, List.map_singleton,
        List.map_cons, List.append_assoc, List.singleton_append]
    | some w =>
      obtain ⟨hw, hkey⟩ := (t.find_eq_some_iff _ _).mp hfind
      rw [if_pos (hkey ▸ List.mem_map_of_mem hw), InsertionTable.insertNew_of_some hfind]

/-- When every step of a loop adds at most one element to a list, each element of the final list was
there from the start or was added by some step. -/
theorem exists_added_of_mem_foldlM {A S : Type*} {f : S → A → Option S} (elements : S → List V)
    (hstep : ∀ s a s', f s a = some s' → elements s' = elements s ∨ ∃ v, elements s' = elements s ++ [v])
    (l : List A) {s s' : S} (h : l.foldlM f s = some s') {v : V} (hv : v ∈ elements s') :
    v ∈ elements s ∨ ∃ before a after mid next, l = before ++ a :: after ∧ before.foldlM f s = some mid ∧
      f mid a = some next ∧ elements next = elements mid ++ [v] := by
  induction l using List.reverseRecOn generalizing s' with
  | nil =>
    obtain rfl : s = s' := Option.some.inj h
    exact Or.inl hv
  | append_singleton init a ih =>
    obtain ⟨mid, hinit, hlast⟩ := Option.bind_eq_some_iff.mp (List.foldlM_append.symm.trans h)
    have hnext : f mid a = some s' := by simpa using hlast
    have hearlier : v ∈ elements mid → v ∈ elements s ∨ ∃ before a' after mid next,
        init ++ [a] = before ++ a' :: after ∧ before.foldlM f s = some mid ∧ f mid a' = some next ∧
          elements next = elements mid ++ [v] := by
      intro hmem
      refine (ih hinit hmem).imp_right ?_
      intro ⟨before, a', after, mid, next, heq, hrest⟩
      exact ⟨before, a', after ++ [a], mid, next, by rw [heq]; simp, hrest⟩
    rcases hstep mid a s' hnext with hsame | ⟨w, hadded⟩
    · exact hearlier (hsame ▸ hv)
    · rw [hadded, List.mem_append, List.mem_singleton] at hv
      rcases hv with hold | rfl
      · exact hearlier hold
      · exact Or.inr ⟨init, a, [], mid, s', rfl, hinit, hnext, hadded⟩

end FirstOfKey
