import Goshimmer.Library.InsertionTable

/-!
# Overriding a table by another one

The entries of one table are put into another one by one: an entry whose key is present is combined with
the entry it finds, and one whose key is new is added. Looked up under a key the outcome depends on
the two entries of this key alone, and where combining twice is combining once, doing it all again changes
nothing.
-/

namespace InsertionTable

variable {V K : Type*} {key : V → K}

/-- How an entry is put into a table. -/
structure Override (key : V → K) where
  /-- What becomes of an entry which is found under the key of a new one. -/
  combine : V → V → V
  /-- What is added when the key is new. -/
  fresh : V → V
  key_combine : ∀ new old, key (combine new old) = key old
  key_fresh : ∀ new, key (fresh new) = key new

/-- The entry under a key after the one of the other table, if any, was put there. -/
def Override.entry (o : Override key) : Option V → Option V → Option V
  | none, old => old
  | some new, none => some (o.fresh new)
  | some new, some old => some (o.combine new old)

/-- What was put under a key stays when it is put there once more. -/
def Override.Settles (o : Override key) : Prop :=
  (∀ new, o.combine new (o.fresh new) = o.fresh new) ∧
    ∀ new old, o.combine new (o.combine new old) = o.combine new old

variable [DecidableEq K] (o : Override key)

/-- Put an entry into a table. -/
def put (t : InsertionTable key) (new : V) : InsertionTable key :=
  match t.find (key new) with
  | some _ => t.modify (key new) (o.combine new) (o.key_combine new)
  | none => t.insertNew (o.fresh new)

/-- A lookup after an entry was put into a table. -/
theorem find_put (t : InsertionTable key) (new : V) (k : K) :
    (t.put o new).find k = if key new = k then o.entry (some new) (t.find k) else t.find k := by
  rw [put]
  cases h : t.find (key new) with
  | none =>
    dsimp only
    rw [find_insertNew, o.key_fresh]
    by_cases hk : key new = k
    · rw [← hk, h, if_pos rfl, if_pos rfl, Option.none_or]
      rfl
    · rw [if_neg hk, if_neg hk, Option.or_none]
  | some old =>
    dsimp only
    rw [find_modify]
    by_cases hk : key new = k
    · rw [← hk, h, if_pos rfl, if_pos rfl]
      rfl
    · rw [if_neg hk, if_neg hk]

/-- A lookup after several entries with distinct keys were put into a table. -/
theorem find_foldl_put (l : List V) (h : (l.map key).Nodup) (t : InsertionTable key) (k : K) :
    (l.foldl (put o) t).find k = o.entry (l.find? fun v => key v = k) (t.find k) := by
  induction l generalizing t with
  | nil => rfl
  | cons new rest ih =>
    rw [List.map_cons, List.nodup_cons] at h
    rw [List.foldl_cons, ih h.2, find_put, List.find?_cons]
    by_cases hk : key new = k
    · -- no later entry has this key
      have hnone : (rest.find? fun v => key v = k) = none := by
        rw [List.find?_eq_none]
        intro v hv heq
        exact h.1 (List.mem_map.mpr ⟨v, hv, (of_decide_eq_true heq).trans hk.symm⟩)
      simp only [hnone, hk, if_true, decide_true]
      rfl
    · simp only [hk, if_false, decide_false]

/-- A lookup after one table was overridden by another. -/
theorem find_override (t r : InsertionTable key) (k : K) :
    (r.entries.foldl (put o) t).find k = o.entry (r.find k) (t.find k) :=
  find_foldl_put o r.entries r.nodup t k

/-- Putting an entry where it changes nothing leaves the table as it is. -/
theorem put_eq_self {t : InsertionTable key} {new old : V} (h : t.find (key new) = some old)
    (hold : o.combine new old = old) : t.put o new = t := by
  apply InsertionTable.ext
  rw [put, h]
  dsimp only
  rw [← List.map_id t.entries]
  apply List.map_congr_left
  intro v hv
  by_cases hk : key v = key new
  · have hv' : t.find (key new) = some v := (t.find_eq_some_iff _ _).mpr ⟨hv, hk⟩
    rw [if_pos hk, Option.some.inj (hv'.symm.trans h), hold]
    rfl
  · rw [if_neg hk]
    rfl

/-- Overriding a table by the same one again changes nothing. -/
theorem override_again (hsettles : o.Settles) (t r : InsertionTable key) :
    r.entries.foldl (put o) (r.entries.foldl (put o) t) = r.entries.foldl (put o) t := by
  have hsettled : ∀ new ∈ r.entries, (r.entries.foldl (put o) t).put o new = r.entries.foldl (put o) t := by
    intro new hnew
    have hfound := find_override o t r (key new)
    rw [find_key_of_mem hnew] at hfound
    cases hold : t.find (key new) with
    | none =>
      rw [hold] at hfound
      exact put_eq_self o hfound (hsettles.1 new)
    | some old =>
      rw [hold] at hfound
      exact put_eq_self o hfound (hsettles.2 new old)
  generalize r.entries.foldl (put o) t = final at hsettled
  generalize r.entries = l at hsettled
  induction l with
  | nil => rfl
  | cons new rest ih =>
    rw [List.foldl_cons, hsettled new List.mem_cons_self]
    exact ih fun v hv => hsettled v (List.mem_cons_of_mem _ hv)

end InsertionTable
