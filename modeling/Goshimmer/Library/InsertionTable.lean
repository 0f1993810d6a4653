import Mathlib.Data.List.Basic
import Mathlib.Data.List.Nodup
import Mathlib.Data.List.Perm.Subperm

/-!
# Insertion-ordered tables with pairwise distinct keys

A chained hash table that is only ever filled through "look the key up, then add" holds at
most one entry per key and iterates in insertion order. The structure below is that abstract
value: its entries in iteration order together with the distinctness of their keys. Every
operation re-establishes the invariant, so no user of a table proves it again.

Replaying the entries of a table into an empty one gives the table back; this is what makes
a copy loop that adds entry by entry a faithful copy. A loop whose additions may be refused memory adds
the entries which are granted it.
-/

/-- The members of a list whose positions are granted, in order. -/
def grantedOf {V : Type*} (granted : ℕ → Bool) (l : List V) : List V :=
  (l.zipIdx.filter fun v => granted v.2).map Prod.fst

section Granted

variable {V T : Type*} (granted : ℕ → Bool)

/-- A member is granted at one of its positions. -/
theorem mem_grantedOf {l : List V} {v : V} :
    v ∈ grantedOf granted l ↔ ∃ call, l[call]? = some v ∧ granted call = true := by
  rw [grantedOf, List.mem_map]
  constructor
  · rintro ⟨⟨w, call⟩, hmem, rfl⟩
    obtain ⟨hposition, hgranted⟩ := List.mem_filter.mp hmem
    exact ⟨call, List.mk_mem_zipIdx_iff_getElem?.mp hposition, hgranted⟩
  · rintro ⟨call, hposition, hgranted⟩
    exact ⟨(v, call), List.mem_filter.mpr ⟨List.mk_mem_zipIdx_iff_getElem?.mpr hposition, hgranted⟩, rfl⟩

/-- They are among the list, in its order. -/
theorem grantedOf_sublist (l : List V) : (grantedOf granted l).Sublist l := by
  have hfiltered := (List.filter_sublist (p := fun v => granted v.2) (l := l.zipIdx)).map Prod.fst
  rwa [List.zipIdx_map_fst] at hfiltered

/-- They are the whole list exactly when every position is granted. -/
theorem grantedOf_eq_self_iff (l : List V) :
    grantedOf granted l = l ↔ ∀ call < l.length, granted call = true := by
  constructor
  · intro hsame call hcall
    have hlength := congrArg List.length hsame
    rw [grantedOf, List.length_map, ← List.length_zipIdx (l := l) (i := 0),
      List.length_filter_eq_length_iff] at hlength
    exact hlength (l[call], call) (List.mk_mem_zipIdx_iff_getElem?.mpr (List.getElem?_eq_getElem hcall))
  · intro hgranted
    rw [grantedOf, List.filter_eq_self.mpr, List.zipIdx_map_fst]
    intro v hv
    exact hgranted v.2 (by simpa using List.snd_lt_of_mem_zipIdx hv)

/-- A loop which does something at the granted positions alone goes over the granted members. -/
theorem foldl_grantedOf (f : T → V → T) (l : List V) (t : T) :
    l.zipIdx.foldl (fun t v => if granted v.2 then f t v.1 else t) t = (grantedOf granted l).foldl f t := by
  rw [grantedOf, List.foldl_map, List.foldl_filter]

end Granted

/-- The entries of a table in iteration order, at most one for each key. -/
@[ext] structure InsertionTable {V K : Type*} (key : V → K) where
  entries : List V
  nodup : (entries.map key).Nodup

namespace InsertionTable

variable {V K : Type*} {key : V → K}

/-- Tables are compared by their entries. -/
instance [DecidableEq V] : DecidableEq (InsertionTable key) := fun a b =>
  decidable_of_iff (a.entries = b.entries) InsertionTable.ext_iff.symm

/-- The table without entries. -/
def empty : InsertionTable key := ⟨[], List.nodup_nil⟩

/-- The table has no entries; the table pointer of an implementation is then null. -/
def isEmpty (t : InsertionTable key) : Bool := t.entries.isEmpty

/-- The number of entries. -/
def count (t : InsertionTable key) : ℕ := t.entries.length

/-- Change every entry by an operation which leaves the keys alone. -/
def mapEntries (t : InsertionTable key) (f : V → V) (hf : ∀ v, key (f v) = key v) :
    InsertionTable key where
  entries := t.entries.map f
  nodup := by
    have hkeys : (t.entries.map f).map key = t.entries.map key := by
      simp only [List.map_map, Function.comp_def, hf]
    rw [hkeys]
    exact t.nodup

/-- Every key of a table occurs among the granted entries exactly when every entry is granted. -/
theorem keys_granted_iff (t : InsertionTable key) (granted : ℕ → Bool) :
    (∀ v ∈ t.entries, ∃ w ∈ grantedOf granted t.entries, key w = key v) ↔
      ∀ call < t.entries.length, granted call = true := by
  rw [← grantedOf_eq_self_iff]
  constructor
  · intro hkeys
    have hsubset : t.entries ⊆ grantedOf granted t.entries := by
      intro v hv
      obtain ⟨w, hw, heq⟩ := hkeys v hv
      rwa [← List.inj_on_of_nodup_map t.nodup ((grantedOf_sublist granted t.entries).subset hw) hv heq]
    exact (grantedOf_sublist granted t.entries).eq_of_length_le (List.subperm_of_subset t.nodup.of_map hsubset).length_le
  · intro hall v hv
    exact ⟨v, by rwa [hall], rfl⟩

section Keyed

variable [DecidableEq K]

/-- The entry stored under a key. -/
def find (t : InsertionTable key) (k : K) : Option V := t.entries.find? fun v => key v = k

/-- A lookup returns an entry of the table which has the requested key. -/
theorem find_eq_some_iff (t : InsertionTable key) (k : K) (v : V) :
    t.find k = some v ↔ v ∈ t.entries ∧ key v = k := by
  constructor
  · intro h
    exact ⟨List.mem_of_find?_eq_some h, by simpa using List.find?_some h⟩
  · rintro ⟨hmem, rfl⟩
    obtain ⟨w, hw⟩ : ∃ w, t.find (key v) = some w := by
      rw [← Option.isSome_iff_exists, find, List.find?_isSome]
      exact ⟨v, hmem, by simp⟩
    have hwmem : w ∈ t.entries := List.mem_of_find?_eq_some hw
    have hwkey : key w = key v := by simpa using List.find?_some hw
    rw [hw, List.inj_on_of_nodup_map t.nodup hwmem hmem hwkey]

/-- A lookup fails exactly when no entry has the key. -/
theorem find_eq_none_iff (t : InsertionTable key) (k : K) :
    t.find k = none ↔ ∀ v ∈ t.entries, key v ≠ k := by
  simp [find]

/-- Every entry is found under its own key. -/
theorem find_key_of_mem {t : InsertionTable key} {v : V} (h : v ∈ t.entries) :
    t.find (key v) = some v :=
  (t.find_eq_some_iff (key v) v).mpr ⟨h, rfl⟩

/-- Add an entry whose key is new, at the end of the iteration order. -/
def add (t : InsertionTable key) (v : V) (h : t.find (key v) = none) : InsertionTable key where
  entries := t.entries ++ [v]
  nodup := by
    have hfresh := (t.find_eq_none_iff (key v)).mp h
    rw [List.map_append, List.map_singleton, List.nodup_append]
    refine ⟨t.nodup, List.nodup_singleton _, ?_⟩
    intro k hk k' hk'
    obtain ⟨w, hw, rfl⟩ := List.mem_map.mp hk
    rw [List.mem_singleton.mp hk']
    exact hfresh w hw

/-- Look the key up first and add the entry only when the key is new. -/
def insertNew (t : InsertionTable key) (v : V) : InsertionTable key :=
  if h : t.find (key v) = none then t.add v h else t

/-- Adding an entry under a new key appends it. -/
theorem entries_insertNew_of_none {t : InsertionTable key} {v : V} (h : t.find (key v) = none) :
    (t.insertNew v).entries = t.entries ++ [v] := by
  rw [insertNew, dif_pos h, add]

/-- Adding under a present key changes nothing. -/
theorem insertNew_of_some {t : InsertionTable key} {v w : V} (h : t.find (key v) = some w) :
    t.insertNew v = t := by
  rw [insertNew, dif_neg (by simp [h])]

/-- The entries after an add are the old ones, and the new one when its key was absent. -/
theorem mem_entries_insertNew {t : InsertionTable key} {v w : V} :
    w ∈ (t.insertNew v).entries ↔ w ∈ t.entries ∨ w = v ∧ t.find (key v) = none := by
  cases h : t.find (key v) with
  | none => simp [entries_insertNew_of_none h]
  | some u => simp [insertNew_of_some h]

/-- An add appends an entry, or it changes nothing. -/
theorem entries_insertNew_cases (t : InsertionTable key) (v : V) :
    (t.insertNew v).entries = t.entries ∨ ∃ w, (t.insertNew v).entries = t.entries ++ [w] := by
  cases h : t.find (key v) with
  | none => exact Or.inr ⟨v, entries_insertNew_of_none h⟩
  | some u => exact Or.inl (by rw [insertNew_of_some h])

/-- An add shows at the end of the entries exactly when the key was absent. -/
theorem entries_insertNew_eq_append_iff {t : InsertionTable key} {v w : V} :
    (t.insertNew v).entries = t.entries ++ [w] ↔ t.find (key v) = none ∧ v = w := by
  cases h : t.find (key v) with
  | none => simp [entries_insertNew_of_none h]
  | some u => simp [insertNew_of_some h]

/-- A lookup after an add: present keys keep their entry. -/
theorem find_insertNew (t : InsertionTable key) (v : V) (k : K) :
    (t.insertNew v).find k = (t.find k).or (if key v = k then some v else none) := by
  cases h : t.find (key v) with
  | none =>
    rw [find, entries_insertNew_of_none h, List.find?_append, find]
    congr 1
    by_cases hk : key v = k <;> simp [hk]
  | some u =>
    rw [insertNew_of_some h]
    by_cases hk : key v = k
    · rw [← hk, h, Option.some_or]
    · rw [if_neg hk, Option.or_none]

/-- Adding entries one by one with new and pairwise distinct keys appends them all. -/
theorem entries_foldl_insertNew (l : List V) (t : InsertionTable key)
    (h : (t.entries.map key ++ l.map key).Nodup) :
    (l.foldl insertNew t).entries = t.entries ++ l := by
  induction l generalizing t with
  | nil => simp
  | cons v rest ih =>
    have hnone : t.find (key v) = none := by
      rw [find_eq_none_iff]
      intro w hw heq
      have hdisjoint := (List.nodup_append.mp h).2.2
      exact hdisjoint (key w) (List.mem_map_of_mem hw) (key v) (by simp) heq
    have hentries := entries_insertNew_of_none hnone
    rw [List.foldl_cons, ih, hentries, List.append_assoc, List.singleton_append]
    rw [hentries, List.map_append, List.append_assoc]
    simpa using h

/-- Replaying the entries of a table into the empty table gives the table back. -/
theorem foldl_insertNew_entries (t : InsertionTable key) :
    t.entries.foldl insertNew empty = t := by
  apply InsertionTable.ext
  rw [entries_foldl_insertNew _ _ (by simpa [empty] using t.nodup), empty, List.nil_append]

/-- A lookup after several adds: a present key keeps its entry, and otherwise the first one counts. -/
theorem find_foldl_insertNew (l : List V) (t : InsertionTable key) (k : K) :
    (l.foldl insertNew t).find k = (t.find k).or (l.find? fun v => key v = k) := by
  induction l generalizing t with
  | nil => rw [List.foldl_nil, List.find?_nil, Option.or_none]
  | cons v rest ih =>
    rw [List.foldl_cons, ih, find_insertNew, Option.or_assoc, List.find?_cons]
    by_cases hk : key v = k
    · simp only [hk, if_true, decide_true, Option.some_or]
    · simp only [hk, if_false, decide_false, Option.none_or]

/-- Remove the entry stored under a key. -/
def erase (t : InsertionTable key) (k : K) : InsertionTable key where
  entries := t.entries.filter fun v => key v ≠ k
  nodup := (List.filter_sublist.map key).nodup t.nodup

/-- A lookup after a removal. -/
theorem find_erase (t : InsertionTable key) (k j : K) :
    (t.erase k).find j = if k = j then none else t.find j := by
  rw [find, erase, List.find?_filter]
  by_cases hkj : k = j
  · rw [if_pos hkj, List.find?_eq_none]
    intro v _ hv
    simp [hkj] at hv
  · rw [if_neg hkj, find]
    congr 1
    funext v
    by_cases hv : key v = j
    · simp [hv, Ne.symm hkj]
    · simp [hv]

/-- Change the entry stored under a key, keeping its key and position. -/
def modify (t : InsertionTable key) (k : K) (f : V → V) (hf : ∀ v, key (f v) = key v) :
    InsertionTable key :=
  t.mapEntries (fun v => if key v = k then f v else v) fun v => by
    by_cases h : key v = k
    · simp only [h, if_true, hf]
    · simp only [h, if_false]

/-- The entries after a change are the old entries, with the one under the key replaced. -/
theorem mem_entries_modify {t : InsertionTable key} {k : K} {f : V → V}
    {hf : ∀ v, key (f v) = key v} {w : V} :
    w ∈ (t.modify k f hf).entries ↔ ∃ v ∈ t.entries, (if key v = k then f v else v) = w := by
  simp [modify, mapEntries]

/-- A lookup after a change of one entry. -/
theorem find_modify (t : InsertionTable key) (k : K) (f : V → V) (hf : ∀ v, key (f v) = key v)
    (j : K) :
    (t.modify k f hf).find j = if k = j then (t.find j).map f else t.find j := by
  have hstep : ∀ l : List V,
      (l.map fun v => if key v = k then f v else v).find? (fun v => key v = j) =
        if k = j then (l.find? fun v => key v = j).map f else l.find? fun v => key v = j := by
    intro l
    induction l with
    | nil => simp
    | cons v rest ih =>
      have hkey : key (if key v = k then f v else v) = key v := by split <;> simp [hf]
      rw [List.map_cons, List.find?_cons, List.find?_cons, hkey, ih]
      by_cases hj : key v = j
      · simp only [hj, decide_true, Option.map_some]
        by_cases hk : k = j
        · simp [hk]
        · simp [hk, Ne.symm hk]
      · simp [hj]
  exact hstep t.entries

end Keyed

end InsertionTable
