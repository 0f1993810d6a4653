import Mathlib.Algebra.Group.Nat.Defs
import Mathlib.Data.List.Basic
import Mathlib.Tactic.Common

/-!
# Self-delimiting byte encodings

An encoding is self-delimiting when the end of a value can be read off the bytes themselves:
two encodings followed by arbitrary suffixes agree only for equal values and equal suffixes.
The property is closed under concatenation, under an injective change of the encoded type and
under a count prefix for a list, so the injectivity of a nested layout follows from its parts.

Counts and widths are bounded in practice, hence every rule is relative to a predicate on the
encoded values.
-/

section SelfDelimiting

variable {A B S : Type*}

/-- Encodings of admitted values never run into one another. -/
def SelfDelimitingOn (admitted : A → Prop) (encode : A → List S) : Prop :=
  ∀ ⦃a b : A⦄, admitted a → admitted b → ∀ ⦃r s : List S⦄,
    encode a ++ r = encode b ++ s → a = b ∧ r = s

/-- The little-endian digits of a number in the given base, truncated to the given width. -/
def littleEndian (base : ℕ) : ℕ → ℕ → List ℕ
  | 0, _ => []
  | width + 1, n => n % base :: littleEndian base width (n / base)

namespace SelfDelimitingOn

/-- An encoding of one fixed width is self-delimiting as soon as it is injective. -/
theorem of_fixedWidth {admitted : A → Prop} {encode : A → List S} {width : ℕ}
    (hwidth : ∀ a, (encode a).length = width)
    (hinj : ∀ a b, admitted a → admitted b → encode a = encode b → a = b) :
    SelfDelimitingOn admitted encode := by
  intro a b ha hb r s heq
  have hparts := List.append_inj heq ((hwidth a).trans (hwidth b).symm)
  exact ⟨hinj a b ha hb hparts.1, hparts.2⟩

/-- Two fields one after the other. -/
theorem prod {admittedA : A → Prop} {admittedB : B → Prop} {encodeA : A → List S}
    {encodeB : B → List S} (hA : SelfDelimitingOn admittedA encodeA)
    (hB : SelfDelimitingOn admittedB encodeB) :
    SelfDelimitingOn (fun p : A × B => admittedA p.1 ∧ admittedB p.2)
      (fun p => encodeA p.1 ++ encodeB p.2) := by
  rintro ⟨a, b⟩ ⟨a', b'⟩ ⟨ha, hb⟩ ⟨ha', hb'⟩ r s heq
  simp only [List.append_assoc] at heq
  obtain ⟨rfl, hrest⟩ := hA ha ha' heq
  obtain ⟨rfl, rfl⟩ := hB hb hb' hrest
  exact ⟨rfl, rfl⟩

/-- Encode through an injective view of the values. -/
theorem comap {admitted : B → Prop} {encode : B → List S} (h : SelfDelimitingOn admitted encode)
    {view : A → B} (hview : Function.Injective view) :
    SelfDelimitingOn (fun a => admitted (view a)) (fun a => encode (view a)) := by
  intro a b ha hb r s heq
  have hparts := h ha hb heq
  exact ⟨hview hparts.1, hparts.2⟩

/-- Lists of one known length, item after item. -/
theorem flatMap_of_length {admitted : A → Prop} {encode : A → List S}
    (h : SelfDelimitingOn admitted encode) {l m : List A} (hlength : l.length = m.length)
    (hl : ∀ a ∈ l, admitted a) (hm : ∀ a ∈ m, admitted a) {r s : List S}
    (heq : l.flatMap encode ++ r = m.flatMap encode ++ s) : l = m ∧ r = s := by
  induction l generalizing m with
  | nil =>
    obtain rfl := List.length_eq_zero_iff.mp hlength.symm
    exact ⟨rfl, by simpa using heq⟩
  | cons a l ih =>
    cases m with
    | nil => simp at hlength
    | cons b m =>
      simp only [List.flatMap_cons, List.append_assoc] at heq
      obtain ⟨rfl, hrest⟩ := h (hl a List.mem_cons_self) (hm b List.mem_cons_self) heq
      have htail := ih (by simpa using hlength) (fun x hx => hl x (List.mem_cons_of_mem _ hx))
        (fun x hx => hm x (List.mem_cons_of_mem _ hx)) hrest
      exact ⟨congrArg (List.cons a) htail.1, htail.2⟩

/-- A list behind its own count: the count tells where the items end. -/
theorem countPrefixed {bound : ℕ} {count : ℕ → List S} {admitted : A → Prop}
    {encode : A → List S} (hcount : SelfDelimitingOn (· < bound) count)
    (h : SelfDelimitingOn admitted encode) :
    SelfDelimitingOn (fun l : List A => l.length < bound ∧ ∀ a ∈ l, admitted a)
      (fun l => count l.length ++ l.flatMap encode) := by
  intro l m hl hm r s heq
  simp only [List.append_assoc] at heq
  obtain ⟨hlength, hrest⟩ := hcount hl.1 hm.1 heq
  exact h.flatMap_of_length hlength hl.2 hm.2 hrest

end SelfDelimitingOn

/-- The digit string has exactly the requested width. -/
@[simp] theorem littleEndian_length (base width n : ℕ) :
    (littleEndian base width n).length = width := by
  induction width generalizing n with
  | zero => rfl
  | succ width ih => simp [littleEndian, ih]

/-- The digits of a number, by position. -/
theorem littleEndian_eq_map (base width n : ℕ) :
    littleEndian base width n = (List.range width).map fun k => n / base ^ k % base := by
  induction width generalizing n with
  | zero => rfl
  | succ width ih =>
    rw [littleEndian, ih, List.range_succ_eq_map, List.map_cons, List.map_map, Nat.pow_zero, Nat.div_one]
    congr 1
    apply List.map_congr_left
    intro k _
    rw [Function.comp_apply, Nat.pow_succ', Nat.div_div_eq_div_mul]

/-- Numbers which fit the width are determined by their digits. -/
theorem littleEndian_inj {base width n m : ℕ} (hn : n < base ^ width) (hm : m < base ^ width)
    (h : littleEndian base width n = littleEndian base width m) : n = m := by
  induction width generalizing n m with
  | zero =>
    rw [Nat.pow_zero, Nat.lt_one_iff] at hn hm
    rw [hn, hm]
  | succ width ih =>
    obtain ⟨hlow, hhigh⟩ := List.cons.inj h
    have hdiv : n / base = m / base := by
      refine ih ?_ ?_ hhigh
      · exact Nat.div_lt_of_lt_mul (by rwa [Nat.pow_succ'] at hn)
      · exact Nat.div_lt_of_lt_mul (by rwa [Nat.pow_succ'] at hm)
    rw [← Nat.div_add_mod n base, ← Nat.div_add_mod m base, hlow, hdiv]

/-- Every digit is below the base. -/
theorem lt_of_mem_littleEndian {base width n d : ℕ} (hbase : 0 < base)
    (h : d ∈ littleEndian base width n) : d < base := by
  induction width generalizing n with
  | zero => simp [littleEndian] at h
  | succ width ih =>
    rcases List.mem_cons.mp h with rfl | hrest
    · exact Nat.mod_lt _ hbase
    · exact ih hrest

end SelfDelimiting
