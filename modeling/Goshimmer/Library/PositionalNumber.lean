import Goshimmer.Library.SelfDelimiting
import Mathlib.Data.List.Induction
import Mathlib.Data.List.TakeWhile

/-!
# Numbers from their digits

A number is read from digits of any base, the most significant one first. Reading inverts writing
at a fixed width, leading zeros do not count, and a number has no more digits behind its leading
zeros than its size allows.
-/

section PositionalNumber

/-- The number which digits spell, the most significant one first. -/
def numberOfDigits (base : ℕ) (digits : List ℕ) : ℕ := digits.foldl (fun n d => n * base + d) 0

/-- One more digit at the end. -/
@[simp] theorem numberOfDigits_concat (base : ℕ) (digits : List ℕ) (d : ℕ) :
    numberOfDigits base (digits ++ [d]) = numberOfDigits base digits * base + d := by
  rw [numberOfDigits, List.foldl_append, List.foldl_cons, List.foldl_nil, numberOfDigits]

/-- A leading zero does not count. -/
theorem numberOfDigits_zero_cons (base : ℕ) (digits : List ℕ) :
    numberOfDigits base (0 :: digits) = numberOfDigits base digits := by
  rw [numberOfDigits, List.foldl_cons, Nat.zero_mul, Nat.zero_add, numberOfDigits]

/-- Leading zeros do not count. -/
theorem numberOfDigits_replicate_append (base zeros : ℕ) (digits : List ℕ) :
    numberOfDigits base (List.replicate zeros 0 ++ digits) = numberOfDigits base digits := by
  induction zeros with
  | zero => rfl
  | succ zeros ih => rw [List.replicate_succ, List.cons_append, numberOfDigits_zero_cons, ih]

/-- Dropping the leading zeros keeps the number. -/
theorem numberOfDigits_dropWhile (base : ℕ) (digits : List ℕ) :
    numberOfDigits base (digits.dropWhile (· = 0)) = numberOfDigits base digits := by
  induction digits with
  | nil => rfl
  | cons d rest ih =>
    by_cases h : d = 0
    · subst h
      rw [List.dropWhile_cons_of_pos (by simp), ih, numberOfDigits_zero_cons]
    · rw [List.dropWhile_cons_of_neg (by simpa using h)]

/-- A number is less than the power of the base to the number of its digits. -/
theorem numberOfDigits_lt (base : ℕ) (digits : List ℕ) (h : ∀ d ∈ digits, d < base) :
    numberOfDigits base digits < base ^ digits.length := by
  induction digits using List.reverseRecOn with
  | nil => simp [numberOfDigits]
  | append_singleton init d ih =>
    have hd : d < base := h d (by simp)
    have hinit := ih fun e he => h e (by simp [he])
    calc numberOfDigits base (init ++ [d]) = numberOfDigits base init * base + d :=
          numberOfDigits_concat base init d
      _ < (numberOfDigits base init + 1) * base := by
          rw [Nat.add_mul, Nat.one_mul]
          exact Nat.add_lt_add_left hd _
      _ ≤ base ^ init.length * base := Nat.mul_le_mul_right _ hinit
      _ = base ^ (init ++ [d]).length := by
          rw [List.length_append, List.length_singleton, Nat.pow_succ]

/-- A first digit above zero weighs as much as all digits behind it allow. -/
theorem pow_le_numberOfDigits (base : ℕ) {d : ℕ} (hd : d ≠ 0) (rest : List ℕ) :
    base ^ rest.length ≤ numberOfDigits base (d :: rest) := by
  induction rest using List.reverseRecOn with
  | nil => simpa [numberOfDigits] using Nat.one_le_iff_ne_zero.mpr hd
  | append_singleton init e ih =>
    rw [← List.cons_append, numberOfDigits_concat, List.length_append, List.length_singleton, Nat.pow_succ]
    exact (Nat.mul_le_mul_right _ ih).trans (Nat.le_add_right _ _)

/-- Reading what was written at a width which the number fits gives the number back. -/
theorem numberOfDigits_reverse_littleEndian {base width n : ℕ} (h : n < base ^ width) :
    numberOfDigits base (littleEndian base width n).reverse = n := by
  induction width generalizing n with
  | zero =>
    rw [Nat.pow_zero, Nat.lt_one_iff] at h
    rw [h]
    rfl
  | succ width ih =>
    have hdiv : n / base < base ^ width := Nat.div_lt_of_lt_mul (by rwa [Nat.pow_succ'] at h)
    rw [littleEndian, List.reverse_cons, numberOfDigits_concat, ih hdiv, Nat.div_add_mod']

/-- Writing what was read at the width of its digits gives the digits back. -/
theorem littleEndian_numberOfDigits (base : ℕ) (digits : List ℕ) (h : ∀ d ∈ digits, d < base) :
    littleEndian base digits.length (numberOfDigits base digits) = digits.reverse := by
  induction digits using List.reverseRecOn with
  | nil => rfl
  | append_singleton init d ih =>
    have hd : d < base := h d (by simp)
    have hmod : (numberOfDigits base init * base + d) % base = d := by
      rw [Nat.mul_add_mod_self_right, Nat.mod_eq_of_lt hd]
    have hdiv : (numberOfDigits base init * base + d) / base = numberOfDigits base init := by
      rw [Nat.add_comm, Nat.add_mul_div_right _ _ (Nat.zero_lt_of_lt hd), Nat.div_eq_of_lt hd,
        Nat.zero_add]
    rw [numberOfDigits_concat, List.length_append, List.length_singleton, littleEndian, hmod, hdiv,
      ih fun e he => h e (by simp [he]), List.reverse_append, List.reverse_singleton,
      List.singleton_append]

end PositionalNumber
