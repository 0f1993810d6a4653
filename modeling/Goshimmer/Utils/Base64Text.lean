import Goshimmer.Utils.Base64

/-!
# The texts of the base64 decoder

What `base64_decode` accepts, as a grammar: letters of the alphabet and up to two padding characters
behind them, with line ends anywhere and spaces only in front of a line end or of the end. The first pass
decides this and counts; only a run of `2 ^ 32` spaces inside a line, which its counter takes for none, may
pass besides. The second pass writes nothing which the first one has not counted. It forgets
the letters of an unfinished group, and it ignores the bits of the last letter which stand for no byte; so
encoding the bytes again gives the text back exactly when there is neither.
-/

namespace Goshimmer

/-- The characters which the decoder skips: carriage return, line feed and space. -/
def isBlank (c : Byte) : Bool := decide (c = 13 ∨ c = 10 ∨ c = 32)

/-- A letter of the alphabet. -/
def isBase64Letter (c : Byte) : Bool := decide (base64Value c < 64)

/-- A carriage return is in front of a line feed, and a space is in front of another space, of a line end
or of the end. -/
def BlanksInPlace : List Byte → Prop
  | [] => True
  | c :: rest =>
    (c = 13 → rest.head? = some 10) ∧ (c = 32 → ∀ d ∈ rest.head?, isBlank d = true) ∧ BlanksInPlace rest

/-- A text which the decoder accepts, with its letters and the number of its padding characters. -/
structure Base64Text (src letters : List Byte) (pads : ℕ) : Prop where
  stripped : (src.filter fun c => !isBlank c) = letters ++ List.replicate pads base64Pad
  letters : ∀ c ∈ letters, isBase64Letter c = true
  pads_le : pads ≤ 2
  blanks : BlanksInPlace src

/-- A character is a blank, a padding character, a letter or none of these, and each is told by its
value. -/
theorem base64Value_cases (c : Byte) :
    (isBlank c = true ∧ isBase64Letter c = false ∧ c ≠ base64Pad) ∨
      (c = base64Pad ∧ isBlank c = false ∧ base64Value c = 64) ∨
      (isBase64Letter c = true ∧ isBlank c = false ∧ c ≠ base64Pad ∧ c ≤ 127 ∧
        c = base64Char (base64Value c)) ∨
      (isBlank c = false ∧ isBase64Letter c = false ∧ c ≠ base64Pad ∧ (127 < c ∨ base64Value c = 127)) :=
  forall_byte (fun c => (isBlank c = true ∧ isBase64Letter c = false ∧ c ≠ base64Pad) ∨
    (c = base64Pad ∧ isBlank c = false ∧ base64Value c = 64) ∨
    (isBase64Letter c = true ∧ isBlank c = false ∧ c ≠ base64Pad ∧ c ≤ 127 ∧ c = base64Char (base64Value c)) ∨
    (isBlank c = false ∧ isBase64Letter c = false ∧ c ≠ base64Pad ∧ (127 < c ∨ base64Value c = 127)))
    (by decide +kernel) c

/-! ## The first pass -/

/-- The first pass takes a letter where no space and no padding came before. -/
theorem base64Check_letter {c : Byte} (hc : isBase64Letter c = true) (n j : ℕ) (x : UInt32) (rest : List Byte) :
    base64Check n j x (c :: rest) = if x = 0 ∧ j = 0 then base64Check (n + 1) 0 0 rest else none := by
  rcases base64Value_cases c with ⟨-, hother, -⟩ | ⟨rfl, -, -⟩ | ⟨-, hblank, hpad, hle, -⟩ | ⟨-, hother, -⟩
  · rw [hc] at hother
    exact Bool.noConfusion hother
  · exact absurd hc (by decide)
  · have hvalue : base64Value c < 64 := of_decide_eq_true hc
    simp only [isBlank, decide_eq_false_iff_not, not_or] at hblank
    obtain ⟨hreturn, hline, hspace⟩ := hblank
    have hbound : ¬ (127 < c ∨ base64Value c = 127) := by
      rintro (h | h)
      · exact absurd hle (UInt8.not_le.mpr h)
      · omega
    rw [base64Check, if_neg hspace, if_neg (fun h => hreturn h.1), if_neg hline]
    by_cases hx : x = 0
    · rw [if_neg (not_not.mpr hx), if_neg (fun h => hpad h.1)]
      simp only [if_neg hpad, if_neg hbound, hvalue, true_and, hx]
      by_cases hj : j = 0
      · rw [if_neg (not_not.mpr hj), if_pos hj, hj]
      · rw [if_pos hj, if_neg hj]
    · rw [if_pos hx, if_neg fun h => hx h.1]
  · rw [hc] at hother
    exact Bool.noConfusion hother

/-- It takes up to two padding characters where no space came before. -/
theorem base64Check_padding (n j : ℕ) (x : UInt32) (rest : List Byte) :
    base64Check n j x (base64Pad :: rest) =
      if x = 0 ∧ j < 2 then base64Check (n + 1) (j + 1) 0 rest else none := by
  by_cases hx : x = 0
  · subst hx
    by_cases hj : j < 2
    · rw [base64Check_pad n hj, if_pos ⟨rfl, hj⟩]
    · rw [base64Check, if_neg (by decide), if_neg (by simp [base64Pad]), if_neg (by decide), if_neg (by simp),
        if_pos ⟨rfl, by omega⟩, if_neg fun h => hj h.2]
  · rw [base64Check, if_neg (by decide), if_neg (by simp [base64Pad]), if_neg (by decide), if_pos hx,
      if_neg (fun h => hx h.1)]

/-- It refuses a character which is no letter, no padding and no blank. -/
theorem base64Check_other {c : Byte} (hblank : isBlank c = false) (hpad : c ≠ base64Pad)
    (hother : 127 < c ∨ base64Value c = 127) (n j : ℕ) (x : UInt32) (rest : List Byte) :
    base64Check n j x (c :: rest) = none := by
  simp only [isBlank, decide_eq_false_iff_not, not_or] at hblank
  obtain ⟨hreturn, hline, hspace⟩ := hblank
  have hnot : ¬ (c = base64Pad ∧ 2 < j + 1) := fun h => hpad h.1
  rw [base64Check, if_neg hspace, if_neg (fun h => hreturn h.1), if_neg hline]
  simp only [if_neg hnot, if_pos hother, ite_self]

/-- The first pass skips a blank in its place, and refuses any other. -/
theorem base64Check_blank {c : Byte} (hc : isBlank c = true) (n j : ℕ) (x : UInt32) (rest : List Byte) :
    base64Check n j x (c :: rest) =
      if c = 13 ∧ rest.head? ≠ some 10 then none
      else base64Check n j (if c = 32 then x + 1 else 0) rest := by
  have hcases : c = 13 ∨ c = 10 ∨ c = 32 := of_decide_eq_true hc
  rcases hcases with rfl | rfl | rfl
  · rw [base64Check, if_neg (by decide)]
    by_cases hline : rest.head? = some 10
    · simp [hline]
    · simp [hline, base64Pad, base64Value, base64DecMap]
  · rw [base64Check, if_neg (by decide), if_neg (fun h => absurd h.1 (by decide)), if_pos rfl,
      if_neg (fun h => absurd h.1 (by decide)), if_neg (by decide)]
  · rw [base64Check, if_pos rfl, if_neg (fun h => absurd h.1 (by decide)), if_pos rfl]

/-- The first pass takes a run of spaces, which it counts modulo `2 ^ 32`. -/
theorem base64Check_spaces (n j : ℕ) (x : UInt32) (spaces : ℕ) (rest : List Byte) :
    base64Check n j x (List.replicate spaces 32 ++ rest) = base64Check n j (x + UInt32.ofNat spaces) rest := by
  induction spaces generalizing x with
  | zero =>
    have hnone : x + UInt32.ofNat 0 = x := UInt32.add_zero x
    rw [hnone, List.replicate_zero, List.nil_append]
  | succ spaces ih =>
    rw [List.replicate_succ, List.cons_append, base64Check, if_pos rfl, ih, UInt32.ofNat_add,
      UInt32.add_assoc, UInt32.add_comm 1]
    rfl

/-- So `2 ^ 32` spaces inside a line pass as none. -/
theorem base64Check_wrappedSpaces (n j : ℕ) (rest : List Byte) :
    base64Check n j 0 (List.replicate (2 ^ 32) 32 ++ rest) = base64Check n j 0 rest := by
  have hwraps : (0 : UInt32) + UInt32.ofNat (2 ^ 32) = 0 := by
    rw [← UInt32.toNat_inj, UInt32.toNat_add, UInt32.toNat_ofNat']
    rfl
  rw [base64Check_spaces, hwraps]

/-- No run of spaces is so long that the counter wraps. -/
def SpacesCounted (src : List Byte) : Prop :=
  ∀ spaces, List.replicate spaces (32 : Byte) <:+: src → spaces < 2 ^ 32

/-- A shorter text has no such run. -/
theorem spacesCounted_of_length {src : List Byte} (h : src.length < 2 ^ 32) : SpacesCounted src := by
  intro spaces hrun
  have hle := hrun.length_le
  rw [List.length_replicate] at hle
  exact hle.trans_lt h

/-- The rest of such a text has none either, with the spaces which were counted before it. -/
theorem SpacesCounted.rest {x : UInt32} {c : Byte} {rest : List Byte}
    (h : SpacesCounted (List.replicate x.toNat 32 ++ c :: rest)) :
    (c = 32 → x.toNat + 1 < 2 ^ 32) ∧
      SpacesCounted (List.replicate (if c = 32 then x + 1 else 0 : UInt32).toNat 32 ++ rest) := by
  by_cases hspace : c = 32
  · subst hspace
    have hmove : List.replicate x.toNat (32 : Byte) ++ 32 :: rest =
        List.replicate (x.toNat + 1) 32 ++ rest := by
      rw [List.replicate_succ', List.append_assoc, List.singleton_append]
    rw [hmove] at h
    have hfits := h _ (List.prefix_append _ rest).isInfix
    have hnext : (x + 1).toNat = x.toNat + 1 := by
      rw [UInt32.toNat_add, UInt32.toNat_one, Nat.mod_eq_of_lt hfits]
    rw [if_pos rfl, hnext]
    exact ⟨fun _ => hfits, h⟩
  · rw [if_neg hspace, UInt32.toNat_zero, List.replicate_zero, List.nil_append]
    refine ⟨fun h => absurd h hspace, fun spaces hrun => h spaces (hrun.trans ?_)⟩
    exact ((List.suffix_cons c rest).trans (List.suffix_append _ _)).isInfix

/-- What the first pass does with any other character depends on the counts alone, if there is no space in front
of it. -/
theorem base64Check_visible {c : Byte} (hblank : isBlank c = false) (n j : ℕ) :
    ∃ step : Option (ℕ × ℕ), ∀ x rest, base64Check n j x (c :: rest) =
      if x = 0 then step.bind fun counts => base64Check counts.1 counts.2 0 rest else none := by
  rcases base64Value_cases c with ⟨hsame, -⟩ | ⟨rfl, -, -⟩ | ⟨hletter, -⟩ | ⟨-, -, hpad, hother⟩
  · exact Bool.noConfusion (hblank.symm.trans hsame)
  · refine ⟨if j < 2 then some (n + 1, j + 1) else none, fun x rest => ?_⟩
    rw [base64Check_padding, ite_and]
    split
    · split <;> rfl
    · rfl
  · refine ⟨if j = 0 then some (n + 1, 0) else none, fun x rest => ?_⟩
    rw [base64Check_letter hletter, ite_and]
    split
    · split <;> rfl
    · rfl
  · refine ⟨none, fun x rest => ?_⟩
    rw [base64Check_other hblank hpad hother, Option.bind_none, ite_self]

/-- A character which is no blank does not change whether the blanks are in place. -/
theorem blanksInPlace_cons_iff {c : Byte} (hblank : isBlank c = false) (rest : List Byte) :
    BlanksInPlace (c :: rest) ↔ BlanksInPlace rest := by
  simp only [isBlank, decide_eq_false_iff_not, not_or] at hblank
  simp [BlanksInPlace, hblank]

/-- The first pass accepts a text whose blanks are in place when it accepts the text without them. -/
theorem base64Check_of_stripped {src : List Byte} (hplaced : BlanksInPlace src) {n j : ℕ} {x : UInt32}
    (hspaces : x ≠ 0 → ∀ c ∈ src.head?, isBlank c = true) {result : ℕ × ℕ}
    (hrest : base64Check n j 0 (src.filter fun c => !isBlank c) = some result) :
    base64Check n j x src = some result := by
  induction src generalizing n j x with
  | nil => exact hrest
  | cons c rest ih =>
    cases hblank : isBlank c with
    | true =>
      obtain ⟨hreturn, hspace, hplaced⟩ := hplaced
      rw [List.filter_cons_of_neg (by simp [hblank])] at hrest
      rw [base64Check_blank hblank, if_neg fun h => h.2 (hreturn h.1)]
      exact ih hplaced (fun hcounted => hspace (by_contra fun hnot => hcounted (if_neg hnot))) hrest
    | false =>
      -- behind spaces there is a blank, so no space was counted
      obtain rfl : x = 0 := by
        by_contra hx
        exact Bool.noConfusion (hblank.symm.trans (hspaces hx c rfl))
      obtain ⟨step, hstep⟩ := base64Check_visible hblank n j
      rw [List.filter_cons_of_pos (by simp [hblank]), hstep, if_pos rfl] at hrest
      rw [hstep, if_pos rfl]
      cases step with
      | none => exact absurd hrest.symm (Option.some_ne_none _)
      | some counts => exact ih ((blanksInPlace_cons_iff hblank rest).mp hplaced) (fun h => absurd rfl h) hrest

/-- A text which the first pass accepts has its blanks in place, unless the counter of spaces wraps. -/
theorem blanksInPlace_of_base64Check {src : List Byte} {n j : ℕ} {x : UInt32}
    (hcounted : SpacesCounted (List.replicate x.toNat 32 ++ src)) {result : ℕ × ℕ}
    (h : base64Check n j x src = some result) :
    (x ≠ 0 → ∀ c ∈ src.head?, isBlank c = true) ∧ BlanksInPlace src ∧
      base64Check n j 0 (src.filter fun c => !isBlank c) = some result := by
  induction src generalizing n j x with
  | nil => exact ⟨fun _ c hc => absurd hc.symm (Option.some_ne_none c), trivial, h⟩
  | cons c rest ih =>
    obtain ⟨hfits, hcountedRest⟩ := hcounted.rest
    cases hblank : isBlank c with
    | true =>
      rw [base64Check_blank hblank] at h
      split at h
      · exact absurd h.symm (Option.some_ne_none _)
      · next hline =>
        obtain ⟨hspaces, hplaced, hrest⟩ := ih hcountedRest h
        have hreturn : c = 13 → rest.head? = some 10 := fun h => not_not.mp fun hnot => hline ⟨h, hnot⟩
        refine ⟨fun _ d hd => ?_, ⟨hreturn, fun hspace => hspaces ?_, hplaced⟩, ?_⟩
        · rw [List.head?_cons, Option.mem_some_iff] at hd
          exact hd ▸ hblank
        · rw [if_pos hspace, ne_eq, ← UInt32.toNat_inj, UInt32.toNat_add, UInt32.toNat_one,
            Nat.mod_eq_of_lt (hfits hspace), UInt32.toNat_zero]
          exact Nat.succ_ne_zero _
        · rw [List.filter_cons_of_neg (by simp [hblank])]
          exact hrest
    | false =>
      have hspace : c ≠ 32 := by
        rintro rfl
        exact Bool.noConfusion hblank
      rw [if_neg hspace] at hcountedRest
      obtain ⟨step, hstep⟩ := base64Check_visible hblank n j
      rw [hstep] at h
      split at h
      · next hzero =>
        cases step with
        | none => exact absurd h.symm (Option.some_ne_none _)
        | some counts =>
          obtain ⟨-, hplaced, hrest⟩ := ih hcountedRest h
          refine ⟨fun hx => absurd hzero hx, (blanksInPlace_cons_iff hblank rest).mpr hplaced, ?_⟩
          rw [List.filter_cons_of_pos (by simp [hblank]), hstep, if_pos rfl]
          exact hrest
      · exact absurd h.symm (Option.some_ne_none _)

/-- Without blanks it accepts letters and up to two padding characters behind them, and counts both. -/
theorem base64Check_stripped_eq_some_iff {src : List Byte} (hsrc : ∀ c ∈ src, isBlank c = false)
    {n j n' j' : ℕ} (hj : j ≤ 2) :
    base64Check n j 0 src = some (n', j') ↔ ∃ letters pads, src = letters ++ List.replicate pads base64Pad ∧
      (∀ c ∈ letters, isBase64Letter c = true) ∧ (j ≠ 0 → letters = []) ∧ j + pads ≤ 2 ∧
        n' = n + letters.length + pads ∧ j' = j + pads := by
  induction src generalizing n j with
  | nil =>
    rw [base64Check, Option.some.injEq, Prod.mk.injEq]
    constructor
    · rintro ⟨rfl, rfl⟩
      exact ⟨[], 0, rfl, by simp, fun _ => rfl, hj, rfl, rfl⟩
    · rintro ⟨letters, pads, hnil, -, -, -, hcount, hpadding⟩
      obtain ⟨rfl, hpads⟩ := List.append_eq_nil_iff.mp hnil.symm
      rw [List.replicate_eq_nil_iff] at hpads
      subst hpads
      exact ⟨hcount.symm, hpadding.symm⟩
  | cons c rest ih =>
    have hrest : ∀ d ∈ rest, isBlank d = false := fun d hd => hsrc d (List.mem_cons_of_mem _ hd)
    have hnot := hsrc c List.mem_cons_self
    rcases base64Value_cases c with ⟨hblank, -⟩ | ⟨rfl, -, -⟩ | ⟨hletter, -, hpad, -⟩ | ⟨-, hother, hpad, hbad⟩
    · rw [hblank] at hnot
      exact Bool.noConfusion hnot
    · -- no letter comes behind padding
      rw [base64Check_padding]
      constructor
      · intro h
        split at h
        · next hfew =>
          obtain ⟨letters, pads, hrest', -, hbehind, hpads, hcount, hpadding⟩ := (ih hrest (by omega)).mp h
          obtain rfl := hbehind (Nat.succ_ne_zero j)
          refine ⟨[], pads + 1, ?_, by simp, fun _ => rfl, by omega, by rw [hcount, List.length_nil]; omega,
            by omega⟩
          rw [hrest', List.replicate_succ]
          rfl
        · exact absurd h.symm (Option.some_ne_none _)
      · rintro ⟨letters, pads, hsplit, hletters, -, hpads, hcount, hpadding⟩
        cases letters with
        | nil =>
          cases pads with
          | zero => exact absurd hsplit (List.cons_ne_nil _ _)
          | succ pads =>
            obtain ⟨-, hrest'⟩ := List.cons.inj hsplit
            rw [if_pos ⟨rfl, by omega⟩, ih hrest (by omega)]
            rw [List.length_nil] at hcount
            exact ⟨[], pads, hrest', by simp, fun _ => rfl, by omega, by rw [List.length_nil]; omega, by omega⟩
        | cons first letters =>
          obtain ⟨rfl, -⟩ := List.cons.inj hsplit
          exact absurd (hletters _ List.mem_cons_self) (by decide)
    · rw [base64Check_letter hletter]
      constructor
      · intro h
        split at h
        · next hfew =>
          obtain ⟨letters, pads, hrest', hletters, -, hpads, hcount, hpadding⟩ := (ih hrest (by omega)).mp h
          refine ⟨c :: letters, pads, by rw [hrest', List.cons_append],
            List.forall_mem_cons.mpr ⟨hletter, hletters⟩, fun hj => absurd hfew.2 hj, by omega,
            by rw [hcount, List.length_cons]; omega, by omega⟩
        · exact absurd h.symm (Option.some_ne_none _)
      · rintro ⟨letters, pads, hsplit, hletters, hbehind, hpads, hcount, hpadding⟩
        cases letters with
        | nil =>
          cases pads with
          | zero => exact absurd hsplit (List.cons_ne_nil _ _)
          | succ pads => exact absurd (List.cons.inj hsplit).1 hpad
        | cons first letters =>
          obtain ⟨rfl, hrest'⟩ := List.cons.inj hsplit
          have hzero : j = 0 := by_contra fun hj => List.cons_ne_nil _ _ (hbehind hj)
          rw [List.length_cons] at hcount
          rw [if_pos ⟨rfl, hzero⟩, ih hrest (by omega)]
          exact ⟨letters, pads, hrest', fun d hd => hletters d (List.mem_cons_of_mem _ hd), fun h => absurd rfl h,
            by omega, by omega, by omega⟩
    · rw [base64Check_other hnot hpad hbad]
      simp only [reduceCtorEq, false_iff]
      rintro ⟨letters, pads, hsplit, hletters, -⟩
      cases letters with
      | nil =>
        cases pads with
        | zero => exact List.cons_ne_nil _ _ hsplit
        | succ pads => exact hpad (List.cons.inj hsplit).1
      | cons first letters =>
        obtain ⟨rfl, -⟩ := List.cons.inj hsplit
        rw [hletters _ List.mem_cons_self] at hother
        exact Bool.noConfusion hother

/-- No blank is left in a text without its blanks. -/
theorem not_isBlank_of_mem_filter {src : List Byte} :
    ∀ c ∈ src.filter fun c => !isBlank c, isBlank c = false := by
  intro c hc
  simpa using (List.mem_filter.mp hc).2

/-- The first pass accepts every text of the grammar, and counts its characters and its padding. -/
theorem Base64Text.check {src letters : List Byte} {pads : ℕ} (h : Base64Text src letters pads) :
    base64Check 0 0 0 src = some (letters.length + pads, pads) := by
  refine base64Check_of_stripped h.blanks (fun hzero => absurd rfl hzero) ?_
  rw [base64Check_stripped_eq_some_iff not_isBlank_of_mem_filter (Nat.zero_le 2)]
  exact ⟨letters, pads, h.stripped, h.letters, fun hzero => absurd rfl hzero, by have := h.pads_le; omega,
    by omega, by omega⟩

/-- It accepts no others, unless the counter of spaces wraps. -/
theorem base64Check_eq_some_iff {src : List Byte} (hcounted : SpacesCounted src) {n j : ℕ} :
    base64Check 0 0 0 src = some (n, j) ↔ ∃ letters, Base64Text src letters j ∧ n = letters.length + j := by
  constructor
  · intro h
    obtain ⟨-, hblanks, hstripped⟩ := blanksInPlace_of_base64Check (x := 0) hcounted h
    obtain ⟨letters, pads, hsplit, hletters, -, hpads, hcount, hpadding⟩ :=
      (base64Check_stripped_eq_some_iff not_isBlank_of_mem_filter (Nat.zero_le 2)).mp hstripped
    obtain rfl : j = pads := by omega
    exact ⟨letters, ⟨hsplit, hletters, by omega, hblanks⟩, by omega⟩
  · rintro ⟨letters, htext, rfl⟩
    exact htext.check

/-! ## The second pass -/

/-- The bytes of four sextets. -/
def sextetBytes (a b c d : ℕ) : List Byte :=
  [UInt8.ofNat (a * 4 + b / 16), UInt8.ofNat (b % 16 * 16 + c / 4), UInt8.ofNat (c % 4 * 64 + d)]

/-- The bytes of letters and of the padding behind them: a group without its padding has none. -/
def base64Bytes (pads : ℕ) : List ℕ → List Byte
  | a :: b :: c :: d :: rest => sextetBytes a b c d ++ base64Bytes pads rest
  | [a, b, c] => if pads = 0 then [] else (sextetBytes a b c 0).take 2
  | [a, b] => if pads < 2 then [] else (sextetBytes a b 0 0).take 1
  | [_] => []
  | [] => []

/-- The second pass skips blanks. -/
theorem base64Collect_filter (j n x : ℕ) (src : List Byte) :
    base64Collect j n x (src.filter fun c => !isBlank c) = base64Collect j n x src := by
  induction src generalizing j n x with
  | nil => rfl
  | cons c rest ih =>
    by_cases hblank : isBlank c = true
    · rw [List.filter_cons_of_neg (by simp [hblank]), ih, base64Collect, if_pos (of_decide_eq_true hblank)]
    · rw [List.filter_cons_of_pos (by simpa using hblank), base64Collect, base64Collect,
        if_neg fun h => hblank (decide_eq_true h), if_neg fun h => hblank (decide_eq_true h)]
      simp only [ih]

/-- The bytes which are read off four collected sextets. -/
theorem sextetBytes_eq (x : ℕ) {a b c d : ℕ} (ha : a < 64) (hb : b < 64) (hc : c < 64) (hd : d < 64) :
    [UInt8.ofNat (collectSextet (collectSextet (collectSextet (collectSextet x a) b) c) d / 2 ^ 16),
      UInt8.ofNat (collectSextet (collectSextet (collectSextet (collectSextet x a) b) c) d / 2 ^ 8),
      UInt8.ofNat (collectSextet (collectSextet (collectSextet (collectSextet x a) b) c) d)] =
      sextetBytes a b c d := by
  have hcollected : collectSextet (collectSextet (collectSextet (collectSextet x a) b) c) d =
      x % 2 ^ 8 * 2 ^ 24 + a * 2 ^ 18 + b * 2 ^ 12 + c * 2 ^ 6 + d := by
    simp only [collectSextet]
    omega
  have hbyte : ∀ m k : ℕ, m % 256 = k % 256 → UInt8.ofNat m = UInt8.ofNat k := by
    intro m k h
    rw [← UInt8.toNat_inj, UInt8.toNat_ofNat', UInt8.toNat_ofNat', h]
  rw [hcollected, sextetBytes, List.cons.injEq, List.cons.injEq, List.cons.injEq]
  exact ⟨hbyte _ _ (by omega), hbyte _ _ (by omega), hbyte _ _ (by omega), rfl⟩

/-- A padding character completes a group or counts as a zero sextet, and drops one byte. -/
theorem base64Collect_padding (j n x : ℕ) (rest : List Byte) :
    base64Collect j n x (base64Pad :: rest) =
      if n + 1 = 4 then
        (if 0 < j - 1 then [UInt8.ofNat (collectSextet x 0 / 2 ^ 16)] else []) ++
          (if 1 < j - 1 then [UInt8.ofNat (collectSextet x 0 / 2 ^ 8)] else []) ++
          (if 2 < j - 1 then [UInt8.ofNat (collectSextet x 0)] else []) ++
            base64Collect (j - 1) 0 (collectSextet x 0) rest
      else base64Collect (j - 1) (n + 1) (collectSextet x 0) rest := by
  rw [base64Collect, if_neg (by decide)]
  simp only [shiftSextet, Nat.shiftRight_eq_div_pow]
  rfl

/-- Padding which does not complete a group makes no byte. -/
theorem base64Collect_unfinished (j n x : ℕ) {pads : ℕ} (h : n + pads < 4) :
    base64Collect j n x (List.replicate pads base64Pad) = [] := by
  induction pads generalizing j n x with
  | zero => rfl
  | succ pads ih => rw [List.replicate_succ, base64Collect_padding, if_neg (by omega), ih _ _ _ (by omega)]

/-- The second pass takes the bytes of the letters and their padding. -/
theorem base64Collect_letters {pads : ℕ} (hpads : pads ≤ 2) {sextets : List ℕ} (h : ∀ a ∈ sextets, a < 64)
    (x : ℕ) :
    base64Collect 3 0 x (sextets.map base64Char ++ List.replicate pads base64Pad) = base64Bytes pads sextets := by
  induction sextets using base64Bytes.induct pads generalizing x with
  | case1 a b c d rest ih =>
    simp only [List.forall_mem_cons] at h
    obtain ⟨ha, hb, hc, hd, hrest⟩ := h
    simp only [List.map_cons, List.cons_append]
    rw [base64Collect_char _ (by decide), base64Collect_char _ (by decide), base64Collect_char _ (by decide),
      base64Collect_last, ih hrest, base64Bytes, ← sextetBytes_eq x ha hb hc hd]
    rfl
  | case2 a b c hnone =>
    simp only [List.map_cons, List.map_nil, List.cons_append, List.nil_append]
    rw [base64Collect_char _ (by decide), base64Collect_char _ (by decide), base64Collect_char _ (by decide),
      base64Collect_unfinished _ _ _ (by omega), base64Bytes, if_pos hnone]
  | case3 a b c hsome =>
    simp only [List.forall_mem_cons] at h
    obtain ⟨ha, hb, hc, -⟩ := h
    obtain ⟨behind, rfl⟩ := Nat.exists_eq_succ_of_ne_zero hsome
    simp only [List.map_cons, List.map_nil, List.cons_append, List.nil_append]
    rw [base64Collect_char _ (by decide), base64Collect_char _ (by decide), base64Collect_char _ (by decide),
      List.replicate_succ, base64Collect_padding, if_pos rfl, base64Collect_unfinished _ _ _ (by omega),
      base64Bytes, if_neg hsome, ← sextetBytes_eq x ha hb hc (by decide)]
    rfl
  | case4 a b hfew =>
    simp only [List.map_cons, List.map_nil, List.cons_append, List.nil_append]
    rw [base64Collect_char _ (by decide), base64Collect_char _ (by decide),
      base64Collect_unfinished _ _ _ (by omega), base64Bytes, if_pos hfew]
  | case5 a b hboth =>
    simp only [List.forall_mem_cons] at h
    obtain ⟨ha, hb, -⟩ := h
    obtain rfl : pads = 2 := by omega
    simp only [List.map_cons, List.map_nil, List.cons_append, List.nil_append]
    rw [base64Collect_char _ (by decide), base64Collect_char _ (by decide), List.replicate_succ,
      base64Collect_padding, if_neg (by decide), List.replicate_succ, base64Collect_padding, if_pos rfl,
      base64Bytes, if_neg hboth, ← sextetBytes_eq x ha hb (by decide) (by decide)]
    rfl
  | case6 a =>
    simp only [List.map_cons, List.map_nil, List.cons_append, List.nil_append]
    rw [base64Collect_char _ (by decide), base64Collect_unfinished _ _ _ (by omega), base64Bytes]
  | case7 =>
    simp only [List.map_nil, List.nil_append]
    rw [base64Collect_unfinished _ _ _ (by omega), base64Bytes]

/-- The letters of a text are those of their sextets. -/
theorem Base64Text.map_base64Char {src letters : List Byte} {pads : ℕ} (h : Base64Text src letters pads) :
    (letters.map base64Value).map base64Char = letters := by
  rw [List.map_map]
  conv_rhs => rw [← List.map_id letters]
  refine List.map_congr_left fun c hc => ?_
  have hletter := h.letters c hc
  rcases base64Value_cases c with ⟨-, hother, -⟩ | ⟨rfl, -, -⟩ | ⟨-, -, -, -, hvalue⟩ | ⟨-, hother, -⟩
  · rw [hletter] at hother
    exact Bool.noConfusion hother
  · exact absurd hletter (by decide)
  · exact hvalue.symm
  · rw [hletter] at hother
    exact Bool.noConfusion hother

/-- These sextets are below 64. -/
theorem Base64Text.value_lt {src letters : List Byte} {pads : ℕ} (h : Base64Text src letters pads) :
    ∀ a ∈ letters.map base64Value, a < 64 := by
  intro a ha
  obtain ⟨c, hc, rfl⟩ := List.mem_map.mp ha
  exact of_decide_eq_true (h.letters c hc)

/-- The second pass takes the bytes of the letters of a text. -/
theorem Base64Text.collect {src letters : List Byte} {pads : ℕ} (h : Base64Text src letters pads) :
    base64Collect 3 0 0 src = base64Bytes pads (letters.map base64Value) := by
  rw [← base64Collect_filter, h.stripped, ← base64Collect_letters h.pads_le h.value_lt 0, h.map_base64Char]

/-- The size which the first pass counts: what the letters of an unfinished group stand for is counted,
though the second pass does not write it. -/
theorem base64Bytes_length {pads : ℕ} (hpads : pads ≤ 2) (sextets : List ℕ) :
    (base64Bytes pads sextets).length + ((sextets.length + pads) % 4 - pads) =
      (6 * (sextets.length + pads) + 7) / 8 - pads := by
  induction sextets using base64Bytes.induct pads with
  | case1 a b c d rest ih =>
    have hgroup : (a :: b :: c :: d :: rest).length + pads = rest.length + pads + 4 := by
      simp only [List.length_cons]
      omega
    have hsize : (6 * (rest.length + pads + 4) + 7) / 8 = (6 * (rest.length + pads) + 7) / 8 + 3 := by omega
    have hcounted : pads ≤ (6 * (rest.length + pads) + 7) / 8 := by omega
    have hbytes : (sextetBytes a b c d).length = 3 := rfl
    rw [base64Bytes, List.length_append, hgroup, hsize, Nat.add_mod_right, hbytes]
    omega
  | case2 a b c hnone =>
    rw [base64Bytes, if_pos hnone]
    simp only [List.length_cons, List.length_nil]
    omega
  | case3 a b c hsome =>
    rw [base64Bytes, if_neg hsome]
    simp only [List.length_cons, List.length_nil, sextetBytes, List.length_take]
    omega
  | case4 a b hfew =>
    rw [base64Bytes, if_pos hfew]
    simp only [List.length_cons, List.length_nil]
    omega
  | case5 a b hboth =>
    rw [base64Bytes, if_neg hboth]
    simp only [List.length_cons, List.length_nil, sextetBytes, List.length_take]
    omega
  | case6 a =>
    rw [base64Bytes]
    simp only [List.length_cons, List.length_nil]
    omega
  | case7 =>
    rw [base64Bytes]
    simp only [List.length_nil]
    omega

/-! ## What the decoder returns -/

/-- The size which `base64_decode` announces for numbers of characters and of padding. -/
def announcedSize (count pads : ℕ) : ℕ := (6 * count + 7) / 8 - pads

/-- The formula of the source computes it without overflow. -/
theorem base64_announcedSize {count pads : ℕ} (hcount : count < 2 ^ 64) (hpads : pads ≤ count) (hfew : pads ≤ 2) :
    (6 : UInt64) * (UInt64.ofNat count >>> 3) + (((6 : UInt64) * (UInt64.ofNat count &&& 7) + 7) >>> 3) -
      UInt64.ofNat pads = UInt64.ofNat (announcedSize count pads) := by
  have hchars : (UInt64.ofNat count).toNat = count := UInt64.toNat_ofNat_of_lt' hcount
  have hmask : count &&& 7 = count % 8 := Nat.and_two_pow_sub_one_eq_mod _ 3
  have hpad : (UInt64.ofNat pads).toNat = pads :=
    UInt64.toNat_ofNat_of_lt' (by simp only [UInt64.size]; omega)
  rw [← UInt64.toNat_inj, UInt64.toNat_sub, UInt64.toNat_add, UInt64.toNat_mul, UInt64.toNat_shiftRight,
    UInt64.toNat_shiftRight, UInt64.toNat_add, UInt64.toNat_mul, UInt64.toNat_and, hchars, hpad,
    UInt64.toNat_ofNat', announcedSize]
  simp only [UInt64.reduceToNat, hmask, Nat.shiftRight_eq_div_pow, Nat.reduceMod, Nat.reducePow]
  have hlow : 6 * (count / 8) % 18446744073709551616 = 6 * (count / 8) := Nat.mod_eq_of_lt (by omega)
  have hhigh : (6 * (count % 8) % 18446744073709551616 + 7) % 18446744073709551616 = 6 * (count % 8) + 7 := by
    omega
  have hbytes : 6 * (count / 8) + (6 * (count % 8) + 7) / 8 = (6 * count + 7) / 8 := by omega
  rw [hlow, hhigh, hbytes]
  omega

/-- The number of characters of a text which are no blanks. -/
theorem Base64Text.count_le {src letters : List Byte} {pads : ℕ} (h : Base64Text src letters pads) :
    letters.length + pads ≤ src.length := by
  have hlength := List.length_filter_le (fun c => !isBlank c) src
  rw [h.stripped, List.length_append, List.length_replicate] at hlength
  exact hlength

/-- What `base64_decode` does with the texts of the grammar, and with no others: nothing is written but
into a destination of the announced size, and no more than this. All of it is written exactly when the
padding completes the last group. -/
structure DecodesText (src letters : List Byte) (pads : ℕ) (olen : UInt64) : Prop where
  /-- Without a destination, or with one which is too small, the size is announced. -/
  announced : base64Decode none olen src =
    ⟨errBase64BufferTooSmall, UInt64.ofNat (announcedSize (letters.length + pads) pads), []⟩
  tooSmall : ∀ dlen : UInt64, dlen.toNat < announcedSize (letters.length + pads) pads →
    base64Decode (some dlen) olen src = base64Decode none olen src
  decoded : ∀ dlen : UInt64, announcedSize (letters.length + pads) pads ≤ dlen.toNat →
    base64Decode (some dlen) olen src = ⟨0, UInt64.ofNat (base64Bytes pads (letters.map base64Value)).length,
      base64Bytes pads (letters.map base64Value)⟩
  inside : (base64Bytes pads (letters.map base64Value)).length ≤ announcedSize (letters.length + pads) pads
  filled_iff : (base64Bytes pads (letters.map base64Value)).length = announcedSize (letters.length + pads) pads ↔
    (letters.length + pads) % 4 ≤ pads

/-- The decoder does this with every text which is not blank. -/
theorem Base64Text.decodes {src letters : List Byte} {pads : ℕ} (h : Base64Text src letters pads)
    (hsize : src.length < 2 ^ 64) (hnonempty : letters.length + pads ≠ 0) (olen : UInt64) :
    DecodesText src letters pads olen := by
  have hcount : letters.length + pads < 2 ^ 64 := h.count_le.trans_lt hsize
  have hcheck := h.check
  have hzero : UInt64.ofNat (letters.length + pads) ≠ 0 := by
    rw [ne_eq, ← UInt64.toNat_inj, UInt64.toNat_ofNat_of_lt' hcount, UInt64.toNat_zero]
    exact hnonempty
  have hneeded : (UInt64.ofNat (announcedSize (letters.length + pads) pads)).toNat =
      announcedSize (letters.length + pads) pads := by
    apply UInt64.toNat_ofNat_of_lt'
    simp only [UInt64.size, announcedSize]
    omega
  have hlength := base64Bytes_length h.pads_le (letters.map base64Value)
  rw [List.length_map] at hlength
  have hformula := base64_announcedSize hcount (Nat.le_add_left pads _) h.pads_le
  have hsome : ∀ dlen : UInt64, base64Decode (some dlen) olen src =
      if dlen.toNat < announcedSize (letters.length + pads) pads then
        ⟨errBase64BufferTooSmall, UInt64.ofNat (announcedSize (letters.length + pads) pads), []⟩
      else ⟨0, UInt64.ofNat (base64Bytes pads (letters.map base64Value)).length,
        base64Bytes pads (letters.map base64Value)⟩ := by
    intro dlen
    rw [base64Decode, hcheck]
    dsimp only
    rw [if_neg hzero, hformula, h.collect]
    simp only [UInt64.lt_iff_toNat_lt, hneeded]
  have hnone : base64Decode none olen src =
      ⟨errBase64BufferTooSmall, UInt64.ofNat (announcedSize (letters.length + pads) pads), []⟩ := by
    rw [base64Decode, hcheck]
    dsimp only
    rw [if_neg hzero, hformula]
  refine ⟨hnone, ?_, ?_, ?_, ?_⟩
  · intro dlen hsmall
    rw [hsome, if_pos hsmall, hnone]
  · intro dlen hroom
    rw [hsome, if_neg (Nat.not_lt.mpr hroom)]
  · unfold announcedSize
    omega
  · unfold announcedSize
    omega

/-- Whatever the text: it is refused with nothing written unless the grammar has it or a run of spaces wraps
the counter, a text of blanks decodes to nothing, and any other text of the grammar is decoded into a
destination which has the announced size. -/
theorem base64Decode_contract {src : List Byte} (hsize : src.length < 2 ^ 64) (olen : UInt64) :
    (SpacesCounted src → (¬ ∃ letters pads, Base64Text src letters pads) →
        ∀ dst, base64Decode dst olen src = ⟨errBase64InvalidCharacter, olen, []⟩) ∧
      (Base64Text src [] 0 → ∀ dst, base64Decode dst olen src = ⟨0, 0, []⟩) ∧
      ∀ letters pads, Base64Text src letters pads → letters.length + pads ≠ 0 →
        DecodesText src letters pads olen := by
  refine ⟨fun hcounted hnot dst => ?_, fun hblank dst => ?_, fun letters pads h hnonempty => h.decodes hsize hnonempty olen⟩
  · have hnone : base64Check 0 0 0 src = none := by
      rw [Option.eq_none_iff_forall_ne_some]
      rintro ⟨n, j⟩ hcheck
      obtain ⟨letters, h, -⟩ := (base64Check_eq_some_iff hcounted).mp hcheck
      exact hnot ⟨letters, j, h⟩
    rw [base64Decode, hnone]
  · rw [base64Decode, hblank.check]
    rfl

/-- A padded text with a line end, a space in front of it and too few letters. -/
def unfinishedText : List Byte := [81, 85, 74, 68, 32, 13, 10, 81, 61]

/-- Its letters and its padding. -/
theorem base64Text_unfinishedText : Base64Text unfinishedText [81, 85, 74, 68, 81] 1 where
  stripped := by decide
  letters := List.all_eq_true.mp (by decide)
  pads_le := by decide
  blanks := by simp [unfinishedText, BlanksInPlace, isBlank]

/-- A text with a space inside a line. -/
def spacedText : List Byte := [81, 32, 85]

/-- It is not in the grammar. -/
theorem not_base64Text_spacedText : ¬ ∃ letters pads, Base64Text spacedText letters pads := by
  rintro ⟨letters, pads, h⟩
  have hblanks := h.blanks
  simp [spacedText, BlanksInPlace, isBlank] at hblanks

/-- Four bytes are announced for the first text, and three are written. The second one is refused. -/
theorem base64Decode_contract_unfinished :
    (base64Decode none 0 unfinishedText = ⟨errBase64BufferTooSmall, 4, []⟩ ∧
        base64Decode (some 4) 0 unfinishedText = ⟨0, 3, [65, 66, 67]⟩) ∧
      base64Decode (some 9) 7 spacedText = ⟨errBase64InvalidCharacter, 7, []⟩ := by
  have h := (base64Decode_contract (by decide : unfinishedText.length < 2 ^ 64) 0).2.2 _ _
    base64Text_unfinishedText (by decide)
  have hrefused := (base64Decode_contract (by decide : spacedText.length < 2 ^ 64) 7).1
    (spacesCounted_of_length (by decide)) not_base64Text_spacedText
  exact ⟨⟨h.announced, h.decoded 4 (by decide)⟩, hrefused _⟩

/-! ## Encoding what was decoded -/

/-- Different sextets have different letters. -/
theorem base64Char_inj {a b : ℕ} (ha : a < 64) (hb : b < 64) : base64Char a = base64Char b ↔ a = b := by
  constructor
  · intro h
    have hvalue := congrArg base64Value h
    rw [(base64Char_spec a).1, (base64Char_spec b).1, Nat.mod_eq_of_lt ha, Nat.mod_eq_of_lt hb] at hvalue
    exact hvalue
  · rintro rfl
    rfl

/-- The letters of the bytes of four sextets. -/
theorem base64Groups_sextetBytes {a b c d : ℕ} (ha : a < 64) (hb : b < 64) (hc : c < 64) (hd : d < 64)
    (rest : List Byte) :
    base64Groups (sextetBytes a b c d ++ rest) =
      base64Char a :: base64Char b :: base64Char c :: base64Char d :: base64Groups rest := by
  have hfirst : (UInt8.ofNat (a * 4 + b / 16)).toNat = a * 4 + b / 16 :=
    UInt8.toNat_ofNat_of_lt' (by simp only [UInt8.size]; omega)
  have hsecond : (UInt8.ofNat (b % 16 * 16 + c / 4)).toNat = b % 16 * 16 + c / 4 :=
    UInt8.toNat_ofNat_of_lt' (by simp only [UInt8.size]; omega)
  have hthird : (UInt8.ofNat (c % 4 * 64 + d)).toNat = c % 4 * 64 + d :=
    UInt8.toNat_ofNat_of_lt' (by simp only [UInt8.size]; omega)
  have hlast : base64Char (c % 4 * 64 + d) = base64Char d := by
    have hmask : ∀ i, base64Char i = base64Char (i % 64) := by
      intro i
      have hand : ∀ m : ℕ, m &&& 0x3F = m % 64 := fun m => Nat.and_two_pow_sub_one_eq_mod m 6
      rw [base64Char, base64Char, hand, hand, Nat.mod_mod]
    rw [hmask, hmask d]
    congr 1
    omega
  have h1 : (a * 4 + b / 16) / 4 = a := by omega
  have h2 : (a * 4 + b / 16) % 4 * 16 + (b % 16 * 16 + c / 4) / 16 = b := by omega
  have h3 : (b % 16 * 16 + c / 4) % 16 * 4 + (c % 4 * 64 + d) / 64 = c := by omega
  simp only [sextetBytes, List.cons_append, List.nil_append]
  rw [base64Groups_cons, hfirst, hsecond, hthird, hlast, h1, h2, h3]

/-- The letters of the first two bytes: the third letter loses its low bits. -/
theorem base64Groups_take_two {a b c : ℕ} (ha : a < 64) (hb : b < 64) (hc : c < 64) :
    base64Groups ((sextetBytes a b c 0).take 2) =
      [base64Char a, base64Char b, base64Char (c / 4 * 4), base64Pad] := by
  have hfirst : (UInt8.ofNat (a * 4 + b / 16)).toNat = a * 4 + b / 16 :=
    UInt8.toNat_ofNat_of_lt' (by simp only [UInt8.size]; omega)
  have hsecond : (UInt8.ofNat (b % 16 * 16 + c / 4)).toNat = b % 16 * 16 + c / 4 :=
    UInt8.toNat_ofNat_of_lt' (by simp only [UInt8.size]; omega)
  have h1 : (a * 4 + b / 16) / 4 = a := by omega
  have h2 : (a * 4 + b / 16) % 4 * 16 + (b % 16 * 16 + c / 4) / 16 = b := by omega
  have h3 : (b % 16 * 16 + c / 4) % 16 * 4 = c / 4 * 4 := by omega
  simp only [sextetBytes, List.take_succ_cons, List.take_zero]
  rw [base64Groups_pair, hfirst, hsecond, h1, h2, h3]
  rfl

/-- The letters of the first byte: the second letter loses its low bits. -/
theorem base64Groups_take_one {a b : ℕ} (ha : a < 64) (hb : b < 64) :
    base64Groups ((sextetBytes a b 0 0).take 1) =
      [base64Char a, base64Char (b / 16 * 16), base64Pad, base64Pad] := by
  have hfirst : (UInt8.ofNat (a * 4 + b / 16)).toNat = a * 4 + b / 16 :=
    UInt8.toNat_ofNat_of_lt' (by simp only [UInt8.size]; omega)
  have h1 : (a * 4 + b / 16) / 4 = a := by omega
  have h2 : (a * 4 + b / 16) % 4 * 16 = b / 16 * 16 := by omega
  simp only [sextetBytes, List.take_succ_cons, List.take_zero]
  rw [base64Groups_singleton, hfirst, h1, h2]
  rfl

/-- Encoding the bytes gives letters and padding back when the last group is complete and its last letter
has no bits which stand for no byte. -/
theorem base64Groups_base64Bytes_iff {pads : ℕ} (hpads : pads ≤ 2) {sextets : List ℕ}
    (h : ∀ a ∈ sextets, a < 64) :
    base64Groups (base64Bytes pads sextets) = sextets.map base64Char ++ List.replicate pads base64Pad ↔
      (sextets.length + pads) % 4 = 0 ∧ ∀ last ∈ sextets.getLast?, last % 4 ^ pads = 0 := by
  induction sextets using base64Bytes.induct pads with
  | case1 a b c d rest ih =>
    simp only [List.forall_mem_cons] at h
    obtain ⟨ha, hb, hc, hd, hrest⟩ := h
    simp only [base64Bytes, base64Groups_sextetBytes ha hb hc hd, List.map_cons, List.cons_append,
      List.cons.injEq, true_and]
    rw [ih hrest]
    have hlength : ((a :: b :: c :: d :: rest).length + pads) % 4 = (rest.length + pads) % 4 := by
      simp only [List.length_cons]
      omega
    rw [hlength]
    refine and_congr_right fun hcomplete => ?_
    cases rest with
    | nil =>
      rw [List.length_nil] at hcomplete
      obtain rfl : pads = 0 := by omega
      simp [Nat.mod_one]
    | cons first rest => simp only [List.getLast?_cons_cons]
  | case2 a b c hnone =>
    rw [base64Bytes, if_pos hnone, hnone]
    simp [base64Groups]
  | case3 a b c hsome =>
    simp only [List.forall_mem_cons] at h
    obtain ⟨ha, hb, hc, -⟩ := h
    rw [base64Bytes, if_neg hsome, base64Groups_take_two ha hb hc]
    obtain rfl | rfl : pads = 1 ∨ pads = 2 := by omega
    · have hletter := base64Char_inj (show c / 4 * 4 < 64 by omega) hc
      simp only [List.map_cons, List.map_nil, List.cons_append, List.nil_append, List.replicate_one,
        List.cons.injEq, hletter, true_and, and_true, List.getLast?_cons_cons, List.getLast?_singleton,
        Option.mem_some_iff, forall_eq', pow_one, List.length_cons, List.length_nil]
      omega
    · simp [List.replicate_succ]
  | case4 a b hfew =>
    rw [base64Bytes, if_pos hfew, base64Groups]
    obtain rfl | rfl : pads = 0 ∨ pads = 1 := by omega
    · simp
    · simp
  | case5 a b hboth =>
    simp only [List.forall_mem_cons] at h
    obtain ⟨ha, hb, -⟩ := h
    obtain rfl : pads = 2 := by omega
    have hletter := base64Char_inj (show b / 16 * 16 < 64 by omega) hb
    rw [base64Bytes, if_neg hboth, base64Groups_take_one ha hb]
    simp only [List.map_cons, List.map_nil, List.cons_append, List.nil_append, List.replicate_succ,
      List.replicate_zero, List.cons.injEq, hletter, true_and, and_true, List.getLast?_cons_cons,
      List.getLast?_singleton, Option.mem_some_iff, forall_eq', List.length_cons, List.length_nil]
    omega
  | case6 a =>
    rw [base64Bytes, base64Groups]
    obtain rfl | rfl | rfl : pads = 0 ∨ pads = 1 ∨ pads = 2 := by omega
    · simp
    · simp
    · simp
  | case7 =>
    rw [base64Bytes, base64Groups]
    obtain rfl | rfl | rfl : pads = 0 ∨ pads = 1 ∨ pads = 2 := by omega
    · simp
    · simp
    · simp

/-- Encoding what was decoded from a text gives it back without its blanks exactly when the padding completes
the last group and the last letter has no bits which stand for no byte. -/
theorem base64_reencoded_iff {src letters : List Byte} {pads : ℕ} (h : Base64Text src letters pads)
    (hsize : src.length < 2 ^ 64) {dlen : UInt64}
    (hroom : announcedSize (letters.length + pads) pads ≤ dlen.toNat) (olen : UInt64) :
    base64Groups (base64Decode (some dlen) olen src).written = (src.filter fun c => !isBlank c) ↔
      (letters.length + pads) % 4 = 0 ∧ ∀ last ∈ letters.getLast?, base64Value last % 4 ^ pads = 0 := by
  have hwritten : (base64Decode (some dlen) olen src).written = base64Bytes pads (letters.map base64Value) := by
    by_cases hnonempty : letters.length + pads = 0
    · obtain ⟨hnone, hzero⟩ := Nat.add_eq_zero_iff.mp hnonempty
      rw [List.length_eq_zero_iff] at hnone
      subst hnone hzero
      rw [base64Decode, h.check]
      rfl
    · rw [(h.decodes hsize hnonempty olen).decoded dlen hroom]
  have hsplit := base64Groups_base64Bytes_iff h.pads_le h.value_lt
  rw [h.map_base64Char] at hsplit
  rw [hwritten, h.stripped, hsplit, List.length_map, List.getLast?_map]
  simp only [Option.mem_def, Option.map_eq_some_iff, forall_exists_index, and_imp, forall_apply_eq_imp_iff₂]

/-- A text of one byte whose second letter has bits which stand for no byte. -/
def looseText : List Byte := [81, 82, 61, 61]

/-- It is not what the encoder writes for its byte. -/
theorem base64_reencoded_iff_loose :
    ¬ base64Groups (base64Decode (some 1) 0 looseText).written = (looseText.filter fun c => !isBlank c) := by
  have htext : Base64Text looseText [81, 82] 2 :=
    ⟨by decide, List.all_eq_true.mp (by decide), by decide, by simp [looseText, BlanksInPlace]⟩
  rw [base64_reencoded_iff htext (by decide) (by decide) 0]
  rintro ⟨-, hbits⟩
  exact absurd (hbits 82 (by decide)) (by decide)

end Goshimmer
