import Goshimmer.Utils.ByteBuffer

/-!
# Base64 encoding and decoding

`utils/base64.c` and `byte_buf2base64`. The encoder is called twice: first without a
destination to learn the size it needs, then with a buffer of that size. Three source bytes
make four characters; a shorter rest is padded. The text ends with a NUL which its length
does not count.

The decoder makes two passes. The first one checks the characters and counts them together with
the padding, from which the size of the output follows; the second one collects four sextets at a
time. It skips line ends and trailing spaces, which the encoder never writes.
-/

namespace Goshimmer

/-- `base64_enc_map`. -/
def base64EncMap : List Byte :=
  [65, 66, 67, 68, 69, 70, 71, 72, 73, 74, 75, 76, 77, 78, 79, 80, 81, 82, 83, 84, 85, 86, 87, 88,
   89, 90, 97, 98, 99, 100, 101, 102, 103, 104, 105, 106, 107, 108, 109, 110, 111, 112, 113, 114,
   115, 116, 117, 118, 119, 120, 121, 122, 48, 49, 50, 51, 52, 53, 54, 55, 56, 57, 43, 47]

/-- The character of a sextet, the index masked as the source masks it. -/
def base64Char (index : ℕ) : Byte := base64EncMap.getD (index &&& 0x3F) 0

/-- The padding character `=`. -/
def base64Pad : Byte := 61

/-- `ERR_BASE64_BUFFER_TOO_SMALL`. -/
def errBase64BufferTooSmall : Int := -0x2A

/-- The loop over the groups of three bytes and the branch for a shorter rest. -/
def base64Groups : List Byte → List Byte
  | c1 :: c2 :: c3 :: rest =>
    base64Char (c1.toNat >>> 2) ::
    base64Char (((c1.toNat &&& 3) <<< 4) + (c2.toNat >>> 4)) ::
    base64Char (((c2.toNat &&& 15) <<< 2) + (c3.toNat >>> 6)) ::
    base64Char c3.toNat :: base64Groups rest
  | [c1, c2] =>
    [base64Char (c1.toNat >>> 2), base64Char (((c1.toNat &&& 3) <<< 4) + (c2.toNat >>> 4)),
      base64Char ((c2.toNat &&& 15) <<< 2), base64Pad]
  | [c1] => [base64Char (c1.toNat >>> 2), base64Char ((c1.toNat &&& 3) <<< 4), base64Pad, base64Pad]
  | [] => []

/-- What `base64_encode` reports and stores: the return code, `*olen` and the bytes written from
the start of the destination on. -/
structure Base64Result where
  ret : Int
  olen : UInt64
  written : List Byte
  deriving DecidableEq

/-- `base64_encode` with a destination of `dlen` bytes, or without one. -/
def base64Encode (dst : Option UInt64) (src : List Byte) : Base64Result :=
  let slen := UInt64.ofNat src.length
  if slen = 0 then ⟨0, 0, []⟩
  else
    let n := slen / 3 + if slen % 3 ≠ 0 then 1 else 0
    if (UInt64.ofNat (2 ^ 64 - 1) - 1) / 4 < n then
      ⟨errBase64BufferTooSmall, UInt64.ofNat (2 ^ 64 - 1), []⟩
    else
      match dst with
      | none => ⟨errBase64BufferTooSmall, n * 4 + 1, []⟩
      | some dlen =>
        if dlen < n * 4 + 1 then ⟨errBase64BufferTooSmall, n * 4 + 1, []⟩
        else
          let text := base64Groups src
          ⟨0, UInt64.ofNat text.length, text ++ [0]⟩

/-- `byte_buf2base64`, for allocations that are granted. -/
def byteBuf2Base64 (alloc : Allocation) (buf : ByteBuf) : Option ByteBuf :=
  if buf.len = 0 then none
  else
    let encodeLen := (base64Encode none buf.contents).olen
    let encode := (byteBufReserve alloc byteBufNew encodeLen).2
    let result := base64Encode (some encode.cap) buf.contents
    if result.ret = 0 then
      some { encode with data := overwrite encode.data 0 result.written, len := result.olen }
    else none

/-- `base64_dec_map`. -/
def base64DecMap : List ℕ :=
  [127, 127, 127, 127, 127, 127, 127, 127, 127, 127, 127, 127, 127, 127, 127, 127, 127, 127, 127, 127,
   127, 127, 127, 127, 127, 127, 127, 127, 127, 127, 127, 127, 127, 127, 127, 127, 127, 127, 127, 127,
   127, 127, 127, 62, 127, 127, 127, 63, 52, 53, 54, 55, 56, 57, 58, 59, 60, 61, 127, 127, 127, 64,
   127, 127, 127, 0, 1, 2, 3, 4, 5, 6, 7, 8, 9, 10, 11, 12, 13, 14, 15, 16, 17, 18, 19, 20, 21, 22,
   23, 24, 25, 127, 127, 127, 127, 127, 127, 26, 27, 28, 29, 30, 31, 32, 33, 34, 35, 36, 37, 38, 39,
   40, 41, 42, 43, 44, 45, 46, 47, 48, 49, 50, 51, 127, 127, 127, 127, 127]

/-- The entry of the table for a character below 128, the only ones it is asked for. -/
def base64Value (c : Byte) : ℕ := base64DecMap.getD c.toNat 127

/-- `ERR_BASE64_INVALID_CHARACTER`. -/
def errBase64InvalidCharacter : Int := -0x2C

/-- The first pass of `base64_decode`: the numbers of characters and of padding characters, with
the spaces met since the last other character, which are counted in 32 bits. -/
def base64Check : ℕ → ℕ → UInt32 → List Byte → Option (ℕ × ℕ)
  | n, j, _, [] => some (n, j)
  | n, j, x, c :: rest =>
    if c = 32 then base64Check n j (x + 1) rest
    else if c = 13 ∧ rest.head? = some 10 then base64Check n j 0 rest
    else if c = 10 then base64Check n j 0 rest
    else if x ≠ 0 then none
    else if c = base64Pad ∧ 2 < j + 1 then none
    else
      let j := if c = base64Pad then j + 1 else j
      if 127 < c ∨ base64Value c = 127 then none
      else if base64Value c < 64 ∧ j ≠ 0 then none
      else base64Check (n + 1) j 0 rest

/-- The second pass of `base64_decode`: the number of bytes to take from a group, the characters of
the group so far, the 32 bits collected and the characters to come. -/
def base64Collect : ℕ → ℕ → ℕ → List Byte → List Byte
  | _, _, _, [] => []
  | j, n, x, c :: rest =>
    if c = 13 ∨ c = 10 ∨ c = 32 then base64Collect j n x rest
    else
      let j := if base64Value c = 64 then j - 1 else j
      let x := ((x <<< 6) % 2 ^ 32) ||| (base64Value c &&& 0x3F)
      if n + 1 = 4 then
        (if 0 < j then [UInt8.ofNat (x >>> 16)] else []) ++ (if 1 < j then [UInt8.ofNat (x >>> 8)] else []) ++
          (if 2 < j then [UInt8.ofNat x] else []) ++ base64Collect j 0 x rest
      else base64Collect j (n + 1) x rest

/-- `base64_decode` with a destination of `dlen` bytes, or without one; an invalid character leaves
`*olen` as it was. -/
def base64Decode (dst : Option UInt64) (olen : UInt64) (src : List Byte) : Base64Result :=
  match base64Check 0 0 0 src with
  | none => ⟨errBase64InvalidCharacter, olen, []⟩
  | some (n, j) =>
    let n := UInt64.ofNat n
    if n = 0 then ⟨0, 0, []⟩
    else
      let n := (6 : UInt64) * (n >>> 3) + (((6 : UInt64) * (n &&& 7) + 7) >>> 3)
      let n := n - UInt64.ofNat j
      match dst with
      | none => ⟨errBase64BufferTooSmall, n, []⟩
      | some dlen =>
        if dlen < n then ⟨errBase64BufferTooSmall, n, []⟩
        else
          let bytes := base64Collect 3 0 0 src
          ⟨0, UInt64.ofNat bytes.length, bytes⟩

/-- Every group of three bytes, and a shorter rest, makes four characters. -/
theorem base64Groups_length (src : List Byte) :
    (base64Groups src).length = 4 * ((src.length + 2) / 3) := by
  induction src using base64Groups.induct with
  | case1 c1 c2 c3 rest ih =>
    simp only [base64Groups, List.length_cons, ih]
    omega
  | case2 c1 c2 => simp [base64Groups]
  | case3 c1 => simp [base64Groups]
  | case4 => simp [base64Groups]

/-! ## Decoding what was encoded -/

/-- What the decoder sees in a character of the alphabet: its sextet, and none of the characters
which it treats in a special way. -/
theorem base64Char_spec (index : ℕ) :
    base64Value (base64Char index) = index % 64 ∧ base64Char index ≤ 127 ∧ base64Char index ≠ 32 ∧
      base64Char index ≠ 13 ∧ base64Char index ≠ 10 ∧ base64Char index ≠ base64Pad := by
  have hmask : index &&& 0x3F = index % 64 := Nat.and_two_pow_sub_one_eq_mod index 6
  have hall : ∀ i : Fin 64, base64Value (base64EncMap.getD i 0) = i ∧ base64EncMap.getD i 0 ≤ 127 ∧
      base64EncMap.getD i 0 ≠ 32 ∧ base64EncMap.getD i 0 ≠ 13 ∧ base64EncMap.getD i 0 ≠ 10 ∧
        base64EncMap.getD i 0 ≠ base64Pad := by decide
  rw [base64Char, hmask]
  exact hall ⟨index % 64, Nat.mod_lt _ (by decide)⟩

/-- The first pass counts a character of the alphabet. -/
theorem base64Check_char (n index : ℕ) (rest : List Byte) :
    base64Check n 0 0 (base64Char index :: rest) = base64Check (n + 1) 0 0 rest := by
  obtain ⟨hvalue, hle, hspace, hreturn, hline, hpad⟩ := base64Char_spec index
  have hlt : index % 64 < 64 := Nat.mod_lt _ (by decide)
  have hbound : ¬ (127 < base64Char index ∨ index % 64 = 127) := by
    rintro (h | h)
    · exact absurd hle (UInt8.not_le.mpr h)
    · omega
  rw [base64Check, if_neg hspace, if_neg (fun h => hreturn h.1), if_neg hline, if_neg (by simp),
    if_neg (fun h => hpad h.1)]
  simp only [hvalue, if_neg hpad, if_neg hbound]
  simp

/-- The first pass counts up to two padding characters. -/
theorem base64Check_pad (n : ℕ) {j : ℕ} (hj : j < 2) (rest : List Byte) :
    base64Check n j 0 (base64Pad :: rest) = base64Check (n + 1) (j + 1) 0 rest := by
  rw [base64Check, if_neg (by decide), if_neg (by simp [base64Pad]), if_neg (by decide), if_neg (by simp),
    if_neg (by omega)]
  simp [base64Pad, base64Value, base64DecMap]

/-- The first pass accepts an encoded text and counts its characters and its padding. -/
theorem base64Check_base64Groups (n : ℕ) (src : List Byte) :
    base64Check n 0 0 (base64Groups src) =
      some (n + 4 * ((src.length + 2) / 3), 3 * ((src.length + 2) / 3) - src.length) := by
  induction src using base64Groups.induct generalizing n with
  | case1 c1 c2 c3 rest ih =>
    rw [base64Groups, base64Check_char, base64Check_char, base64Check_char, base64Check_char, ih]
    simp only [List.length_cons, Option.some.injEq, Prod.mk.injEq]
    omega
  | case2 c1 c2 =>
    rw [base64Groups, base64Check_char, base64Check_char, base64Check_char,
      base64Check_pad _ (by decide), base64Check]
    simp
  | case3 c1 =>
    rw [base64Groups, base64Check_char, base64Check_char, base64Check_pad _ (by decide),
      base64Check_pad _ (by decide), base64Check]
    simp
  | case4 => simp [base64Groups, base64Check]

/-- The collected bits after the next sextet. -/
def collectSextet (x sextet : ℕ) : ℕ := x % 2 ^ 26 * 64 + sextet % 64

/-- Shifting a sextet into the collected bits. -/
theorem shiftSextet (x value : ℕ) :
    ((x <<< 6) % 2 ^ 32) ||| (value &&& 0x3F) = collectSextet x value := by
  have hmask : value &&& 0x3F = value % 64 := Nat.and_two_pow_sub_one_eq_mod value 6
  have hshift : (x <<< 6) % 2 ^ 32 = (x % 2 ^ 26) <<< 6 := by
    rw [Nat.shiftLeft_eq, Nat.shiftLeft_eq]
    omega
  rw [hmask, hshift, ← Nat.shiftLeft_add_eq_or_of_lt (Nat.mod_lt _ (by decide)), Nat.shiftLeft_eq,
    collectSextet]

/-- A byte which is read off collected bits. -/
theorem ofNat_eq_byte {collected : ℕ} {c : Byte} (h : collected % 256 = c.toNat) :
    UInt8.ofNat collected = c := by
  rw [← UInt8.toNat_inj, UInt8.toNat_ofNat', h]

/-- The sextets of three bytes, collected one after the other, hold these bytes in their low 24
bits. -/
theorem collectSextet_bytes (x : ℕ) (c1 c2 c3 : Byte) :
    ∃ collected, collectSextet (collectSextet (collectSextet (collectSextet x (c1.toNat / 4))
        (c1.toNat % 4 * 16 + c2.toNat / 16)) (c2.toNat % 16 * 4 + c3.toNat / 64)) c3.toNat = collected ∧
      UInt8.ofNat (collected / 2 ^ 16) = c1 ∧ UInt8.ofNat (collected / 2 ^ 8) = c2 ∧
        UInt8.ofNat collected = c3 := by
  have h1 := c1.toNat_lt
  have h2 := c2.toNat_lt
  have h3 := c3.toNat_lt
  refine ⟨x % 2 ^ 8 * 2 ^ 24 + c1.toNat * 2 ^ 16 + c2.toNat * 2 ^ 8 + c3.toNat, ?_, ?_, ?_, ?_⟩
  · simp only [collectSextet]
    omega
  · exact ofNat_eq_byte (by omega)
  · exact ofNat_eq_byte (by omega)
  · exact ofNat_eq_byte (by omega)

/-- The second pass collects a character of the alphabet inside a group. -/
theorem base64Collect_char (j : ℕ) {n : ℕ} (hn : n + 1 < 4) (x index : ℕ) (rest : List Byte) :
    base64Collect j n x (base64Char index :: rest) = base64Collect j (n + 1) (collectSextet x index) rest := by
  obtain ⟨hvalue, -, hspace, hreturn, hline, -⟩ := base64Char_spec index
  have hlt : index % 64 < 64 := Nat.mod_lt _ (by decide)
  rw [base64Collect, if_neg (by simp [hspace, hreturn, hline])]
  simp only [hvalue, shiftSextet, if_neg (by omega : ¬ index % 64 = 64), if_neg (by omega : ¬ n + 1 = 4),
    collectSextet, Nat.mod_mod]

/-- The second pass completes a group which ends with a character of the alphabet. -/
theorem base64Collect_last (x index : ℕ) (rest : List Byte) :
    base64Collect 3 3 x (base64Char index :: rest) =
      UInt8.ofNat (collectSextet x index / 2 ^ 16) :: UInt8.ofNat (collectSextet x index / 2 ^ 8) ::
        UInt8.ofNat (collectSextet x index) :: base64Collect 3 0 (collectSextet x index) rest := by
  obtain ⟨hvalue, -, hspace, hreturn, hline, -⟩ := base64Char_spec index
  have hlt : index % 64 < 64 := Nat.mod_lt _ (by decide)
  rw [base64Collect, if_neg (by simp [hspace, hreturn, hline])]
  simp only [hvalue, shiftSextet, if_neg (by omega : ¬ index % 64 = 64), collectSextet, Nat.mod_mod,
    Nat.shiftRight_eq_div_pow]
  rfl

/-- A padding character inside a group counts as a zero sextet and drops one byte. -/
theorem base64Collect_pad (j x : ℕ) (rest : List Byte) :
    base64Collect j 2 x (base64Pad :: rest) = base64Collect (j - 1) 3 (collectSextet x 0) rest := by
  rw [base64Collect, if_neg (by decide)]
  simp only [shiftSextet]
  rfl

/-- A padding character at the end of a group counts as a zero sextet and drops one byte. -/
theorem base64Collect_lastPad (j x : ℕ) :
    base64Collect (j + 1) 3 x [base64Pad] =
      (if 0 < j then [UInt8.ofNat (collectSextet x 0 / 2 ^ 16)] else []) ++
        (if 1 < j then [UInt8.ofNat (collectSextet x 0 / 2 ^ 8)] else []) ++
          (if 2 < j then [UInt8.ofNat (collectSextet x 0)] else []) := by
  rw [base64Collect, if_neg (by decide)]
  simp only [shiftSextet, Nat.shiftRight_eq_div_pow]
  simp [base64Value, base64DecMap, base64Pad, base64Collect, collectSextet]

/-- The characters of a group, by division. -/
theorem base64Groups_cons (c1 c2 c3 : Byte) (rest : List Byte) :
    base64Groups (c1 :: c2 :: c3 :: rest) =
      base64Char (c1.toNat / 4) :: base64Char (c1.toNat % 4 * 16 + c2.toNat / 16) ::
        base64Char (c2.toNat % 16 * 4 + c3.toNat / 64) :: base64Char c3.toNat :: base64Groups rest := by
  have hfour : ∀ n : ℕ, n &&& 3 = n % 4 := fun n => Nat.and_two_pow_sub_one_eq_mod n 2
  have hsixteen : ∀ n : ℕ, n &&& 15 = n % 16 := fun n => Nat.and_two_pow_sub_one_eq_mod n 4
  simp only [base64Groups, hfour, hsixteen, Nat.shiftRight_eq_div_pow, Nat.shiftLeft_eq]

/-- The characters of a rest of two bytes are those of a group with a zero byte. -/
theorem base64Groups_pair (c1 c2 : Byte) :
    base64Groups [c1, c2] =
      [base64Char (c1.toNat / 4), base64Char (c1.toNat % 4 * 16 + c2.toNat / 16),
        base64Char (c2.toNat % 16 * 4 + (0 : Byte).toNat / 64), base64Pad] := by
  have hfour : c1.toNat &&& 3 = c1.toNat % 4 := Nat.and_two_pow_sub_one_eq_mod _ 2
  have hsixteen : c2.toNat &&& 15 = c2.toNat % 16 := Nat.and_two_pow_sub_one_eq_mod _ 4
  simp only [base64Groups, hfour, hsixteen, Nat.shiftRight_eq_div_pow, Nat.shiftLeft_eq]
  rfl

/-- The characters of a rest of one byte are those of a group with two zero bytes. -/
theorem base64Groups_singleton (c1 : Byte) :
    base64Groups [c1] =
      [base64Char (c1.toNat / 4), base64Char (c1.toNat % 4 * 16 + (0 : Byte).toNat / 16), base64Pad,
        base64Pad] := by
  have hfour : c1.toNat &&& 3 = c1.toNat % 4 := Nat.and_two_pow_sub_one_eq_mod _ 2
  simp only [base64Groups, hfour, Nat.shiftRight_eq_div_pow, Nat.shiftLeft_eq]
  rfl

/-- The second pass gives the encoded bytes back, whatever was collected before. -/
theorem base64Collect_base64Groups (x : ℕ) (src : List Byte) :
    base64Collect 3 0 x (base64Groups src) = src := by
  induction src using base64Groups.induct generalizing x with
  | case1 c1 c2 c3 rest ih =>
    obtain ⟨collected, hcollected, h1, h2, h3⟩ := collectSextet_bytes x c1 c2 c3
    rw [base64Groups_cons, base64Collect_char _ (by decide), base64Collect_char _ (by decide),
      base64Collect_char _ (by decide), base64Collect_last, hcollected, h1, h2, h3, ih]
  | case2 c1 c2 =>
    obtain ⟨collected, hcollected, h1, h2, -⟩ := collectSextet_bytes x c1 c2 0
    have hpadded : collectSextet (collectSextet (collectSextet (collectSextet x (c1.toNat / 4))
        (c1.toNat % 4 * 16 + c2.toNat / 16)) (c2.toNat % 16 * 4 + (0 : Byte).toNat / 64)) 0 = collected :=
      hcollected
    rw [base64Groups_pair, base64Collect_char _ (by decide), base64Collect_char _ (by decide),
      base64Collect_char _ (by decide), base64Collect_lastPad, hpadded, h1, h2]
    rfl
  | case3 c1 =>
    obtain ⟨collected, hcollected, h1, -, -⟩ := collectSextet_bytes x c1 0 0
    have hpadded : collectSextet (collectSextet (collectSextet (collectSextet x (c1.toNat / 4))
        (c1.toNat % 4 * 16 + (0 : Byte).toNat / 16)) 0) 0 = collected := hcollected
    rw [base64Groups_singleton, base64Collect_char _ (by decide), base64Collect_char _ (by decide),
      base64Collect_pad, base64Collect_lastPad, hpadded, h1]
    rfl
  | case4 => rfl

/-- The size which `base64_decode` computes from the numbers of characters and padding. -/
theorem base64_decodedSize {n pads : ℕ} (hn : 4 * n < 2 ^ 64) (hpads : pads ≤ 3 * n) :
    (6 : UInt64) * (UInt64.ofNat (4 * n) >>> 3) + (((6 : UInt64) * (UInt64.ofNat (4 * n) &&& 7) + 7) >>> 3) -
      UInt64.ofNat pads = UInt64.ofNat (3 * n - pads) := by
  have hchars : (UInt64.ofNat (4 * n)).toNat = 4 * n := UInt64.toNat_ofNat_of_lt' hn
  have hmask : (4 * n) &&& 7 = 4 * n % 8 := Nat.and_two_pow_sub_one_eq_mod _ 3
  have hpad : (UInt64.ofNat pads).toNat = pads :=
    UInt64.toNat_ofNat_of_lt' (by simp only [UInt64.size]; omega)
  rw [← UInt64.toNat_inj, UInt64.toNat_sub, UInt64.toNat_add, UInt64.toNat_mul, UInt64.toNat_shiftRight,
    UInt64.toNat_shiftRight, UInt64.toNat_add, UInt64.toNat_mul, UInt64.toNat_and, hchars, hpad,
    UInt64.toNat_ofNat']
  simp only [UInt64.reduceToNat, hmask, Nat.shiftRight_eq_div_pow, Nat.reduceMod, Nat.reducePow]
  -- nothing wraps but the subtraction, and six eighths of the characters are the bytes
  have hlow : 6 * (4 * n / 8) % 18446744073709551616 = 6 * (4 * n / 8) := Nat.mod_eq_of_lt (by omega)
  have hhigh : (6 * (4 * n % 8) % 18446744073709551616 + 7) % 18446744073709551616 =
      6 * (4 * n % 8) + 7 := by
    omega
  have hbytes : 6 * (4 * n / 8) + (6 * (4 * n % 8) + 7) / 8 = 3 * n := by omega
  rw [hlow, hhigh, hbytes]
  omega

/-- Decoding an encoded text gives the bytes back, when the destination has room for them. -/
theorem base64Decode_base64Groups (src : List Byte) (hsize : 4 * ((src.length + 2) / 3) < 2 ^ 64)
    {dlen : UInt64} (hroom : src.length ≤ dlen.toNat) (olen : UInt64) :
    base64Decode (some dlen) olen (base64Groups src) = ⟨0, UInt64.ofNat src.length, src⟩ := by
  have hpads : 3 * ((src.length + 2) / 3) - (3 * ((src.length + 2) / 3) - src.length) = src.length := by
    omega
  have hlength : (UInt64.ofNat src.length).toNat = src.length :=
    UInt64.toNat_ofNat_of_lt' (by simp only [UInt64.size]; omega)
  unfold base64Decode
  rw [base64Check_base64Groups, Nat.zero_add]
  dsimp only
  rw [base64_decodedSize hsize (by omega), base64Collect_base64Groups, hpads]
  split
  · next hzero =>
    have hnone : src.length = 0 := by
      have hchars := congrArg UInt64.toNat hzero
      rw [UInt64.toNat_ofNat_of_lt' hsize, UInt64.toNat_zero] at hchars
      omega
    rw [List.length_eq_zero_iff.mp hnone]
    rfl
  · rw [if_neg (by rw [UInt64.lt_iff_toNat_lt, hlength]; omega)]

/-! ## Encoding a buffer -/

/-- The number of groups which `base64_encode` computes. -/
theorem base64_groupCount {slen : ℕ} (hslen : slen < 2 ^ 64) :
    UInt64.ofNat slen / 3 + (if UInt64.ofNat slen % 3 ≠ 0 then 1 else 0) = UInt64.ofNat ((slen + 2) / 3) := by
  have hlength : (UInt64.ofNat slen).toNat = slen := UInt64.toNat_ofNat_of_lt' hslen
  have hrest : UInt64.ofNat slen % 3 ≠ 0 ↔ slen % 3 ≠ 0 := by
    rw [ne_eq, ← UInt64.toNat_inj, UInt64.toNat_mod, hlength]
    rfl
  have hthird : (UInt64.ofNat slen / 3).toNat = slen / 3 := by
    rw [UInt64.toNat_div, hlength]
    rfl
  rw [← UInt64.toNat_inj, UInt64.toNat_add, hthird, UInt64.toNat_ofNat']
  by_cases h : slen % 3 ≠ 0
  · rw [if_pos (hrest.mpr h), UInt64.toNat_one]
    omega
  · rw [if_neg (hrest.not.mpr h), UInt64.toNat_zero]
    omega

/-- What the two calls of `base64_encode` do for bytes whose text fits a `size_t` with its NUL: the
first reports the room they need, and the second writes the text and the NUL. -/
theorem base64Encode_of_fits {src : List Byte} (hsrc : src ≠ [])
    (hsize : 4 * ((src.length + 2) / 3) + 1 < 2 ^ 64) :
    base64Encode none src =
        ⟨errBase64BufferTooSmall, UInt64.ofNat (4 * ((src.length + 2) / 3) + 1), []⟩ ∧
      ∀ dlen : UInt64, 4 * ((src.length + 2) / 3) + 1 ≤ dlen.toNat →
        base64Encode (some dlen) src =
          ⟨0, UInt64.ofNat (4 * ((src.length + 2) / 3)), base64Groups src ++ [0]⟩ := by
  have hpositive := List.length_pos_iff.mpr hsrc
  have hslen : src.length < 2 ^ 64 := by omega
  have hzero : UInt64.ofNat src.length ≠ 0 := by
    rw [ne_eq, ← UInt64.toNat_inj, UInt64.toNat_ofNat_of_lt' hslen, UInt64.toNat_zero]
    omega
  have hcount : (UInt64.ofNat ((src.length + 2) / 3)).toNat = (src.length + 2) / 3 :=
    UInt64.toNat_ofNat_of_lt' (by simp only [UInt64.size]; omega)
  have hmany : ¬ (UInt64.ofNat (2 ^ 64 - 1) - 1) / 4 < UInt64.ofNat ((src.length + 2) / 3) := by
    have hlimit : ((UInt64.ofNat (2 ^ 64 - 1) - 1) / 4).toNat = 4611686018427387903 := by decide
    rw [UInt64.lt_iff_toNat_lt, hcount, hlimit]
    omega
  have hneeded : UInt64.ofNat ((src.length + 2) / 3) * 4 + 1 =
      UInt64.ofNat (4 * ((src.length + 2) / 3) + 1) := by
    rw [UInt64.ofNat_add, Nat.mul_comm 4, UInt64.ofNat_mul]
    rfl
  constructor
  · unfold base64Encode
    dsimp only
    rw [if_neg hzero, base64_groupCount hslen, if_neg hmany, hneeded]
  · intro dlen hroom
    unfold base64Encode
    dsimp only
    rw [if_neg hzero, base64_groupCount hslen, if_neg hmany, hneeded, if_neg, base64Groups_length]
    rw [UInt64.lt_iff_toNat_lt, UInt64.toNat_ofNat_of_lt' hsize]
    omega

/-- `byte_buf2base64` makes a block which holds exactly the text and its NUL. -/
theorem byteBuf2Base64_of_granted {alloc : Allocation} (hgranted : alloc.granted = true) {buf : ByteBuf}
    (h : buf.Sized) (hlen : buf.contents ≠ [])
    (hsize : 4 * ((buf.contents.length + 2) / 3) + 1 < 2 ^ 64) :
    byteBuf2Base64 alloc buf =
      some ⟨base64Groups buf.contents ++ [0], UInt64.ofNat (4 * ((buf.contents.length + 2) / 3)),
        UInt64.ofNat (4 * ((buf.contents.length + 2) / 3) + 1)⟩ := by
  obtain ⟨hfirst, hsecond⟩ := base64Encode_of_fits hlen hsize
  have hzero : buf.len ≠ 0 := by
    intro hzero
    have hlength := h.contents_length
    rw [hzero, UInt64.toNat_zero] at hlength
    exact hlen (List.length_eq_zero_iff.mp hlength)
  have hneeded : (UInt64.ofNat (4 * ((buf.contents.length + 2) / 3) + 1)).toNat =
      4 * ((buf.contents.length + 2) / 3) + 1 := UInt64.toNat_ofNat_of_lt' hsize
  obtain ⟨encode, hreserve, hsized, hencode, -, hcap⟩ := byteBufReserve_of_granted hgranted
    sized_byteBufNew (UInt64.ofNat (4 * ((buf.contents.length + 2) / 3) + 1))
  have hexact : encode.cap = UInt64.ofNat (4 * ((buf.contents.length + 2) / 3) + 1) := by
    rw [← UInt64.toNat_inj, hcap]
    exact Nat.max_eq_right (Nat.zero_le _)
  have htext := hsecond (UInt64.ofNat (4 * ((buf.contents.length + 2) / 3) + 1)) hneeded.ge
  have hwritten : overwrite encode.data 0 (base64Groups buf.contents ++ [0]) =
      base64Groups buf.contents ++ [0] := by
    have hblock : encode.data.length = (base64Groups buf.contents ++ [0]).length := by
      rw [hsized.block_length, hexact, hneeded, List.length_append, base64Groups_length,
        List.length_singleton]
    rw [overwrite, List.take_zero, List.nil_append, Nat.zero_add, hblock,
      List.take_append_of_le_length (Nat.le_refl _), List.take_length]
  unfold byteBuf2Base64
  rw [if_neg hzero]
  simp only [hfirst, hreserve, hexact, htext, hwritten, if_true]

end Goshimmer
