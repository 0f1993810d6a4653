import Goshimmer.Client.Service
import Goshimmer.Core.TransparentSodium
import Goshimmer.Library.PositionalNumber

/-!
# A concrete instance of the libraries

Base58 through the number which the bytes spell, the printing of the two requests of the client,
and a parser which knows the documents of a given list. Together with the transparent
cryptography they make the client run on concrete replies.
-/

namespace Goshimmer

/-- `b58enc`: a one for each leading zero byte, then the digits without leading zeros. Two digits
for each byte are more than enough. -/
def base58Encode (bytes : List Byte) : List Byte :=
  let number := numberOfDigits 256 (bytes.map UInt8.toNat)
  let digits := (littleEndian 58 (2 * bytes.length) number).reverse.dropWhile (· = 0)
  List.replicate (bytes.takeWhile (· = 0)).length 49 ++ digits.map fun d => base58Alphabet.getD d 0

/-- `b58tobin`: the bytes of the number which the text spells, when all characters belong to the
alphabet and the number fits the destination. -/
def base58Decode (size : ℕ) (text : List Byte) (old : Bytes size) : Bool × Bytes size :=
  let number := numberOfDigits 58 (text.map fun c => base58Alphabet.idxOf c)
  if text.all (· ∈ base58Alphabet) ∧ number < 256 ^ size then
    (true, ⟨(memoryImage size number).reverse, by rw [List.length_reverse, memoryImage_length]⟩)
  else (false, old)

/-- The alphabet has 58 distinct letters, and the first one stands for zero. -/
theorem idxOf_base58Alphabet {d : ℕ} (hd : d < 58) :
    base58Alphabet.getD d 0 ∈ base58Alphabet ∧ base58Alphabet.idxOf (base58Alphabet.getD d 0) = d := by
  have h : ∀ d : Fin 58, base58Alphabet.getD d 0 ∈ base58Alphabet ∧
      base58Alphabet.idxOf (base58Alphabet.getD d 0) = d := by
    decide
  exact h ⟨d, hd⟩

/-- The digits which `b58enc` writes behind the ones. -/
def base58Digits (bytes : List Byte) : List ℕ :=
  (littleEndian 58 (2 * bytes.length) (numberOfDigits 256 (bytes.map UInt8.toNat))).reverse.dropWhile
    (· = 0)

/-- The text is the ones and the letters of the digits. -/
theorem base58Encode_eq (bytes : List Byte) :
    base58Encode bytes = List.replicate (bytes.takeWhile (· = 0)).length 49 ++
      (base58Digits bytes).map fun d => base58Alphabet.getD d 0 := rfl

/-- The digits are below 58. -/
theorem lt_of_mem_base58Digits {bytes : List Byte} {d : ℕ} (h : d ∈ base58Digits bytes) : d < 58 := by
  have hmem := (List.dropWhile_sublist _).subset h
  exact lt_of_mem_littleEndian (by decide) (List.mem_reverse.mp hmem)

/-- The number of bytes is below the power of 256 to their number. -/
theorem numberOfDigits_toNat_lt (bytes : List Byte) :
    numberOfDigits 256 (bytes.map UInt8.toNat) < 256 ^ bytes.length := by
  have h := numberOfDigits_lt 256 (bytes.map UInt8.toNat) fun d hd => by
    obtain ⟨byte, _, rfl⟩ := List.mem_map.mp hd
    exact byte.toNat_lt
  rwa [List.length_map] at h

/-- The digits spell the number of the bytes. -/
theorem numberOfDigits_base58Digits (bytes : List Byte) :
    numberOfDigits 58 (base58Digits bytes) = numberOfDigits 256 (bytes.map UInt8.toNat) := by
  rw [base58Digits, numberOfDigits_dropWhile]
  apply numberOfDigits_reverse_littleEndian
  calc numberOfDigits 256 (bytes.map UInt8.toNat) < 256 ^ bytes.length := numberOfDigits_toNat_lt bytes
    _ ≤ (58 ^ 2) ^ bytes.length := Nat.pow_le_pow_left (by decide) _
    _ = 58 ^ (2 * bytes.length) := (Nat.pow_mul 58 2 bytes.length).symm

/-- Decoding the text of bytes gives the bytes back. -/
theorem base58Decode_base58Encode {size : ℕ} (bytes old : Bytes size) :
    base58Decode size (base58Encode bytes.val) old = (true, bytes) := by
  have hletters : ∀ c ∈ base58Encode bytes.val, c ∈ base58Alphabet := by
    intro c hc
    rw [base58Encode_eq, List.mem_append] at hc
    rcases hc with hone | hdigit
    · rw [(List.mem_replicate.mp hone).2]
      decide
    · obtain ⟨d, hd, rfl⟩ := List.mem_map.mp hdigit
      exact (idxOf_base58Alphabet (lt_of_mem_base58Digits hd)).1
  have hdigits : (base58Encode bytes.val).map (fun c => base58Alphabet.idxOf c) =
      List.replicate (bytes.val.takeWhile (· = 0)).length 0 ++ base58Digits bytes.val := by
    rw [base58Encode_eq, List.map_append, List.map_replicate, List.map_map]
    congr 1
    conv_rhs => rw [← List.map_id (base58Digits bytes.val)]
    exact List.map_congr_left fun d hd => (idxOf_base58Alphabet (lt_of_mem_base58Digits hd)).2
  have hnumber : numberOfDigits 58 ((base58Encode bytes.val).map fun c => base58Alphabet.idxOf c) =
      numberOfDigits 256 (bytes.val.map UInt8.toNat) := by
    rw [hdigits, numberOfDigits_replicate_append, numberOfDigits_base58Digits]
  have hsize : numberOfDigits 256 (bytes.val.map UInt8.toNat) < 256 ^ size := by
    have h := numberOfDigits_toNat_lt bytes.val
    rwa [bytes.property] at h
  have himage : (memoryImage size (numberOfDigits 256 (bytes.val.map UInt8.toNat))).reverse =
      bytes.val := by
    have h := littleEndian_numberOfDigits 256 (bytes.val.map UInt8.toNat) fun d hd => by
      obtain ⟨byte, _, rfl⟩ := List.mem_map.mp hd
      exact byte.toNat_lt
    rw [List.length_map, bytes.property] at h
    rw [memoryImage, h, List.map_reverse, List.reverse_reverse, List.map_map]
    conv_rhs => rw [← List.map_id bytes.val]
    exact List.map_congr_left fun byte _ => UInt8.ofNat_toNat
  unfold base58Decode
  simp only [hnumber]
  rw [if_pos ⟨by simpa using hletters, hsize⟩]
  exact congrArg (Prod.mk true) (Subtype.ext himage)

/-- A number with a first digit above zero which is below a power of 256 has at most 138 digits to the
base 58 for every hundred bytes, and one more. -/
theorem length_le_of_pow_le {digits size : ℕ} (h : 58 ^ digits < 256 ^ size) :
    digits * 100 < size * 138 := by
  have hpower : 58 ^ (digits * 100) < 58 ^ (138 * size) := by
    calc 58 ^ (digits * 100) = (58 ^ digits) ^ 100 := Nat.pow_mul 58 digits 100
      _ < (256 ^ size) ^ 100 := Nat.pow_lt_pow_left h (by decide)
      _ = (256 ^ 100) ^ size := by rw [← Nat.pow_mul, ← Nat.pow_mul, Nat.mul_comm]
      _ ≤ (58 ^ 138) ^ size := Nat.pow_le_pow_left (by decide) size
      _ = 58 ^ (138 * size) := (Nat.pow_mul 58 138 size).symm
  have hlt := (Nat.pow_lt_pow_iff_right (by decide)).mp hpower
  omega

/-- The text of bytes has at most 138 characters for every hundred bytes, and one more. -/
theorem base58Encode_length_le (bytes : List Byte) :
    (base58Encode bytes).length ≤ bytes.length * 138 / 100 + 1 := by
  have hparts := congrArg List.length (List.takeWhile_append_dropWhile (p := fun b : Byte => b = 0) (l := bytes))
  rw [List.length_append] at hparts
  have hnumber : numberOfDigits 256 (bytes.map UInt8.toNat) <
      256 ^ (bytes.dropWhile (· = 0)).length := by
    have hzero : bytes.dropWhile (fun b => decide (b.toNat = 0)) = bytes.dropWhile (· = 0) := by
      congr 1
      funext b
      exact decide_eq_decide.mpr (UInt8.toNat_inj (b := 0))
    rw [← numberOfDigits_dropWhile, List.dropWhile_map, Function.comp_def, hzero]
    exact numberOfDigits_toNat_lt _
  rw [base58Encode_eq, List.length_append, List.length_replicate, List.length_map]
  cases hdigits : base58Digits bytes with
  | nil => rw [List.length_nil]; omega
  | cons d rest =>
    have hd : d ≠ 0 := by
      have hhead := List.head?_dropWhile_not (fun e : ℕ => decide (e = 0))
        (littleEndian 58 (2 * bytes.length) (numberOfDigits 256 (bytes.map UInt8.toNat))).reverse
      rw [base58Digits] at hdigits
      rw [hdigits] at hhead
      simpa using hhead
    have hpower := pow_le_numberOfDigits 58 hd rest
    rw [← hdigits, numberOfDigits_base58Digits] at hpower
    have hlength := length_le_of_pow_le (hpower.trans_lt hnumber)
    rw [List.length_cons]
    omega

/-- The sample base58 meets the laws. -/
theorem base58Lawful_sample : Base58.Lawful ⟨base58Encode, base58Decode⟩ where
  inverts := base58Decode_base58Encode
  alphabet := by
    intro size text old h
    dsimp only [base58Decode] at h
    split at h
    · next hdecodes => simpa using hdecodes.1
    · simp at h
  refused := by
    intro size text old h
    dsimp only [base58Decode] at h ⊢
    split at h
    · simp at h
    · next hrefused => rw [if_neg hrefused]
  length_le := base58Encode_length_le

/-- A quoted text. -/
def quoted (text : List Byte) : List Byte := [34] ++ text ++ [34]

/-- `cJSON_PrintUnformatted` for an object with one member, a text or an array of texts. -/
def printRequest : CJson → Option (List Byte)
  | .object [(name, .string text)] =>
    some (cText "\x7b" ++ quoted (cText name) ++ cText ":" ++ quoted text ++ cText "\x7d")
  | .object [(name, .array elements)] =>
    let texts := elements.map fun
      | .string text => quoted text
      | _ => []
    some (cText "\x7b" ++ quoted (cText name) ++ cText ":[" ++ (texts.intersperse (cText ",")).flatten ++
      cText "]\x7d")
  | _ => none

/-- The libraries with a parser which knows the given documents. -/
def sampleLibraries (documents : List (List Byte × CJson)) : Libraries where
  sodium := transparentSodium
  base58 := ⟨base58Encode, base58Decode⟩
  cjson :=
    { parse := fun text => (documents.find? fun document => document.1 = text).map Prod.snd
      printUnformatted := printRequest
      castOutOfRange := fun _ => 0 }

/-- The parser knows a text of the list. -/
theorem parseBody_sampleLibraries {body : List Byte} (document : CJson) (hnonempty : body.isEmpty = false)
    (hnul : body.takeWhile (· ≠ 0) = body) :
    (sampleLibraries [(body, document)]).cjson.parseBody body = some document := by
  rw [CJsonLib.parseBody, hnonempty, hnul]
  simp [sampleLibraries]

/-- A real address decodes to its bytes. -/
example : base58Decode 33 (base58Encode (addressGet transparentSodium (Bytes.zero 32) 1).val)
    (Bytes.zero 33) = (true, addressGet transparentSodium (Bytes.zero 32) 1) := by
  decide +kernel

end Goshimmer
