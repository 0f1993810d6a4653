import Goshimmer.Utils.ByteBuffer
import Mathlib.Data.List.GetD

/-!
# Hexadecimal texts

`byte_buf2hex_string` of `utils/byte_buffer.c` and `hex_decode_string` of `core/address.c`. The writer has
capital letters only; the reader takes small ones as well, reads any other character as the digit 0, and
leaves the last character of an odd text out. It has no verdict, so what it made of a text shows only when
the bytes are written again.
-/

namespace Goshimmer

/-- `hex_table`. -/
def hexTable : List Byte := [48, 49, 50, 51, 52, 53, 54, 55, 56, 57, 65, 66, 67, 68, 69, 70]

/-- The character of four bits. -/
def hexChar (bits : Byte) : Byte := hexTable.getD (bits &&& 0x0F).toNat 0

/-- The loop body of `byte_buf2hex_string`: two characters, and the length moves on. -/
def hexStep (data : List Byte) (hexStr : ByteBuf) (i : ℕ) : ByteBuf where
  data :=
    overwrite (overwrite hexStr.data (i * 2) [hexChar (data.getD i 0 >>> 4)]) (i * 2 + 1) [hexChar (data.getD i 0)]
  len := hexStr.len + 2
  cap := hexStr.cap

/-- `byte_buf2hex_string`, with the outcomes of the allocations of the buffer and of its block. Neither is
looked at, so the function writes through a null pointer when one is refused. -/
def byteBuf2HexString (bufGranted : Bool) (alloc : Allocation) (buf : ByteBuf) : Option ByteBuf :=
  if bufGranted ∧ alloc.granted then
    let hexStr := (byteBufReserve alloc byteBufNew (buf.len * 2 + 1)).2
    let hexStr := (List.range buf.len.toNat).foldl (hexStep buf.data) hexStr
    some { hexStr with data := overwrite hexStr.data hexStr.len.toNat [0] }
  else none

/-- The digit of a character: the two conditions of the source one after the other. -/
def hexDigit (c : Byte) : Byte :=
  (if 48 ≤ c ∧ c ≤ 57 then c - 48 else 0) + (if 65 ≤ c &&& 0xDF ∧ c &&& 0xDF ≤ 70 then 10 + (c &&& 0xDF) - 65 else 0)

/-- `hex_decode_string` of the C string at the start of some memory. -/
def hexDecodeString (str array : List Byte) : List Byte :=
  (List.range ((str.takeWhile (· ≠ 0)).length / 2)).foldl
    (fun array i => overwrite array i [(hexDigit (str.getD (i * 2) 0) <<< 4) + hexDigit (str.getD (i * 2 + 1) 0)]) array

/-! ## Texts and bytes -/

/-- The text of bytes, two characters for each. -/
def hexText (bytes : List Byte) : List Byte := bytes.flatMap fun b : Byte => [hexChar (b >>> 4), hexChar b]

/-- The bytes of a text, one for every two characters. -/
def hexBytes : List Byte → List Byte
  | hi :: lo :: rest => ((hexDigit hi <<< 4) + hexDigit lo) :: hexBytes rest
  | _ => []

/-- A byte is read back from its two characters, and these are no NULs. -/
theorem hexDigit_hexChar (b : Byte) :
    (hexDigit (hexChar (b >>> 4)) <<< 4) + hexDigit (hexChar b) = b ∧ hexChar (b >>> 4) ≠ 0 ∧ hexChar b ≠ 0 :=
  forall_byte (fun b => (hexDigit (hexChar (b >>> 4)) <<< 4) + hexDigit (hexChar b) = b ∧
    hexChar (b >>> 4) ≠ 0 ∧ hexChar b ≠ 0) (by decide +kernel) b

/-- A digit has four bits. -/
theorem hexDigit_lt (c : Byte) : hexDigit c < 16 :=
  forall_byte (fun c => hexDigit c < 16) (by decide +kernel) c

/-- A character is the one of its digit exactly when it is in the table. -/
theorem hexChar_hexDigit_iff (c : Byte) : hexChar (hexDigit c) = c ↔ c ∈ hexTable :=
  forall_byte (fun c => hexChar (hexDigit c) = c ↔ c ∈ hexTable) (by decide +kernel) c

/-- The two digits of a byte are the digits it was put together from. -/
theorem hexChar_of_digits {hi lo : Byte} (hhi : hi < 16) (hlo : lo < 16) :
    hexChar (((hi <<< 4) + lo) >>> 4) = hexChar hi ∧ hexChar ((hi <<< 4) + lo) = hexChar lo := by
  have hall : ∀ m n : Fin 16,
      hexChar (((UInt8.ofNat m <<< 4) + UInt8.ofNat n) >>> 4) = hexChar (UInt8.ofNat m) ∧
        hexChar ((UInt8.ofNat m <<< 4) + UInt8.ofNat n) = hexChar (UInt8.ofNat n) := by decide
  have hpair := hall ⟨hi.toNat, UInt8.lt_iff_toNat_lt.mp hhi⟩ ⟨lo.toNat, UInt8.lt_iff_toNat_lt.mp hlo⟩
  rw [UInt8.ofNat_toNat, UInt8.ofNat_toNat] at hpair
  exact hpair

/-- The text has two characters for every byte. -/
theorem length_hexText (bytes : List Byte) : (hexText bytes).length = bytes.length * 2 := by
  induction bytes with
  | nil => rfl
  | cons b rest ih =>
    rw [hexText, List.flatMap_cons, List.length_append, ← hexText, ih, List.length_cons]
    simp only [List.length_cons, List.length_nil]
    omega

/-- The text has no NUL. -/
theorem zero_notMem_hexText (bytes : List Byte) : 0 ∉ hexText bytes := by
  intro hzero
  obtain ⟨b, -, hb⟩ := List.mem_flatMap.mp hzero
  obtain ⟨-, hhi, hlo⟩ := hexDigit_hexChar b
  rcases List.mem_cons.mp hb with hfirst | hsecond
  · exact hhi hfirst.symm
  · exact hlo (List.mem_singleton.mp hsecond).symm

/-- The bytes of a text are half as many as its characters. -/
theorem length_hexBytes (text : List Byte) : (hexBytes text).length = text.length / 2 := by
  induction text using hexBytes.induct with
  | case1 hi lo rest ih =>
    rw [hexBytes, List.length_cons, ih, List.length_cons, List.length_cons]
    omega
  | case2 text hshort =>
    match text with
    | [] => rfl
    | [_] => simp [hexBytes]
    | hi :: lo :: rest => exact absurd rfl (hshort hi lo rest)

/-- The bytes of the text of bytes are these bytes. -/
theorem hexBytes_hexText (bytes : List Byte) : hexBytes (hexText bytes) = bytes := by
  induction bytes with
  | nil => rfl
  | cons b rest ih =>
    have hb := (hexDigit_hexChar b).1
    change ((hexDigit (hexChar (b >>> 4)) <<< 4) + hexDigit (hexChar b)) :: hexBytes (hexText rest) = _
    rw [hb, ih]

/-- Writing the bytes of a text again gives the text back exactly when it has an even number of characters,
all of the table. -/
theorem hexText_hexBytes_iff (text : List Byte) :
    hexText (hexBytes text) = text ↔ text.length % 2 = 0 ∧ ∀ c ∈ text, c ∈ hexTable := by
  induction text using hexBytes.induct with
  | case1 hi lo rest ih =>
    obtain ⟨hfirst, hsecond⟩ := hexChar_of_digits (hexDigit_lt hi) (hexDigit_lt lo)
    have hhead : hexText (hexBytes (hi :: lo :: rest)) =
        hexChar (hexDigit hi) :: hexChar (hexDigit lo) :: hexText (hexBytes rest) := by
      rw [← hfirst, ← hsecond]
      rfl
    rw [hhead, List.cons.injEq, List.cons.injEq, hexChar_hexDigit_iff, hexChar_hexDigit_iff, ih]
    simp only [List.length_cons, List.forall_mem_cons]
    constructor
    · intro ⟨hhi, hlo, heven, hrest⟩
      exact ⟨by omega, hhi, hlo, hrest⟩
    · intro ⟨heven, hhi, hlo, hrest⟩
      exact ⟨hhi, hlo, by omega, hrest⟩
  | case2 text hshort =>
    match text with
    | [] => simp [hexBytes, hexText]
    | [_] => simp [hexBytes, hexText]
    | hi :: lo :: rest => exact absurd rfl (hshort hi lo rest)

/-! ## The two loops -/

/-- The buffer after some rounds of the writer: the characters of the first bytes, and their number. -/
structure HexWritten (data : List Byte) (cap : UInt64) (i : ℕ) (hexStr : ByteBuf) : Prop where
  block_length : hexStr.data.length = cap.toNat
  cap_eq : hexStr.cap = cap
  len_eq : hexStr.len.toNat = i * 2
  written : hexStr.data.take (i * 2) = hexText (data.take i)

/-- One round writes the two characters of the next byte. -/
theorem HexWritten.step {data : List Byte} {cap : UInt64} {i : ℕ} {hexStr : ByteBuf}
    (h : HexWritten data cap i hexStr) (hi : i < data.length) (hroom : i * 2 + 2 ≤ cap.toNat) :
    HexWritten data cap (i + 1) (hexStep data hexStr i) := by
  have hcap := cap.toNat_lt
  refine ⟨?_, h.cap_eq, ?_, ?_⟩
  · simp only [hexStep, BlockWriter.length_overwrite]
    exact h.block_length
  · have hlen := h.len_eq
    simp only [hexStep, UInt64.toNat_add, UInt64.reduceToNat]
    omega
  · have hbyte : data.getD i 0 = data[i] := by simp [hi]
    have hwritten := @BlockWriter.take_overwrite_overwrite Byte hexStr.data [hexChar (data[i] >>> 4)]
      [hexChar data[i]] (i * 2) (by rw [h.block_length]; exact hroom)
    rw [h.written] at hwritten
    rw [List.take_succ_eq_append_getElem hi, hexText, List.flatMap_append, ← hexText, hexStep, hbyte,
      Nat.add_mul, Nat.one_mul]
    refine hwritten.trans ?_
    rw [List.append_assoc]
    rfl

/-- The loop of the writer makes the text of the bytes. -/
theorem HexWritten.loop {data : List Byte} {cap : UInt64} {hexStr : ByteBuf} (h : HexWritten data cap 0 hexStr)
    {n : ℕ} (hn : n ≤ data.length) (hroom : n * 2 ≤ cap.toNat) :
    HexWritten data cap n ((List.range n).foldl (hexStep data) hexStr) := by
  induction n with
  | zero => exact h
  | succ n ih =>
    rw [List.range_succ, List.foldl_append]
    exact (ih (by omega) (by omega)).step (by omega) (by omega)

/-- `byte_buf2hex_string` yields a buffer with the text of the bytes, and a NUL behind it which the length
does not count. -/
theorem ByteBuf.Sized.toHexString {buf : ByteBuf} (h : buf.Sized) {alloc : Allocation}
    (hgranted : alloc.granted = true) (hfit : buf.len.toNat * 2 + 1 < 2 ^ 64) :
    ∃ hexStr, byteBuf2HexString true alloc buf = some hexStr ∧ hexStr.Sized ∧
      hexStr.len.toNat = buf.len.toNat * 2 ∧ hexStr.data = hexText buf.contents ++ [0] := by
  have hcap : (buf.len * 2 + 1).toNat = buf.len.toNat * 2 + 1 := by
    simp only [UInt64.toNat_add, UInt64.toNat_mul, UInt64.reduceToNat]
    omega
  have hreserve : byteBufReserve alloc byteBufNew (buf.len * 2 + 1) =
      (true, ⟨alloc.grow [] (buf.len.toNat * 2 + 1), 0, buf.len * 2 + 1⟩) := by
    have hmore : ¬ buf.len * 2 + 1 ≤ byteBufNew.cap := by
      rw [UInt64.le_iff_toNat_le, hcap]
      exact Nat.not_succ_le_zero _
    rw [byteBufReserve, if_neg hmore, if_pos hgranted, hcap]
    rfl
  have hbytes : buf.len.toNat ≤ buf.data.length := by
    rw [h.block_length]
    exact UInt64.le_iff_toNat_le.mp h.len_le
  have hstart : HexWritten buf.data (buf.len * 2 + 1) 0
      ⟨alloc.grow [] (buf.len.toNat * 2 + 1), 0, buf.len * 2 + 1⟩ :=
    ⟨by rw [Allocation.length_grow, hcap], rfl, rfl, rfl⟩
  have hend := hstart.loop hbytes (by omega)
  rw [byteBuf2HexString, if_pos ⟨rfl, hgranted⟩, hreserve]
  dsimp only
  generalize (List.range buf.len.toNat).foldl (hexStep buf.data)
    ⟨alloc.grow [] (buf.len.toNat * 2 + 1), 0, buf.len * 2 + 1⟩ = hexStr at hend
  have hlength := hend.block_length
  have hterminated := @BlockWriter.take_overwrite Byte hexStr.data [0] hexStr.len.toNat
    (by rw [hlength, hend.len_eq, hcap]; exact Nat.le_refl _)
  refine ⟨_, rfl, ⟨?_, ?_⟩, hend.len_eq, ?_⟩
  · rw [BlockWriter.length_overwrite, hlength, hend.cap_eq]
  · rw [UInt64.le_iff_toNat_le, hend.len_eq, hend.cap_eq, hcap]
    exact Nat.le_succ _
  · rw [List.take_of_length_le (by rw [BlockWriter.length_overwrite, hlength, hend.len_eq, hcap]; exact Nat.le_refl _),
      hend.len_eq, hend.written] at hterminated
    rw [hend.len_eq]
    exact hterminated

/-- Two more characters make one more byte. -/
theorem hexBytes_append_pair {front : List Byte} (heven : front.length % 2 = 0) (hi lo : Byte) :
    hexBytes (front ++ [hi, lo]) = hexBytes front ++ [(hexDigit hi <<< 4) + hexDigit lo] := by
  induction front using hexBytes.induct with
  | case1 a b rest ih =>
    have hrest : rest.length % 2 = 0 := by
      simp only [List.length_cons] at heven
      omega
    change ((hexDigit a <<< 4) + hexDigit b) :: hexBytes (rest ++ [hi, lo]) = _
    rw [ih hrest]
    rfl
  | case2 front hshort =>
    match front with
    | [] => rfl
    | [_] => exact absurd heven (by simp)
    | a :: b :: rest => exact absurd rfl (hshort a b rest)

/-- Overwriting one byte in the middle. -/
theorem overwrite_middle (front back : List Byte) (old new : Byte) :
    overwrite (front ++ old :: back) front.length [new] = front ++ new :: back := by
  simp [overwrite]

/-- After some rounds of the reader the destination starts with the bytes of the first characters. -/
theorem hexDecode_rounds (text past array : List Byte) {n : ℕ} (hn : n * 2 ≤ text.length) (hroom : n ≤ array.length) :
    (List.range n).foldl (fun array i => overwrite array i
        [(hexDigit ((text ++ past).getD (i * 2) 0) <<< 4) + hexDigit ((text ++ past).getD (i * 2 + 1) 0)]) array =
      hexBytes (text.take (n * 2)) ++ array.drop n := by
  induction n with
  | zero => rfl
  | succ n ih =>
    rw [List.range_succ, List.foldl_append, ih (by omega) (by omega)]
    have hlength : (hexBytes (text.take (n * 2))).length = n := by
      rw [length_hexBytes, List.length_take]
      omega
    have hhi : (text ++ past).getD (n * 2) 0 = text[n * 2] := by
      rw [List.getD_append _ _ _ _ (by omega), List.getD_eq_getElem _ _ (by omega)]
    have hlo : (text ++ past).getD (n * 2 + 1) 0 = text[n * 2 + 1] := by
      rw [List.getD_append _ _ _ _ (by omega), List.getD_eq_getElem _ _ (by omega)]
    have htake : text.take ((n + 1) * 2) = text.take (n * 2) ++ [text[n * 2], text[n * 2 + 1]] := by
      rw [Nat.add_mul, Nat.one_mul, List.take_succ_eq_append_getElem (by omega),
        List.take_succ_eq_append_getElem (by omega), List.append_assoc]
      rfl
    have heven : (text.take (n * 2)).length % 2 = 0 := by
      rw [List.length_take]
      omega
    rw [htake, hexBytes_append_pair heven, List.append_assoc, List.foldl_cons, List.foldl_nil, hhi, hlo,
      List.drop_eq_getElem_cons (by omega : n < array.length)]
    have hmiddle := overwrite_middle (hexBytes (text.take (n * 2))) (array.drop (n + 1)) array[n]
      ((hexDigit text[n * 2] <<< 4) + hexDigit text[n * 2 + 1])
    rw [hlength] at hmiddle
    exact hmiddle

/-- An odd last character makes no byte. -/
theorem hexBytes_take (text : List Byte) : hexBytes (text.take (text.length / 2 * 2)) = hexBytes text := by
  induction text using hexBytes.induct with
  | case1 hi lo rest ih =>
    have hcount : (hi :: lo :: rest).length / 2 * 2 = rest.length / 2 * 2 + 2 := by
      simp only [List.length_cons]
      omega
    rw [hcount]
    change ((hexDigit hi <<< 4) + hexDigit lo) :: hexBytes (rest.take (rest.length / 2 * 2)) = _
    rw [ih]
    rfl
  | case2 text hshort =>
    match text with
    | [] => rfl
    | [_] => simp [hexBytes]
    | hi :: lo :: rest => exact absurd rfl (hshort hi lo rest)

/-- The reader writes the bytes of the text to the start of its destination, and nothing else. -/
theorem hexDecodeString_eq {text : List Byte} (hnul : 0 ∉ text) (past : List Byte) {array : List Byte}
    (hroom : text.length / 2 ≤ array.length) :
    hexDecodeString (text ++ 0 :: past) array = hexBytes text ++ array.drop (text.length / 2) := by
  have htext : (text ++ 0 :: past).takeWhile (· ≠ 0) = text := by
    have hall : ∀ c ∈ text, (fun c : Byte => decide (c ≠ 0)) c = true := by
      intro c hc
      rw [decide_eq_true_eq]
      intro heq
      exact hnul (heq ▸ hc)
    rw [List.takeWhile_append_of_pos hall]
    simp
  rw [hexDecodeString, htext, hexDecode_rounds text (0 :: past) array (by omega) hroom, hexBytes_take]

/-- Bytes go through their hexadecimal text unchanged: whatever is behind the block of the text, the reader
fills the start of any destination with them, and leaves the rest alone. A text which was read goes through
its bytes unchanged exactly when it has an even number of characters, all of them digits or capital letters up
to F. -/
theorem hex_roundTrips {alloc : Allocation} (hgranted : alloc.granted = true) :
    (∀ (buf : ByteBuf), buf.Sized → buf.len.toNat * 2 + 1 < 2 ^ 64 →
      ∃ hexStr, byteBuf2HexString true alloc buf = some hexStr ∧ hexStr.Sized ∧
        ∀ (past array : List Byte), buf.len.toNat ≤ array.length →
          hexDecodeString (hexStr.data ++ past) array = buf.contents ++ array.drop buf.len.toNat) ∧
    ∀ (text past array : List Byte), 0 ∉ text → text.length + 1 < 2 ^ 64 → text.length / 2 = array.length →
      ∃ hexStr, byteBuf2HexString true alloc
          ⟨hexDecodeString (text ++ 0 :: past) array, UInt64.ofNat array.length, UInt64.ofNat array.length⟩ =
            some hexStr ∧
        (hexStr.contents = text ↔ text.length % 2 = 0 ∧ ∀ c ∈ text, c ∈ hexTable) := by
  constructor
  · intro buf hsized hfit
    obtain ⟨hexStr, hrun, hhex, -, hdata⟩ := hsized.toHexString hgranted hfit
    refine ⟨hexStr, hrun, hhex, fun past array hroom => ?_⟩
    have hhalf : (hexText buf.contents).length / 2 = buf.len.toNat := by
      rw [length_hexText, hsized.contents_length]
      omega
    rw [hdata, List.append_assoc, List.singleton_append,
      hexDecodeString_eq (zero_notMem_hexText _) past (by rw [hhalf]; exact hroom), hexBytes_hexText, hhalf]
  · intro text past array hnul hfit hroom
    have hread := hexDecodeString_eq hnul past hroom.le
    rw [hroom, List.drop_length, List.append_nil] at hread
    have hlen : (UInt64.ofNat array.length).toNat = array.length :=
      UInt64.toNat_ofNat_of_lt' (by simp only [UInt64.size]; omega)
    have hbytes : (hexBytes text).length = array.length := by rw [length_hexBytes, hroom]
    have hsized : (⟨hexBytes text, UInt64.ofNat array.length, UInt64.ofNat array.length⟩ : ByteBuf).Sized :=
      ⟨by rw [hlen, hbytes], UInt64.le_refl _⟩
    obtain ⟨hexStr, hrun, -, hlength, hdata⟩ := hsized.toHexString hgranted (by rw [hlen]; omega)
    rw [hread]
    refine ⟨hexStr, hrun, ?_⟩
    have hcontents : hexStr.contents = hexText (hexBytes text) := by
      have hall : (⟨hexBytes text, UInt64.ofNat array.length, UInt64.ofNat array.length⟩ : ByteBuf).contents =
          hexBytes text := by
        rw [ByteBuf.contents, hlen, ← hbytes, List.take_length]
      rw [hall] at hdata
      have htaken : hexStr.len.toNat = (hexText (hexBytes text)).length := by
        rw [hlength, hlen, length_hexText, hbytes]
      rw [ByteBuf.contents, hdata, htaken, List.take_left]
    rw [hcontents, hexText_hexBytes_iff]

/-- Small letters are read, and come back as capitals. -/
theorem hex_roundTrips_small :
    ∃ hexStr, byteBuf2HexString true ⟨true, fun _ => 0⟩
        ⟨hexDecodeString [97, 98, 0] [7], UInt64.ofNat 1, UInt64.ofNat 1⟩ = some hexStr ∧
      hexStr.contents ≠ [97, 98] := by
  obtain ⟨hexStr, hrun, hiff⟩ := (@hex_roundTrips ⟨true, fun _ => 0⟩ rfl).2 [97, 98] [] [7] (by decide) (by decide)
    (by decide)
  refine ⟨hexStr, hrun, fun hsame => ?_⟩
  exact absurd (hiff.mp hsame).2 (by decide)

end Goshimmer
