import Goshimmer.Client.Faithful

/-!
# Names of colours

`balance_color_2_base58` in `core/balance.c` writes the zero colour by its name and every other one as a
base58 text. The reply decoder knows the name, and reads every colour back. `balance_color_from_base58`
does not know it, so the zero colour is the one which does not come back.
-/

namespace Goshimmer

/-- `empty_color`. -/
def emptyColor (color : Color) : Bool := color.val.all (· = 0)

variable (base58 : Base58)

/-- `balance_color_2_base58`: the text which it writes. `b58enc` fails when the text and its NUL do not
fit the buffer. -/
def balanceColor2Base58 (color : Color) : Option (List Byte) :=
  if emptyColor color then some (cText "IOTA")
  else if (base58.b58enc color.val).length < 48 then some (base58.b58enc color.val)
  else none

/-- The empty colour is the one of zero bytes. -/
theorem emptyColor_iff (color : Color) : emptyColor color = true ↔ color = Bytes.zero 32 := by
  rw [emptyColor, List.all_eq_true, ← Subtype.val_inj]
  show _ ↔ color.val = List.replicate 32 0
  rw [List.eq_replicate_iff]
  simp [color.property]

/-- Every colour has a name, which is the text that a node writes for it. -/
theorem balanceColor2Base58_eq (hbase58 : base58.Lawful) (color : Color) :
    balanceColor2Base58 base58 color =
      some (if color = Bytes.zero 32 then cText "IOTA" else base58.b58enc color.val) := by
  have hlength := hbase58.length_le color.val
  rw [color.property] at hlength
  rw [balanceColor2Base58]
  by_cases hzero : color = Bytes.zero 32
  · rw [if_pos ((emptyColor_iff color).mpr hzero), if_pos hzero]
  · rw [if_neg (mt (emptyColor_iff color).mp hzero), if_pos (by omega), if_neg hzero]

/-- The reply decoder records a colour which is written by its name, whatever its buffer held before. -/
theorem recordedColor_of_name (libs : Libraries) (past : BufferPast) (hbase58 : libs.base58.Lawful)
    {color : Color} {text : List Byte} (hname : balanceColor2Base58 libs.base58 color = some text)
    {balElm : CJson} (hmember : balElm.getObjectItemCaseSensitive "color" = some (.string text))
    (colorStr : Bytes 48) : recordedColor libs past colorStr balElm = color := by
  apply recordedColor_of_lists libs past hbase58
  rw [balanceColor2Base58_eq libs.base58 hbase58] at hname
  rw [← Option.some.inj hname] at hmember
  by_cases hzero : color = Bytes.zero 32
  · rw [if_pos hzero] at hmember
    exact Or.inl ⟨cText "IOTA", hmember, by decide, hzero⟩
  · rw [if_neg hzero] at hmember
    exact Or.inr (.of_b58enc libs hbase58 color hmember _ (by decide))

/-- What `balance_color_2_base58` writes is read back by `balance_color_from_base58`. -/
def NameReadBack (color old : Color) : Prop :=
  ∀ text, balanceColor2Base58 base58 color = some text →
    balanceColorFromBase58 base58 text old = (true, color)

/-- A colour is read back exactly when it is not the zero colour. -/
theorem nameReadBack_iff
    (hinverts : ∀ color old : Color, base58.b58tobin 32 (base58.b58enc color.val) old = (true, color))
    (halphabet : ∀ (text : List Byte) (old : Color), (∃ c ∈ text, c ∉ base58Alphabet) →
      base58.b58tobin 32 text old = (false, old))
    (color old : Color) : NameReadBack base58 color old ↔ color ≠ Bytes.zero 32 := by
  constructor
  · rintro hread rfl
    have hname : balanceColor2Base58 base58 (Bytes.zero 32) = some (cText "IOTA") := by
      rw [balanceColor2Base58, if_pos ((emptyColor_iff _).mpr rfl)]
    have hrefused : balanceColorFromBase58 base58 (cText "IOTA") old = (false, old) :=
      halphabet _ old (by decide)
    have hverdict := congrArg Prod.fst (hread _ hname)
    rw [hrefused] at hverdict
    exact Bool.false_ne_true hverdict
  · intro hcolor text hname
    rw [balanceColor2Base58, if_neg (mt (emptyColor_iff color).mp hcolor)] at hname
    split at hname
    · rw [← Option.some.inj hname]
      exact hinverts color old
    · exact absurd hname.symm (Option.some_ne_none text)

/-- The colour of 32 ones is read back. -/
theorem nameReadBack_iff_ones :
    NameReadBack ⟨base58Encode, base58Decode⟩ ⟨List.replicate 32 1, rfl⟩ (Bytes.zero 32) :=
  (nameReadBack_iff ⟨base58Encode, base58Decode⟩ base58Decode_base58Encode
    (fun _ old hforeign => base58Lawful_sample.refuses hforeign old)
    ⟨List.replicate 32 1, rfl⟩ (Bytes.zero 32)).mpr (by decide)

/-- The zero colour is not read back. -/
theorem not_nameReadBack_zero :
    ¬ ∀ (base58 : Base58), base58.Lawful → ∀ color old : Color, NameReadBack base58 color old := by
  intro h
  have hread := h ⟨base58Encode, base58Decode⟩ base58Lawful_sample (Bytes.zero 32) (Bytes.zero 32)
    (cText "IOTA") (by decide)
  exact absurd hread (by decide)

end Goshimmer
