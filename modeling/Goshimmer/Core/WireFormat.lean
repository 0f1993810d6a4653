import Goshimmer.Core.Wire
import Goshimmer.Library.PositionalNumber

/-!
# What the wire says

A signature goes out without its address, an output without its index, and nothing else of a
transaction is lost: the text which the node receives determines the inputs, the payments and the
keys with their signatures, in their orders. The signatures have no count; their list ends at the
first byte which is not the version of a scheme.

`balance_from_bytes` reads a balance out of the forty bytes which `balance_2_bytes` writes. These are
the bytes of a balance inside the essence as well.
-/

namespace Goshimmer

/-! ## Single balances -/

/-- `balance_2_bytes`. -/
def balance2Bytes (balance : Balance) : Bytes (8 + 32) :=
  Bytes.append ⟨memoryImage 8 balance.value.toUInt64.toNat, memoryImage_length _ _⟩ balance.color

/-- The unsigned integer with a memory image. -/
def ofMemoryImage (image : List Byte) : ℕ := numberOfDigits 256 (image.reverse.map UInt8.toNat)

/-- `balance_from_bytes`. -/
def balanceFromBytes (balanceBytes : Bytes (8 + 32)) : Balance :=
  ⟨(UInt64.ofNat (ofMemoryImage balanceBytes.front.val)).toInt64, balanceBytes.back⟩

/-- Reading an image gives the integer back. -/
theorem ofMemoryImage_memoryImage {width n : ℕ} (hn : n < 256 ^ width) :
    ofMemoryImage (memoryImage width n) = n := by
  rw [ofMemoryImage, List.map_reverse, map_toNat_memoryImage, numberOfDigits_reverse_littleEndian hn]

/-- Bytes are the image of the integer which is read from them. -/
theorem memoryImage_ofMemoryImage (image : List Byte) :
    memoryImage image.length (ofMemoryImage image) = image := by
  have hdigits := littleEndian_numberOfDigits 256 (image.reverse.map UInt8.toNat) fun d hd => by
    obtain ⟨byte, _, rfl⟩ := List.mem_map.mp hd
    exact byte.toNat_lt
  rw [List.length_map, List.length_reverse, List.map_reverse, List.reverse_reverse] at hdigits
  rw [memoryImage, ofMemoryImage, List.map_reverse, hdigits, List.map_map]
  conv_rhs => rw [← List.map_id image]
  exact List.map_congr_left fun byte _ => UInt8.ofNat_toNat

/-- An integer read from bytes fits their number. -/
theorem ofMemoryImage_lt (image : List Byte) : ofMemoryImage image < 256 ^ image.length := by
  have h := numberOfDigits_lt 256 (image.reverse.map UInt8.toNat) fun d hd => by
    obtain ⟨byte, _, rfl⟩ := List.mem_map.mp hd
    exact byte.toNat_lt
  rwa [List.length_map, List.length_reverse] at h

/-- `balance_2_bytes` writes the bytes of the essence. -/
theorem balance2Bytes_val (balance : Balance) : (balance2Bytes balance).val = encodeBalance balance := rfl

/-- Reading inverts writing. -/
theorem balanceFromBytes_balance2Bytes (balance : Balance) :
    balanceFromBytes (balance2Bytes balance) = balance := by
  obtain ⟨value, color⟩ := balance
  have hvalue : ofMemoryImage (memoryImage 8 value.toUInt64.toNat) = value.toUInt64.toNat :=
    ofMemoryImage_memoryImage (UInt64.toNat_lt _)
  simp only [balanceFromBytes, balance2Bytes, Bytes.front_append, Bytes.back_append, hvalue,
    UInt64.ofNat_toNat]
  rfl

/-- Writing inverts reading, whatever the bytes. -/
theorem balance2Bytes_balanceFromBytes (balanceBytes : Bytes (8 + 32)) :
    balance2Bytes (balanceFromBytes balanceBytes) = balanceBytes := by
  have hfront : balanceBytes.front.val.length = 8 := balanceBytes.front.property
  have hnumber := ofMemoryImage_lt balanceBytes.front.val
  rw [hfront] at hnumber
  have hvalue : (UInt64.ofNat (ofMemoryImage balanceBytes.front.val)).toInt64.toUInt64.toNat =
      ofMemoryImage balanceBytes.front.val := UInt64.toNat_ofNat_of_lt' hnumber
  have himage := memoryImage_ofMemoryImage balanceBytes.front.val
  rw [hfront] at himage
  apply Subtype.ext
  rw [balance2Bytes, balanceFromBytes]
  simp only [Bytes.append, hvalue, himage]
  exact List.take_append_drop 8 balanceBytes.val

/-! ## Balances inside the essence -/

/-- On a host where the essence can be computed it is the layout. -/
theorem contents_of_txEssence {host : Host} {tx : Transaction} {essence : ByteBuf}
    (hmemory : tx.InAddressSpace) (h : txEssence host tx = some essence) :
    essence.contents = encodeEssence tx := by
  obtain ⟨hgranted, hendian⟩ := (txEssence_isSome_iff host tx).mp (by rw [h, Option.isSome_some])
  rw [txEssence_eq hmemory hendian hgranted] at h
  rw [← Option.some.inj h, ByteBuf.contents, essenceLength_toNat hmemory, List.take_length]

/-- Where a balance of an output begins in the essence. -/
def balanceOffset (tx : Transaction) (output position : ℕ) : ℕ :=
  8 + 65 * tx.inputs.length + ((tx.outputs.take output).map fun out => 37 + 40 * out.balances.length).sum +
    37 + 40 * position

/-- The bytes of a list around those of one item. -/
theorem flatMap_eq_around {A S : Type*} (encode : A → List S) {l : List A} {i : ℕ} {a : A}
    (h : l[i]? = some a) :
    l.flatMap encode = (l.take i).flatMap encode ++ (encode a ++ (l.drop (i + 1)).flatMap encode) := by
  obtain ⟨hi, rfl⟩ := List.getElem?_eq_some_iff.mp h
  conv_lhs => rw [← List.take_append_drop i l, List.drop_eq_getElem_cons hi]
  rw [List.flatMap_append, List.flatMap_cons]

/-- The bytes of a payment around those of one balance. -/
theorem encodePayment_eq_around {out : TxOutput} {position : ℕ} {balance : Balance}
    (h : out.balances[position]? = some balance) :
    ∃ before after, encodePayment out.payment = before ++ (encodeBalance balance ++ after) ∧
      before.length = 37 + 40 * position := by
  have hposition : position ≤ out.balances.length := (List.getElem?_eq_some_iff.mp h).1.le
  have hbefore : (((out.balances.take position).map fun b => (encodeBalance b).length)).sum =
      40 * position := by
    simp [Nat.mul_comm, Nat.min_eq_left hposition]
  refine ⟨out.address.val ++ (encodeCount out.balances.length ++
    (out.balances.take position).flatMap encodeBalance),
    (out.balances.drop (position + 1)).flatMap encodeBalance, ?_, ?_⟩
  · rw [encodePayment, TxOutput.payment, flatMap_eq_around encodeBalance h]
    simp only [List.append_assoc]
  · rw [List.length_append, List.length_append, List.length_flatMap, hbefore, out.address.property,
      encodeCount_length]
    omega

/-- The layout around the bytes of one balance. -/
theorem encodeEssence_eq_around {tx : Transaction} {output position : ℕ} {out : TxOutput}
    {balance : Balance} (hout : tx.outputs[output]? = some out)
    (hbalance : out.balances[position]? = some balance) :
    ∃ before after, encodeEssence tx = before ++ (encodeBalance balance ++ after) ∧
      before.length = balanceOffset tx output position := by
  obtain ⟨before, after, hpayment, hlength⟩ := encodePayment_eq_around hbalance
  have hmap : (tx.outputs.map TxOutput.payment)[output]? = some out.payment := by
    rw [List.getElem?_map, hout, Option.map_some]
  have hinputs : (tx.inputs.map fun input => input.val.length).sum = 65 * tx.inputs.length := by
    have hconst : (fun input : OutputId => input.val.length) = fun _ => 65 :=
      funext fun input => input.property
    simp [hconst, Nat.mul_comm]
  have houtputs : (((tx.outputs.map TxOutput.payment).take output).map
      fun payment => (encodePayment payment).length).sum =
        ((tx.outputs.take output).map fun out => 37 + 40 * out.balances.length).sum := by
    simp only [← List.map_take, List.map_map, Function.comp_def, encodePayment_length, TxOutput.payment]
  refine ⟨encodeCount tx.inputs.length ++ tx.inputs.flatMap Subtype.val ++ encodeCount tx.outputs.length ++
    ((tx.outputs.map TxOutput.payment).take output).flatMap encodePayment ++ before,
    after ++ (((tx.outputs.map TxOutput.payment).drop (output + 1)).flatMap encodePayment ++
      List.replicate 4 0), ?_, ?_⟩
  · rw [encodeEssence, flatMap_eq_around encodePayment hmap, hpayment]
    simp only [List.append_assoc]
  · simp only [List.length_append, List.length_flatMap, encodeCount_length, hinputs, houtputs, hlength,
      balanceOffset]
    omega

/-- `balance_from_bytes` reads every balance of a transaction out of the signed message: behind the
inputs, the outputs before it, and the address and the count in front of its list. -/
theorem balanceFromBytes_essence {host : Host} {tx : Transaction} {essence : ByteBuf}
    (hmemory : tx.InAddressSpace) (hessence : txEssence host tx = some essence) {output position : ℕ}
    {out : TxOutput} {balance : Balance} (hout : tx.outputs[output]? = some out)
    (hbalance : out.balances[position]? = some balance) :
    ∃ balanceBytes : Bytes (8 + 32),
      balanceBytes.val = (essence.contents.drop (balanceOffset tx output position)).take (8 + 32) ∧
        balanceFromBytes balanceBytes = balance := by
  obtain ⟨before, after, hlayout, hlength⟩ := encodeEssence_eq_around hout hbalance
  refine ⟨balance2Bytes balance, ?_, balanceFromBytes_balance2Bytes balance⟩
  rw [contents_of_txEssence hmemory hessence, hlayout, ← hlength, List.drop_left, balance2Bytes_val]
  exact (List.take_left' (encodeBalance_length balance)).symm

/-- The five tokens of the sample transaction are behind its input, and behind the address and the count
of its output. -/
theorem balanceFromBytes_essence_signed :
    ∃ balanceBytes : Bytes (8 + 32),
      balanceBytes.val = (signedEssence.contents.drop (balanceOffset signedTransaction 0 0)).take (8 + 32) ∧
        balanceFromBytes balanceBytes = ⟨5, Bytes.zero 32⟩ :=
  balanceFromBytes_essence (by unfold Transaction.InAddressSpace; decide) (Option.some_get _).symm
    (show signedTransaction.outputs[0]? = some ⟨0, Bytes.zero 33, [⟨5, Bytes.zero 32⟩]⟩ from rfl) rfl

/-! ## The whole message -/

/-- What the wire keeps of a signature. -/
def EdSignature.onWire (sig : EdSignature) : PublicKey × Signature := (sig.pubKey, sig.signature)

/-- What the wire keeps of a transaction. -/
structure WireMessage where
  inputs : List OutputId
  payments : List (Address × List Balance)
  signed : List (PublicKey × Signature)
  deriving DecidableEq

/-- The message of a transaction. -/
def Transaction.message (tx : Transaction) : WireMessage :=
  ⟨tx.inputs, tx.outputs.map TxOutput.payment, tx.signatures.entries.map EdSignature.onWire⟩

/-- The bytes of a message which are signed. -/
def encodeUnsigned (message : WireMessage) : List Byte :=
  (encodeCount message.inputs.length ++ message.inputs.flatMap Subtype.val) ++
    (encodeCount message.payments.length ++ message.payments.flatMap encodePayment) ++ List.replicate 4 0

/-- Every count of a message fits its field. -/
structure WireMessage.CountsFit (message : WireMessage) : Prop where
  inputs : message.inputs.length < 2 ^ 32
  payments : message.payments.length < 2 ^ 32
  balances : ∀ payment ∈ message.payments, payment.2.length < 2 ^ 32

/-- The counts of a transaction are those of its message. -/
theorem Transaction.CountsFit.message {tx : Transaction} (h : tx.CountsFit) : tx.message.CountsFit := by
  refine ⟨h.inputs, ?_, fun payment hpayment => ?_⟩
  · rw [Transaction.message, List.length_map]
    exact h.outputs
  · obtain ⟨out, hout, rfl⟩ := List.mem_map.mp hpayment
    exact h.balances out hout

/-- The essence of a transaction is the signed part of its message. -/
theorem encodeEssence_eq_encodeUnsigned (tx : Transaction) : encodeEssence tx = encodeUnsigned tx.message := by
  simp only [encodeEssence, encodeUnsigned, Transaction.message, List.length_map]

end Goshimmer
