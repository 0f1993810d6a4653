import Goshimmer.Core.Essence

/-!
# The transaction on the wire

`tx_2_base64` appends the signatures and an end mark to the essence, in a buffer which the essence
was written into by another routine, and encodes the whole. The base64 decoder gets these bytes
back from the text.
-/

namespace Goshimmer

/-- The bytes of a signature: the version of its scheme, the public key and the signature. -/
def encodeSignature (sig : EdSignature) : List Byte :=
  addressVerEd25519 :: (sig.pubKey.val ++ sig.signature.val)

/-- The bytes of a transaction: its essence, its signatures in the order of the table, and a zero. -/
def wireBytes (essence : ByteBuf) (tx : Transaction) : List Byte :=
  essence.contents ++ tx.signatures.entries.flatMap encodeSignature ++ [0]

/-- A signature has 97 bytes. -/
@[simp] theorem encodeSignature_length (sig : EdSignature) : (encodeSignature sig).length = 97 := by
  simp [encodeSignature, sig.pubKey.property, sig.signature.property]

/-- The length of the bytes of a transaction. -/
theorem wireBytes_length (essence : ByteBuf) (tx : Transaction) :
    (wireBytes essence tx).length = essence.contents.length + 97 * tx.signatures.count + 1 := by
  have hsignatures : (tx.signatures.entries.map fun sig => (encodeSignature sig).length).sum =
      97 * tx.signatures.entries.length := by
    simp [Nat.mul_comm]
  rw [wireBytes, List.length_append, List.length_append, List.length_flatMap, hsignatures,
    List.length_singleton, InsertionTable.count]

/-- The loop of `tx_2_base64` appends the bytes of the signatures. -/
theorem appendSignatures_of_granted {alloc : Allocation} (hgranted : alloc.granted = true)
    (signatures : List EdSignature) {buf : ByteBuf} (h : buf.Sized)
    (hfit : buf.len.toNat + 97 * signatures.length < 2 ^ 64) :
    (appendSignatures alloc buf signatures).Sized ∧
      (appendSignatures alloc buf signatures).len.toNat = buf.len.toNat + 97 * signatures.length ∧
      (appendSignatures alloc buf signatures).contents = buf.contents ++ signatures.flatMap encodeSignature := by
  unfold appendSignatures
  induction signatures generalizing buf with
  | nil => simpa using h
  | cons sig rest ih =>
    rw [List.length_cons] at hfit
    obtain ⟨buf₁, hversion, h₁, hlen₁, hcontents₁⟩ := byteBufAppend_of_granted hgranted h
      [addressVerEd25519] (by rw [List.length_singleton]; omega)
    rw [List.length_singleton] at hlen₁
    obtain ⟨buf₂, hkey, h₂, hlen₂, hcontents₂⟩ := byteBufAppend_of_granted hgranted h₁
      sig.pubKey.val (by rw [sig.pubKey.property]; omega)
    rw [sig.pubKey.property] at hlen₂
    obtain ⟨buf₃, hsignature, h₃, hlen₃, hcontents₃⟩ := byteBufAppend_of_granted hgranted h₂
      sig.signature.val (by rw [sig.signature.property]; omega)
    rw [sig.signature.property] at hlen₃
    obtain ⟨hsized, hlength, hcontents⟩ := ih h₃ (by omega)
    rw [List.foldl_cons]
    simp only [hversion, hkey, hsignature]
    refine ⟨hsized, ?_, ?_⟩
    · rw [hlength, List.length_cons]
      omega
    · rw [hcontents, hcontents₃, hcontents₂, hcontents₁, List.flatMap_cons, encodeSignature]
      simp only [List.append_assoc, List.cons_append, List.nil_append]

/-- The essence fills its block. -/
theorem sized_txEssence {host : Host} {tx : Transaction} {essence : ByteBuf}
    (h : txEssence host tx = some essence) : essence.Sized := by
  obtain ⟨hgranted, hendian⟩ := (txEssence_isSome_iff host tx).mp (by rw [h, Option.isSome_some])
  have hblock := host.alloc.block_length (essenceLength tx).toNat
  simp only [txEssence, hgranted, hendian, if_true, Option.some.injEq] at h
  rw [← h]
  exact ⟨(agree_essenceWriter tx hblock hblock (UInt64.toNat_lt _)).block_length, UInt64.le_refl _⟩

/-- The bytes which `tx_2_base64` encodes are those of the transaction. -/
theorem tx2Base64_eq {host : Host} {tx : Transaction} {essence : ByteBuf}
    (h : txEssence host tx = some essence)
    (hsize : 4 * (((wireBytes essence tx).length + 2) / 3) + 1 < 2 ^ 64) :
    tx2Base64 host tx =
      some ⟨base64Groups (wireBytes essence tx) ++ [0],
        UInt64.ofNat (4 * (((wireBytes essence tx).length + 2) / 3)),
        UInt64.ofNat (4 * (((wireBytes essence tx).length + 2) / 3) + 1)⟩ := by
  have hgranted := ((txEssence_isSome_iff host tx).mp (by rw [h, Option.isSome_some])).1
  have hlength := wireBytes_length essence tx
  rw [(sized_txEssence h).contents_length] at hlength
  obtain ⟨reserved, hreserve, hreserved, hlen, hcontents, -⟩ := byteBufReserve_of_granted hgranted
    (sized_txEssence h) (essence.len + UInt64.ofNat tx.signatures.count * (1 + 32 + 64) + 1)
  obtain ⟨hsized, hsigned, hsignatures⟩ := appendSignatures_of_granted hgranted tx.signatures.entries
    hreserved (by rw [hlen]; rw [InsertionTable.count] at hlength; omega)
  obtain ⟨final, happend, hfinal, -, hbytes⟩ := byteBufAppend_of_granted hgranted hsized [0]
    (by rw [hsigned, hlen, List.length_singleton]; rw [InsertionTable.count] at hlength; omega)
  have hwire : final.contents = wireBytes essence tx := by
    rw [hbytes, hsignatures, hcontents, wireBytes]
  have hnonempty : final.contents ≠ [] := by
    rw [hwire, wireBytes]
    simp
  rw [← hwire] at hsize ⊢
  simp only [tx2Base64, h, Option.bind_eq_bind, Option.bind_some, hreserve, happend]
  exact byteBuf2Base64_of_granted hgranted hfinal hnonempty hsize

/-- A transaction survives the wire: the text has four characters for every three bytes and a NUL
behind it inside its block, and decoding it gives back the essence, the signatures in the order of
the table, and the end mark. -/
theorem tx2Base64_round_trip {host : Host} {tx : Transaction} {essence : ByteBuf}
    (hessence : txEssence host tx = some essence)
    (hsize : 4 * (((wireBytes essence tx).length + 2) / 3) + 1 < 2 ^ 64) :
    ∃ text, tx2Base64 host tx = some text ∧
      text.len.toNat = 4 * (((wireBytes essence tx).length + 2) / 3) ∧
      text.len < text.cap ∧ text.data.length = text.cap.toNat ∧ text.data[text.len.toNat]? = some 0 ∧
      ∀ dlen olen : UInt64, (wireBytes essence tx).length ≤ dlen.toNat →
        base64Decode (some dlen) olen text.contents =
          ⟨0, UInt64.ofNat (wireBytes essence tx).length, wireBytes essence tx⟩ := by
  have hgroups := base64Groups_length (wireBytes essence tx)
  have hlen : (UInt64.ofNat (4 * (((wireBytes essence tx).length + 2) / 3))).toNat =
      4 * (((wireBytes essence tx).length + 2) / 3) :=
    UInt64.toNat_ofNat_of_lt' (by simp only [UInt64.size]; omega)
  have hcap : (UInt64.ofNat (4 * (((wireBytes essence tx).length + 2) / 3) + 1)).toNat =
      4 * (((wireBytes essence tx).length + 2) / 3) + 1 := UInt64.toNat_ofNat_of_lt' hsize
  refine ⟨_, tx2Base64_eq hessence hsize, hlen, ?_, ?_, ?_, ?_⟩
  · rw [UInt64.lt_iff_toNat_lt, hlen, hcap]
    exact Nat.lt_succ_self _
  · rw [List.length_append, List.length_singleton, hgroups, hcap]
  · rw [hlen, ← hgroups, List.getElem?_append_right (Nat.le_refl _), Nat.sub_self]
    rfl
  · intro dlen olen hroom
    rw [ByteBuf.contents, hlen, ← hgroups, List.take_left]
    exact base64Decode_base64Groups _ (by omega) hroom olen

/-- A transaction with one input, one output and one signature. -/
def signedTransaction : Transaction :=
  { sampleTransaction with
    signatures := edSignaturesInit.insertNew ⟨Bytes.zero 33, Bytes.zero 32, Bytes.zero 64⟩ }

/-- A little-endian host which grants memory. -/
def grantingHost : Host := ⟨true, ⟨true, fun _ => 0⟩⟩

/-- The essence of this transaction on this host. -/
def signedEssence : ByteBuf := (txEssence grantingHost signedTransaction).get (by decide)

/-- A transaction whose essence has 154 bytes, with one signature, reaches the node as 336
characters. -/
theorem tx2Base64_round_trip_signed :
    ∃ text, tx2Base64 grantingHost signedTransaction = some text ∧
      text.len.toNat = 4 * (((wireBytes signedEssence signedTransaction).length + 2) / 3) ∧
      text.len < text.cap ∧ text.data.length = text.cap.toNat ∧ text.data[text.len.toNat]? = some 0 ∧
      ∀ dlen olen : UInt64, (wireBytes signedEssence signedTransaction).length ≤ dlen.toNat →
        base64Decode (some dlen) olen text.contents =
          ⟨0, UInt64.ofNat (wireBytes signedEssence signedTransaction).length,
            wireBytes signedEssence signedTransaction⟩ := by
  have hessence : txEssence grantingHost signedTransaction = some signedEssence := (Option.some_get _).symm
  exact tx2Base64_round_trip hessence (by decide +kernel)

end Goshimmer
