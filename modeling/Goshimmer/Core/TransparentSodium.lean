import Goshimmer.Core.Address

/-!
# A concrete instance of the cryptographic parameters

The results about signatures and derived addresses assume that signatures verify under the
matching key and that distinct indices derive distinct addresses. The instance below meets both
assumptions for every seed: the digest keeps the first bytes of its input, the public key is the
seed itself and a signature names the key and the message. It hides nothing; it only shows that
the assumptions hold together.
-/

namespace Goshimmer

/-- The first bytes of a message, padded with zeros. -/
def padTo (size : ℕ) (message : List Byte) : Bytes size :=
  ⟨(message ++ List.replicate size 0).take size, by simp⟩

/-- Digest by truncation, public key equal to the seed, and signatures that spell out the key
and the start of the message. -/
def transparentSodium : Sodium where
  genericHash := padTo 32
  signSeedKeypair seed := (seed, seed.append (Bytes.zero 32))
  signDetached message privKey := (Bytes.front (m := 32) (n := 32) privKey).append (padTo 32 message)
  signVerifyDetached signature message pubKey := signature = pubKey.append (padTo 32 message)

/-- Signatures made with the private key of a pair verify under its public key. -/
theorem transparentSodium_verifiesOwnSignatures : transparentSodium.VerifiesOwnSignatures := by
  intro seed message
  simp [transparentSodium]

/-- Padding to the length of the message changes nothing. -/
theorem padTo_of_length {size : ℕ} (message : List Byte) (h : message.length = size) :
    (padTo size message).val = message := by
  simp [padTo, ← h]

/-- Xor with a fixed list of the same length can be undone. -/
theorem zipWith_xor_injective (mask : List Byte) :
    ∀ left right : List Byte, left.length = mask.length → right.length = mask.length →
      List.zipWith (· ^^^ ·) mask left = List.zipWith (· ^^^ ·) mask right → left = right := by
  induction mask with
  | nil =>
    intro left right hleft hright _
    rw [List.length_eq_zero_iff.mp hleft, List.length_eq_zero_iff.mp hright]
  | cons m mask ih =>
    intro left right hleft hright h
    obtain ⟨l, left, rfl⟩ := List.exists_cons_of_length_eq_add_one hleft
    obtain ⟨r, right, rfl⟩ := List.exists_cons_of_length_eq_add_one hright
    obtain ⟨hhead, htail⟩ := List.cons.inj h
    have hcancel := congrArg (m ^^^ ·) hhead
    simp only [← UInt8.xor_assoc, UInt8.xor_self, UInt8.zero_xor] at hcancel
    rw [hcancel, ih left right (by simpa using hleft) (by simpa using hright) htail]

/-- Distinct indices derive distinct addresses, whatever the seed. -/
theorem addressGet_transparentSodium_injective (seed : Seed) :
    Function.Injective (addressGet transparentSodium seed) := by
  intro i j h
  have hkey : getSubseed transparentSodium seed i = getSubseed transparentSodium seed j := by
    have hval := congrArg Subtype.val h
    have hdigest := (List.cons.inj hval).2
    apply Subtype.ext
    have hkeep : ∀ k, (padTo 32 (getSubseed transparentSodium seed k).val).val =
        (getSubseed transparentSodium seed k).val :=
      fun k => padTo_of_length _ (getSubseed transparentSodium seed k).property
    exact (hkeep i).symm.trans (hdigest.trans (hkeep j))
  have hindex : ∀ k, (padTo 32 (memoryImage 8 k)).val = memoryImage 8 k ++ List.replicate 24 0 := by
    intro k
    simp [padTo, List.take_append]
  have hbytes := zipWith_xor_injective seed.val _ _
    ((padTo 32 (memoryImage 8 i.toNat)).property.trans seed.property.symm)
    ((padTo 32 (memoryImage 8 j.toNat)).property.trans seed.property.symm) (congrArg Subtype.val hkey)
  rw [hindex, hindex] at hbytes
  exact UInt64.toNat_inj.mp (memoryImage_inj (UInt64.toNat_lt _) (UInt64.toNat_lt _)
    (List.append_cancel_right hbytes))

end Goshimmer
