import Goshimmer.Core.Address
import Mathlib.Data.List.GetD

/-!
# Deriving an address on either byte order

`get_subseed` has a branch for each byte order of the host, and xors the digest into the seed byte by byte.
Both branches hash the same eight bytes, so a seed has the same keys, addresses and signatures on every host.
The eight bytes tell the index, and the xor tells the digest; two indices of a seed share an address only
through a collision of the digest or of the public keys.
-/

namespace Goshimmer

/-- The array `bytes_index` of `get_subseed`: the memory of the index on a little-endian host, else the index
shifted by whole bytes. -/
def bytesIndex (isLittleEndian : Bool) (index : UInt64) : List Byte :=
  if isLittleEndian then memoryImage 8 index.toNat
  else
    [(index >>> (8 * 0)).toUInt8, (index >>> (8 * 1)).toUInt8, (index >>> (8 * 2)).toUInt8,
      (index >>> (8 * 3)).toUInt8, (index >>> (8 * 4)).toUInt8, (index >>> (8 * 5)).toUInt8,
      (index >>> (8 * 6)).toUInt8, (index >>> (8 * 7)).toUInt8]

/-- The loop of `get_subseed`. -/
def xorLoop (subseed hashIndex : List Byte) : List Byte :=
  (List.range 32).foldl (fun subseed i => subseed.modify i (· ^^^ hashIndex.getD i 0)) subseed

/-- A number shifted by whole bytes and cut to a byte is a digit of its memory image. -/
theorem toUInt8_shiftRight (index : UInt64) (k : ℕ) (hk : k < 8) :
    (index >>> UInt64.ofNat (8 * k)).toUInt8 = UInt8.ofNat (index.toNat / 256 ^ k) := by
  have hshift : (UInt64.ofNat (8 * k)).toNat = 8 * k :=
    UInt64.toNat_ofNat_of_lt' (by simp only [UInt64.size]; omega)
  rw [← UInt8.toNat_inj, UInt64.toNat_toUInt8, UInt64.toNat_shiftRight, hshift, UInt8.toNat_ofNat',
    Nat.mod_eq_of_lt (by omega : 8 * k < 64), Nat.shiftRight_eq_div_pow, Nat.pow_mul]

/-- Both byte orders make the same bytes of an index. -/
theorem bytesIndex_eq (isLittleEndian : Bool) (index : UInt64) :
    bytesIndex isLittleEndian index = memoryImage 8 index.toNat := by
  cases isLittleEndian with
  | true => rfl
  | false =>
    have hbytes : bytesIndex false index =
        (List.range 8).map fun k => (index >>> UInt64.ofNat (8 * k)).toUInt8 := rfl
    rw [hbytes, memoryImage, littleEndian_eq_map, List.map_map]
    apply List.map_congr_left
    intro k hk
    rw [toUInt8_shiftRight index k (List.mem_range.mp hk), Function.comp_apply, ← UInt8.toNat_inj,
      UInt8.toNat_ofNat', UInt8.toNat_ofNat', Nat.mod_mod]

/-- The arrays after some rounds of the loop. -/
theorem getElem?_xorRounds (subseed hashIndex : List Byte) (n j : ℕ) :
    ((List.range n).foldl (fun subseed i => subseed.modify i (· ^^^ hashIndex.getD i 0)) subseed)[j]? =
      if j < n then subseed[j]?.map (· ^^^ hashIndex.getD j 0) else subseed[j]? := by
  induction n with
  | zero => rfl
  | succ n ih =>
    rw [List.range_succ, List.foldl_append, List.foldl_cons, List.foldl_nil, List.getElem?_modify, ih]
    by_cases hj : n = j
    · subst hj
      simp
    · by_cases hlt : j < n
      · simp [hj, hlt, Nat.lt_succ_of_lt hlt]
      · simp [hj, hlt, show ¬ j < n + 1 by omega]

/-- The loop xors the two arrays. -/
theorem xorLoop_eq {subseed hashIndex : List Byte} (hsubseed : subseed.length = 32)
    (hhash : hashIndex.length = 32) : xorLoop subseed hashIndex = List.zipWith (· ^^^ ·) subseed hashIndex := by
  apply List.ext_getElem?
  intro j
  rw [xorLoop, getElem?_xorRounds, List.getElem?_zipWith]
  by_cases hj : j < 32
  · rw [if_pos hj, List.getElem?_eq_getElem (by omega), List.getElem?_eq_getElem (by omega),
      List.getD_eq_getElem _ _ (by omega)]
    rfl
  · rw [if_neg hj, List.getElem?_eq_none (by omega)]

variable (sodium : Sodium)

/-- `get_subseed` on a host of the given byte order. -/
def getSubseedOn (isLittleEndian : Bool) (seed : Seed) (index : UInt64) : Seed :=
  let hashIndex := sodium.genericHash (bytesIndex isLittleEndian index)
  ⟨xorLoop seed.val hashIndex.val, by
    rw [xorLoop_eq seed.property hashIndex.property, List.length_zipWith, seed.property, hashIndex.property,
      Nat.min_self]⟩

/-- `address_get` on such a host. -/
def addressGetOn (isLittleEndian : Bool) (seed : Seed) (index : UInt64) : Address :=
  addressOfPublicKey sodium (sodium.signSeedKeypair (getSubseedOn sodium isLittleEndian seed index)).1

/-- The seed of an index is the same on either byte order. -/
theorem getSubseedOn_eq (isLittleEndian : Bool) (seed : Seed) (index : UInt64) :
    getSubseedOn sodium isLittleEndian seed index = getSubseed sodium seed index := by
  apply Subtype.ext
  simp only [getSubseedOn, bytesIndex_eq]
  exact xorLoop_eq seed.property (sodium.genericHash _).property

/-- The xor tells the digest. -/
theorem zipWith_xor_inj {seed first second : List Byte} (hfirst : first.length = seed.length)
    (hsecond : second.length = seed.length)
    (h : List.zipWith (· ^^^ ·) seed first = List.zipWith (· ^^^ ·) seed second) : first = second := by
  induction seed generalizing first second with
  | nil => rw [List.length_eq_zero_iff.mp hfirst, List.length_eq_zero_iff.mp hsecond]
  | cons b rest ih =>
    obtain ⟨c, first, rfl⟩ := List.exists_cons_of_length_eq_add_one hfirst
    obtain ⟨d, second, rfl⟩ := List.exists_cons_of_length_eq_add_one hsecond
    rw [List.zipWith_cons_cons, List.zipWith_cons_cons, List.cons.injEq] at h
    rw [List.length_cons, List.length_cons, Nat.add_right_cancel_iff] at hfirst hsecond
    rw [(UInt8.xor_right_inj b).mp h.1, ih hfirst hsecond h.2]

/-- Two different inputs with the same result, on the way from two indices of a seed to their addresses. -/
inductive DerivationCollides (seed : Seed) (i j : UInt64) : Prop
  /-- The digests of the indices collide. -/
  | index (hne : memoryImage 8 i.toNat ≠ memoryImage 8 j.toNat)
      (hsame : sodium.genericHash (memoryImage 8 i.toNat) = sodium.genericHash (memoryImage 8 j.toNat))
  /-- Two seeds have the same public key. -/
  | key (hne : getSubseed sodium seed i ≠ getSubseed sodium seed j)
      (hsame : (addressEd25519Keypair sodium seed i).1 = (addressEd25519Keypair sodium seed j).1)
  /-- The digests of the public keys collide. -/
  | address (hne : (addressEd25519Keypair sodium seed i).1 ≠ (addressEd25519Keypair sodium seed j).1)
      (hsame : sodium.genericHash (addressEd25519Keypair sodium seed i).1.val =
        sodium.genericHash (addressEd25519Keypair sodium seed j).1.val)

/-- Addresses commit to the digests of their keys. -/
theorem addressOfPublicKey_eq_iff (pubKey pubKey' : PublicKey) :
    addressOfPublicKey sodium pubKey = addressOfPublicKey sodium pubKey' ↔
      sodium.genericHash pubKey.val = sodium.genericHash pubKey'.val := by
  rw [← Subtype.val_inj, ← Subtype.val_inj]
  simp [addressOfPublicKey]

/-- Two indices of a seed have the same seed of their own exactly when their digests are the same. -/
theorem getSubseed_eq_iff (seed : Seed) (i j : UInt64) :
    getSubseed sodium seed i = getSubseed sodium seed j ↔
      sodium.genericHash (memoryImage 8 i.toNat) = sodium.genericHash (memoryImage 8 j.toNat) := by
  constructor
  · intro h
    apply Subtype.ext
    have hlength : ∀ digest : Bytes 32, digest.val.length = seed.val.length := by
      intro digest
      rw [digest.property, seed.property]
    exact zipWith_xor_inj (hlength _) (hlength _) (congrArg Subtype.val h)
  · intro h
    apply Subtype.ext
    simp only [getSubseed, h]

/-- Two indices of a seed have the same address, on hosts of any byte order, exactly when they are the same
index or a primitive of libsodium collides on the way. -/
theorem addressGetOn_eq_iff (isLittleEndian isLittleEndian' : Bool) (seed : Seed) (i j : UInt64) :
    addressGetOn sodium isLittleEndian seed i = addressGetOn sodium isLittleEndian' seed j ↔
      i = j ∨ DerivationCollides sodium seed i j := by
  rw [addressGetOn, addressGetOn, getSubseedOn_eq, getSubseedOn_eq, addressOfPublicKey_eq_iff]
  constructor
  · intro haddress
    by_cases hindex : i = j
    · exact Or.inl hindex
    · refine Or.inr ?_
      have hbytes : memoryImage 8 i.toNat ≠ memoryImage 8 j.toNat := by
        intro h
        exact hindex (UInt64.toNat_inj.mp (memoryImage_inj i.toNat_lt j.toNat_lt h))
      by_cases hseed : getSubseed sodium seed i = getSubseed sodium seed j
      · exact .index hbytes ((getSubseed_eq_iff sodium seed i j).mp hseed)
      · by_cases hkey : (addressEd25519Keypair sodium seed i).1 = (addressEd25519Keypair sodium seed j).1
        · exact .key hseed hkey
        · exact .address hkey haddress
  · rintro (rfl | hcollides)
    · rfl
    · cases hcollides with
      | index _ hsame => rw [(getSubseed_eq_iff sodium seed i j).mpr hsame]
      | key _ hsame => exact congrArg (fun key : PublicKey => sodium.genericHash key.val) hsame
      | address _ hsame => exact hsame

end Goshimmer
