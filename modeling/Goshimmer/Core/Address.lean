import Goshimmer.Core.Types

/-!
# Addresses and ed25519 keys

`core/address.c`. An address is the version byte of the ed25519 scheme followed by the digest
of a public key; the key pair of an index comes from the seed xored with the digest of the
index. The primitives of libsodium are parameters: only what the client calls is named, and a
result about signatures states what it needs of them.
-/

namespace Goshimmer

/-- `byte_t[TANGLE_ADDRESS_BYTES]`. -/
abbrev Address := Bytes 33

/-- `byte_t[TANGLE_SEED_BYTES]`. -/
abbrev Seed := Bytes 32

/-- `byte_t[ED_PUBLIC_KEY_BYTES]`. -/
abbrev PublicKey := Bytes 32

/-- `byte_t[ED_PRIVATE_KEY_BYTES]`. -/
abbrev PrivateKey := Bytes 64

/-- `byte_t[ED_SIGNATURE_BYTES]`. -/
abbrev Signature := Bytes 64

/-- The functions of libsodium which the client calls. -/
structure Sodium where
  /-- `crypto_generichash` without a key and with a digest of 32 bytes. -/
  genericHash : List Byte → Bytes 32
  /-- `crypto_sign_seed_keypair`. -/
  signSeedKeypair : Seed → PublicKey × PrivateKey
  /-- `crypto_sign_detached`. -/
  signDetached : List Byte → PrivateKey → Signature
  /-- `crypto_sign_verify_detached(..) == 0`. -/
  signVerifyDetached : Signature → List Byte → PublicKey → Bool

variable (sodium : Sodium)

/-- A signature made with the private key of a pair verifies under its public key. -/
def Sodium.VerifiesOwnSignatures : Prop :=
  ∀ (seed : Seed) (message : List Byte),
    sodium.signVerifyDetached (sodium.signDetached message (sodium.signSeedKeypair seed).2) message
      (sodium.signSeedKeypair seed).1 = true

/-- `ADDRESS_VER_ED25519`. -/
def addressVerEd25519 : Byte := 1

/-- `get_subseed`. Both byte orders of the host produce the little-endian bytes of the index. -/
def getSubseed (seed : Seed) (index : UInt64) : Seed :=
  let hashIndex := sodium.genericHash (memoryImage 8 index.toNat)
  ⟨List.zipWith (· ^^^ ·) seed.val hashIndex.val, by
    rw [List.length_zipWith, seed.property, hashIndex.property, Nat.min_self]⟩

/-- `address_ed25519_keypair`. -/
def addressEd25519Keypair (seed : Seed) (index : UInt64) : PublicKey × PrivateKey :=
  sodium.signSeedKeypair (getSubseed sodium seed index)

/-- The address which commits to a public key: the version byte, then the digest of the key. -/
def addressOfPublicKey (pubKey : PublicKey) : Address :=
  ⟨addressVerEd25519 :: (sodium.genericHash pubKey.val).val, by
    rw [List.length_cons, (sodium.genericHash pubKey.val).property]⟩

/-- `address_from_ed25519`. -/
def addressFromEd25519 (seed : Seed) (index : UInt64) : Address :=
  addressOfPublicKey sodium (addressEd25519Keypair sodium seed index).1

/-- `address_get` for `ADDRESS_VER_ED25519`, the version every caller passes; for any other
version the function only prints a note. -/
def addressGet (seed : Seed) (index : UInt64) : Address := addressFromEd25519 sodium seed index

/-- `sign_signature`. -/
def signSignature (seed : Seed) (index : UInt64) (data : List Byte) : Signature :=
  sodium.signDetached data (sodium.signSeedKeypair (getSubseed sodium seed index)).2

/-- `sign_verify_signature`. -/
def signVerifySignature (signature : Signature) (data : List Byte) (pubKey : PublicKey) : Bool :=
  sodium.signVerifyDetached signature data pubKey

/-- `address_t`: an address together with the index it was derived from. -/
structure AddressT where
  index : UInt64
  addr : Address
  deriving DecidableEq

/-- Derived addresses carry the version byte, so none of them is the all-zero address. -/
theorem emptyByteArray_addressGet (seed : Seed) (index : UInt64) :
    emptyByteArray (addressGet sodium seed index) = false := by
  simp [addressGet, addressFromEd25519, addressOfPublicKey, emptyByteArray, addressVerEd25519]

/-- What `sign_signature` produces verifies under the public key of the same index. -/
theorem signVerifySignature_signSignature (h : sodium.VerifiesOwnSignatures) (seed : Seed)
    (index : UInt64) (data : List Byte) :
    signVerifySignature sodium (signSignature sodium seed index data) data
      (addressEd25519Keypair sodium seed index).1 = true :=
  h (getSubseed sodium seed index) data

end Goshimmer
