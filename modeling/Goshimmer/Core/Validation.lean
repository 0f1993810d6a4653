import Goshimmer.Core.Essence
import Goshimmer.Core.TransparentSodium

/-!
# What validation authorises

`tx_signautres_valid` looks for a signature entry under the address of every input and checks
the signature under the public key which the entry itself carries. It never compares that key
with the address, and it skips the check when the essence cannot be computed. An input is
authorised when its entry's key is the one the address commits to and the signature verifies
over the essence. The verdict is authorisation exactly when these two omissions do not matter.
-/

namespace Goshimmer

variable (sodium : Sodium)

/-- What the loop demands of one input: an entry, whose signature is not refuted. -/
def InputAccepted (host : Host) (tx : Transaction) (input : OutputId) : Prop :=
  ∃ sig, edSignaturesFind tx.signatures input.address = some sig ∧
    ∀ essence, txEssence host tx = some essence →
      signVerifySignature sodium sig.signature essence.contents sig.pubKey = true

/-- Authorisation of one input by the owner of its address. -/
def InputAuthorised (host : Host) (tx : Transaction) (input : OutputId) : Prop :=
  ∃ sig, edSignaturesFind tx.signatures input.address = some sig ∧
    input.address = addressOfPublicKey sodium sig.pubKey ∧
    ∃ essence, txEssence host tx = some essence ∧
      signVerifySignature sodium sig.signature essence.contents sig.pubKey = true

/-- Every input is authorised. -/
def Authorised (host : ℕ → Host) (tx : Transaction) : Prop :=
  ∀ (call : ℕ) (input : OutputId), tx.inputs[call]? = some input →
    InputAuthorised sodium (host call) tx input

/-- The loop accepts exactly when it accepts every input it still has to see. -/
theorem txSignautresValidLoop_eq_true_iff (host : ℕ → Host) (tx : Transaction) (call : ℕ)
    (inputs : List OutputId) :
    txSignautresValidLoop sodium host tx call inputs = true ↔
      ∀ (k : ℕ) (input : OutputId), inputs[k]? = some input →
        InputAccepted sodium (host (call + k)) tx input := by
  induction inputs generalizing call with
  | nil => simp [txSignautresValidLoop]
  | cons input rest ih =>
    have hsplit : (∀ (k : ℕ) (other : OutputId), (input :: rest)[k]? = some other →
          InputAccepted sodium (host (call + k)) tx other) ↔
        InputAccepted sodium (host call) tx input ∧
          ∀ (k : ℕ) (other : OutputId), rest[k]? = some other →
            InputAccepted sodium (host (call + 1 + k)) tx other := by
      constructor
      · intro h
        refine ⟨h 0 input rfl, fun k other hk => ?_⟩
        have hnext := h (k + 1) other hk
        rwa [← Nat.add_assoc, Nat.add_right_comm] at hnext
      · intro h k other hk
        cases k with
        | zero => exact Option.some.inj hk ▸ h.1
        | succ k =>
          have hnext := h.2 k other hk
          rwa [Nat.add_right_comm, Nat.add_assoc] at hnext
    rw [hsplit, ← ih (call + 1), txSignautresValidLoop, InputAccepted]
    cases hfind : edSignaturesFind tx.signatures input.address with
    | none => simp
    | some sig =>
      cases hessence : txEssence (host call) tx with
      | none => simp
      | some essence =>
        cases hverify : signVerifySignature sodium sig.signature essence.contents sig.pubKey <;>
          simp [hverify]

/-- The verdict on a transaction with a signature table. -/
theorem txSignautresValid_eq_true_iff (host : ℕ → Host) (tx : Transaction)
    (hsignatures : tx.signatures.isEmpty = false) :
    txSignautresValid sodium host tx = true ↔
      ∀ (call : ℕ) (input : OutputId), tx.inputs[call]? = some input →
        InputAccepted sodium (host call) tx input := by
  unfold txSignautresValid
  rw [hsignatures, if_neg (by simp), txSignautresValidLoop_eq_true_iff]
  simp only [Nat.zero_add]

/-- An authorised input is accepted. -/
theorem InputAuthorised.accepted {host : Host} {tx : Transaction} {input : OutputId}
    (h : InputAuthorised sodium host tx input) : InputAccepted sodium host tx input := by
  obtain ⟨sig, hfind, -, essence, hessence, hverify⟩ := h
  refine ⟨sig, hfind, fun other hother => ?_⟩
  rw [hessence] at hother
  exact Option.some.inj hother ▸ hverify

/-- Some input has no signature entry, or one whose signature is refuted. -/
def SomeInputRefuted (host : ℕ → Host) (tx : Transaction) : Prop :=
  ∃ (call : ℕ) (input : OutputId), tx.inputs[call]? = some input ∧
    ∀ sig, edSignaturesFind tx.signatures input.address = some sig →
      ∃ essence, txEssence (host call) tx = some essence ∧
        signVerifySignature sodium sig.signature essence.contents sig.pubKey = false

/-- Every entry found for an input carries the public key to which the address commits, and the
essence can be computed for it. -/
def EntriesOwnTheirAddress (host : ℕ → Host) (tx : Transaction) : Prop :=
  ∀ (call : ℕ) (input : OutputId), tx.inputs[call]? = some input →
    ∀ sig, edSignaturesFind tx.signatures input.address = some sig →
      input.address = addressOfPublicKey sodium sig.pubKey ∧ (txEssence (host call) tx).isSome

/-- A transaction is refused by the loop exactly when some input is refuted. -/
theorem not_accepted_iff_refuted (host : ℕ → Host) (tx : Transaction) :
    (¬ ∀ (call : ℕ) (input : OutputId), tx.inputs[call]? = some input →
        InputAccepted sodium (host call) tx input) ↔ SomeInputRefuted sodium host tx := by
  simp only [InputAccepted, SomeInputRefuted, not_forall, not_exists, not_and, Bool.not_eq_true,
    exists_prop]

/-- Validation means authorisation exactly when an input is refuted anyway, or every entry looked
up carries its address's own key and the essence is computed. -/
theorem txSignautresValid_means_authorised_iff (host : ℕ → Host) (tx : Transaction)
    (hsignatures : tx.signatures.isEmpty = false) :
    (txSignautresValid sodium host tx = true ↔ Authorised sodium host tx) ↔
      (SomeInputRefuted sodium host tx ∨ EntriesOwnTheirAddress sodium host tx) := by
  rw [txSignautresValid_eq_true_iff sodium host tx hsignatures]
  have haccepted : Authorised sodium host tx → ∀ (call : ℕ) (input : OutputId),
      tx.inputs[call]? = some input → InputAccepted sodium (host call) tx input :=
    fun h call input hinput => (h call input hinput).accepted
  constructor
  · intro h
    by_cases hall : ∀ (call : ℕ) (input : OutputId), tx.inputs[call]? = some input →
        InputAccepted sodium (host call) tx input
    · right
      intro call input hinput sig hfind
      obtain ⟨other, hother, hkey, essence, hessence, -⟩ := h.mp hall call input hinput
      rw [hfind] at hother
      exact ⟨Option.some.inj hother ▸ hkey, by rw [hessence]; rfl⟩
    · exact Or.inl ((not_accepted_iff_refuted sodium host tx).mp hall)
  · intro h
    refine ⟨fun hall => ?_, haccepted⟩
    rcases h with hrefuted | hown
    · exact absurd hall ((not_accepted_iff_refuted sodium host tx).mpr hrefuted)
    · intro call input hinput
      obtain ⟨sig, hfind, hverify⟩ := hall call input hinput
      obtain ⟨hkey, hsome⟩ := hown call input hinput sig hfind
      obtain ⟨essence, hessence⟩ := Option.isSome_iff_exists.mp hsome
      exact ⟨sig, hfind, hkey, essence, hessence, hverify essence hessence⟩

/-- A little-endian host which grants every allocation. -/
def sampleHost : Host := ⟨true, ⟨true, fun _ => 0⟩⟩

/-- A payment from the address of index 0, not signed yet. -/
def unsignedTransaction : Transaction where
  inputs := [txOutputId (addressGet transparentSodium (Bytes.zero 32) 0) (Bytes.zero 32)]
  outputs := sampleTransaction.outputs
  signatures := edSignaturesInit

/-- The same payment, with an entry for the address of index 0 which holds the key of index 1 and
a signature made with it. -/
def forgedTransaction : Transaction :=
  { unsignedTransaction with
    signatures := (edSignaturesAdd true edSignaturesInit
      (addressGet transparentSodium (Bytes.zero 32) 0)
      (addressEd25519Keypair transparentSodium (Bytes.zero 32) 1).1
      (signSignature transparentSodium (Bytes.zero 32) 1 (encodeEssence unsignedTransaction))).2 }

/-- The characterisation at the forged payment. -/
theorem txSignautresValid_means_authorised_iff_forged :
    (txSignautresValid transparentSodium (fun _ => sampleHost) forgedTransaction = true ↔
        Authorised transparentSodium (fun _ => sampleHost) forgedTransaction) ↔
      (SomeInputRefuted transparentSodium (fun _ => sampleHost) forgedTransaction ∨
        EntriesOwnTheirAddress transparentSodium (fun _ => sampleHost) forgedTransaction) :=
  txSignautresValid_means_authorised_iff transparentSodium (fun _ => sampleHost) forgedTransaction
    (by decide)

/-- A signature by a foreign key is accepted: validation does not mean authorisation. -/
theorem txSignautresValid_accepts_foreign_key :
    ¬ ∀ (sodium : Sodium) (host : ℕ → Host) (tx : Transaction), tx.signatures.isEmpty = false →
      (txSignautresValid sodium host tx = true ↔ Authorised sodium host tx) := by
  intro h
  have hvalid : txSignautresValid transparentSodium (fun _ => sampleHost) forgedTransaction = true := by
    decide +kernel
  have hauthorised := (h transparentSodium (fun _ => sampleHost) forgedTransaction
    (by decide)).mp hvalid
  obtain ⟨sig, hfind, hkey, -⟩ := hauthorised 0 (unsignedTransaction.inputs.head (by decide)) rfl
  have hforeign : ∀ s, edSignaturesFind forgedTransaction.signatures
      (unsignedTransaction.inputs.head (by decide)).address = some s →
      (unsignedTransaction.inputs.head (by decide)).address ≠
        addressOfPublicKey transparentSodium s.pubKey := by
    intro s hs
    have hentry : edSignaturesFind forgedTransaction.signatures
        (unsignedTransaction.inputs.head (by decide)).address =
          forgedTransaction.signatures.entries.head? := by decide
    rw [hentry] at hs
    have hkeys : ∀ e ∈ forgedTransaction.signatures.entries.head?,
        (unsignedTransaction.inputs.head (by decide)).address ≠
          addressOfPublicKey transparentSodium e.pubKey := by decide
    exact hkeys s hs
  exact hforeign sig hfind hkey

end Goshimmer
