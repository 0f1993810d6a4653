import Goshimmer.Core.Validation

/-!
# Signing by the outputs

`tx_sign` makes a signature entry for the address of every output, with the key of the index which
the output names. The verifier looks for an entry under the address of every input. Each entry verifies
under the key which it carries itself, so the transaction is valid exactly when every input comes from an
address to which an output goes.
-/

namespace Goshimmer

variable (sodium : Sodium)

/-- The loop body of `tx_sign`. -/
def signOutput (granted : Bool) (seed : Seed) (essence : ByteBuf) (signatures : EdSignatures)
    (out : TxOutput) : EdSignatures :=
  let addrSig := signSignature sodium seed out.addrIndex essence.contents
  let addrPub := (addressEd25519Keypair sodium seed out.addrIndex).1
  (edSignaturesAdd granted signatures out.address addrPub addrSig).2

/-- `tx_sign`; `granted call` is what the numbered call of `ed_signatures_add` finds when it requests
memory. -/
def txSign (host : Host) (granted : ℕ → Bool) (tx : Transaction) (seed : Seed) : Int × Transaction :=
  match txEssence host tx with
  | none => (-1, tx)
  | some essence =>
    (0, { tx with
      signatures := tx.outputs.zipIdx.foldl
        (fun signatures out => signOutput sodium (granted out.2) seed essence signatures out.1)
        edSignaturesInit })

/-! ## The signature table -/

/-- The entry which is made for an output. -/
def outputSignature (seed : Seed) (essence : ByteBuf) (out : TxOutput) : EdSignature where
  address := out.address
  pubKey := (addressEd25519Keypair sodium seed out.addrIndex).1
  signature := signSignature sodium seed out.addrIndex essence.contents

/-- An entry which gets memory is added, unless there is one for the address. -/
theorem signOutput_eq (granted : Bool) (seed : Seed) (essence : ByteBuf) (signatures : EdSignatures)
    (out : TxOutput) :
    signOutput sodium granted seed essence signatures out =
      if granted then signatures.insertNew (outputSignature sodium seed essence out) else signatures :=
  edSignaturesAdd_snd granted signatures _ _ _

/-- The entries which get memory, in the order of the outputs. -/
def signedOutputs (granted : ℕ → Bool) (seed : Seed) (essence : ByteBuf) (outputs : List TxOutput) :
    List EdSignature :=
  (grantedOf granted outputs).map (outputSignature sodium seed essence)

/-- The loop adds these entries one by one. -/
theorem foldl_signOutput (granted : ℕ → Bool) (seed : Seed) (essence : ByteBuf) (outputs : List TxOutput) :
    outputs.zipIdx.foldl
        (fun signatures out => signOutput sodium (granted out.2) seed essence signatures out.1)
        edSignaturesInit =
      (signedOutputs sodium granted seed essence outputs).foldl InsertionTable.insertNew edSignaturesInit := by
  rw [signedOutputs, List.foldl_map, ← foldl_grantedOf]
  simp only [signOutput_eq]

/-- An entry which gets memory is the one of an output. -/
theorem mem_signedOutputs {granted : ℕ → Bool} {seed : Seed} {essence : ByteBuf} {outputs : List TxOutput}
    {sig : EdSignature} :
    sig ∈ signedOutputs sodium granted seed essence outputs ↔
      ∃ call out, outputs[call]? = some out ∧ granted call = true ∧
        sig = outputSignature sodium seed essence out := by
  rw [signedOutputs, List.mem_map]
  constructor
  · rintro ⟨out, hout, rfl⟩
    obtain ⟨call, hcall, hgranted⟩ := (mem_grantedOf granted).mp hout
    exact ⟨call, out, hcall, hgranted, rfl⟩
  · rintro ⟨call, out, hout, hgranted, rfl⟩
    exact ⟨out, (mem_grantedOf granted).mpr ⟨call, hout, hgranted⟩, rfl⟩

/-- An output goes to the address, and its entry gets memory. -/
def SignedFor (granted : ℕ → Bool) (outputs : List TxOutput) (addr : Address) : Prop :=
  ∃ call out, outputs[call]? = some out ∧ granted call = true ∧ out.address = addr

/-- A lookup after signing. -/
theorem edSignaturesFind_txSign {host : Host} {tx : Transaction} {essence : ByteBuf}
    (hessence : txEssence host tx = some essence) (granted : ℕ → Bool) (seed : Seed) (addr : Address) :
    edSignaturesFind (txSign sodium host granted tx seed).2.signatures addr =
      (signedOutputs sodium granted seed essence tx.outputs).find? fun sig => sig.address = addr := by
  unfold txSign
  simp only [hessence]
  rw [foldl_signOutput, edSignaturesFind, InsertionTable.find_foldl_insertNew]
  exact Option.none_or

/-- Signing makes an entry exactly for the addresses of the outputs whose entries get memory. -/
theorem edSignaturesFind_txSign_isSome_iff {host : Host} {tx : Transaction} {essence : ByteBuf}
    (hessence : txEssence host tx = some essence) (granted : ℕ → Bool) (seed : Seed) (addr : Address) :
    (edSignaturesFind (txSign sodium host granted tx seed).2.signatures addr).isSome ↔
      SignedFor granted tx.outputs addr := by
  rw [edSignaturesFind_txSign sodium hessence, List.find?_isSome]
  constructor
  · intro ⟨sig, hsig, haddr⟩
    obtain ⟨call, out, hout, hgranted, rfl⟩ := (mem_signedOutputs sodium).mp hsig
    exact ⟨call, out, hout, hgranted, of_decide_eq_true haddr⟩
  · intro ⟨call, out, hout, hgranted, haddr⟩
    exact ⟨_, (mem_signedOutputs sodium).mpr ⟨call, out, hout, hgranted, rfl⟩, decide_eq_true haddr⟩

/-! ## The verdict -/

/-- Signing changes the signatures alone. -/
theorem txSign_eta (host : Host) (granted : ℕ → Bool) (tx : Transaction) (seed : Seed) :
    (txSign sodium host granted tx seed).2 =
      { tx with signatures := (txSign sodium host granted tx seed).2.signatures } := by
  unfold txSign
  split
  · rfl
  · rfl

/-- An input is accepted exactly when there is an entry for its address: every entry verifies. -/
theorem inputAccepted_txSign_iff (hverify : sodium.VerifiesOwnSignatures) {host : Host} {tx : Transaction}
    {essence : ByteBuf} (hessence : txEssence host tx = some essence) (granted : ℕ → Bool) (seed : Seed)
    (validHost : Host) (input : OutputId) :
    InputAccepted sodium validHost (txSign sodium host granted tx seed).2 input ↔
      SignedFor granted tx.outputs input.address := by
  rw [← edSignaturesFind_txSign_isSome_iff sodium hessence granted seed, Option.isSome_iff_exists]
  constructor
  · intro ⟨sig, hfind, _⟩
    exact ⟨sig, hfind⟩
  · intro ⟨sig, hfind⟩
    refine ⟨sig, hfind, fun other hother => ?_⟩
    rw [edSignaturesFind_txSign sodium hessence] at hfind
    obtain ⟨call, out, -, -, rfl⟩ := (mem_signedOutputs sodium).mp (List.mem_of_find?_eq_some hfind)
    -- the signatures do not enter the essence, so the verifier computes the signed one
    rw [txSign_eta, txEssence_signatures] at hother
    have hsame : txEssence host tx = txEssence validHost tx :=
      txEssence_congr (by rw [hessence]; rfl) (by rw [hother]; rfl)
    rw [hessence, hother] at hsame
    rw [← Option.some.inj hsame]
    exact signVerifySignature_signSignature sodium hverify seed out.addrIndex essence.contents

/-- What was signed has a signature table exactly when the entry of some output got memory. -/
theorem signatures_txSign_isEmpty_eq_false_iff {host : Host} {tx : Transaction} {essence : ByteBuf}
    (hessence : txEssence host tx = some essence) (granted : ℕ → Bool) (seed : Seed) :
    (txSign sodium host granted tx seed).2.signatures.isEmpty = false ↔
      ∃ addr, SignedFor granted tx.outputs addr := by
  simp only [← edSignaturesFind_txSign_isSome_iff sodium hessence granted seed]
  rw [InsertionTable.isEmpty, List.isEmpty_eq_false_iff]
  constructor
  · intro hnonempty
    obtain ⟨sig, hsig⟩ := List.exists_mem_of_ne_nil _ hnonempty
    refine ⟨sig.address, ?_⟩
    rw [edSignaturesFind, InsertionTable.find_key_of_mem hsig]
    rfl
  · intro ⟨addr, hfound⟩
    obtain ⟨sig, hsig⟩ := Option.isSome_iff_exists.mp hfound
    exact List.ne_nil_of_mem ((InsertionTable.find_eq_some_iff _ _ _).mp hsig).1

/-- A signed transaction is valid exactly when it has a signature at all and every input comes from an
address to which an output goes whose entry got memory. -/
theorem txSign_valid_iff (hverify : sodium.VerifiesOwnSignatures) {host : Host} {granted : ℕ → Bool}
    {tx : Transaction} {seed : Seed} (hreturns : (txSign sodium host granted tx seed).1 = 0)
    (validHost : ℕ → Host) :
    txSignautresValid sodium validHost (txSign sodium host granted tx seed).2 = true ↔
      (∃ addr, SignedFor granted tx.outputs addr) ∧
        ∀ input ∈ tx.inputs, SignedFor granted tx.outputs input.address := by
  cases hessence : txEssence host tx with
  | none =>
    rw [txSign, hessence] at hreturns
    exact absurd (show (-1 : Int) = 0 from hreturns) (by decide)
  | some essence =>
    have hinputs : (txSign sodium host granted tx seed).2.inputs = tx.inputs := by
      rw [txSign_eta]
    rw [← signatures_txSign_isEmpty_eq_false_iff sodium hessence granted seed]
    cases hempty : (txSign sodium host granted tx seed).2.signatures.isEmpty with
    | true => simp [txSignautresValid, hempty]
    | false =>
      rw [txSignautresValid_eq_true_iff sodium validHost _ hempty, hinputs]
      simp only [inputAccepted_txSign_iff sodium hverify hessence, true_and]
      constructor
      · intro hall input hinput
        obtain ⟨call, hcall⟩ := List.getElem?_of_mem hinput
        exact hall call input hcall
      · intro hall call input hcall
        exact hall input (List.mem_of_getElem? hcall)

/-- Signing a payment whose change returns to the address of its input. -/
def changeTransaction : Transaction :=
  { unsignedTransaction with
    outputs := [⟨0, addressGet transparentSodium (Bytes.zero 32) 0, [⟨5, Bytes.zero 32⟩]⟩] }

/-- It is valid. -/
theorem txSign_valid_iff_change :
    txSignautresValid transparentSodium (fun _ => sampleHost)
      (txSign transparentSodium sampleHost (fun _ => true) changeTransaction (Bytes.zero 32)).2 = true := by
  have hsigned : SignedFor (fun _ => true) changeTransaction.outputs
      (addressGet transparentSodium (Bytes.zero 32) 0) := ⟨0, _, rfl, rfl, rfl⟩
  refine (txSign_valid_iff transparentSodium transparentSodium_verifiesOwnSignatures (by decide) _).mpr
    ⟨⟨_, hsigned⟩, fun input hinput => ?_⟩
  rw [List.mem_singleton.mp hinput, OutputId.address_txOutputId]
  exact hsigned

/-- A payment to another address is signed, and it is not valid. -/
theorem txSign_signs_outputs :
    ¬ ∀ (sodium : Sodium) (host : Host) (granted : ℕ → Bool) (tx : Transaction) (seed : Seed)
      (validHost : ℕ → Host), sodium.VerifiesOwnSignatures →
        (∀ input ∈ tx.inputs, ∃ index, input.address = addressGet sodium seed index) →
          (txSign sodium host granted tx seed).1 = 0 →
            txSignautresValid sodium validHost (txSign sodium host granted tx seed).2 = true := by
  intro h
  have hderived : ∀ input ∈ unsignedTransaction.inputs,
      ∃ index, input.address = addressGet transparentSodium (Bytes.zero 32) index := by
    intro input hinput
    rw [List.mem_singleton.mp hinput]
    exact ⟨0, OutputId.address_txOutputId _ _⟩
  have hvalid := h transparentSodium sampleHost (fun _ => true) unsignedTransaction (Bytes.zero 32)
    (fun _ => sampleHost) transparentSodium_verifiesOwnSignatures hderived (by decide)
  revert hvalid
  decide

end Goshimmer
