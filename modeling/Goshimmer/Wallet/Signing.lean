import Goshimmer.Client.SampleLibraries
import Goshimmer.Core.Validation
import Goshimmer.Wallet.SendFunds

/-!
# Signing is complete

The signer adds one entry for each selected address and the verifier looks one up for each input.
The inputs carry exactly the selected addresses, each selected address has an output, and the
essence which the verifier computes is the signed one, because it depends neither on the
signatures nor on the memory it is computed in. An entry which is refused its memory is missing
without a word, so what the wallet signed validates exactly when no entry was refused, whether or
not the keys belong to the addresses.
-/

namespace Goshimmer

/-! ## The inputs -/

/-- The inputs are the output ids of the entries. -/
theorem mem_walletBuildInputs_iff (t : UnspentOutputs) (input : OutputId) :
    input ∈ walletBuildInputs t ↔
      ∃ elm ∈ t.entries, ∃ id ∈ elm.ids.entries, input = txOutputId elm.addr id.id := by
  simp only [walletBuildInputs, List.mem_flatMap, List.mem_map, eq_comm]

/-- The addresses of the inputs are those of the entries, when each of them has an output. -/
theorem exists_input_address_iff {t : UnspentOutputs} (h : ∀ elm ∈ t.entries, elm.ids.entries ≠ [])
    (addr : Address) :
    (∃ input ∈ walletBuildInputs t, input.address = addr) ↔ ∃ elm ∈ t.entries, elm.addr = addr := by
  constructor
  · intro ⟨input, hinput, haddr⟩
    obtain ⟨elm, helm, id, _, rfl⟩ := (mem_walletBuildInputs_iff t input).mp hinput
    exact ⟨elm, helm, by rwa [OutputId.address_txOutputId] at haddr⟩
  · intro ⟨elm, helm, haddr⟩
    obtain ⟨id, hid⟩ := List.exists_mem_of_ne_nil _ (h elm helm)
    refine ⟨txOutputId elm.addr id.id, ?_, ?_⟩
    · exact (mem_walletBuildInputs_iff t _).mpr ⟨elm, helm, id, hid, rfl⟩
    · rw [OutputId.address_txOutputId, haddr]

/-! ## The signature table -/

variable (libs : Libraries)

/-- The signature entry which the wallet makes for a selected address. -/
def signatureOf (seed : Seed) (essence : ByteBuf) (input : UnspentOutputEntry) : EdSignature where
  address := input.addr
  pubKey := (addressEd25519Keypair libs.sodium seed input.addrIndex).1
  signature := signSignature libs.sodium seed input.addrIndex essence.contents

/-- A selected address which gets memory is signed for, unless there is an entry for it. -/
theorem signInput_eq (granted : Bool) (seed : Seed) (essence : ByteBuf) (signatures : EdSignatures)
    (input : UnspentOutputEntry) :
    signInput libs granted seed essence signatures input =
      if granted then signatures.insertNew (signatureOf libs seed essence input) else signatures :=
  edSignaturesAdd_snd granted signatures _ _ _

/-- The signing loop makes one entry for each selected address which gets memory. -/
theorem entries_foldl_signInput (granted : ℕ → Bool) (seed : Seed) (essence : ByteBuf)
    (inputs : UnspentOutputs) :
    (inputs.entries.zipIdx.foldl
        (fun signatures input => signInput libs (granted input.2) seed essence signatures input.1)
        edSignaturesInit).entries =
      (grantedOf granted inputs.entries).map (signatureOf libs seed essence) := by
  have hkeys : (((grantedOf granted inputs.entries).map (signatureOf libs seed essence)).map
      EdSignature.address).Nodup := by
    rw [List.map_map]
    exact ((grantedOf_sublist granted inputs.entries).map UnspentOutputEntry.addr).nodup inputs.nodup
  simp only [signInput_eq]
  rw [foldl_grantedOf granted fun signatures input =>
      InsertionTable.insertNew signatures (signatureOf libs seed essence input),
    ← List.foldl_map, InsertionTable.entries_foldl_insertNew]
  · rfl
  · simpa [edSignaturesInit, InsertionTable.empty] using hkeys

/-- After signing, the table holds the entries of the selected addresses which got memory and no others. -/
theorem edSignaturesFind_walletSignTx {host : Host} {seed : Seed} {tx : Transaction} {essence : ByteBuf}
    (hessence : txEssence host tx = some essence) (granted : ℕ → Bool) (inputs : UnspentOutputs)
    (addr : Address) (sig : EdSignature) :
    edSignaturesFind (walletSignTx libs host granted seed tx inputs).2.signatures addr = some sig ↔
      ∃ elm ∈ grantedOf granted inputs.entries, elm.addr = addr ∧ sig = signatureOf libs seed essence elm := by
  unfold walletSignTx edSignaturesFind
  simp only [hessence]
  rw [InsertionTable.find_eq_some_iff, entries_foldl_signInput, List.mem_map]
  constructor
  · rintro ⟨⟨elm, helm, hsig⟩, haddr⟩
    exact ⟨elm, helm, by rw [← haddr, ← hsig]; rfl, hsig.symm⟩
  · rintro ⟨elm, helm, haddr, hsig⟩
    exact ⟨⟨elm, helm, hsig.symm⟩, by rw [hsig, ← haddr]; rfl⟩

/-- Signing changes the signatures alone. -/
theorem walletSignTx_eta (host : Host) (granted : ℕ → Bool) (seed : Seed) (tx : Transaction)
    (inputs : UnspentOutputs) :
    (walletSignTx libs host granted seed tx inputs).2 =
      { tx with signatures := (walletSignTx libs host granted seed tx inputs).2.signatures } := by
  unfold walletSignTx
  split <;> rfl

/-- Without an essence nothing is signed. -/
theorem signatures_walletSignTx_of_none {host : Host} {tx : Transaction}
    (hessence : txEssence host tx = none) (granted : ℕ → Bool) (seed : Seed) (inputs : UnspentOutputs) :
    (walletSignTx libs host granted seed tx inputs).2.signatures = tx.signatures := by
  simp only [walletSignTx, hessence]

/-- Where every entry gets memory, the table holds one for each selected address. -/
theorem signatures_walletSignTx {host : Host} {tx : Transaction} {essence : ByteBuf}
    (hessence : txEssence host tx = some essence) {granted : ℕ → Bool} {inputs : UnspentOutputs}
    (hgranted : ∀ call < inputs.entries.length, granted call = true) (seed : Seed) :
    (walletSignTx libs host granted seed tx inputs).2.signatures.entries =
      inputs.entries.map (signatureOf libs seed essence) := by
  simp only [walletSignTx, hessence, entries_foldl_signInput, (grantedOf_eq_self_iff granted _).mpr hgranted]

/-! ## The verdict -/

/-- Every selected address is signed for exactly when every entry got memory. -/
theorem all_signed_iff {host : Host} {seed : Seed} {tx : Transaction}
    (hessence : (txEssence host tx).isSome) (granted : ℕ → Bool) (inputs : UnspentOutputs) :
    (∀ elm ∈ inputs.entries, ∃ sig,
        edSignaturesFind (walletSignTx libs host granted seed tx inputs).2.signatures elm.addr = some sig) ↔
      ∀ call < inputs.entries.length, granted call = true := by
  obtain ⟨essence, hsome⟩ := Option.isSome_iff_exists.mp hessence
  rw [← inputs.keys_granted_iff granted]
  simp only [edSignaturesFind_walletSignTx libs hsome]
  constructor
  · intro hall elm helm
    obtain ⟨sig, other, hother, haddr, -⟩ := hall elm helm
    exact ⟨other, hother, haddr⟩
  · intro hall elm helm
    obtain ⟨other, hother, haddr⟩ := hall elm helm
    exact ⟨_, other, hother, haddr, rfl⟩

/-- What validates is signed for at every selected address. -/
theorem all_signed_of_valid {host : Host} {granted : ℕ → Bool} {seed : Seed} {tx : Transaction}
    {inputs : UnspentOutputs} (hinputs : tx.inputs = walletBuildInputs inputs)
    (hids : ∀ elm ∈ inputs.entries, elm.ids.entries ≠ []) {validHost : ℕ → Host}
    (hvalid : txSignautresValid libs.sodium validHost (walletSignTx libs host granted seed tx inputs).2 = true) :
    ∀ elm ∈ inputs.entries, ∃ sig,
      edSignaturesFind (walletSignTx libs host granted seed tx inputs).2.signatures elm.addr = some sig := by
  have hbuilt : (walletSignTx libs host granted seed tx inputs).2.inputs = walletBuildInputs inputs := by
    rw [walletSignTx_eta]
    exact hinputs
  cases hempty : (walletSignTx libs host granted seed tx inputs).2.signatures.isEmpty with
  | true =>
    rw [txSignautresValid, if_pos hempty] at hvalid
    exact Bool.noConfusion hvalid
  | false =>
    rw [txSignautresValid_eq_true_iff _ _ _ hempty, hbuilt] at hvalid
    intro elm helm
    obtain ⟨id, hid⟩ := List.exists_mem_of_ne_nil _ (hids elm helm)
    obtain ⟨call, hcall⟩ := List.getElem?_of_mem
      ((mem_walletBuildInputs_iff inputs _).mpr ⟨elm, helm, id, hid, rfl⟩)
    obtain ⟨sig, hsig, -⟩ := hvalid call _ hcall
    rw [OutputId.address_txOutputId] at hsig
    exact ⟨sig, hsig⟩

/-- What the wallet signs validates exactly when every signature entry got memory, on whichever hosts the
essence is computed again. -/
theorem txSignautresValid_walletSignTx_iff (hverify : libs.sodium.VerifiesOwnSignatures) {host : Host}
    {tx : Transaction} (hessence : (txEssence host tx).isSome) (granted : ℕ → Bool) (seed : Seed)
    {inputs : UnspentOutputs} (hinputs : tx.inputs = walletBuildInputs inputs)
    (hids : ∀ elm ∈ inputs.entries, elm.ids.entries ≠ []) (hnonempty : inputs.isEmpty = false)
    (validHost : ℕ → Host) :
    txSignautresValid libs.sodium validHost (walletSignTx libs host granted seed tx inputs).2 = true ↔
      ∀ call < inputs.entries.length, granted call = true := by
  obtain ⟨essence, hsome⟩ := Option.isSome_iff_exists.mp hessence
  have heta := walletSignTx_eta libs host granted seed tx inputs
  rw [← all_signed_iff libs hessence granted inputs]
  refine ⟨all_signed_of_valid libs hinputs hids, fun hall => ?_⟩
  have hempty : (walletSignTx libs host granted seed tx inputs).2.signatures.isEmpty = false := by
    obtain ⟨elm, helm⟩ := List.exists_mem_of_ne_nil _ (List.isEmpty_eq_false_iff.mp hnonempty)
    obtain ⟨sig, hsig⟩ := hall elm helm
    have hmem := ((InsertionTable.find_eq_some_iff _ _ _).mp hsig).1
    exact List.isEmpty_eq_false_iff.mpr (List.ne_nil_of_mem hmem)
  rw [txSignautresValid_eq_true_iff _ _ _ hempty]
  intro call input hinput
  have hmem : input ∈ walletBuildInputs inputs := by
    rw [heta] at hinput
    rw [← hinputs]
    exact List.mem_of_getElem? hinput
  obtain ⟨elm, helm, id, _, rfl⟩ := (mem_walletBuildInputs_iff inputs input).mp hmem
  obtain ⟨sig, hsig⟩ := hall elm helm
  obtain ⟨signer, -, -, rfl⟩ := (edSignaturesFind_walletSignTx libs hsome granted inputs _ _).mp hsig
  refine ⟨_, by rwa [OutputId.address_txOutputId], fun other hother => ?_⟩
  rw [heta, txEssence_signatures] at hother
  have hsame : txEssence host tx = txEssence (validHost call) tx :=
    txEssence_congr hessence (by rw [hother]; rfl)
  rw [hsome, hother] at hsame
  rw [← Option.some.inj hsame]
  exact signVerifySignature_signSignature libs.sodium hverify seed signer.addrIndex essence.contents

/-- Without an essence the wallet's transaction does not validate. -/
theorem txSignautresValid_walletSignTx_of_none {host : Host} {tx : Transaction}
    (hessence : txEssence host tx = none) (hsignatures : tx.signatures.isEmpty = true) (granted : ℕ → Bool)
    (seed : Seed) (inputs : UnspentOutputs) (validHost : ℕ → Host) :
    txSignautresValid libs.sodium validHost (walletSignTx libs host granted seed tx inputs).2 = false := by
  unfold txSignautresValid
  rw [signatures_walletSignTx_of_none libs hessence, hsignatures, if_pos rfl]

/-- The keys of the signature table are the addresses of the inputs, and the verifier accepts. -/
def SigningComplete (validHost : ℕ → Host) (signed : Transaction) : Prop :=
  (∀ addr, addr ∈ signed.signatures.entries.map EdSignature.address ↔
      addr ∈ signed.inputs.map OutputId.address) ∧
    txSignautresValid libs.sodium validHost signed = true

/-- Signing a selection is complete exactly when every call of `ed_signatures_add` gets its memory. -/
theorem walletSignTx_complete_iff (hverify : libs.sodium.VerifiesOwnSignatures) (w : Wallet)
    (t : UnspentOutputs) (requiredBalance : UInt64) (color : Color)
    (hselected : (unspentOutputsRequiredOutputs t requiredBalance color).isEmpty = false)
    (tx : Transaction)
    (hinputs : tx.inputs = walletBuildInputs (unspentOutputsRequiredOutputs t requiredBalance color))
    (host : Host) (hessence : (txEssence host tx).isSome) (granted : ℕ → Bool) (validHost : ℕ → Host) :
    SigningComplete libs validHost (walletSignTx libs host granted w.addrManager.seed tx
        (unspentOutputsRequiredOutputs t requiredBalance color)).2 ↔
      ∀ call < (unspentOutputsRequiredOutputs t requiredBalance color).entries.length, granted call = true := by
  have hids : ∀ elm ∈ (unspentOutputsRequiredOutputs t requiredBalance color).entries, elm.ids.entries ≠ [] :=
    fun elm helm => (mem_of_selected helm).2.2
  rw [SigningComplete, txSignautresValid_walletSignTx_iff libs hverify hessence granted _ hinputs hids hselected]
  refine ⟨And.right, fun hall => ⟨fun addr => ?_, hall⟩⟩
  obtain ⟨essence, hsome⟩ := Option.isSome_iff_exists.mp hessence
  rw [signatures_walletSignTx libs hsome hall, walletSignTx_eta, hinputs, List.map_map, List.mem_map,
    List.mem_map, exists_input_address_iff hids]
  exact Iff.rfl

/-! ## A small wallet -/

/-- An array of one repeated byte. -/
def repeatedByte (n : ℕ) (byte : Byte) : Bytes n := ⟨List.replicate n byte, List.length_replicate⟩

/-- Add an output to a table of outputs. -/
def withOutput (ids : OutputIds) (id : Byte) (confirmed : Bool) (balances : List Balance) : OutputIds :=
  (outputIdsAdd ids (repeatedByte 32 id)
    (balances.foldl (fun t b => (balanceHtAdd t b.color b.value).2) balanceHtInit)
    ⟨false, confirmed, false, false, false, false, false⟩).2

/-- The plain colour. -/
def plain : Color := Bytes.zero 32

/-- A wallet which knows the address of index 0 alone, with the given outputs. -/
def smallWallet (ids : OutputIds) : Wallet where
  endpoint := ⟨cText "http://node/", 0⟩
  addrManager := amNew (Bytes.zero 32) 0 none
  unspent :=
    (unspentOutputsAdd unspentOutputsInit (addressGet transparentSodium (Bytes.zero 32) 0) 0 ids).2

/-- One confirmed output of five plain tokens. -/
def fivePlain : OutputIds := withOutput outputIdsInit 7 true [⟨5, plain⟩]

/-- Two addresses: seven plain tokens in two outputs, and five plain tokens. -/
def sevenAndFive : UnspentOutputs :=
  (unspentOutputsAdd (smallWallet (withOutput fivePlain 8 true [⟨2, plain⟩])).unspent
    (addressGet transparentSodium (Bytes.zero 32) 1) 1 fivePlain).2

/-- What the wallet signs for a payment of ten plain tokens out of them. -/
def signedTen (granted : ℕ → Bool) : Transaction :=
  (walletSignTx (sampleLibraries []) sampleHost granted (Bytes.zero 32)
    ⟨walletBuildInputs (unspentOutputsRequiredOutputs sevenAndFive 10 plain), sampleTransaction.outputs,
      edSignaturesInit⟩ (unspentOutputsRequiredOutputs sevenAndFive 10 plain)).2

/-- Where both entries get memory it signs for all three inputs. -/
theorem walletSignTx_complete_iff_two :
    SigningComplete (sampleLibraries []) (fun _ => sampleHost) (signedTen fun _ => true) :=
  (walletSignTx_complete_iff (sampleLibraries []) transparentSodium_verifiesOwnSignatures
    (smallWallet fivePlain) sevenAndFive 10 plain (by decide) _ rfl sampleHost
    (by rw [txEssence_isSome_iff]; exact ⟨rfl, rfl⟩) (fun _ => true) (fun _ => sampleHost)).mpr
    fun _ _ => rfl

/-- Where the second entry is refused its memory the wallet has signed for the first address alone, and says
nothing of it. -/
theorem walletSignTx_drops_refused_entry :
    ¬ ∀ (libs : Libraries) (w : Wallet) (t : UnspentOutputs) (requiredBalance : UInt64) (color : Color)
      (tx : Transaction) (host : Host) (granted : ℕ → Bool) (validHost : ℕ → Host),
      libs.sodium.VerifiesOwnSignatures →
        (unspentOutputsRequiredOutputs t requiredBalance color).isEmpty = false →
          tx.inputs = walletBuildInputs (unspentOutputsRequiredOutputs t requiredBalance color) →
            (txEssence host tx).isSome →
              SigningComplete libs validHost (walletSignTx libs host granted w.addrManager.seed tx
                (unspentOutputsRequiredOutputs t requiredBalance color)).2 := by
  intro h
  have hcomplete := h (sampleLibraries []) (smallWallet fivePlain) sevenAndFive 10 plain
    ⟨walletBuildInputs (unspentOutputsRequiredOutputs sevenAndFive 10 plain), sampleTransaction.outputs,
      edSignaturesInit⟩ sampleHost (fun call => call = 0) (fun _ => sampleHost)
    transparentSodium_verifiesOwnSignatures (by decide) rfl
    (by rw [txEssence_isSome_iff]; exact ⟨rfl, rfl⟩)
  have hrefused : txSignautresValid transparentSodium (fun _ => sampleHost)
      (signedTen fun call => call = 0) = false := by decide +kernel
  exact Bool.noConfusion (hrefused.symm.trans hcomplete.2)

end Goshimmer
