import Goshimmer.Core.Address
import Goshimmer.Core.Balance
import Goshimmer.Core.OutputIds
import Goshimmer.Utils.Base64

/-!
# Transactions

`core/transaction.c` and `core/signatures.c`. A transaction lists the output ids it consumes,
the outputs it makes and a table of signatures keyed by address. The signed message, the
essence, is written into a block sized by a first pass over the transaction. Validation looks
up a signature entry for the address in front of every input and checks it over the essence,
which it computes anew for each input.

The arrays of inputs and outputs exist in every transaction modelled here. A null signature
table is the empty one.
-/

namespace Goshimmer

/-- An output id: `byte_t[TX_OUTPUT_ID_BYTES]`, an address followed by a transaction id. -/
abbrev OutputId := Bytes (33 + 32)

/-- `tx_output_id`. -/
def txOutputId (addr : Address) (id : TxId) : OutputId := addr.append id

/-- The address in front of an output id, where `ed_signatures_find` reads its key. -/
def OutputId.address (outputId : OutputId) : Address := Bytes.front outputId

/-- The transaction id behind the address. -/
def OutputId.txId (outputId : OutputId) : TxId := Bytes.back outputId

/-- The address which an output id was made from is in front. -/
@[simp] theorem OutputId.address_txOutputId (addr : Address) (id : TxId) :
    (txOutputId addr id).address = addr := Bytes.front_append addr id

/-- The transaction id which an output id was made from is behind. -/
@[simp] theorem OutputId.txId_txOutputId (addr : Address) (id : TxId) :
    (txOutputId addr id).txId = id := Bytes.back_append addr id

/-- `tx_output_t`. -/
structure TxOutput where
  addrIndex : UInt64
  address : Address
  balances : List Balance
  deriving DecidableEq

/-- `ed_signature_t`. -/
structure EdSignature where
  address : Address
  pubKey : PublicKey
  signature : Signature
  deriving DecidableEq

/-- `ed_signature_t *`. -/
abbrev EdSignatures := InsertionTable EdSignature.address

/-- `ed_signatures_init`. -/
def edSignaturesInit : EdSignatures := .empty

/-- `ed_signatures_find`. -/
def edSignaturesFind (t : EdSignatures) (addr : Address) : Option EdSignature := t.find addr

/-- `ed_signatures_add`: a present address is refused, and so is one whose entry gets no memory; `granted` is
the outcome of the request for it. -/
def edSignaturesAdd (granted : Bool) (t : EdSignatures) (addr : Address) (pubKey : PublicKey)
    (sig : Signature) : Int × EdSignatures :=
  match edSignaturesFind t addr with
  | some _ => (-1, t)
  | none => if granted then (0, t.insertNew ⟨addr, pubKey, sig⟩) else (-1, t)

/-- Whatever the return code, the table afterwards is the guarded insertion of an entry which gets memory. -/
theorem edSignaturesAdd_snd (granted : Bool) (t : EdSignatures) (addr : Address) (pubKey : PublicKey)
    (sig : Signature) :
    (edSignaturesAdd granted t addr pubKey sig).2 =
      if granted then t.insertNew ⟨addr, pubKey, sig⟩ else t := by
  unfold edSignaturesAdd edSignaturesFind
  cases h : t.find addr with
  | none => cases granted <;> rfl
  | some e =>
    have hkey : t.find (EdSignature.address ⟨addr, pubKey, sig⟩) = some e := h
    rw [InsertionTable.insertNew_of_some hkey, ite_self]

/-- `transaction_t`. -/
structure Transaction where
  inputs : List OutputId
  outputs : List TxOutput
  signatures : EdSignatures
  deriving DecidableEq

/-- What a call of `tx_essence` finds on the host: the byte order, and the memory it gets. -/
structure Host where
  littleEndian : Bool
  alloc : Allocation

/-- The first pass of `tx_essence`: the size of the block, in `size_t` arithmetic. -/
def essenceLength (tx : Transaction) : UInt64 :=
  let len : UInt64 := 4
  let len := len + UInt64.ofNat tx.inputs.length * 65
  let len := len + 4
  let len := tx.outputs.foldl
    (fun len out => len + 33 + 4 + UInt64.ofNat out.balances.length * (8 + 32)) len
  len + 4

/-- A number stored in a `uint32_t` and copied to the running offset. -/
def putU32 (w : BlockWriter Byte) (value : ℕ) : BlockWriter Byte :=
  w.put (memoryImage 4 (UInt32.ofNat value).toNat)

/-- The innermost loop body of the second pass: a value, then its colour. -/
def putBalance (w : BlockWriter Byte) (balance : Balance) : BlockWriter Byte :=
  (w.put (memoryImage 8 balance.value.toUInt64.toNat)).put balance.color.val

/-- The loop body of the second pass for one output. -/
def putOutput (w : BlockWriter Byte) (out : TxOutput) : BlockWriter Byte :=
  let w := w.put out.address.val
  let w := putU32 w out.balances.length
  out.balances.foldl putBalance w

/-- The second pass of `tx_essence`, on a little-endian host. -/
def essenceWriter (block : List Byte) (tx : Transaction) : BlockWriter Byte :=
  let w := putU32 (.start block) tx.inputs.length
  let w := tx.inputs.foldl (fun w b => w.put b.val) w
  let w := putU32 w tx.outputs.length
  let w := tx.outputs.foldl putOutput w
  w.put (List.replicate 4 0)

/-- `tx_essence`. -/
def txEssence (host : Host) (tx : Transaction) : Option ByteBuf :=
  let len := essenceLength tx
  if host.alloc.granted then
    if host.littleEndian then
      some ⟨(essenceWriter (host.alloc.block len.toNat) tx).block, len, len⟩
    else none
  else none

/-- The loop of `tx_signautres_valid`; `host call` is what the numbered call of `tx_essence` finds. -/
def txSignautresValidLoop (sodium : Sodium) (host : ℕ → Host) (tx : Transaction) :
    ℕ → List OutputId → Bool
  | _, [] => true
  | call, input :: rest =>
    match edSignaturesFind tx.signatures input.address with
    | none => false
    | some sig =>
      match txEssence (host call) tx with
      | some essence =>
        if signVerifySignature sodium sig.signature essence.contents sig.pubKey = false then false
        else txSignautresValidLoop sodium host tx (call + 1) rest
      -- without an essence the signature is not looked at
      | none => txSignautresValidLoop sodium host tx (call + 1) rest

/-- `tx_signautres_valid`. -/
def txSignautresValid (sodium : Sodium) (host : ℕ → Host) (tx : Transaction) : Bool :=
  if tx.signatures.isEmpty then false else txSignautresValidLoop sodium host tx 0 tx.inputs

/-- The loop of `tx_2_base64` which appends one signature after the other. -/
def appendSignatures (alloc : Allocation) (bytes : ByteBuf) (signatures : List EdSignature) : ByteBuf :=
  signatures.foldl
    (fun bytes elm =>
      let bytes := (byteBufAppend alloc bytes [addressVerEd25519]).2
      let bytes := (byteBufAppend alloc bytes elm.pubKey.val).2
      (byteBufAppend alloc bytes elm.signature.val).2)
    bytes

/-- `tx_2_base64`. Without an essence the function dereferences a null pointer. -/
def tx2Base64 (host : Host) (tx : Transaction) : Option ByteBuf := do
  let bytes ← txEssence host tx
  let signatureBytes := UInt64.ofNat tx.signatures.count * (1 + 32 + 64)
  let txBytesLen := bytes.len + signatureBytes + 1
  let bytes := (byteBufReserve host.alloc bytes txBytesLen).2
  let bytes := appendSignatures host.alloc bytes tx.signatures.entries
  let bytes := (byteBufAppend host.alloc bytes [0]).2
  byteBuf2Base64 host.alloc bytes

/-- The essence does not look at the signatures. -/
theorem txEssence_signatures (host : Host) (tx : Transaction) (signatures : EdSignatures) :
    txEssence host { tx with signatures := signatures } = txEssence host tx := rfl

end Goshimmer
