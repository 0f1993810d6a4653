import Goshimmer.Client.SendTransaction
import Goshimmer.Wallet.Wallet

/-!
# Sending funds

`wallet_send_funds` and the functions it builds a transaction with. Every output id of a selected
address becomes an input, the receiver and possibly a remainder address get an output each, and
every selected address signs. The search for a remainder address walks the indices from the first
unspent one on and makes a new address when it reaches the largest index, which raises its own
bound.
-/

namespace Goshimmer

/-- `send_funds_op_t`. -/
structure SendFundsOp where
  amount : UInt64
  receiver : Address
  color : Color
  remainder : Address
  deriving DecidableEq

/-- `wallet_build_inputs`. -/
def walletBuildInputs (unspent : UnspentOutputs) : List OutputId :=
  unspent.entries.flatMap fun input => input.ids.entries.map fun id => txOutputId input.addr id.id

variable (libs : Libraries)

/-- The loop of `wallet_build_outputs` which chooses the remainder address. It carries the counter,
the address manager, `dest->remainder` and `out.addr_index`. -/
def remainderSearch (unspent : UnspentOutputs) :
    ℕ → UInt64 → WalletAm → Address → UInt64 → Option (WalletAm × Address × UInt64)
  | 0, _, _, _, _ => none
  | fuel + 1, i, am, remainder, addrIndex =>
    if i ≤ am.lastAddrIndex then
      let remainder := addressGet libs.sodium am.seed i
      if (unspentOutputsFind unspent remainder).isNone then some (am, remainder, i)
      else if i = am.lastAddrIndex then
        let (am, remainder) := amGetNewAddress libs.sodium am
        remainderSearch unspent fuel (i + 1) am remainder (am.lastAddrIndex + 1)
      else remainderSearch unspent fuel (i + 1) am remainder addrIndex
    else some (am, remainder, addrIndex)

/-- More iterations than the counter has values: a search which uses them all up goes round in
circles. -/
def searchFuel : ℕ := 2 ^ 64 + 1

/-- An output with a single balance. -/
def singleOutput (addrIndex : UInt64) (address : Address) (value : Int64) (color : Color) : TxOutput :=
  ⟨addrIndex, address, [⟨value, color⟩]⟩

/-- The output which `wallet_build_outputs` makes for the remainder, unless its search goes on for
ever, together with the flag `recv_eq_remainder`. -/
def buildRemainder (am : WalletAm) (dest : SendFundsOp) (unspent : UnspentOutputs) (outputBalance : UInt64) :
    Option (TxOutput × Bool × WalletAm × SendFundsOp) := do
  let (am, remainder, addrIndex) ←
    remainderSearch libs unspent searchFuel am.firstUnspentIdx am dest.remainder 0
  let dest := { dest with remainder := remainder }
  if dest.receiver = dest.remainder then
    some (singleOutput addrIndex dest.remainder outputBalance.toInt64 dest.color, true, am, dest)
  else
    some (singleOutput addrIndex dest.remainder (outputBalance - dest.amount).toInt64 dest.color,
      false, am, dest)

/-- The output for the receiver. -/
def receiverOutput (dest : SendFundsOp) : TxOutput :=
  singleOutput 0 dest.receiver dest.amount.toInt64 dest.color

/-- `wallet_build_outputs`: the outputs, the address manager and the request afterwards. -/
def walletBuildOutputs (am : WalletAm) (dest : SendFundsOp) (unspent : UnspentOutputs) :
    Option (List TxOutput × WalletAm × SendFundsOp) :=
  let outputBalance := unspentOutputsBalanceWithColor unspent dest.color
  if dest.amount < outputBalance ∧ emptyByteArray dest.remainder then
    (buildRemainder libs am dest unspent outputBalance).map fun (out, recvEqRemainder, am, dest) =>
      (if recvEqRemainder then [out] else [out, receiverOutput dest], am, dest)
  else some ([receiverOutput dest], am, dest)

/-- The loop body of `wallet_sign_tx`, which drops the code of `ed_signatures_add`. -/
def signInput (granted : Bool) (seed : Seed) (essence : ByteBuf) (signatures : EdSignatures)
    (input : UnspentOutputEntry) : EdSignatures :=
  let addrSig := signSignature libs.sodium seed input.addrIndex essence.contents
  let (addrPub, _) := addressEd25519Keypair libs.sodium seed input.addrIndex
  (edSignaturesAdd granted signatures input.addr addrPub addrSig).2

/-- `wallet_sign_tx`; the lists of the transaction exist, and `granted call` is what the numbered call of
`ed_signatures_add` finds when it requests memory. -/
def walletSignTx (host : Host) (granted : ℕ → Bool) (seed : Seed) (tx : Transaction) (inputs : UnspentOutputs) :
    Int × Transaction :=
  match txEssence host tx with
  | none => (-1, tx)
  | some essence =>
    (0, { tx with
      signatures := inputs.entries.zipIdx.foldl
        (fun signatures input => signInput libs (granted input.2) seed essence signatures input.1)
        edSignaturesInit })

/-- A transaction handed to `send_tx_bytes`, its text, and the return code, which only decides what
is printed. -/
structure Submission where
  tx : Transaction
  txBytes : List Byte
  ret : Int

/-- What a call of `wallet_send_funds` leaves behind. -/
structure SendOutcome where
  ret : Int
  wallet : Wallet
  dest : SendFundsOp
  submitted : List Submission

/-- The loop at the end of `wallet_send_funds`. -/
def markConsumed (heap : UInt64 → Byte) (w : Wallet) (consumed : UnspentOutputs) : Wallet :=
  consumed.entries.foldl
    (fun w outputSent =>
      { w with
        unspent := unspentOutputsSetSpent w.unspent outputSent.addr true
        addrManager := amMarkSpentAddress heap w.addrManager outputSent.addrIndex })
    w

variable (env : Env)

/-- The signed transaction of a request, with the address manager and the request afterwards. -/
def buildTransaction (w : Wallet) (dest : SendFundsOp) (consumed : UnspentOutputs) :
    Option (Transaction × WalletAm × SendFundsOp) :=
  (walletBuildOutputs libs w.addrManager dest consumed).map fun (outputs, am, dest) =>
    ((walletSignTx libs env.signHost env.signGranted am.seed
      ⟨walletBuildInputs consumed, outputs, edSignaturesInit⟩ consumed).2, am, dest)

/-- `wallet_send_funds` from the building of the transaction on. -/
def spendConsumed (w : Wallet) (dest : SendFundsOp) (consumed : UnspentOutputs) : Option SendOutcome :=
  match buildTransaction libs env w dest consumed with
  | none => none
  | some (tx, am, dest) =>
    let w := { w with addrManager := am }
    if txSignautresValid libs.sodium env.validHost tx = false then some ⟨-1, w, dest, []⟩
    else
      -- without an essence the call ends by dereferencing a null pointer
      match tx2Base64 env.base64Host tx with
      | none => none
      | some txBytes =>
        let (ret, _) := sendTxBytes libs env.node w.endpoint txBytes.data (Bytes.zero 128)
        some ⟨0, markConsumed env.heap w consumed, dest, [⟨tx, txBytes.data, ret⟩]⟩

/-- The outputs which `wallet_send_funds` selects from the refreshed table. -/
def consumedOutputs (w : Wallet) (dest : SendFundsOp) : UnspentOutputs :=
  unspentOutputsRequiredOutputs w.unspent dest.amount dest.color

/-- `wallet_send_funds`. -/
def walletSendFunds (w : Wallet) (dest : SendFundsOp) : Option SendOutcome :=
  if dest.amount = 0 ∨ emptyByteArray dest.receiver then some ⟨-1, w, dest, []⟩
  else
    match walletRefresh libs env w false with
    | none => none
    | some (_, w) =>
      let consumed := consumedOutputs w dest
      if consumed.isEmpty then some ⟨-1, w, dest, []⟩
      else if unspentOutputsBalanceWithColor consumed dest.color < dest.amount then
        some ⟨-1, w, dest, []⟩
      else spendConsumed libs env w dest consumed

end Goshimmer
