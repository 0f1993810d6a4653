import Goshimmer.Client.Service

/-!
# Handing a transaction to the node

`client/api/send_transaction.c`. The call fails when the request cannot be built or the exchange
fails. The reply is decoded for the id of the transaction, but the verdict of the decoder is
dropped, so the call succeeds whatever the node replied.
-/

namespace Goshimmer

/-- `res_send_tx_t`. -/
abbrev ResSendTx := Bytes 128

variable (libs : Libraries)

/-- `request_builder` of this call: the bytes of the transaction as a text. -/
def sendTransactionRequest (txBytes : List Byte) : Option (List Byte) :=
  libs.cjson.printUnformatted (.object [("txn_bytes", .string (txBytes.takeWhile (· ≠ 0)))])

/-- `deser_send_tx`. -/
def deserSendTx (body : List Byte) (res : ResSendTx) : Int × ResSendTx :=
  match libs.cjson.parseBody body with
  | none => (-1, res)
  | some jsonObj =>
    match deserError jsonObj with
    | some _ => (-1, res)
    | none =>
      match jsonGetString jsonObj "transaction_id" res with
      | (ret, res) => if ret ≠ 0 then (-1, res) else (ret, res)

/-- `send_tx_bytes`. -/
def sendTxBytes (node : Node) (conf : TangleClientConf) (txBytes : List Byte) (res : ResSendTx) :
    Int × ResSendTx :=
  match sendTransactionRequest libs txBytes with
  | none => (-1, res)
  | some req =>
    match node (conf.request "value/sendTransaction" req) with
    | none => (-1, res)
    -- the return code of the decoder is not looked at
    | some reply => (0, (deserSendTx libs reply res).2)

/-- The node accepts a transaction: the exchange succeeds and the reply is a document without an
error message which names the id of the transaction. -/
def NodeAccepts (node : Node) (conf : TangleClientConf) (txBytes : List Byte) : Prop :=
  ∃ req reply jsonObj id, sendTransactionRequest libs txBytes = some req ∧
    node (conf.request "value/sendTransaction" req) = some reply ∧
    libs.cjson.parseBody reply = some jsonObj ∧ deserError jsonObj = none ∧
    jsonObj.getObjectItemCaseSensitive "transaction_id" = some (.string id)

/-- The decoder reports success exactly for the replies by which a node accepts. -/
theorem deserSendTx_eq_zero_iff (body : List Byte) (res : ResSendTx) :
    (deserSendTx libs body res).1 = 0 ↔
      ∃ jsonObj id, libs.cjson.parseBody body = some jsonObj ∧ deserError jsonObj = none ∧
        jsonObj.getObjectItemCaseSensitive "transaction_id" = some (.string id) := by
  unfold deserSendTx
  cases hparse : libs.cjson.parseBody body with
  | none => simp
  | some jsonObj =>
    dsimp only
    cases herror : deserError jsonObj with
    | some msg => simp [herror]
    | none =>
      have hcode : (if (jsonGetString jsonObj "transaction_id" res).1 ≠ 0 then
            (-1, (jsonGetString jsonObj "transaction_id" res).2)
          else jsonGetString jsonObj "transaction_id" res).1 = 0 ↔
          (jsonGetString jsonObj "transaction_id" res).1 = 0 := by
        by_cases h : (jsonGetString jsonObj "transaction_id" res).1 = 0 <;> simp [h]
      refine hcode.trans ((jsonGetString_eq_zero_iff jsonObj "transaction_id" res).trans ?_)
      constructor
      · intro ⟨id, hitem⟩
        exact ⟨jsonObj, id, rfl, herror, hitem⟩
      · intro ⟨_, id, hobj, _, hitem⟩
        obtain rfl := Option.some.inj hobj
        exact ⟨id, hitem⟩

end Goshimmer
