import Goshimmer.Client.Service
import Goshimmer.Core.UnspentOutputs

/-!
# Asking the node for the outputs of addresses

`client/api/get_unspent_outputs.c`. The reply lists addresses with their outputs and the outputs
with their balances. The text and byte buffers are locals declared outside the loops, so an
element whose text is missing or does not decode sees what an earlier element left in them. The
return code is a local of the outer loop as well: an element whose output ids are not an array
ends the call with whatever code the element before it had set. Every entry gets index 0. The memory
of the entries is granted, as in the tables they are added to.
-/

namespace Goshimmer

/-- The memory behind the text buffers of the decoder. -/
structure BufferPast where
  addrStr : List Byte
  outputIdStr : List Byte
  colorStr : List Byte

/-- The buffers of `deser_output_ids`, which keep their contents from one element to the next. -/
structure IdBuffers where
  colorStr : Bytes 48
  outputIdStr : Bytes 96
  outputId : OutputId

/-- The initialisers of the buffers. -/
def IdBuffers.zero : IdBuffers := ⟨Bytes.zero 48, Bytes.zero 96, Bytes.zero (33 + 32)⟩

/-- The elements of an array, as `cJSON_IsArray` and `cJSON_ArrayForEach` see them. -/
def CJson.elements : CJson → Option (List CJson)
  | .array elements => some elements
  | _ => none

/-- The inclusion state of an output element. The source reads `solid` under the key `rejected`. -/
def deserInclusionState (idsElm : CJson) : InclusionState :=
  match idsElm.getObjectItemCaseSensitive "inclusion_state" with
  | none => ⟨false, false, false, false, false, false, false⟩
  | some jState =>
    { solid := (jsonGetBoolean jState "rejected" false).2
      confirmed := (jsonGetBoolean jState "confirmed" false).2
      rejected := (jsonGetBoolean jState "rejected" false).2
      liked := (jsonGetBoolean jState "liked" false).2
      conflicting := (jsonGetBoolean jState "conflicting" false).2
      finalized := (jsonGetBoolean jState "finalized" false).2
      preferred := (jsonGetBoolean jState "preferred" false).2 }

variable (libs : Libraries) (past : BufferPast)

/-- The loop body of `deser_output_ids` for one balance. -/
def deserBalance (acc : Bytes 48 × BalanceHt) (balElm : CJson) : Bytes 48 × BalanceHt :=
  let value := (jsonGetInt64 libs.cjson balElm "value" 0).2
  let colorStr := (jsonGetString balElm "color" acc.1).2
  let color : Color := Bytes.zero 32
  let color :=
    if colorStr.val.take 4 ≠ cText "IOTA" then
      (balanceColorFromBase58 libs.base58 (cString past.colorStr colorStr) color).2
    else color
  (colorStr, (balanceHtAdd acc.2 color value).2)

/-- The loop body of `deser_output_ids`. A member `balances` which is not an array ends the call. -/
def deserOutputId (acc : IdBuffers × OutputIds) (idsElm : CJson) : Option (IdBuffers × OutputIds) :=
  let outputIdStr := (jsonGetString idsElm "id" acc.1.outputIdStr).2
  let outputId :=
    (txOutputIdFromBase58 libs.base58 (cString past.outputIdStr outputIdStr) acc.1.outputId).2
  let st := deserInclusionState idsElm
  match idsElm.getObjectItemCaseSensitive "balances" with
  | none =>
    some (⟨acc.1.colorStr, outputIdStr, outputId⟩, (outputIdsAdd acc.2 outputId.txId balanceHtInit st).2)
  | some jBalances => do
    let elements ← jBalances.elements
    let (colorStr, balances) := elements.foldl (deserBalance libs past) (acc.1.colorStr, balanceHtInit)
    some (⟨colorStr, outputIdStr, outputId⟩, (outputIdsAdd acc.2 outputId.txId balances st).2)

/-- `deser_output_ids` into an empty table; after its return code -1 the caller frees the table. -/
def deserOutputIds (jIds : List CJson) : Option OutputIds :=
  (jIds.foldlM (deserOutputId libs past) (IdBuffers.zero, outputIdsInit)).map Prod.snd

/-- The loop of `deser_unspent_outputs` with its return code, its two buffers and the table. -/
def deserUnspentLoop :
    List CJson → Int → Bytes 48 → Address → UnspentOutputs → Int × UnspentOutputs
  | [], _, _, _, unspent => (0, unspent)
  | unspentElm :: rest, ret, addrStr, addr, unspent =>
    let addrStr := (jsonGetString unspentElm "address" addrStr).2
    let addr := (addressFromBase58 libs.base58 (cString past.addrStr addrStr) addr).2
    match unspentElm.getObjectItemCaseSensitive "output_ids" with
    | none => deserUnspentLoop rest ret addrStr addr (unspentOutputsAdd unspent addr 0 outputIdsInit).2
    | some jIds =>
      match jIds.elements with
      | none => (ret, unspent)
      | some elements =>
        match deserOutputIds libs past elements with
        | none => (-1, unspent)
        | some ids => deserUnspentLoop rest 0 addrStr addr (unspentOutputsAdd unspent addr 0 ids).2

/-- `deser_unspent_outputs`. An error response counts as a success without entries. -/
def deserUnspentOutputs (body : List Byte) (unspent : UnspentOutputs) : Int × UnspentOutputs :=
  match libs.cjson.parseBody body with
  | none => (-1, unspent)
  | some jsonObj =>
    match deserError jsonObj with
    | some _ => (0, unspent)
    | none =>
      match (jsonObj.getObjectItemCaseSensitive "unspent_outputs").bind CJson.elements with
      | none => (-1, unspent)
      | some [] => (-1, unspent)
      | some elements => deserUnspentLoop libs past elements (-1) (Bytes.zero 48) (Bytes.zero 33) unspent

/-- `request_builder` of this call: the addresses in base58. -/
def unspentOutputsRequest (addresses : List AddressT) : Option (List Byte) :=
  libs.cjson.printUnformatted (.object [("addresses",
    .array (addresses.map fun addr => .string (address2Base58 libs.base58 addr.addr)))])

/-- `get_unspent_outputs`. -/
def getUnspentOutputs (node : Node) (conf : TangleClientConf) (addrs : List AddressT)
    (unspent : UnspentOutputs) : Int × UnspentOutputs :=
  match unspentOutputsRequest libs addrs with
  | none => (-1, unspent)
  | some req =>
    match node (conf.request "value/unspentOutputs" req) with
    | none => (-1, unspent)
    | some res => deserUnspentOutputs libs past res unspent

/-- Every entry has index 0 and is unspent. -/
def UnspentOutputs.Unplaced (t : UnspentOutputs) : Prop :=
  ∀ elm ∈ t.entries, elm.addrIndex = 0 ∧ elm.spent = false

/-- Adding an entry with index 0 keeps every index at 0. -/
theorem UnspentOutputs.Unplaced.add {t : UnspentOutputs} (h : t.Unplaced) (addr : Address)
    (ids : OutputIds) : (unspentOutputsAdd t addr 0 ids).2.Unplaced := by
  intro elm helm
  rw [unspentOutputsAdd_snd, InsertionTable.mem_entries_insertNew] at helm
  rcases helm with hold | ⟨rfl, -⟩
  · exact h elm hold
  · exact ⟨rfl, rfl⟩

/-- The loop over the addresses gives out no index but 0. -/
theorem unplaced_deserUnspentLoop (elements : List CJson) (ret : Int) (addrStr : Bytes 48)
    (addr : Address) {unspent : UnspentOutputs} (h : unspent.Unplaced) :
    (deserUnspentLoop libs past elements ret addrStr addr unspent).2.Unplaced := by
  induction elements generalizing ret addrStr addr unspent with
  | nil => exact h
  | cons unspentElm rest ih =>
    unfold deserUnspentLoop
    dsimp only
    split
    · exact ih _ _ _ (h.add _ _)
    · split
      · exact h
      · split
        · exact h
        · exact ih _ _ _ (h.add _ _)

/-- What a reply decodes to has index 0 everywhere and nothing spent. -/
theorem unplaced_getUnspentOutputs (node : Node) (conf : TangleClientConf) (addrs : List AddressT)
    {unspent : UnspentOutputs} (h : unspent.Unplaced) :
    (getUnspentOutputs libs past node conf addrs unspent).2.Unplaced := by
  unfold getUnspentOutputs deserUnspentOutputs
  split
  · exact h
  · split
    · exact h
    · split
      · exact h
      · split
        · exact h
        · split
          · exact h
          · exact h
          · exact unplaced_deserUnspentLoop libs past _ _ _ _ h

end Goshimmer
