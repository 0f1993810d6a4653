import Goshimmer.Client.Listing
import Goshimmer.Client.SampleLibraries

/-!
# Decoding what was written down

A table of unspent outputs written down in the format of the node is a reply which lists every
entry once, so nothing is refused when it is decoded. The addresses, the ids, the balances and six
of the flags come back; the flag `solid` comes back as what `rejected` was.
-/

namespace Goshimmer

variable (base58 : Base58)

/-- A balance in the format of the node; the zero colour is written by its name. -/
def balanceDocument (b : Balance) : CJson :=
  .object [("value", .number (.finite b.value.toInt)),
    ("color", .string (if b.color = Bytes.zero 32 then cText "IOTA" else base58.b58enc b.color.val))]

/-- An inclusion state in the format of the node. -/
def stateDocument (st : InclusionState) : CJson :=
  .object [("solid", .bool st.solid), ("confirmed", .bool st.confirmed), ("rejected", .bool st.rejected),
    ("liked", .bool st.liked), ("conflicting", .bool st.conflicting), ("finalized", .bool st.finalized),
    ("preferred", .bool st.preferred)]

/-- An output in the format of the node. -/
def outputDocument (o : OutputListing) : CJson :=
  .object [("id", .string (base58.b58enc o.outputId.val)),
    ("balances", .array (o.balances.map (balanceDocument base58))),
    ("inclusion_state", stateDocument o.st)]

/-- An address in the format of the node. -/
def addressDocument (a : AddressListing) : CJson :=
  .object [("address", .string (base58.b58enc a.addr.val)),
    ("output_ids", .array (a.outputs.map (outputDocument base58)))]

/-- A reply in the format of the node. -/
def replyDocument (listing : List AddressListing) : CJson :=
  .object [("unspent_outputs", .array (listing.map (addressDocument base58)))]

/-- The listing of an output of an address. -/
def OutputIdEntry.listing (addr : Address) (o : OutputIdEntry) : OutputListing :=
  ⟨txOutputId addr o.id, o.st, o.balances.entries.map fun b => ⟨b.value, b.color⟩⟩

/-- The listing of an address. -/
def UnspentOutputEntry.listing (e : UnspentOutputEntry) : AddressListing :=
  ⟨e.addr, e.ids.entries.map (OutputIdEntry.listing e.addr)⟩

/-- A table in the format of the node. -/
def unspentDocument (t : UnspentOutputs) : CJson :=
  replyDocument base58 (t.entries.map UnspentOutputEntry.listing)

/-- Every value is a number which a `double` holds exactly. -/
def UnspentOutputs.ExactValues (t : UnspentOutputs) : Prop :=
  ∀ e ∈ t.entries, ∀ o ∈ e.ids.entries, ∀ b ∈ o.balances.entries, 0 ≤ b.value.toInt ∧ b.value.toInt ≤ 2 ^ 53

/-- The addresses of a table with their outputs. -/
def UnspentOutputs.contents (t : UnspentOutputs) : List (Address × OutputIds) :=
  t.entries.map fun e => (e.addr, e.ids)

/-! ## What a document lists -/

variable (libs : Libraries) (past : BufferPast)

/-- A value which is not negative and fits is read back. -/
theorem jsonGetInt64_of_toInt {elm : CJson} {key : String} {value : Int64}
    (hmember : elm.getObjectItemCaseSensitive key = some (.number (.finite value.toInt)))
    (hnonneg : 0 ≤ value.toInt) (num : Int64) : jsonGetInt64 libs.cjson elm key num = (0, value) := by
  have hbound : (value.toInt : ℚ) < 2 ^ 63 := by
    have h : value.toInt < 2 ^ 63 := value.toInt_lt
    exact_mod_cast h
  have hpositive : (Double.finite (value.toInt : ℚ)).nonneg = true := by
    rw [Double.nonneg, decide_eq_true_eq]
    exact_mod_cast hnonneg
  rw [jsonGetInt64, hmember]
  simp only [hpositive, if_true, CJsonLib.castInt64, if_pos hbound]
  rw [Rat.floor_intCast, Int64.ofInt_toInt]

variable (hbase58 : libs.base58.Lawful)

include hbase58 in
/-- The document of a balance lists it. -/
theorem lists_balanceDocument {b : Balance} (hvalue : 0 ≤ b.value.toInt) :
    ListsBalance libs past (balanceDocument libs.base58 b) b where
  value := jsonGetInt64_of_toInt libs rfl hvalue 0
  color := by
    by_cases hzero : b.color = Bytes.zero 32
    · refine Or.inl ⟨cText "IOTA", ?_, by decide, hzero⟩
      simp [balanceDocument, CJson.getObjectItemCaseSensitive, hzero]
    · refine Or.inr (.of_b58enc libs hbase58 b.color ?_ _ (by decide))
      simp [balanceDocument, CJson.getObjectItemCaseSensitive, hzero]

include hbase58 in
/-- The document of an output lists it. -/
theorem lists_outputDocument {o : OutputListing} (hvalues : ∀ b ∈ o.balances, 0 ≤ b.value.toInt) :
    ListsOutput libs past (outputDocument libs.base58 o) o where
  outputId := .of_b58enc libs hbase58 o.outputId rfl _ (by decide)
  st := rfl
  balances := by
    refine ⟨_, rfl, List.forall₂_map_left_iff.mpr (List.forall₂_same.mpr fun b hb => ?_)⟩
    exact lists_balanceDocument libs past hbase58 (hvalues b hb)

include hbase58 in
/-- The document of an address lists it. -/
theorem lists_addressDocument {a : AddressListing}
    (hvalues : ∀ o ∈ a.outputs, ∀ b ∈ o.balances, 0 ≤ b.value.toInt) :
    ListsAddress libs past (addressDocument libs.base58 a) a where
  addr := .of_b58enc libs hbase58 a.addr rfl _ (by decide)
  outputs := by
    refine ⟨_, rfl, List.forall₂_map_left_iff.mpr (List.forall₂_same.mpr fun o ho => ?_)⟩
    exact lists_outputDocument libs past hbase58 (hvalues o ho)

include hbase58 in
/-- The document of a reply lists it. -/
theorem lists_replyDocument {listing : List AddressListing} (hnonempty : listing ≠ [])
    (hvalues : ∀ a ∈ listing, ∀ o ∈ a.outputs, ∀ b ∈ o.balances, 0 ≤ b.value.toInt) :
    ListsReply libs past (replyDocument libs.base58 listing) listing := by
  refine ⟨_, rfl, ?_, List.forall₂_map_left_iff.mpr (List.forall₂_same.mpr fun a ha => ?_)⟩
  · rwa [ne_eq, List.map_eq_nil_iff]
  · exact lists_addressDocument libs past hbase58 (hvalues a ha)

include hbase58 in
/-- The document of a table lists it. -/
theorem lists_unspentDocument {t : UnspentOutputs} (hnonempty : t.isEmpty = false) (hvalues : t.ExactValues) :
    ListsReply libs past (unspentDocument libs.base58 t) (t.entries.map UnspentOutputEntry.listing) := by
  apply lists_replyDocument libs past hbase58
  · rw [ne_eq, List.map_eq_nil_iff]
    simpa [InsertionTable.isEmpty] using hnonempty
  · intro a ha o ho b hb
    obtain ⟨e, he, rfl⟩ := List.mem_map.mp ha
    obtain ⟨output, houtput, rfl⟩ := List.mem_map.mp ho
    obtain ⟨entry, hentry, rfl⟩ := List.mem_map.mp hb
    exact (hvalues e he output houtput entry hentry).1

/-! ## The table of the listing -/

/-- The table of the listed balances is the table. -/
theorem balancesTable_listing (t : BalanceHt) :
    balancesTable (t.entries.map fun b => ⟨b.value, b.color⟩) = t := by
  rw [balancesTable, List.foldl_map]
  exact t.foldl_insertNew_entries

/-- The outputs of an address after decoding: every inclusion state is read. -/
def readOutputs (t : OutputIds) : OutputIds := t.mapEntries (fun o => { o with st := o.st.read }) fun _ => rfl

/-- The table of the listed outputs has every inclusion state read. -/
theorem outputsTable_listing (addr : Address) (t : OutputIds) :
    outputsTable (t.entries.map (OutputIdEntry.listing addr)) = readOutputs t := by
  have hentry : ∀ o : OutputIdEntry, (o.listing addr).entry = { o with st := o.st.read } := by
    intro o
    rw [OutputListing.entry, OutputIdEntry.listing, OutputId.txId_txOutputId, balancesTable_listing]
  have hkeys : ((t.entries.map (OutputIdEntry.listing addr)).map fun o => o.outputId.txId).Nodup := by
    rw [List.map_map]
    have hid : ((fun o : OutputListing => o.outputId.txId) ∘ OutputIdEntry.listing addr) = OutputIdEntry.id := by
      funext o
      exact OutputId.txId_txOutputId addr o.id
    rw [hid]
    exact t.nodup
  apply InsertionTable.ext
  rw [entries_outputsTable, firstOfKey_of_nodup _ _ _ hkeys, List.map_map]
  exact List.map_congr_left fun o _ => hentry o

/-- The table of the listing has the addresses of the table, and their outputs read. -/
theorem contents_listingTable (t : UnspentOutputs) :
    (listingTable (t.entries.map UnspentOutputEntry.listing)).contents =
      t.entries.map fun e => (e.addr, readOutputs e.ids) := by
  have hkeys : ((t.entries.map UnspentOutputEntry.listing).map AddressListing.addr).Nodup := by
    rw [List.map_map]
    exact t.nodup
  rw [UnspentOutputs.contents, entries_listingTable, firstOfKey_of_nodup _ _ _ hkeys, List.map_map, List.map_map]
  refine List.map_congr_left fun e _ => ?_
  exact congrArg (Prod.mk e.addr) (outputsTable_listing e.addr e.ids)

/-- Reading an inclusion state changes nothing exactly when `solid` is what `rejected` is. -/
theorem InclusionState.read_eq_iff (st : InclusionState) : st.read = st ↔ st.solid = st.rejected := by
  cases st
  simp [InclusionState.read, eq_comm]

/-- Reading the inclusion states of outputs changes nothing exactly when each `solid`
is what `rejected` is. -/
theorem readOutputs_eq_iff (t : OutputIds) :
    readOutputs t = t ↔ ∀ o ∈ t.entries, o.st.solid = o.st.rejected := by
  rw [InsertionTable.ext_iff]
  change t.entries.map (fun o => { o with st := o.st.read }) = t.entries ↔ _
  conv_lhs => rhs; rw [← List.map_id t.entries]
  rw [List.map_inj_left]
  refine forall₂_congr fun o _ => ?_
  rw [← InclusionState.read_eq_iff]
  constructor
  · exact fun h => congrArg OutputIdEntry.st h
  · intro h
    rw [h, id_eq]

include hbase58 in
/-- A table which was written down in the format of the node is decoded with the code 0, and it is
decoded to the same addresses, ids, balances and flags exactly when, for every output, `solid` is
what `rejected` is. -/
theorem deserUnspentOutputs_faithful_iff {t : UnspentOutputs} (hnonempty : t.isEmpty = false)
    (hvalues : t.ExactValues) {body : List Byte}
    (hparse : libs.cjson.parseBody body = some (unspentDocument libs.base58 t)) :
    ((deserUnspentOutputs libs past body unspentOutputsInit).1 = 0 ∧
        (deserUnspentOutputs libs past body unspentOutputsInit).2.contents = t.contents) ↔
      ∀ e ∈ t.entries, ∀ o ∈ e.ids.entries, o.st.solid = o.st.rejected := by
  rw [deserUnspentOutputs_of_lists libs past hbase58 hparse rfl
    (lists_unspentDocument libs past hbase58 hnonempty hvalues)]
  rw [contents_listingTable, UnspentOutputs.contents, List.map_inj_left, and_iff_right rfl]
  refine forall₂_congr fun e _ => ?_
  rw [Prod.mk.injEq, and_iff_right rfl, readOutputs_eq_iff]

/-- The sample base58. -/
def sampleBase58 : Base58 := ⟨base58Encode, base58Decode⟩

/-- One address with one output of five plain tokens, which is solid and confirmed. -/
def solidTable : UnspentOutputs :=
  unspentOutputsInit.insertNew ⟨0, addressGet transparentSodium (Bytes.zero 32) 0, false,
    outputIdsInit.insertNew ⟨Bytes.zero 32, balanceHtInit.insertNew ⟨Bytes.zero 32, 5⟩,
      ⟨true, true, false, false, false, false, false⟩⟩⟩

/-- A text for its document. -/
def solidReply : List Byte :=
  cText "\x7b\"unspent_outputs\":[\x7b\"address\":\"" ++
    base58Encode (addressGet transparentSodium (Bytes.zero 32) 0).val ++
    cText "\",\"output_ids\":[\x7b\"id\":\"" ++
    base58Encode (txOutputId (addressGet transparentSodium (Bytes.zero 32) 0) (Bytes.zero 32)).val ++
    cText "\",\"balances\":[\x7b\"value\":5,\"color\":\"IOTA\"\x7d],\"inclusion_state\":\x7b" ++
    cText "\"solid\":true,\"confirmed\":true,\"rejected\":false,\"liked\":false," ++
    cText "\"conflicting\":false,\"finalized\":false,\"preferred\":false\x7d\x7d]\x7d]\x7d"

/-- The libraries with a parser which knows this text. -/
def solidLibraries : Libraries := sampleLibraries [(solidReply, unspentDocument sampleBase58 solidTable)]

/-- The parser knows this text. -/
theorem parseBody_solidReply :
    solidLibraries.cjson.parseBody solidReply = some (unspentDocument solidLibraries.base58 solidTable) :=
  parseBody_sampleLibraries _ (by decide) (by decide +kernel)

/-- The values of this table are exact. -/
theorem exactValues_solidTable : solidTable.ExactValues := by
  unfold UnspentOutputs.ExactValues
  decide

/-- The characterisation for this table. -/
theorem deserUnspentOutputs_faithful_iff_solidTable :
    ((deserUnspentOutputs solidLibraries ⟨[], [], []⟩ solidReply unspentOutputsInit).1 = 0 ∧
        (deserUnspentOutputs solidLibraries ⟨[], [], []⟩ solidReply unspentOutputsInit).2.contents =
          solidTable.contents) ↔
      ∀ e ∈ solidTable.entries, ∀ o ∈ e.ids.entries, o.st.solid = o.st.rejected :=
  deserUnspentOutputs_faithful_iff solidLibraries ⟨[], [], []⟩ base58Lawful_sample (by decide)
    exactValues_solidTable parseBody_solidReply

/-- An output which is solid comes back as one which is not. -/
theorem solid_flag_lost :
    ¬ ∀ (libs : Libraries) (past : BufferPast) (t : UnspentOutputs) (body : List Byte),
      libs.base58.Lawful → t.isEmpty = false → t.ExactValues →
        libs.cjson.parseBody body = some (unspentDocument libs.base58 t) →
          (deserUnspentOutputs libs past body unspentOutputsInit).1 = 0 ∧
            (deserUnspentOutputs libs past body unspentOutputsInit).2.contents = t.contents := by
  intro h
  have hfaithful := (h solidLibraries ⟨[], [], []⟩ solidTable solidReply base58Lawful_sample
    (by decide) exactValues_solidTable parseBody_solidReply).2
  rw [deserUnspentOutputs_of_lists solidLibraries _ base58Lawful_sample parseBody_solidReply rfl
    (lists_unspentDocument solidLibraries _ base58Lawful_sample (by decide) exactValues_solidTable)]
    at hfaithful
  revert hfaithful
  decide

end Goshimmer
