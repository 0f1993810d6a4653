import Goshimmer.Client.Faithful

/-!
# What a decoded reply is worth

The balance of the decoded table and the values of the refused elements together are what the reply
lists, for every colour and in the arithmetic modulo 2^64. An element is refused when an earlier
one has its key: an address which the reply has listed before, a transaction id which the address
has, a colour which the output has. So funds get lost exactly when the refused values do not sum to
zero.
-/

namespace Goshimmer

/-- What a balance adds to the total of a colour. -/
def Balance.worth (color : Color) (b : Balance) : UInt64 := if color = b.color then b.value.toUInt64 else 0

/-- What a listed output adds to the total of a colour, when it is confirmed. -/
def OutputListing.listed (color : Color) (o : OutputListing) : UInt64 :=
  if o.st.confirmed then (o.balances.map (Balance.worth color)).sum else 0

/-- What the outputs of a listed address add to the total of a colour. -/
def AddressListing.listed (color : Color) (a : AddressListing) : UInt64 :=
  (a.outputs.map (OutputListing.listed color)).sum

/-- The total of a colour under the confirmed outputs of a listing. -/
def listedTotal (color : Color) (listing : List AddressListing) : UInt64 :=
  (listing.map (AddressListing.listed color)).sum

/-- What a kept output loses of a colour: the balances whose colour an earlier one has. -/
def OutputListing.lost (color : Color) (o : OutputListing) : UInt64 :=
  if o.st.confirmed then ((repeatOfKey Balance.color [] o.balances).map (Balance.worth color)).sum else 0

/-- What a kept address loses of a colour: the outputs whose transaction id an earlier one has, and
what the others lose. -/
def AddressListing.lost (color : Color) (a : AddressListing) : UInt64 :=
  ((repeatOfKey (fun o => o.outputId.txId) [] a.outputs).map (OutputListing.listed color)).sum +
    ((firstOfKey (fun o => o.outputId.txId) [] a.outputs).map (OutputListing.lost color)).sum

/-- What is lost of a colour: the addresses which were listed before, and what the others lose. -/
def lostTotal (color : Color) (listing : List AddressListing) : UInt64 :=
  ((repeatOfKey AddressListing.addr [] listing).map (AddressListing.listed color)).sum +
    ((firstOfKey AddressListing.addr [] listing).map (AddressListing.lost color)).sum

/-- The table of an output holds the first balance of each colour. -/
theorem balanceHtSumWithColor_balancesTable (balances : List Balance) (color : Color) :
    balanceHtSumWithColor (balancesTable balances) color =
      ((firstOfKey Balance.color [] balances).map (Balance.worth color)).sum := by
  rw [balanceHtSumWithColor, foldl_add_weight_if, zero_add, entries_balancesTable, List.map_map]
  rfl

/-- An output is worth what it keeps and what it loses. -/
theorem OutputListing.kept_add_lost (color : Color) (o : OutputListing) :
    (if o.entry.st.confirmed then balanceHtSumWithColor o.entry.balances color else 0) + o.lost color =
      o.listed color := by
  unfold OutputListing.lost OutputListing.listed
  have hconfirmed : o.entry.st.confirmed = o.st.confirmed := rfl
  rw [hconfirmed]
  by_cases h : o.st.confirmed = true
  · rw [if_pos h, if_pos h, if_pos h, OutputListing.entry, balanceHtSumWithColor_balancesTable,
      ← sum_eq_sum_firstOfKey_add]
  · rw [if_neg h, if_neg h, if_neg h, add_zero]

/-- An address is worth what it keeps and what it loses. -/
theorem AddressListing.kept_add_lost (color : Color) (a : AddressListing) :
    outputIdsBalanceWithColor (outputsTable a.outputs) color + a.lost color = a.listed color := by
  unfold AddressListing.lost AddressListing.listed
  rw [outputIdsBalanceWithColor, foldl_add_weight_if, zero_add, entries_outputsTable, List.map_map,
    sum_eq_sum_firstOfKey_add (fun o => o.outputId.txId) (OutputListing.listed color) [] a.outputs,
    add_left_comm, ← List.sum_map_add, add_comm]
  congr 2
  exact List.map_congr_left fun o _ => o.kept_add_lost color

/-- An address without outputs is not counted, and adds nothing where it is. -/
theorem AddressListing.balance_entry (color : Color) (a : AddressListing) :
    (if a.entry.counts then outputIdsBalanceWithColor a.entry.ids color else 0) =
      outputIdsBalanceWithColor (outputsTable a.outputs) color := by
  by_cases h : a.entry.counts = true
  · rw [if_pos h]
    rfl
  · rw [if_neg h]
    have hempty : (outputsTable a.outputs).entries = [] := by
      simpa [UnspentOutputEntry.counts, AddressListing.entry, InsertionTable.isEmpty] using h
    rw [outputIdsBalanceWithColor, hempty, List.foldl_nil]

/-- A listing is worth what its table shows and what is lost. -/
theorem balance_add_lostTotal (color : Color) (listing : List AddressListing) :
    unspentOutputsBalanceWithColor (listingTable listing) color + lostTotal color listing =
      listedTotal color listing := by
  unfold lostTotal listedTotal
  rw [unspentOutputsBalanceWithColor, foldl_add_weight_if, zero_add, entries_listingTable, List.map_map,
    sum_eq_sum_firstOfKey_add AddressListing.addr (AddressListing.listed color) [] listing,
    add_left_comm, ← List.sum_map_add, add_comm]
  congr 2
  refine List.map_congr_left fun a _ => ?_
  rw [Function.comp_apply, a.balance_entry, a.kept_add_lost]

variable (libs : Libraries) (past : BufferPast)

/-- The decoded table shows every colour's total under the confirmed outputs of a reply exactly when
the refused values of each colour sum to zero. -/
theorem deserUnspentOutputs_total_iff (hbase58 : libs.base58.Lawful) {body : List Byte} {jsonObj : CJson}
    {listing : List AddressListing} (hparse : libs.cjson.parseBody body = some jsonObj)
    (herror : deserError jsonObj = none) (hlists : ListsReply libs past jsonObj listing) :
    (∀ color, unspentOutputsBalanceWithColor
        (deserUnspentOutputs libs past body unspentOutputsInit).2 color = listedTotal color listing) ↔
      ∀ color, lostTotal color listing = 0 := by
  rw [deserUnspentOutputs_of_lists libs past hbase58 hparse herror hlists]
  refine forall_congr' fun color => ?_
  rw [← balance_add_lostTotal, left_eq_add]

/-- The output ids of a listing. -/
def listedOutputIds (listing : List AddressListing) : List OutputId :=
  listing.flatMap fun a => a.outputs.map OutputListing.outputId

/-- One confirmed output with three plain tokens and four more. -/
def threeAndFour : List AddressListing :=
  [⟨addressGet transparentSodium (Bytes.zero 32) 0,
    [⟨txOutputId (addressGet transparentSodium (Bytes.zero 32) 0) (Bytes.zero 32),
      ⟨false, true, false, false, false, false, false⟩, [⟨3, Bytes.zero 32⟩, ⟨4, Bytes.zero 32⟩]⟩]⟩]

/-- A text for its document. -/
def threeAndFourReply : List Byte :=
  cText "\x7b\"unspent_outputs\":[\x7b\"address\":\"" ++
    base58Encode (addressGet transparentSodium (Bytes.zero 32) 0).val ++
    cText "\",\"output_ids\":[\x7b\"id\":\"" ++
    base58Encode (txOutputId (addressGet transparentSodium (Bytes.zero 32) 0) (Bytes.zero 32)).val ++
    cText "\",\"balances\":[\x7b\"value\":3,\"color\":\"IOTA\"\x7d,\x7b\"value\":4,\"color\":\"IOTA\"\x7d]," ++
    cText "\"inclusion_state\":\x7b\"solid\":false,\"confirmed\":true,\"rejected\":false," ++
    cText "\"liked\":false,\"conflicting\":false,\"finalized\":false,\"preferred\":false\x7d\x7d]\x7d]\x7d"

/-- The libraries with a parser which knows this text. -/
def threeAndFourLibraries : Libraries :=
  sampleLibraries [(threeAndFourReply, replyDocument sampleBase58 threeAndFour)]

/-- The parser knows this text. -/
theorem parseBody_threeAndFour :
    threeAndFourLibraries.cjson.parseBody threeAndFourReply = some (replyDocument sampleBase58 threeAndFour) :=
  parseBody_sampleLibraries _ (by decide) (by decide +kernel)

/-- Its document lists the output. -/
theorem lists_threeAndFour :
    ListsReply threeAndFourLibraries ⟨[], [], []⟩ (replyDocument sampleBase58 threeAndFour) threeAndFour :=
  lists_replyDocument threeAndFourLibraries ⟨[], [], []⟩ base58Lawful_sample (by simp [threeAndFour])
    (by decide)

/-- The characterisation for this reply. -/
theorem deserUnspentOutputs_total_iff_threeAndFour :
    (∀ color, unspentOutputsBalanceWithColor
        (deserUnspentOutputs threeAndFourLibraries ⟨[], [], []⟩ threeAndFourReply unspentOutputsInit).2 color =
          listedTotal color threeAndFour) ↔
      ∀ color, lostTotal color threeAndFour = 0 :=
  deserUnspentOutputs_total_iff threeAndFourLibraries ⟨[], [], []⟩ base58Lawful_sample
    parseBody_threeAndFour rfl lists_threeAndFour

/-- The second balance of a colour in an output is lost. -/
theorem repeated_color_lost :
    ¬ ∀ (libs : Libraries) (past : BufferPast) (body : List Byte) (jsonObj : CJson)
      (listing : List AddressListing), libs.base58.Lawful → libs.cjson.parseBody body = some jsonObj →
        deserError jsonObj = none → ListsReply libs past jsonObj listing →
          (listedOutputIds listing).Nodup → ∀ color, unspentOutputsBalanceWithColor
            (deserUnspentOutputs libs past body unspentOutputsInit).2 color = listedTotal color listing := by
  intro h
  have htotal := h threeAndFourLibraries ⟨[], [], []⟩ threeAndFourReply
    (replyDocument sampleBase58 threeAndFour) threeAndFour base58Lawful_sample parseBody_threeAndFour rfl
    lists_threeAndFour (by decide) (Bytes.zero 32)
  rw [deserUnspentOutputs_of_lists threeAndFourLibraries _ base58Lawful_sample parseBody_threeAndFour rfl
    lists_threeAndFour] at htotal
  revert htotal
  decide

end Goshimmer
