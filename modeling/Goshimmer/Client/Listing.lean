import Goshimmer.Client.Service
import Goshimmer.Client.UnspentOutputs
import Goshimmer.Library.FirstOfKey

/-!
# What a reply lists

A reply in which every text decodes and every value is a number lists addresses, their outputs and
the balances of these. The decoder then does not look at what an earlier element left in its
buffers, and its result is a replay of the listing into three tables, one inside the other. Two
things get lost on the way: what an earlier value of the same key keeps out of a table, and the
flag `solid`, which is read under another name.
-/

namespace Goshimmer

/-- A flag of an output element, under its own name; an absent one is not set. -/
def CJson.inclusionFlag (idsElm : CJson) (name : String) : Bool :=
  match (idsElm.getObjectItemCaseSensitive "inclusion_state").bind (·.getObjectItemCaseSensitive name) with
  | some (.bool value) => value
  | _ => false

/-- The inclusion state which an output element lists. -/
def CJson.inclusionState (idsElm : CJson) : InclusionState where
  solid := idsElm.inclusionFlag "solid"
  confirmed := idsElm.inclusionFlag "confirmed"
  rejected := idsElm.inclusionFlag "rejected"
  liked := idsElm.inclusionFlag "liked"
  conflicting := idsElm.inclusionFlag "conflicting"
  finalized := idsElm.inclusionFlag "finalized"
  preferred := idsElm.inclusionFlag "preferred"

/-- What the decoder makes of an inclusion state: `solid` becomes what `rejected` is. -/
def InclusionState.read (st : InclusionState) : InclusionState := { st with solid := st.rejected }

/-- An output as a reply lists it. -/
structure OutputListing where
  outputId : OutputId
  st : InclusionState
  balances : List Balance

/-- An address as a reply lists it. -/
structure AddressListing where
  addr : Address
  outputs : List OutputListing

variable (libs : Libraries) (past : BufferPast)

/-- A member is a text which, once it is in a buffer of the given size, decodes to bytes. -/
def CJson.DecodesTo (elm : CJson) (key : String) (behind : List Byte) (bufferSize : ℕ) {size : ℕ}
    (bytes : Bytes size) : Prop :=
  ∃ text, elm.getObjectItemCaseSensitive key = some (.string text) ∧
    ∀ old, libs.base58.b58tobin size (cString behind (strncpy bufferSize text)) old = (true, bytes)

/-- A balance element lists a colour, the zero colour by its name. -/
def ListsColor (balElm : CJson) (color : Color) : Prop :=
  (∃ text, balElm.getObjectItemCaseSensitive "color" = some (.string text) ∧
      text.takeWhile (· ≠ 0) = cText "IOTA" ∧ color = Bytes.zero 32) ∨
    balElm.DecodesTo libs "color" past.colorStr 48 color

/-- A balance element lists a value and a colour. -/
structure ListsBalance (balElm : CJson) (b : Balance) : Prop where
  value : jsonGetInt64 libs.cjson balElm "value" 0 = (0, b.value)
  color : ListsColor libs past balElm b.color

/-- A member is an array which lists the given values one by one, or it is absent and there are
none. -/
def ListsMembers {A : Type} (lists : CJson → A → Prop) (elm : CJson) (key : String) (l : List A) : Prop :=
  match elm.getObjectItemCaseSensitive key with
  | none => l = []
  | some member => ∃ elements, member.elements = some elements ∧ List.Forall₂ lists elements l

/-- An output element lists an output id, an inclusion state and balances. -/
structure ListsOutput (idsElm : CJson) (o : OutputListing) : Prop where
  outputId : idsElm.DecodesTo libs "id" past.outputIdStr 96 o.outputId
  st : o.st = idsElm.inclusionState
  balances : ListsMembers (ListsBalance libs past) idsElm "balances" o.balances

/-- An element of a reply lists an address and its outputs. -/
structure ListsAddress (unspentElm : CJson) (a : AddressListing) : Prop where
  addr : unspentElm.DecodesTo libs "address" past.addrStr 48 a.addr
  outputs : ListsMembers (ListsOutput libs past) unspentElm "output_ids" a.outputs

/-- A reply lists addresses. -/
def ListsReply (jsonObj : CJson) (listing : List AddressListing) : Prop :=
  ∃ elements, (jsonObj.getObjectItemCaseSensitive "unspent_outputs").bind CJson.elements = some elements ∧
    elements ≠ [] ∧ List.Forall₂ (ListsAddress libs past) elements listing

/-! ## The tables of a listing -/

/-- The table of the balances of an output. -/
def balancesTable (balances : List Balance) : BalanceHt :=
  balances.foldl (fun t b => t.insertNew ⟨b.color, b.value⟩) balanceHtInit

/-- What becomes of a listed output. -/
def OutputListing.entry (o : OutputListing) : OutputIdEntry :=
  ⟨o.outputId.txId, balancesTable o.balances, o.st.read⟩

/-- The table of the outputs of an address. -/
def outputsTable (outputs : List OutputListing) : OutputIds :=
  outputs.foldl (fun t o => t.insertNew o.entry) outputIdsInit

/-- What becomes of a listed address. -/
def AddressListing.entry (a : AddressListing) : UnspentOutputEntry := ⟨0, a.addr, false, outputsTable a.outputs⟩

/-- The table of a listing. -/
def listingTable (listing : List AddressListing) : UnspentOutputs :=
  listing.foldl (fun t a => t.insertNew a.entry) unspentOutputsInit

/-- The balances which the table of an output keeps. -/
theorem entries_balancesTable (balances : List Balance) :
    (balancesTable balances).entries =
      (firstOfKey Balance.color [] balances).map fun b => ⟨b.color, b.value⟩ := by
  have h := InsertionTable.entries_foldl_insertNew_eq
    (fun b : Balance => (⟨b.color, b.value⟩ : BalanceEntry)) balances balanceHtInit
  exact h

/-- The outputs which the table of an address keeps. -/
theorem entries_outputsTable (outputs : List OutputListing) :
    (outputsTable outputs).entries =
      (firstOfKey (fun o => o.outputId.txId) [] outputs).map OutputListing.entry := by
  have h := InsertionTable.entries_foldl_insertNew_eq OutputListing.entry outputs outputIdsInit
  exact h

/-- The addresses which the table of a listing keeps. -/
theorem entries_listingTable (listing : List AddressListing) :
    (listingTable listing).entries = (firstOfKey AddressListing.addr [] listing).map AddressListing.entry := by
  have h := InsertionTable.entries_foldl_insertNew_eq AddressListing.entry listing unspentOutputsInit
  exact h

/-! ## Decoding a listing -/

/-- The decoder reads every flag under its own name but `solid`, which it takes from `rejected`. -/
theorem deserInclusionState_eq (idsElm : CJson) :
    deserInclusionState idsElm = idsElm.inclusionState.read := by
  have hflag : ∀ (jState : CJson) (name : String),
      idsElm.getObjectItemCaseSensitive "inclusion_state" = some jState →
        (jsonGetBoolean jState name false).2 = idsElm.inclusionFlag name := by
    intro jState name hstate
    rw [CJson.inclusionFlag, hstate, Option.bind_some, jsonGetBoolean]
    cases jState.getObjectItemCaseSensitive name with
    | none => rfl
    | some member => cases member <;> rfl
  unfold deserInclusionState CJson.inclusionState InclusionState.read
  cases hstate : idsElm.getObjectItemCaseSensitive "inclusion_state" with
  | none =>
    have hnone : ∀ name, idsElm.inclusionFlag name = false := by
      intro name
      rw [CJson.inclusionFlag, hstate, Option.bind_none]
    simp only [hnone]
  | some jState => simp only [hflag jState _ hstate]

/-- A text which decodes is copied into the buffer. -/
theorem CJson.DecodesTo.copied {elm : CJson} {key : String} {behind : List Byte} {n size : ℕ}
    {bytes : Bytes size} (h : elm.DecodesTo libs key behind n bytes) (str : Bytes n) (old : Bytes size) :
    libs.base58.b58tobin size (cString behind (jsonGetString elm key str).2) old = (true, bytes) := by
  obtain ⟨text, htext, hdecodes⟩ := h
  rw [jsonGetString, htext]
  exact hdecodes old

variable (hbase58 : libs.base58.Lawful)

include hbase58 in
/-- A member which is the base58 text of bytes decodes to them, from a buffer with room for it. -/
theorem CJson.DecodesTo.of_b58enc {elm : CJson} {key : String} {size : ℕ} (bytes : Bytes size)
    (hmember : elm.getObjectItemCaseSensitive key = some (.string (libs.base58.b58enc bytes.val)))
    (behind : List Byte) {n : ℕ} (hroom : size * 138 / 100 + 1 < n) :
    elm.DecodesTo libs key behind n bytes := by
  have hletters := takeWhile_of_alphabet (hbase58.alphabet_of_b58enc bytes)
  have hlength := hbase58.length_le bytes.val
  rw [bytes.property] at hlength
  refine ⟨_, hmember, fun old => ?_⟩
  rw [cString_strncpy behind (by rw [hletters]; omega), hletters]
  exact hbase58.inverts bytes old

include hbase58 in
/-- A text which starts with the name of the zero colour does not decode. -/
theorem not_decodes_iota {colorStr : Bytes 48} (h : colorStr.val.take 4 = cText "IOTA")
    (behind : List Byte) {color old : Color} :
    libs.base58.b58tobin 32 (cString behind colorStr) old ≠ (true, color) := by
  intro hdecodes
  have hletters := hbase58.alphabet (by rw [hdecodes])
  have hmem : (73 : Byte) ∈ cString behind colorStr := by
    rw [cString, ← List.take_append_drop 4 colorStr.val, h]
    simp [cText]
  have hnot : (73 : Byte) ∉ base58Alphabet := by decide
  exact hnot (hletters 73 hmem)

/-- The colour under which the decoder records a balance, from what the buffer held before. -/
def recordedColor (colorStr : Bytes 48) (balElm : CJson) : Color :=
  if (jsonGetString balElm "color" colorStr).2.val.take 4 ≠ cText "IOTA" then
    (balanceColorFromBase58 libs.base58
      (cString past.colorStr (jsonGetString balElm "color" colorStr).2) (Bytes.zero 32)).2
  else Bytes.zero 32

/-- A balance is recorded with its value, or 0, unless the output has one of this colour. -/
theorem deserBalance_snd (acc : Bytes 48 × BalanceHt) (balElm : CJson) :
    (deserBalance libs past acc balElm).2 =
      acc.2.insertNew ⟨recordedColor libs past acc.1 balElm, (jsonGetInt64 libs.cjson balElm "value" 0).2⟩ :=
  balanceHtAdd_snd _ _ _

include hbase58 in
/-- A colour which the element lists is the one recorded, whatever the buffer held before. -/
theorem recordedColor_of_lists {balElm : CJson} {color : Color} (h : ListsColor libs past balElm color)
    (colorStr : Bytes 48) : recordedColor libs past colorStr balElm = color := by
  unfold recordedColor
  rcases h with ⟨text, htext, hiota, hzero⟩ | hdecodes
  · have hstart : (jsonGetString balElm "color" colorStr).2.val.take 4 = cText "IOTA" := by
      rw [jsonGetString, htext]
      change ((text.takeWhile (· ≠ 0) ++ List.replicate 48 0).take 48).take 4 = _
      rw [hiota]
      decide
    rw [if_neg (not_not_intro hstart), hzero]
  · have hcopied := hdecodes.copied libs colorStr (Bytes.zero 32)
    rw [if_pos fun hiota => not_decodes_iota libs hbase58 hiota _ hcopied, balanceColorFromBase58, hcopied]

include hbase58 in
/-- A listed balance is added to the table. -/
theorem deserBalance_of_lists {balElm : CJson} {b : Balance} (h : ListsBalance libs past balElm b)
    (acc : Bytes 48 × BalanceHt) :
    (deserBalance libs past acc balElm).2 = acc.2.insertNew ⟨b.color, b.value⟩ := by
  rw [deserBalance_snd, h.value, recordedColor_of_lists libs past hbase58 h.color]

include hbase58 in
/-- Listed balances are added one by one. -/
theorem foldl_deserBalance_of_lists {elements : List CJson} {balances : List Balance}
    (h : List.Forall₂ (ListsBalance libs past) elements balances) (acc : Bytes 48 × BalanceHt) :
    (elements.foldl (deserBalance libs past) acc).2 =
      balances.foldl (fun t b => t.insertNew ⟨b.color, b.value⟩) acc.2 := by
  induction h generalizing acc with
  | nil => rfl
  | cons hfirst _ ih => rw [List.foldl_cons, List.foldl_cons, ih, deserBalance_of_lists libs past hbase58 hfirst]

include hbase58 in
/-- A listed output is added to the table. -/
theorem deserOutputId_of_lists {idsElm : CJson} {o : OutputListing} (h : ListsOutput libs past idsElm o)
    (acc : IdBuffers × OutputIds) :
    ∃ buffers, deserOutputId libs past acc idsElm = some (buffers, acc.2.insertNew o.entry) := by
  have hid := h.outputId.copied libs acc.1.outputIdStr acc.1.outputId
  have hmembers := h.balances
  unfold ListsMembers at hmembers
  unfold deserOutputId txOutputIdFromBase58
  simp only [hid, deserInclusionState_eq, ← h.st]
  cases hbalances : idsElm.getObjectItemCaseSensitive "balances" with
  | none =>
    rw [hbalances] at hmembers
    dsimp only at hmembers
    simp only [outputIdsAdd_snd, OutputListing.entry, hmembers]
    exact ⟨_, rfl⟩
  | some jBalances =>
    rw [hbalances] at hmembers
    obtain ⟨elements, helements, hlists⟩ := hmembers
    simp only [helements, Option.bind_eq_bind, Option.bind_some, outputIdsAdd_snd,
      foldl_deserBalance_of_lists libs past hbase58 hlists]
    exact ⟨_, rfl⟩

include hbase58 in
/-- Listed outputs are added one by one. -/
theorem deserOutputIds_of_lists {elements : List CJson} {outputs : List OutputListing}
    (h : List.Forall₂ (ListsOutput libs past) elements outputs) :
    deserOutputIds libs past elements = some (outputsTable outputs) := by
  have hloop : ∀ acc : IdBuffers × OutputIds, (elements.foldlM (deserOutputId libs past) acc).map Prod.snd =
      some (outputs.foldl (fun t o => t.insertNew o.entry) acc.2) := by
    induction h with
    | nil => exact fun acc => rfl
    | cons hfirst _ ih =>
      intro acc
      obtain ⟨buffers, hnext⟩ := deserOutputId_of_lists libs past hbase58 hfirst acc
      rw [List.foldlM_cons, hnext]
      exact ih _
  exact hloop (IdBuffers.zero, outputIdsInit)

include hbase58 in
/-- Listed addresses are added one by one. -/
theorem deserUnspentLoop_of_lists {elements : List CJson} {listing : List AddressListing}
    (h : List.Forall₂ (ListsAddress libs past) elements listing) (ret : Int) (addrStr : Bytes 48)
    (addr : Address) (unspent : UnspentOutputs) :
    deserUnspentLoop libs past elements ret addrStr addr unspent =
      (0, listing.foldl (fun t a => t.insertNew a.entry) unspent) := by
  induction h generalizing ret addrStr addr unspent with
  | nil => rfl
  | @cons unspentElm a _ _ hfirst _ ih =>
    have haddr := hfirst.addr.copied libs addrStr addr
    have hmembers := hfirst.outputs
    unfold ListsMembers at hmembers
    unfold deserUnspentLoop addressFromBase58
    simp only [haddr]
    cases hids : unspentElm.getObjectItemCaseSensitive "output_ids" with
    | none =>
      rw [hids] at hmembers
      dsimp only at hmembers ⊢
      rw [ih, List.foldl_cons, unspentOutputsAdd_snd, AddressListing.entry, hmembers]
      rfl
    | some jIds =>
      rw [hids] at hmembers
      obtain ⟨ids, helements, hlists⟩ := hmembers
      simp only [helements, deserOutputIds_of_lists libs past hbase58 hlists]
      rw [ih, List.foldl_cons, unspentOutputsAdd_snd, AddressListing.entry]

include hbase58 in
/-- A reply which lists addresses decodes to the table of the listing. -/
theorem deserUnspentOutputs_of_lists {body : List Byte} {jsonObj : CJson} {listing : List AddressListing}
    (hparse : libs.cjson.parseBody body = some jsonObj) (herror : deserError jsonObj = none)
    (h : ListsReply libs past jsonObj listing) :
    deserUnspentOutputs libs past body unspentOutputsInit = (0, listingTable listing) := by
  obtain ⟨elements, helements, hnonempty, hlists⟩ := h
  unfold deserUnspentOutputs
  simp only [hparse, herror, helements]
  cases elements with
  | nil => exact absurd rfl hnonempty
  | cons unspentElm rest => exact deserUnspentLoop_of_lists libs past hbase58 hlists _ _ _ _

end Goshimmer
