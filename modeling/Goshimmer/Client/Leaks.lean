import Goshimmer.Client.Listing
import Goshimmer.Client.Verdict

/-!
# Elements which leak into one another

The text and byte buffers of the decoder outlive the elements they were filled for, and the return
codes of the readers are dropped. So a balance without a colour is recorded under the colour of a
balance before it, or under the zero colour, and an output without an id under the transaction id
of an output before it. An element is kept apart from the others, in every reply, exactly when its
own text names what it is recorded under. A balance element is never skipped, and an output element
only when it makes the call fail.
-/

namespace Goshimmer

/-! ## What a call records for an element -/

/-- A reply without an error message has an element with these output ids, and the decoder comes to
it: no element before it ends the call. -/
def ComesToIds (jsonObj : CJson) (jIds : List CJson) : Prop :=
  deserError jsonObj = none ∧ ∃ before unspentElm after,
    (jsonObj.getObjectItemCaseSensitive "unspent_outputs").bind CJson.elements =
        some (before ++ unspentElm :: after) ∧
      (∀ elm ∈ before, WellFormedElement elm) ∧
      (unspentElm.getObjectItemCaseSensitive "output_ids").bind CJson.elements = some jIds

variable (libs : Libraries) (past : BufferPast)

/-- The decoder comes to an output element with these buffers and this table. -/
def ComesToOutput (jIds : List CJson) (idsElm : CJson) (acc : IdBuffers × OutputIds) : Prop :=
  ∃ before after, jIds = before ++ idsElm :: after ∧
    before.foldlM (deserOutputId libs past) (IdBuffers.zero, outputIdsInit) = some acc

/-- The decoder comes to a balance element of an output with this buffer and this table. -/
def ComesToBalance (acc : IdBuffers × OutputIds) (idsElm balElm : CJson) (bal : Bytes 48 × BalanceHt) : Prop :=
  ∃ before after,
    (idsElm.getObjectItemCaseSensitive "balances").bind CJson.elements = some (before ++ balElm :: after) ∧
      before.foldl (deserBalance libs past) (acc.1.colorStr, balanceHtInit) = bal

/-- For an output element of a reply the decoder adds an entry to the table of the address. -/
def RecordsOutput (jsonObj idsElm : CJson) (entry : OutputIdEntry) : Prop :=
  ∃ jIds acc next, ComesToIds jsonObj jIds ∧ ComesToOutput libs past jIds idsElm acc ∧
    deserOutputId libs past acc idsElm = some next ∧ next.2.entries = acc.2.entries ++ [entry]

/-- For a balance element of a reply the decoder adds an entry to the table of the output. -/
def RecordsBalance (jsonObj balElm : CJson) (entry : BalanceEntry) : Prop :=
  ∃ jIds idsElm acc bal, ComesToIds jsonObj jIds ∧ ComesToOutput libs past jIds idsElm acc ∧
    ComesToBalance libs past acc idsElm balElm bal ∧
    (deserBalance libs past bal balElm).2.entries = bal.2.entries ++ [entry]

/-- The transaction id under which the decoder records an output, from what the buffers held before. -/
def recordedTxId (buffers : IdBuffers) (idsElm : CJson) : TxId :=
  OutputId.txId (txOutputIdFromBase58 libs.base58
    (cString past.outputIdStr (jsonGetString idsElm "id" buffers.outputIdStr).2) buffers.outputId).2

/-- What the decoder makes of an output element, unless it makes the call fail. -/
theorem deserOutputId_cases {acc next : IdBuffers × OutputIds} {idsElm : CJson}
    (h : deserOutputId libs past acc idsElm = some next) :
    ∃ balances, next.2 = acc.2.insertNew
        ⟨recordedTxId libs past acc.1 idsElm, balances, deserInclusionState idsElm⟩ ∧
      (balances = balanceHtInit ∨ ∃ elements,
        (idsElm.getObjectItemCaseSensitive "balances").bind CJson.elements = some elements ∧
          balances = (elements.foldl (deserBalance libs past) (acc.1.colorStr, balanceHtInit)).2) := by
  unfold deserOutputId at h
  dsimp only at h
  cases hbalances : idsElm.getObjectItemCaseSensitive "balances" with
  | none =>
    rw [hbalances] at h
    rw [← Option.some.inj h, outputIdsAdd_snd]
    exact ⟨balanceHtInit, rfl, Or.inl rfl⟩
  | some jBalances =>
    rw [hbalances] at h
    obtain ⟨elements, helements, hnext⟩ := Option.bind_eq_some_iff.mp h
    rw [← Option.some.inj hnext, outputIdsAdd_snd]
    exact ⟨_, rfl, Or.inr ⟨elements, helements, rfl⟩⟩

/-! ## Everything in a table was recorded for an element -/

/-- An entry of the decoded outputs was added for one of the elements. -/
theorem exists_comesToOutput {jIds : List CJson} {ids : OutputIds}
    (h : deserOutputIds libs past jIds = some ids) {entry : OutputIdEntry} (hentry : entry ∈ ids.entries) :
    ∃ idsElm acc next, ComesToOutput libs past jIds idsElm acc ∧
      deserOutputId libs past acc idsElm = some next ∧ next.2.entries = acc.2.entries ++ [entry] := by
  obtain ⟨final, hfinal, rfl⟩ := Option.map_eq_some_iff.mp h
  have hstep : ∀ (acc : IdBuffers × OutputIds) (idsElm : CJson) (next : IdBuffers × OutputIds),
      deserOutputId libs past acc idsElm = some next →
        next.2.entries = acc.2.entries ∨ ∃ entry, next.2.entries = acc.2.entries ++ [entry] := by
    intro acc idsElm next hnext
    obtain ⟨balances, hadd, -⟩ := deserOutputId_cases libs past hnext
    rw [hadd]
    exact InsertionTable.entries_insertNew_cases _ _
  have hadded := exists_added_of_mem_foldlM (fun acc : IdBuffers × OutputIds => acc.2.entries)
    hstep jIds hfinal hentry
  rcases hadded with hstart | ⟨before, idsElm, after, acc, next, heq, hbefore, hnext, hadd⟩
  · exact absurd hstart (List.not_mem_nil)
  · exact ⟨idsElm, acc, next, ⟨before, after, heq, hbefore⟩, hnext, hadd⟩

/-- An entry of the decoded balances of an output was added for one of the elements. -/
theorem exists_comesToBalance {acc next : IdBuffers × OutputIds} {idsElm : CJson}
    (h : deserOutputId libs past acc idsElm = some next) {entry : OutputIdEntry}
    (hadd : next.2.entries = acc.2.entries ++ [entry]) {b : BalanceEntry} (hb : b ∈ entry.balances.entries) :
    ∃ balElm bal, ComesToBalance libs past acc idsElm balElm bal ∧
      (deserBalance libs past bal balElm).2.entries = bal.2.entries ++ [b] := by
  obtain ⟨balances, hinsert, hbalances⟩ := deserOutputId_cases libs past h
  rw [hinsert, InsertionTable.entries_insertNew_eq_append_iff] at hadd
  rw [← hadd.2] at hb
  rcases hbalances with rfl | ⟨elements, helements, rfl⟩
  · exact absurd hb List.not_mem_nil
  · have hloop := List.foldlM_pure (m := Option) (f := deserBalance libs past)
      (b := (acc.1.colorStr, balanceHtInit)) (l := elements)
    have hstep : ∀ (bal : Bytes 48 × BalanceHt) (balElm : CJson) (bal' : Bytes 48 × BalanceHt),
        (pure (deserBalance libs past bal balElm) : Option _) = some bal' →
          bal'.2.entries = bal.2.entries ∨ ∃ b, bal'.2.entries = bal.2.entries ++ [b] := by
      intro bal balElm bal' hnext
      rw [← Option.some.inj hnext, deserBalance_snd]
      exact InsertionTable.entries_insertNew_cases _ _
    have hadded := exists_added_of_mem_foldlM (fun bal : Bytes 48 × BalanceHt => bal.2.entries)
      hstep elements hloop hb
    rcases hadded with hstart | ⟨before, balElm, after, bal, bal', heq, hbefore, hnext, hadd⟩
    · exact absurd hstart List.not_mem_nil
    · rw [List.foldlM_pure] at hbefore
      rw [← Option.some.inj hnext] at hadd
      exact ⟨balElm, bal, ⟨before, after, by rw [helements, heq], Option.some.inj hbefore⟩, hadd⟩

/-- The decoder gets these outputs from one of the elements, and no element before it ends the
call. -/
def DecodedFrom (elements : List CJson) (ids : OutputIds) : Prop :=
  ∃ before unspentElm after jIds, elements = before ++ unspentElm :: after ∧
    (∀ elm ∈ before, WellFormedElement elm) ∧
    (unspentElm.getObjectItemCaseSensitive "output_ids").bind CJson.elements = some jIds ∧
    deserOutputIds libs past jIds = some ids

/-- The element may come after another one. -/
theorem DecodedFrom.cons {elements : List CJson} {ids : OutputIds} (h : DecodedFrom libs past elements ids)
    {unspentElm : CJson} (hfirst : WellFormedElement unspentElm) :
    DecodedFrom libs past (unspentElm :: elements) ids := by
  obtain ⟨before, elm, after, jIds, rfl, hbefore, hdecoded⟩ := h
  exact ⟨unspentElm :: before, elm, after, jIds, rfl, List.forall_mem_cons.mpr ⟨hfirst, hbefore⟩, hdecoded⟩

/-- The outputs of a decoded address are those of one of the elements, or there are none. -/
theorem mem_deserUnspentLoop (elements : List CJson) {ret : Int} {addrStr : Bytes 48} {addr : Address}
    {unspent : UnspentOutputs} {e : UnspentOutputEntry}
    (h : e ∈ (deserUnspentLoop libs past elements ret addrStr addr unspent).2.entries) :
    e ∈ unspent.entries ∨ e.ids = outputIdsInit ∨ DecodedFrom libs past elements e.ids := by
  induction elements generalizing ret addrStr addr unspent with
  | nil => exact Or.inl h
  | cons unspentElm rest ih =>
    have hadd : ∀ {addr : Address} {ids : OutputIds}, e ∈ (unspentOutputsAdd unspent addr 0 ids).2.entries →
        e ∈ unspent.entries ∨ e.ids = ids := by
      intro addr ids hmem
      rw [unspentOutputsAdd_snd, InsertionTable.mem_entries_insertNew] at hmem
      exact hmem.imp_right fun hnew => by rw [hnew.1]
    unfold deserUnspentLoop at h
    dsimp only at h
    cases hids : unspentElm.getObjectItemCaseSensitive "output_ids" with
    | none =>
      rw [hids] at h
      rcases ih h with hmem | hempty | hfound
      · exact (hadd hmem).imp_right Or.inl
      · exact Or.inr (Or.inl hempty)
      · exact Or.inr (Or.inr (hfound.cons libs past (wellFormedElement_of_none hids)))
    | some jIds =>
      rw [hids] at h
      cases helements : jIds.elements with
      | none =>
        simp only [helements] at h
        exact Or.inl h
      | some elements =>
        cases hdecoded : deserOutputIds libs past elements with
        | none =>
          simp only [helements, hdecoded] at h
          exact Or.inl h
        | some ids =>
          simp only [helements, hdecoded] at h
          rcases ih h with hmem | hempty | hfound
          · have hmember : (unspentElm.getObjectItemCaseSensitive "output_ids").bind CJson.elements =
                some elements := by rw [hids, Option.bind_some, helements]
            refine (hadd hmem).imp_right fun hnew => Or.inr ?_
            exact ⟨[], unspentElm, rest, elements, rfl, by simp, hmember, by rw [hdecoded, hnew]⟩
          · exact Or.inr (Or.inl hempty)
          · have hfirst : WellFormedElement unspentElm :=
              (wellFormedElement_iff_of_array libs past hids helements).mpr (Option.isSome_of_eq_some hdecoded)
            exact Or.inr (Or.inr (hfound.cons libs past hfirst))

/-- Every output of a decoded table was recorded for an element of the reply, and so was every
balance of it. -/
theorem recorded_of_mem_deserUnspentOutputs {body : List Byte} {jsonObj : CJson}
    (hparse : libs.cjson.parseBody body = some jsonObj) {e : UnspentOutputEntry}
    (he : e ∈ (deserUnspentOutputs libs past body unspentOutputsInit).2.entries) {o : OutputIdEntry}
    (ho : o ∈ e.ids.entries) :
    (∃ idsElm, RecordsOutput libs past jsonObj idsElm o) ∧
      ∀ b ∈ o.balances.entries, ∃ balElm, RecordsBalance libs past jsonObj balElm b := by
  unfold deserUnspentOutputs at he
  rw [hparse] at he
  dsimp only at he
  split at he
  · exact absurd he List.not_mem_nil
  · next herror =>
    split at he
    · exact absurd he List.not_mem_nil
    · exact absurd he List.not_mem_nil
    · next elements _ helements =>
      rcases mem_deserUnspentLoop libs past elements he with hnone | hempty | hfound
      · exact absurd hnone List.not_mem_nil
      · rw [hempty] at ho
        exact absurd ho List.not_mem_nil
      · obtain ⟨before, unspentElm, after, jIds, rfl, hbefore, hmember, hdecoded⟩ := hfound
        have hids : ComesToIds jsonObj jIds :=
          ⟨herror, before, unspentElm, after, helements, hbefore, hmember⟩
        obtain ⟨idsElm, acc, next, hcomes, hnext, hadd⟩ := exists_comesToOutput libs past hdecoded ho
        refine ⟨⟨idsElm, jIds, acc, next, hids, hcomes, hnext, hadd⟩, fun b hb => ?_⟩
        obtain ⟨balElm, bal, hbalance, hbal⟩ := exists_comesToBalance libs past hnext hadd hb
        exact ⟨balElm, jIds, idsElm, acc, bal, hids, hcomes, hbalance, hbal⟩

/-! ## Elements which name what they are recorded under -/

/-- The own text of a balance element names a colour: it is the name of the zero colour, or it fits
the buffer and decodes to another one. -/
def NamesColor (base58 : Base58) (balElm : CJson) (color : Color) : Prop :=
  ∃ text, balElm.getObjectItemCaseSensitive "color" = some (.string text) ∧
    (text.takeWhile (· ≠ 0) = cText "IOTA" ∧ color = Bytes.zero 32 ∨
      (text.takeWhile (· ≠ 0)).length < 48 ∧ color ≠ Bytes.zero 32 ∧
        ∀ old, base58.b58tobin 32 (text.takeWhile (· ≠ 0)) old = (true, color))

/-- The own text of an output element names a transaction id: it fits the buffer and decodes to an
output id with this one. -/
def NamesTxId (base58 : Base58) (idsElm : CJson) (id : TxId) : Prop :=
  ∃ text outputId, idsElm.getObjectItemCaseSensitive "id" = some (.string text) ∧
    (text.takeWhile (· ≠ 0)).length < 96 ∧
      (∀ old, base58.b58tobin (33 + 32) (text.takeWhile (· ≠ 0)) old = (true, outputId)) ∧
        OutputId.txId outputId = id

/-- Any two replies record a balance element under the same colour, the one which it names, whatever
else they hold. -/
def BalanceKeptApart (base58 : Base58) (balElm : CJson) : Prop :=
  ∀ (libs : Libraries) (past past' : BufferPast) (reply reply' : CJson) (entry entry' : BalanceEntry),
    libs.base58 = base58 → RecordsBalance libs past reply balElm entry →
      RecordsBalance libs past' reply' balElm entry' →
        entry.color = entry'.color ∧ NamesColor base58 balElm entry.color

/-- Any two replies record an output element under the same transaction id, the one which it names,
whatever else they hold. -/
def OutputKeptApart (base58 : Base58) (idsElm : CJson) : Prop :=
  ∀ (libs : Libraries) (past past' : BufferPast) (reply reply' : CJson) (entry entry' : OutputIdEntry),
    libs.base58 = base58 → RecordsOutput libs past reply idsElm entry →
      RecordsOutput libs past' reply' idsElm entry' →
        entry.id = entry'.id ∧ NamesTxId base58 idsElm entry.id

/-- A named colour is listed, whatever lies behind the buffer. -/
theorem NamesColor.lists {balElm : CJson} {color : Color} (h : NamesColor libs.base58 balElm color) :
    ListsColor libs past balElm color := by
  obtain ⟨text, htext, ⟨hiota, hzero⟩ | ⟨hfits, _, hdecodes⟩⟩ := h
  · exact Or.inl ⟨text, htext, hiota, hzero⟩
  · refine Or.inr ⟨text, htext, fun old => ?_⟩
    rw [cString_strncpy _ hfits]
    exact hdecodes old

/-- What is recorded for a balance element is the value under the colour of the buffer. -/
theorem color_of_recordsBalance {jsonObj balElm : CJson} {entry : BalanceEntry}
    (h : RecordsBalance libs past jsonObj balElm entry) :
    ∃ colorStr, recordedColor libs past colorStr balElm = entry.color := by
  obtain ⟨jIds, idsElm, acc, bal, _, _, _, hadd⟩ := h
  rw [deserBalance_snd, InsertionTable.entries_insertNew_eq_append_iff] at hadd
  exact ⟨bal.1, congrArg BalanceEntry.color hadd.2⟩

/-- A named transaction id is the one recorded. -/
theorem NamesTxId.recorded {idsElm : CJson} {id : TxId} (h : NamesTxId libs.base58 idsElm id)
    {jsonObj : CJson} {entry : OutputIdEntry} (hrecords : RecordsOutput libs past jsonObj idsElm entry) :
    entry.id = id := by
  obtain ⟨jIds, acc, next, _, _, hnext, hadd⟩ := hrecords
  obtain ⟨balances, hinsert, -⟩ := deserOutputId_cases libs past hnext
  rw [hinsert, InsertionTable.entries_insertNew_eq_append_iff] at hadd
  obtain ⟨text, outputId, htext, hfits, hdecodes, hid⟩ := h
  rw [← hadd.2]
  dsimp only
  rw [recordedTxId, txOutputIdFromBase58, jsonGetString, htext]
  dsimp only
  rw [cString_strncpy _ hfits, hdecodes, hid]

/-- A reply with a single output element and no address. -/
def singleOutputReply (idsElm : CJson) : CJson :=
  .object [("unspent_outputs", .array [.object [("output_ids", .array [idsElm])]])]

/-- The decoder comes to the element of such a reply first. -/
theorem comesToIds_singleOutputReply (idsElm : CJson) : ComesToIds (singleOutputReply idsElm) [idsElm] :=
  ⟨rfl, [], .object [("output_ids", .array [idsElm])], [], rfl, by simp, rfl⟩

/-- The first balance of the first output is recorded. -/
theorem records_first_balance (balElm : CJson) :
    RecordsBalance libs past (singleOutputReply (.object [("balances", .array [balElm])])) balElm
      ⟨recordedColor libs past (Bytes.zero 48) balElm, (jsonGetInt64 libs.cjson balElm "value" 0).2⟩ := by
  refine ⟨[.object [("balances", .array [balElm])]], .object [("balances", .array [balElm])],
    (IdBuffers.zero, outputIdsInit), (Bytes.zero 48, balanceHtInit), comesToIds_singleOutputReply _,
    ⟨[], [], rfl, rfl⟩, ⟨[], [], rfl, rfl⟩, ?_⟩
  rw [deserBalance_snd, InsertionTable.entries_insertNew_eq_append_iff]
  exact ⟨rfl, rfl⟩

/-- The first output is recorded, when its balances do not make the call fail. -/
theorem records_first_output {idsElm : CJson} (h : idsElm.AbsentOrArray "balances") :
    ∃ entry, RecordsOutput libs past (singleOutputReply idsElm) idsElm entry := by
  obtain ⟨next, hnext⟩ := Option.isSome_iff_exists.mp
    ((deserOutputId_isSome_iff libs past (IdBuffers.zero, outputIdsInit) idsElm).mpr h)
  obtain ⟨balances, hinsert, -⟩ := deserOutputId_cases libs past hnext
  refine ⟨⟨recordedTxId libs past IdBuffers.zero idsElm, balances, deserInclusionState idsElm⟩,
    [idsElm], (IdBuffers.zero, outputIdsInit), next, comesToIds_singleOutputReply idsElm,
    ⟨[], [], rfl, rfl⟩, hnext, ?_⟩
  rw [hinsert, InsertionTable.entries_insertNew_eq_append_iff]
  exact ⟨rfl, rfl⟩

/-- An element without balances which could make the call fail is recorded in no reply. -/
theorem not_recordsOutput {jsonObj idsElm : CJson} (h : ¬ idsElm.AbsentOrArray "balances")
    (entry : OutputIdEntry) : ¬ RecordsOutput libs past jsonObj idsElm entry := by
  intro ⟨jIds, acc, next, _, _, hnext, _⟩
  apply h
  rw [← deserOutputId_isSome_iff libs past acc, hnext, Option.isSome_some]

/-- A named colour is the one recorded. -/
theorem NamesColor.recorded (hbase58 : libs.base58.Lawful) {balElm : CJson} {color : Color}
    (h : NamesColor libs.base58 balElm color) {jsonObj : CJson} {entry : BalanceEntry}
    (hrecords : RecordsBalance libs past jsonObj balElm entry) : entry.color = color := by
  obtain ⟨colorStr, hentry⟩ := color_of_recordsBalance libs past hrecords
  rw [← hentry, recordedColor_of_lists libs past hbase58 (h.lists libs past)]

/-- A balance element is kept apart exactly when its own text names a colour, and an output element
exactly when its own text names a transaction id or its balances make the call fail. -/
theorem elements_kept_apart_iff {base58 : Base58} (hbase58 : base58.Lawful) (elm : CJson) :
    (BalanceKeptApart base58 elm ↔ ∃ color, NamesColor base58 elm color) ∧
      (OutputKeptApart base58 elm ↔
        (∃ id, NamesTxId base58 elm id) ∨ ¬ elm.AbsentOrArray "balances") := by
  have hlibs : ∃ libs : Libraries, libs.base58 = base58 := ⟨{ sampleLibraries [] with base58 := base58 }, rfl⟩
  obtain ⟨libs, hlibs⟩ := hlibs
  refine ⟨⟨fun h => ?_, ?_⟩, ⟨fun h => ?_, ?_⟩⟩
  · have hrecords := records_first_balance libs ⟨[], [], []⟩ elm
    exact ⟨_, (h libs _ _ _ _ _ _ hlibs hrecords hrecords).2⟩
  · rintro ⟨color, hcolor⟩ libs past past' reply reply' entry entry' rfl hrecords hrecords'
    rw [hcolor.recorded libs past hbase58 hrecords, hcolor.recorded libs past' hbase58 hrecords']
    exact ⟨rfl, hcolor⟩
  · by_cases hfails : elm.AbsentOrArray "balances"
    · obtain ⟨entry, hrecords⟩ := records_first_output libs ⟨[], [], []⟩ hfails
      exact Or.inl ⟨entry.id, (h libs _ _ _ _ _ _ hlibs hrecords hrecords).2⟩
    · exact Or.inr hfails
  · rintro (⟨id, hid⟩ | hfails) libs past past' reply reply' entry entry' rfl hrecords hrecords'
    · rw [hid.recorded libs past hrecords, hid.recorded libs past' hrecords']
      exact ⟨rfl, hid⟩
    · exact absurd hrecords (not_recordsOutput libs past hfails entry)

/-- The text of the colour whose bytes are all 82. -/
def redText : List Byte := base58Encode (List.replicate 32 82)

/-- An output with three tokens of this colour. -/
def redOutput : CJson :=
  .object [("id", .string (base58Encode (List.replicate 65 1))),
    ("balances", .array [.object [("value", .number (.finite 3)), ("color", .string redText)]])]

/-- Four tokens without a colour. -/
def colorlessBalance : CJson := .object [("value", .number (.finite 4))]

/-- An output with these. -/
def colorlessOutput : CJson :=
  .object [("id", .string (base58Encode (List.replicate 65 2))), ("balances", .array [colorlessBalance])]

/-- A reply with both outputs under one address. -/
def leakingReply : CJson :=
  .object [("unspent_outputs", .array [.object [("address", .string (base58Encode (List.replicate 33 1))),
    ("output_ids", .array [redOutput, colorlessOutput])]])]

/-- What the decoder holds after the first output. -/
def afterRedOutput : Option (IdBuffers × OutputIds) :=
  deserOutputId (sampleLibraries []) ⟨[], [], []⟩ (IdBuffers.zero, outputIdsInit) redOutput

/-- The first output does not make the call fail. -/
theorem afterRedOutput_isSome : afterRedOutput.isSome := by decide

/-- The four tokens are recorded under the colour of the first output. -/
theorem records_leaked_color :
    RecordsBalance (sampleLibraries []) ⟨[], [], []⟩ leakingReply colorlessBalance
      ⟨⟨List.replicate 32 82, by simp⟩, 4⟩ := by
  have hfirst : [redOutput].foldlM (deserOutputId (sampleLibraries []) ⟨[], [], []⟩)
      (IdBuffers.zero, outputIdsInit) = some (afterRedOutput.get afterRedOutput_isSome) := by
    have hget : deserOutputId (sampleLibraries []) ⟨[], [], []⟩ (IdBuffers.zero, outputIdsInit) redOutput =
        some (afterRedOutput.get afterRedOutput_isSome) := (Option.some_get afterRedOutput_isSome).symm
    rw [List.foldlM_cons, hget]
    rfl
  refine ⟨[redOutput, colorlessOutput], colorlessOutput, afterRedOutput.get afterRedOutput_isSome,
    ((afterRedOutput.get afterRedOutput_isSome).1.colorStr, balanceHtInit),
    ⟨rfl, [], _, [], rfl, by simp, rfl⟩, ⟨[redOutput], [], rfl, hfirst⟩, ⟨[], [], rfl, rfl⟩, ?_⟩
  decide +kernel

/-- The characterisation for four tokens without a colour. -/
theorem elements_kept_apart_iff_colorless :
    (BalanceKeptApart ⟨base58Encode, base58Decode⟩ colorlessBalance ↔
        ∃ color, NamesColor ⟨base58Encode, base58Decode⟩ colorlessBalance color) ∧
      (OutputKeptApart ⟨base58Encode, base58Decode⟩ colorlessBalance ↔
        (∃ id, NamesTxId ⟨base58Encode, base58Decode⟩ colorlessBalance id) ∨
          ¬ colorlessBalance.AbsentOrArray "balances") :=
  elements_kept_apart_iff base58Lawful_sample colorlessBalance

/-- A balance without a colour takes the colour of another output. -/
theorem color_leaks_between_outputs :
    ¬ ∀ (base58 : Base58) (balElm idsElm : CJson), base58.Lawful →
      BalanceKeptApart base58 balElm ∧ OutputKeptApart base58 idsElm := by
  intro h
  have hapart := (h ⟨base58Encode, base58Decode⟩ colorlessBalance colorlessOutput base58Lawful_sample).1
  obtain ⟨-, text, htext, -⟩ := hapart (sampleLibraries []) _ _ _ _ _ _ rfl records_leaked_color
    records_leaked_color
  simp [colorlessBalance, CJson.getObjectItemCaseSensitive] at htext

end Goshimmer
