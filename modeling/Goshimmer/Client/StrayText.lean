import Goshimmer.Client.Exchange
import Goshimmer.Client.Faithful
import Goshimmer.Client.Terminated

/-!
# The memory behind the text buffers

A reader of a buffer without a NUL runs on into the memory behind it. Where the texts of a reply fit, as far
as the decoder comes, no buffer is read beyond its end, and what the decoder makes of the reply is the same
whatever lies behind.
-/

namespace Goshimmer

/-- What is read off a buffer does not depend on the memory behind it exactly when the buffer has a NUL. -/
theorem forall_cString_iff {n : ℕ} (buffer : Bytes n) (text : List Byte) :
    (∀ past, cString past buffer = text) ↔ 0 ∈ buffer.val ∧ buffer.val.takeWhile (· ≠ 0) = text := by
  constructor
  · intro h
    have hnothing := h []
    rw [cString, List.append_nil] at hnothing
    refine ⟨?_, hnothing⟩
    by_contra hnul
    have hone := h [1]
    rw [cString, takeWhile_append_of_notMem hnul, ← hnothing, takeWhile_of_notMem hnul] at hone
    have hlength := congrArg List.length hone
    simp at hlength
  · intro hread past
    obtain ⟨hnul, htext⟩ := hread
    rw [cString, takeWhile_append_of_mem hnul, htext]

/-- A buffer with a NUL is read the same, whatever is behind it. -/
theorem cString_congr {n : ℕ} {buffer : Bytes n} (hnul : 0 ∈ buffer.val) (past past' : List Byte) :
    cString past buffer = cString past' buffer := by
  have hread := (forall_cString_iff buffer _).mpr ⟨hnul, rfl⟩
  rw [hread past, hread past']

variable (libs : Libraries) (past past' : BufferPast)

/-- A balance whose colour fits. -/
theorem deserBalance_congr {acc : Bytes 48 × BalanceHt} (hcolor : 0 ∈ acc.1.val) {balElm : CJson}
    (hfits : balElm.TextFits "color" 48) :
    deserBalance libs past acc balElm = deserBalance libs past' acc balElm := by
  unfold deserBalance
  dsimp only
  rw [cString_congr (zero_mem_jsonGetString hcolor hfits) past.colorStr past'.colorStr]

/-- Balances whose colours fit. -/
theorem foldl_deserBalance_congr (acc : Bytes 48 × BalanceHt) (hcolor : 0 ∈ acc.1.val) {elements : List CJson}
    (hfits : ∀ balElm ∈ elements, balElm.TextFits "color" 48) :
    elements.foldl (deserBalance libs past) acc = elements.foldl (deserBalance libs past') acc := by
  induction elements generalizing acc with
  | nil => rfl
  | cons balElm rest ih =>
    obtain ⟨hfirst, hrest⟩ := List.forall_mem_cons.mp hfits
    rw [List.foldl_cons, List.foldl_cons, ← deserBalance_congr libs past past' hcolor hfirst]
    exact ih _ (zero_mem_jsonGetString hcolor hfirst) hrest

/-- An output whose texts fit. -/
theorem deserOutputId_congr {acc : IdBuffers × OutputIds} (h : acc.1.Terminated) {idsElm : CJson}
    (hfits : OutputTextsFit idsElm) : deserOutputId libs past acc idsElm = deserOutputId libs past' acc idsElm := by
  unfold deserOutputId
  dsimp only
  rw [cString_congr (zero_mem_jsonGetString h.outputIdStr hfits.1) past.outputIdStr past'.outputIdStr]
  cases hbalances : idsElm.getObjectItemCaseSensitive "balances" with
  | none => rfl
  | some jBalances =>
    cases helements : jBalances.elements with
    | none => simp [helements]
    | some elements =>
      have hcolors := hfits.2 elements (by rw [hbalances, Option.bind_some, helements])
      have hsame := foldl_deserBalance_congr libs past past' (acc.1.colorStr, balanceHtInit) h.colorStr hcolors
      simp only [helements, Option.bind_eq_bind, Option.bind_some, hsame]

/-- Outputs whose texts fit, as far as the loop comes. -/
theorem foldlM_deserOutputId_congr {acc : IdBuffers × OutputIds} (h : acc.1.Terminated) {jIds : List CJson}
    (hfits : ∀ idsElm, Reached (fun elm => elm.AbsentOrArray "balances") jIds idsElm → OutputTextsFit idsElm) :
    jIds.foldlM (deserOutputId libs past) acc = jIds.foldlM (deserOutputId libs past') acc := by
  induction jIds generalizing acc with
  | nil => rfl
  | cons idsElm rest ih =>
    obtain ⟨hfirst, hrest⟩ := forall_reached_cons.mp hfits
    rw [List.foldlM_cons, List.foldlM_cons, ← deserOutputId_congr libs past past' h hfirst]
    cases hnext : deserOutputId libs past acc idsElm with
    | none => rfl
    | some next =>
      have hgood : idsElm.AbsentOrArray "balances" :=
        (deserOutputId_isSome_iff libs past acc idsElm).mp (by rw [hnext, Option.isSome_some])
      exact ih (h.deserOutputId libs past hfirst hnext) (hrest hgood)

/-- Addresses whose texts fit, as far as the loop comes. -/
theorem deserUnspentLoop_congr {elements : List CJson} (ret : Int) {addrStr : Bytes 48} (haddr : 0 ∈ addrStr.val)
    (addr : Address) (unspent : UnspentOutputs)
    (hfits : ∀ unspentElm, Reached WellFormedElement elements unspentElm → AddressTextsFit unspentElm) :
    deserUnspentLoop libs past elements ret addrStr addr unspent =
      deserUnspentLoop libs past' elements ret addrStr addr unspent := by
  induction elements generalizing ret addrStr addr unspent with
  | nil => rfl
  | cons unspentElm rest ih =>
    obtain ⟨hfirst, hrest⟩ := forall_reached_cons.mp hfits
    have hcopied := zero_mem_jsonGetString haddr hfirst.1
    unfold deserUnspentLoop
    dsimp only
    rw [cString_congr hcopied past.addrStr past'.addrStr]
    cases hids : unspentElm.getObjectItemCaseSensitive "output_ids" with
    | none => exact ih _ hcopied _ _ (hrest (wellFormedElement_of_none hids))
    | some jIds =>
      dsimp only
      cases helements : jIds.elements with
      | none => rfl
      | some elements =>
        dsimp only
        have hids' := hfirst.2 elements (by rw [hids, Option.bind_some, helements])
        have hsame : deserOutputIds libs past elements = deserOutputIds libs past' elements := by
          rw [deserOutputIds, deserOutputIds,
            foldlM_deserOutputId_congr libs past past' IdBuffers.terminated_zero hids']
        rw [← hsame]
        cases hdecoded : deserOutputIds libs past elements with
        | none => rfl
        | some ids =>
          have hformed := (wellFormedElement_iff_of_array libs past hids helements).mpr
            (by rw [hdecoded, Option.isSome_some])
          exact ih _ hcopied _ _ (hrest hformed)

/-- A reply whose texts fit, as far as the decoder comes, is decoded the same, whatever is behind the
buffers. -/
theorem deserUnspentOutputs_congr {body : List Byte} (hfits : ReplyTextsFit libs body) (unspent : UnspentOutputs) :
    deserUnspentOutputs libs past body unspent = deserUnspentOutputs libs past' body unspent := by
  unfold deserUnspentOutputs
  cases hparse : libs.cjson.parseBody body with
  | none => rfl
  | some jsonObj =>
    dsimp only
    cases herror : deserError jsonObj with
    | some msg => rfl
    | none =>
      dsimp only
      cases hlisted : (jsonObj.getObjectItemCaseSensitive "unspent_outputs").bind CJson.elements with
      | none => rfl
      | some elements =>
        cases elements with
        | nil => rfl
        | cons first rest =>
          exact deserUnspentLoop_congr libs past past' (-1) (by decide) _ _ (hfits jsonObj hparse herror _ hlisted)

variable {libs}

/-- The base58 text of some bytes fits a buffer which has room for it. -/
theorem textFits_of_b58enc (hbase58 : libs.base58.Lawful) {elm : CJson} {key : String} {size n : ℕ}
    {bytes : Bytes size} (hmember : elm.getObjectItemCaseSensitive key = some (.string (libs.base58.b58enc bytes.val)))
    (hroom : size * 138 / 100 + 1 < n) : elm.TextFits key n := by
  intro text htext
  obtain rfl := CJson.string.inj (Option.some.inj (hmember.symm.trans htext))
  have hlength := hbase58.length_le bytes.val
  rw [bytes.property] at hlength
  exact ((List.takeWhile_sublist _).length_le.trans hlength).trans_lt hroom

/-- The loop comes to elements of its list. -/
theorem Reached.mem {A : Type*} {good : A → Prop} {l : List A} {a : A} (h : Reached good l a) : a ∈ l := by
  obtain ⟨before, after, rfl, -⟩ := h
  exact List.mem_append_right _ List.mem_cons_self

/-- The colour of a balance in the format of the node fits. -/
theorem textFits_balanceDocument (hbase58 : libs.base58.Lawful) (b : Balance) :
    (balanceDocument libs.base58 b).TextFits "color" 48 := by
  have hmember : (balanceDocument libs.base58 b).getObjectItemCaseSensitive "color" =
      some (.string (if b.color = Bytes.zero 32 then cText "IOTA" else libs.base58.b58enc b.color.val)) := rfl
  by_cases hzero : b.color = Bytes.zero 32
  · intro text htext
    rw [if_pos hzero, htext] at hmember
    rw [CJson.string.inj (Option.some.inj hmember)]
    decide
  · rw [if_neg hzero] at hmember
    exact textFits_of_b58enc hbase58 hmember (by decide)

/-- The texts of an output in the format of the node fit. -/
theorem outputTextsFit_outputDocument (hbase58 : libs.base58.Lawful) (o : OutputListing) :
    OutputTextsFit (outputDocument libs.base58 o) := by
  have hid : (outputDocument libs.base58 o).getObjectItemCaseSensitive "id" =
      some (.string (libs.base58.b58enc o.outputId.val)) := rfl
  refine ⟨textFits_of_b58enc hbase58 hid (by decide), ?_⟩
  intro elements helements balElm hbalElm
  have hlisted : o.balances.map (balanceDocument libs.base58) = elements := Option.some.inj helements
  rw [← hlisted] at hbalElm
  obtain ⟨b, -, rfl⟩ := List.mem_map.mp hbalElm
  exact textFits_balanceDocument hbase58 b

/-- The texts of an address in the format of the node fit. -/
theorem addressTextsFit_addressDocument (hbase58 : libs.base58.Lawful) (a : AddressListing) :
    AddressTextsFit (addressDocument libs.base58 a) := by
  have haddr : (addressDocument libs.base58 a).getObjectItemCaseSensitive "address" =
      some (.string (libs.base58.b58enc a.addr.val)) := rfl
  refine ⟨textFits_of_b58enc hbase58 haddr (by decide), ?_⟩
  intro elements helements idsElm hreached
  have hlisted : a.outputs.map (outputDocument libs.base58) = elements := Option.some.inj helements
  have hmem := hreached.mem
  rw [← hlisted] at hmem
  obtain ⟨o, -, rfl⟩ := List.mem_map.mp hmem
  exact outputTextsFit_outputDocument hbase58 o

/-- The texts of a reply in the format of the node fit. -/
theorem replyTextsFit_replyDocument (hbase58 : libs.base58.Lawful) {body : List Byte} {listing : List AddressListing}
    (hparse : libs.cjson.parseBody body = some (replyDocument libs.base58 listing)) : ReplyTextsFit libs body := by
  intro jsonObj hdocument _ elements helements unspentElm hreached
  obtain rfl := Option.some.inj (hparse.symm.trans hdocument)
  have hlisted : listing.map (addressDocument libs.base58) = elements := Option.some.inj helements
  have hmem := hreached.mem
  rw [← hlisted] at hmem
  obtain ⟨a, -, rfl⟩ := List.mem_map.mp hmem
  exact addressTextsFit_addressDocument hbase58 a

end Goshimmer
