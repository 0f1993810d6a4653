import Goshimmer.Client.Verdict

/-!
# Texts of a reply in their buffers

The decoder copies texts of the reply with `strncpy` and the whole size of a buffer, and hands the buffer on
to `strlen` and to the base58 decoder. A text which fills the buffer leaves it without a NUL, and the copy
counts as a success. The log below follows the decoder through a reply and lists every copy which succeeded
and every buffer which was handed on.
-/

namespace Goshimmer

/-- What happens to a buffer: `json_get_string` returns 0 for a text, or the buffer is handed on to `strlen`
or to the base58 decoder. -/
inductive TextEvent
  | copied {n : ℕ} (text : List Byte) (buffer : Bytes n)
  | passed {n : ℕ} (buffer : Bytes n)

/-- The buffer starts with the whole text and its NUL. -/
def Bytes.HoldsText {n : ℕ} (buffer : Bytes n) (text : List Byte) : Prop :=
  ∃ rest, buffer.val = text.takeWhile (· ≠ 0) ++ 0 :: rest

/-- A copy is whole, and a buffer which is handed on has a NUL. -/
def TextEvent.Safe : TextEvent → Prop
  | .copied text buffer => buffer.HoldsText text
  | .passed buffer => 0 ∈ buffer.val

/-! ## The log of the decoder -/

/-- `json_get_string`. -/
def getStringEvents {n : ℕ} (jsonObj : CJson) (key : String) (str : Bytes n) : List TextEvent :=
  match jsonObj.getObjectItemCaseSensitive key with
  | some (.string valueString) => [.copied valueString (jsonGetString jsonObj key str).2]
  | _ => []

/-- The loop body of `deser_output_ids` for one balance; the name of the zero colour is not handed on. -/
def balanceEvents (colorStr : Bytes 48) (balElm : CJson) : List TextEvent :=
  getStringEvents balElm "color" colorStr ++
    if (jsonGetString balElm "color" colorStr).2.val.take 4 ≠ cText "IOTA" then
      [.passed (jsonGetString balElm "color" colorStr).2]
    else []

variable (libs : Libraries) (past : BufferPast)

/-- The loop over the balances. -/
def balancesEvents : Bytes 48 × BalanceHt → List CJson → List TextEvent
  | _, [] => []
  | acc, balElm :: rest => balanceEvents acc.1 balElm ++ balancesEvents (deserBalance libs past acc balElm) rest

/-- The loop body of `deser_output_ids`. -/
def outputIdEvents (acc : IdBuffers × OutputIds) (idsElm : CJson) : List TextEvent :=
  getStringEvents idsElm "id" acc.1.outputIdStr ++
    .passed (jsonGetString idsElm "id" acc.1.outputIdStr).2 ::
      match (idsElm.getObjectItemCaseSensitive "balances").bind CJson.elements with
      | none => []
      | some elements => balancesEvents libs past (acc.1.colorStr, balanceHtInit) elements

/-- `deser_output_ids`. -/
def outputIdsEvents : IdBuffers × OutputIds → List CJson → List TextEvent
  | _, [] => []
  | acc, idsElm :: rest =>
    outputIdEvents libs past acc idsElm ++
      match deserOutputId libs past acc idsElm with
      | none => []
      | some next => outputIdsEvents next rest

/-- The loop of `deser_unspent_outputs`. -/
def unspentEvents : Bytes 48 → List CJson → List TextEvent
  | _, [] => []
  | addrStr, unspentElm :: rest =>
    getStringEvents unspentElm "address" addrStr ++
      .passed (jsonGetString unspentElm "address" addrStr).2 ::
        match unspentElm.getObjectItemCaseSensitive "output_ids" with
        | none => unspentEvents (jsonGetString unspentElm "address" addrStr).2 rest
        | some jIds =>
          match jIds.elements with
          | none => []
          | some elements =>
            outputIdsEvents libs past (IdBuffers.zero, outputIdsInit) elements ++
              match deserOutputIds libs past elements with
              | none => []
              | some _ => unspentEvents (jsonGetString unspentElm "address" addrStr).2 rest

/-- `deser_unspent_outputs`. -/
def replyEvents (body : List Byte) : List TextEvent :=
  match libs.cjson.parseBody body with
  | none => []
  | some jsonObj =>
    match deserError jsonObj with
    | some _ => []
    | none =>
      match (jsonObj.getObjectItemCaseSensitive "unspent_outputs").bind CJson.elements with
      | none => []
      | some elements => unspentEvents libs past (Bytes.zero 48) elements

/-! ## Texts which fit -/

/-- A member which is a text is shorter than a buffer. -/
def CJson.TextFits (elm : CJson) (key : String) (n : ℕ) : Prop :=
  ∀ text, elm.getObjectItemCaseSensitive key = some (.string text) → (text.takeWhile (· ≠ 0)).length < n

/-- An element which a loop comes to that stops behind the first one without a property. -/
def Reached {A : Type*} (good : A → Prop) (l : List A) (a : A) : Prop :=
  ∃ before after, l = before ++ a :: after ∧ ∀ b ∈ before, good b

/-- The texts of an output fit. -/
def OutputTextsFit (idsElm : CJson) : Prop :=
  idsElm.TextFits "id" 96 ∧
    ∀ elements, (idsElm.getObjectItemCaseSensitive "balances").bind CJson.elements = some elements →
      ∀ balElm ∈ elements, balElm.TextFits "color" 48

/-- The texts of an address fit, with those of the outputs which the decoder comes to. -/
def AddressTextsFit (unspentElm : CJson) : Prop :=
  unspentElm.TextFits "address" 48 ∧
    ∀ elements, (unspentElm.getObjectItemCaseSensitive "output_ids").bind CJson.elements = some elements →
      ∀ idsElm, Reached (fun elm => elm.AbsentOrArray "balances") elements idsElm → OutputTextsFit idsElm

/-- The texts of a reply fit, as far as the decoder comes. -/
def ReplyTextsFit (body : List Byte) : Prop :=
  ∀ jsonObj, libs.cjson.parseBody body = some jsonObj → deserError jsonObj = none →
    ∀ elements, (jsonObj.getObjectItemCaseSensitive "unspent_outputs").bind CJson.elements = some elements →
      ∀ unspentElm, Reached WellFormedElement elements unspentElm → AddressTextsFit unspentElm

/-- What holds of every element which a loop comes to holds of the first one, and of the later ones if the
loop goes on. -/
theorem forall_reached_cons {A : Type*} {good p : A → Prop} {a : A} {l : List A} :
    (∀ b, Reached good (a :: l) b → p b) ↔ p a ∧ (good a → ∀ b, Reached good l b → p b) := by
  constructor
  · intro hall
    refine ⟨hall a ⟨[], l, rfl, List.forall_mem_nil _⟩, fun hgood b hb => ?_⟩
    obtain ⟨before, after, rfl, hbefore⟩ := hb
    exact hall b ⟨a :: before, after, rfl, List.forall_mem_cons.mpr ⟨hgood, hbefore⟩⟩
  · rintro ⟨hfirst, hlater⟩ b ⟨before, after, heq, hbefore⟩
    cases before with
    | nil => rwa [← (List.cons.inj heq).1]
    | cons first before =>
      obtain ⟨rfl, rfl⟩ := List.cons.inj heq
      obtain ⟨hgood, hrest⟩ := List.forall_mem_cons.mp hbefore
      exact hlater hgood b ⟨before, after, rfl, hrest⟩

/-- A loop over nothing comes to no element. -/
theorem not_reached_nil {A : Type*} {good : A → Prop} (a : A) : ¬ Reached good [] a := by
  rintro ⟨before, after, heq, -⟩
  exact List.append_ne_nil_of_right_ne_nil before (List.cons_ne_nil a after) heq.symm

/-! ## One text -/

/-- A copy is whole exactly when the text is shorter than the buffer. -/
theorem holdsText_strncpy_iff (n : ℕ) (text : List Byte) :
    (strncpy n text).HoldsText text ↔ (text.takeWhile (· ≠ 0)).length < n := by
  constructor
  · intro ⟨rest, hrest⟩
    have hlength := congrArg List.length hrest
    rw [(strncpy n text).property, List.length_append, List.length_cons] at hlength
    omega
  · intro hfits
    obtain ⟨room, hbuffer⟩ := val_strncpy hfits
    exact ⟨List.replicate room 0, hbuffer⟩

/-- `json_get_string` copies a text which it finds. -/
theorem jsonGetString_of_text {n : ℕ} {jsonObj : CJson} {key : String} {text : List Byte}
    (hmember : jsonObj.getObjectItemCaseSensitive key = some (.string text)) (str : Bytes n) :
    jsonGetString jsonObj key str = (0, strncpy n text) := by
  rw [jsonGetString, hmember]

/-- `json_get_string` is safe exactly when a text which it finds is shorter than the buffer. -/
theorem getStringEvents_safe_iff {n : ℕ} (jsonObj : CJson) (key : String) (str : Bytes n) :
    (∀ event ∈ getStringEvents jsonObj key str, event.Safe) ↔ jsonObj.TextFits key n := by
  unfold getStringEvents CJson.TextFits
  split
  · next text hmember =>
    rw [List.forall_mem_singleton, TextEvent.Safe, jsonGetString_of_text hmember, holdsText_strncpy_iff, hmember]
    simp
  · next hother => exact ⟨fun _ text htext => absurd htext (hother text), fun _ => List.forall_mem_nil _⟩

/-- A buffer with a NUL has one after `json_get_string` when the text fits. -/
theorem zero_mem_jsonGetString {n : ℕ} {jsonObj : CJson} {key : String} {str : Bytes n} (hstr : 0 ∈ str.val)
    (hfits : jsonObj.TextFits key n) : 0 ∈ (jsonGetString jsonObj key str).2.val := by
  unfold jsonGetString
  split
  · next text hmember =>
    obtain ⟨room, hbuffer⟩ := val_strncpy (hfits text hmember)
    rw [hbuffer]
    exact List.mem_append_right _ List.mem_cons_self
  · exact hstr

/-! ## The loops -/

/-- A balance is decoded safely exactly when its colour fits. -/
theorem balanceEvents_safe_iff {colorStr : Bytes 48} (hcolor : 0 ∈ colorStr.val) (balElm : CJson) :
    (∀ event ∈ balanceEvents colorStr balElm, event.Safe) ↔ balElm.TextFits "color" 48 := by
  rw [balanceEvents, List.forall_mem_append, getStringEvents_safe_iff, and_iff_left_iff_imp]
  intro hfits
  split
  · rw [List.forall_mem_singleton]
    exact zero_mem_jsonGetString hcolor hfits
  · exact List.forall_mem_nil _

/-- Balances are decoded safely exactly when their colours fit. -/
theorem balancesEvents_safe_iff (acc : Bytes 48 × BalanceHt) (hcolor : 0 ∈ acc.1.val) (elements : List CJson) :
    (∀ event ∈ balancesEvents libs past acc elements, event.Safe) ↔
      ∀ balElm ∈ elements, balElm.TextFits "color" 48 := by
  induction elements generalizing acc with
  | nil => simp [balancesEvents]
  | cons balElm rest ih =>
    rw [balancesEvents, List.forall_mem_append, List.forall_mem_cons, balanceEvents_safe_iff hcolor]
    apply and_congr_right
    intro hfits
    exact ih (deserBalance libs past acc balElm) (zero_mem_jsonGetString hcolor hfits)

/-- The colour buffer has a NUL after balances whose colours fit. -/
theorem zero_mem_foldl_deserBalance (acc : Bytes 48 × BalanceHt) (hcolor : 0 ∈ acc.1.val)
    {elements : List CJson} (hfits : ∀ balElm ∈ elements, balElm.TextFits "color" 48) :
    0 ∈ (elements.foldl (deserBalance libs past) acc).1.val := by
  induction elements generalizing acc with
  | nil => exact hcolor
  | cons balElm rest ih =>
    obtain ⟨hfirst, hrest⟩ := List.forall_mem_cons.mp hfits
    exact ih (deserBalance libs past acc balElm) (zero_mem_jsonGetString hcolor hfirst) hrest

/-- The text buffers have a NUL. -/
structure IdBuffers.Terminated (buffers : IdBuffers) : Prop where
  colorStr : 0 ∈ buffers.colorStr.val
  outputIdStr : 0 ∈ buffers.outputIdStr.val

/-- An output is decoded safely exactly when its texts fit. -/
theorem outputIdEvents_safe_iff {acc : IdBuffers × OutputIds} (h : acc.1.Terminated) (idsElm : CJson) :
    (∀ event ∈ outputIdEvents libs past acc idsElm, event.Safe) ↔ OutputTextsFit idsElm := by
  rw [outputIdEvents, List.forall_mem_append, List.forall_mem_cons, getStringEvents_safe_iff, OutputTextsFit]
  apply and_congr_right
  intro hid
  have hpassed : TextEvent.Safe (.passed (jsonGetString idsElm "id" acc.1.outputIdStr).2) :=
    zero_mem_jsonGetString h.outputIdStr hid
  rw [and_iff_right hpassed]
  cases (idsElm.getObjectItemCaseSensitive "balances").bind CJson.elements with
  | none => simp
  | some elements =>
    have hbalances := balancesEvents_safe_iff libs past (acc.1.colorStr, balanceHtInit) h.colorStr elements
    simpa using hbalances

/-- The text buffers have a NUL after an output whose texts fit. -/
theorem IdBuffers.Terminated.deserOutputId {acc next : IdBuffers × OutputIds} (h : acc.1.Terminated)
    {idsElm : CJson} (hfits : OutputTextsFit idsElm)
    (hnext : Goshimmer.deserOutputId libs past acc idsElm = some next) : next.1.Terminated := by
  have hid := zero_mem_jsonGetString h.outputIdStr hfits.1
  unfold Goshimmer.deserOutputId at hnext
  dsimp only at hnext
  split at hnext
  · rw [← Option.some.inj hnext]
    exact ⟨h.colorStr, hid⟩
  · next jBalances hbalances =>
    cases helements : jBalances.elements with
    | none => simp [helements] at hnext
    | some elements =>
      have hcolors := hfits.2 elements (by rw [hbalances, Option.bind_some, helements])
      rw [helements] at hnext
      rw [← Option.some.inj hnext]
      exact ⟨zero_mem_foldl_deserBalance libs past (acc.1.colorStr, balanceHtInit) h.colorStr hcolors, hid⟩

/-- Outputs are decoded safely exactly when the texts of those fit which the decoder comes to. -/
theorem outputIdsEvents_safe_iff (acc : IdBuffers × OutputIds) (h : acc.1.Terminated) (jIds : List CJson) :
    (∀ event ∈ outputIdsEvents libs past acc jIds, event.Safe) ↔
      ∀ idsElm, Reached (fun elm => elm.AbsentOrArray "balances") jIds idsElm → OutputTextsFit idsElm := by
  induction jIds generalizing acc with
  | nil =>
    exact ⟨fun _ idsElm hreached => absurd hreached (not_reached_nil idsElm), fun _ => List.forall_mem_nil _⟩
  | cons idsElm rest ih =>
    rw [outputIdsEvents, List.forall_mem_append, outputIdEvents_safe_iff libs past h, forall_reached_cons]
    apply and_congr_right
    intro hfits
    -- the loop goes on exactly when this output decodes, and then its buffers still have their NULs
    rw [← deserOutputId_isSome_iff libs past acc]
    cases hnext : deserOutputId libs past acc idsElm with
    | none => simp
    | some next =>
      have hterminated := h.deserOutputId libs past hfits hnext
      simpa using ih next hterminated

/-- The buffers start with NULs. -/
theorem IdBuffers.terminated_zero : IdBuffers.zero.Terminated := ⟨by decide, by decide⟩

/-- Addresses are decoded safely exactly when the texts of those fit which the decoder comes to. -/
theorem unspentEvents_safe_iff (addrStr : Bytes 48) (haddr : 0 ∈ addrStr.val) (elements : List CJson) :
    (∀ event ∈ unspentEvents libs past addrStr elements, event.Safe) ↔
      ∀ unspentElm, Reached WellFormedElement elements unspentElm → AddressTextsFit unspentElm := by
  induction elements generalizing addrStr with
  | nil =>
    exact ⟨fun _ elm hreached => absurd hreached (not_reached_nil elm), fun _ => List.forall_mem_nil _⟩
  | cons unspentElm rest ih =>
    rw [unspentEvents, List.forall_mem_append, List.forall_mem_cons, getStringEvents_safe_iff, forall_reached_cons,
      AddressTextsFit, and_assoc]
    apply and_congr_right
    intro haddress
    have hcopied := zero_mem_jsonGetString haddr haddress
    have hpassed : TextEvent.Safe (.passed (jsonGetString unspentElm "address" addrStr).2) := hcopied
    rw [and_iff_right hpassed]
    cases hids : unspentElm.getObjectItemCaseSensitive "output_ids" with
    | none => simp [ih _ hcopied, wellFormedElement_of_none hids]
    | some jIds =>
      cases helements : jIds.elements with
      | none =>
        have hbad : ¬ WellFormedElement unspentElm := by
          intro hformed
          simpa [helements] using hformed.1 jIds hids
        simp [helements, hbad]
      | some elements =>
        have hformed := wellFormedElement_iff_of_array libs past hids helements
        have houtputs := outputIdsEvents_safe_iff libs past (IdBuffers.zero, outputIdsInit)
          IdBuffers.terminated_zero elements
        simp only [Option.bind_some, helements, Option.some.injEq, forall_eq', List.forall_mem_append, houtputs,
          hformed]
        apply and_congr_right
        intro _
        cases hdecoded : deserOutputIds libs past elements with
        | none => simp
        | some ids => simpa using ih _ hcopied

/-! ## Every reply -/

/-- `json_get_string` returns 0 only where the buffer holds the whole text. -/
def GetStringWhole {n : ℕ} (jsonObj : CJson) (key : String) (str : Bytes n) : Prop :=
  (jsonGetString jsonObj key str).1 = 0 → ∃ text,
    jsonObj.getObjectItemCaseSensitive key = some (.string text) ∧ (jsonGetString jsonObj key str).2.HoldsText text

/-- It does so exactly when a text which it finds is shorter than the buffer. -/
theorem getStringWhole_iff {n : ℕ} (jsonObj : CJson) (key : String) (str : Bytes n) :
    GetStringWhole jsonObj key str ↔ jsonObj.TextFits key n := by
  unfold GetStringWhole CJson.TextFits
  rw [jsonGetString_eq_zero_iff]
  constructor
  · intro hwhole text hmember
    obtain ⟨other, hother, hholds⟩ := hwhole ⟨text, hmember⟩
    rwa [jsonGetString_of_text hother, holdsText_strncpy_iff,
      CJson.string.inj (Option.some.inj (hother.symm.trans hmember))] at hholds
  · rintro hfits ⟨text, hmember⟩
    refine ⟨text, hmember, ?_⟩
    rw [jsonGetString_of_text hmember, holdsText_strncpy_iff]
    exact hfits text hmember

/-- A reply is decoded safely exactly when the texts fit which the decoder comes to, and `json_get_string`
returns 0 only for whole texts exactly when a text which it finds fits. -/
theorem replyEvents_safe_iff (body : List Byte) {n : ℕ} (jsonObj : CJson) (key : String) (str : Bytes n) :
    ((∀ event ∈ replyEvents libs past body, event.Safe) ↔ ReplyTextsFit libs body) ∧
      (GetStringWhole jsonObj key str ↔ jsonObj.TextFits key n) := by
  refine ⟨?_, getStringWhole_iff jsonObj key str⟩
  unfold replyEvents ReplyTextsFit
  cases hparse : libs.cjson.parseBody body with
  | none => simp
  | some reply =>
    cases herror : deserError reply with
    | some msg => simp [herror]
    | none =>
      cases helements : (reply.getObjectItemCaseSensitive "unspent_outputs").bind CJson.elements with
      | none => simp [herror, helements]
      | some elements =>
        have hloop := unspentEvents_safe_iff libs past (Bytes.zero 48) (by decide) elements
        simp [herror, helements, hloop]

/-- A reply with one address, whose text fills the buffer. -/
def longAddressReply : List Byte :=
  cText "\x7b\"unspent_outputs\":[\x7b\"address\":\"" ++ List.replicate 48 49 ++ cText "\"\x7d]\x7d"

/-- Its document. -/
def longAddressDocument : CJson :=
  .object [("unspent_outputs", .array [.object [("address", .string (List.replicate 48 49))]])]

/-- The buffer of the address has no NUL when it is handed on. -/
theorem address_of_48_characters_unterminated :
    ¬ ∀ (libs : Libraries) (past : BufferPast) (body : List Byte),
      ∀ event ∈ replyEvents libs past body, event.Safe := by
  intro h
  have hevents := h (sampleLibraries [(longAddressReply, longAddressDocument)]) ⟨[], [], []⟩ longAddressReply
  have hpassed : TextEvent.passed (strncpy 48 (List.replicate 48 49)) ∈
      replyEvents (sampleLibraries [(longAddressReply, longAddressDocument)]) ⟨[], [], []⟩ longAddressReply := by
    have hparse : (sampleLibraries [(longAddressReply, longAddressDocument)]).cjson.parseBody longAddressReply =
        some longAddressDocument := parseBody_sampleLibraries longAddressDocument (by decide) (by decide)
    rw [replyEvents, hparse]
    exact List.mem_append_right _ List.mem_cons_self
  have hunterminated : (0 : Byte) ∉ (strncpy 48 (List.replicate 48 49)).val := by decide
  exact hunterminated (hevents _ hpassed)

end Goshimmer
