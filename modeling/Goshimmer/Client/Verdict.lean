import Goshimmer.Client.SampleLibraries
import Goshimmer.Client.UnspentOutputs

/-!
# The verdict on a reply

The decoder of unspent outputs should return 0 for the well-formed replies and -1 for the others.
Its return code lives outside the loop over the addresses: an element with output ids sets it to
the verdict on them, and an element whose output ids are not an array ends the call without
setting it. So this one defect is reported only where no element before it had output ids.
-/

namespace Goshimmer

/-- A member is absent, or it is an array. -/
def CJson.AbsentOrArray (elm : CJson) (key : String) : Prop :=
  ∀ member, elm.getObjectItemCaseSensitive key = some member → member.elements.isSome

/-- An element of a reply is well formed: its output ids are absent or an array, and so are the
balances of each of them. -/
def WellFormedElement (unspentElm : CJson) : Prop :=
  unspentElm.AbsentOrArray "output_ids" ∧
    ∀ elements, (unspentElm.getObjectItemCaseSensitive "output_ids").bind CJson.elements = some elements →
      ∀ idsElm ∈ elements, idsElm.AbsentOrArray "balances"

/-- A reply is well formed: it lists addresses, and every element is well formed. -/
def WellFormedReply (jsonObj : CJson) : Prop :=
  ∃ elements, (jsonObj.getObjectItemCaseSensitive "unspent_outputs").bind CJson.elements = some elements ∧
    elements ≠ [] ∧ ∀ unspentElm ∈ elements, WellFormedElement unspentElm

/-- An element has output ids. -/
def HasOutputIds (unspentElm : CJson) : Prop :=
  (unspentElm.getObjectItemCaseSensitive "output_ids").isSome

/-- The first defect of a reply is an element whose output ids are not an array, and an element
before it has output ids. -/
def VerdictMasked (jsonObj : CJson) : Prop :=
  ∃ before bad after, (jsonObj.getObjectItemCaseSensitive "unspent_outputs").bind CJson.elements =
      some (before ++ bad :: after) ∧
    (∀ unspentElm ∈ before, WellFormedElement unspentElm) ∧ ¬ bad.AbsentOrArray "output_ids" ∧
      ∃ unspentElm ∈ before, HasOutputIds unspentElm

variable (libs : Libraries) (past : BufferPast)

/-- Decoding one output id succeeds exactly when its balances are absent or an array. -/
theorem deserOutputId_isSome_iff (acc : IdBuffers × OutputIds) (idsElm : CJson) :
    (deserOutputId libs past acc idsElm).isSome ↔ idsElm.AbsentOrArray "balances" := by
  unfold deserOutputId CJson.AbsentOrArray
  dsimp only
  cases hbalances : idsElm.getObjectItemCaseSensitive "balances" with
  | none => simp
  | some jBalances =>
    cases helements : jBalances.elements with
    | none => simp [helements]
    | some elements => simp [helements]

/-- Decoding output ids succeeds exactly when the balances of each are absent or an array. -/
theorem deserOutputIds_isSome_iff (jIds : List CJson) :
    (deserOutputIds libs past jIds).isSome ↔ ∀ idsElm ∈ jIds, idsElm.AbsentOrArray "balances" := by
  unfold deserOutputIds
  rw [Option.isSome_map]
  generalize (IdBuffers.zero, outputIdsInit) = acc
  induction jIds generalizing acc with
  | nil => simp
  | cons idsElm rest ih =>
    rw [List.foldlM_cons, List.forall_mem_cons, ← deserOutputId_isSome_iff libs past acc]
    cases hdecoded : deserOutputId libs past acc idsElm with
    | none => simp
    | some next => simpa using ih next

/-- The first defect of the elements is one whose output ids are not an array, and the return code
is 0 when the loop meets it: it was 0 before, or an element with output ids has set it. -/
def MaskedAfter (ret : Int) (elements : List CJson) : Prop :=
  ∃ before bad after, elements = before ++ bad :: after ∧
    (∀ unspentElm ∈ before, WellFormedElement unspentElm) ∧ ¬ bad.AbsentOrArray "output_ids" ∧
      (ret = 0 ∨ ∃ unspentElm ∈ before, HasOutputIds unspentElm)

/-- The first element is the defect itself, or it is well formed and the defect comes later. -/
theorem maskedAfter_cons_iff (ret : Int) (unspentElm : CJson) (rest : List CJson) :
    MaskedAfter ret (unspentElm :: rest) ↔
      (¬ unspentElm.AbsentOrArray "output_ids" ∧ ret = 0) ∨
        (WellFormedElement unspentElm ∧
          (HasOutputIds unspentElm ∧ MaskedAfter 0 rest ∨ ¬ HasOutputIds unspentElm ∧ MaskedAfter ret rest)) := by
  constructor
  · intro ⟨before, bad, after, heq, hbefore, hbad, hcode⟩
    cases before with
    | nil =>
      obtain ⟨rfl, rfl⟩ := List.cons.inj heq
      exact Or.inl ⟨hbad, hcode.resolve_right (by simp)⟩
    | cons first before =>
      obtain ⟨rfl, rfl⟩ := List.cons.inj heq
      obtain ⟨hfirst, hlater⟩ := List.forall_mem_cons.mp hbefore
      refine Or.inr ⟨hfirst, ?_⟩
      by_cases hids : HasOutputIds unspentElm
      · exact Or.inl ⟨hids, before, bad, after, rfl, hlater, hbad, Or.inl rfl⟩
      · refine Or.inr ⟨hids, before, bad, after, rfl, hlater, hbad, hcode.imp_right ?_⟩
        intro ⟨other, hother, hotherIds⟩
        rcases List.mem_cons.mp hother with rfl | hmem
        · exact absurd hotherIds hids
        · exact ⟨other, hmem, hotherIds⟩
  · rintro (⟨hbad, hcode⟩ | ⟨hfirst, ⟨hids, hmasked⟩ | ⟨_, hmasked⟩⟩)
    · exact ⟨[], unspentElm, rest, rfl, by simp, hbad, Or.inl hcode⟩
    · obtain ⟨before, bad, after, rfl, hbefore, hbad, -⟩ := hmasked
      exact ⟨unspentElm :: before, bad, after, rfl, List.forall_mem_cons.mpr ⟨hfirst, hbefore⟩, hbad,
        Or.inr ⟨unspentElm, List.mem_cons_self, hids⟩⟩
    · obtain ⟨before, bad, after, rfl, hbefore, hbad, hcode⟩ := hmasked
      refine ⟨unspentElm :: before, bad, after, rfl, List.forall_mem_cons.mpr ⟨hfirst, hbefore⟩, hbad, ?_⟩
      exact hcode.imp_right fun ⟨other, hmem, hother⟩ => ⟨other, List.mem_cons_of_mem _ hmem, hother⟩

/-- An element without output ids is well formed. -/
theorem wellFormedElement_of_none {unspentElm : CJson}
    (h : unspentElm.getObjectItemCaseSensitive "output_ids" = none) : WellFormedElement unspentElm := by
  simp [WellFormedElement, CJson.AbsentOrArray, h]

/-- An element whose output ids are an array is well formed exactly when they decode. -/
theorem wellFormedElement_iff_of_array {unspentElm jIds : CJson} {elements : List CJson}
    (hids : unspentElm.getObjectItemCaseSensitive "output_ids" = some jIds)
    (helements : jIds.elements = some elements) :
    WellFormedElement unspentElm ↔ (deserOutputIds libs past elements).isSome := by
  have harray : unspentElm.AbsentOrArray "output_ids" := by
    simp [CJson.AbsentOrArray, hids, helements]
  simp [WellFormedElement, harray, hids, helements, deserOutputIds_isSome_iff]

/-- The verdict of the loop: 0 exactly when every element is well formed or the first defect is
masked. -/
theorem deserUnspentLoop_eq_zero_iff (elements : List CJson) (ret : Int) (addrStr : Bytes 48)
    (addr : Address) (unspent : UnspentOutputs) :
    (deserUnspentLoop libs past elements ret addrStr addr unspent).1 = 0 ↔
      (∀ unspentElm ∈ elements, WellFormedElement unspentElm) ∨ MaskedAfter ret elements := by
  induction elements generalizing ret addrStr addr unspent with
  | nil => simp [deserUnspentLoop]
  | cons unspentElm rest ih =>
    unfold deserUnspentLoop
    dsimp only
    rw [maskedAfter_cons_iff, List.forall_mem_cons]
    cases hids : unspentElm.getObjectItemCaseSensitive "output_ids" with
    | none =>
      have hfirst := wellFormedElement_of_none hids
      simp [ih, hfirst, hfirst.1, HasOutputIds, hids]
    | some jIds =>
      cases helements : jIds.elements with
      | none =>
        have hbad : ¬ unspentElm.AbsentOrArray "output_ids" := by
          simp [CJson.AbsentOrArray, hids, helements]
        have hfirst : ¬ WellFormedElement unspentElm := fun h => hbad h.1
        simp [helements, hfirst, hbad]
      | some elements =>
        have harray : unspentElm.AbsentOrArray "output_ids" := by
          simp [CJson.AbsentOrArray, hids, helements]
        have hfirst := wellFormedElement_iff_of_array libs past hids helements
        cases hdecoded : deserOutputIds libs past elements with
        | none => simp [helements, hdecoded, hfirst, harray]
        | some ids => simp [helements, hdecoded, ih, hfirst, harray, HasOutputIds, hids]

/-- The loop returns 0 or -1, when it starts with one of them. -/
theorem deserUnspentLoop_codes (elements : List CJson) {ret : Int} (hret : ret = 0 ∨ ret = -1)
    (addrStr : Bytes 48) (addr : Address) (unspent : UnspentOutputs) :
    (deserUnspentLoop libs past elements ret addrStr addr unspent).1 = 0 ∨
      (deserUnspentLoop libs past elements ret addrStr addr unspent).1 = -1 := by
  induction elements generalizing ret addrStr addr unspent with
  | nil => exact Or.inl rfl
  | cons unspentElm rest ih =>
    unfold deserUnspentLoop
    dsimp only
    split
    · exact ih hret _ _ _
    · split
      · exact hret
      · split
        · exact Or.inr rfl
        · exact ih (Or.inl rfl) _ _ _

/-- The code is the one for the reply: 0 for a well-formed one, and -1 for any other. -/
def VerdictMatches (code : Int) (jsonObj : CJson) : Prop :=
  (code = 0 ↔ WellFormedReply jsonObj) ∧ (¬ WellFormedReply jsonObj → code = -1)

/-- A masked defect is a defect. -/
theorem VerdictMasked.not_wellFormed {jsonObj : CJson} (h : VerdictMasked jsonObj) :
    ¬ WellFormedReply jsonObj := by
  obtain ⟨before, bad, after, hmasked, -, hbad, -⟩ := h
  intro ⟨elements, helements, _, hformed⟩
  rw [Option.some.inj (helements.symm.trans hmasked)] at hformed
  exact hbad (hformed bad (by simp)).1

/-- What the decoder returns for a document without an error message. -/
theorem deserUnspentOutputs_eq_zero_iff {body : List Byte} {jsonObj : CJson}
    (hparse : libs.cjson.parseBody body = some jsonObj) (herror : deserError jsonObj = none)
    (unspent : UnspentOutputs) :
    (deserUnspentOutputs libs past body unspent).1 = 0 ↔
      WellFormedReply jsonObj ∨ VerdictMasked jsonObj := by
  unfold deserUnspentOutputs WellFormedReply VerdictMasked
  rw [hparse]
  dsimp only
  rw [herror]
  dsimp only
  cases helements : (jsonObj.getObjectItemCaseSensitive "unspent_outputs").bind CJson.elements with
  | none => simp
  | some elements =>
    cases elements with
    | nil => simp
    | cons unspentElm rest =>
      have hloop := deserUnspentLoop_eq_zero_iff libs past (unspentElm :: rest) (-1) (Bytes.zero 48)
        (Bytes.zero 33) unspent
      refine hloop.trans (or_congr ?_ ?_)
      · simp
      · simp [MaskedAfter]

/-- The decoder returns 0 or -1. -/
theorem deserUnspentOutputs_codes (body : List Byte) (unspent : UnspentOutputs) :
    (deserUnspentOutputs libs past body unspent).1 = 0 ∨
      (deserUnspentOutputs libs past body unspent).1 = -1 := by
  unfold deserUnspentOutputs
  split
  · exact Or.inr rfl
  · split
    · exact Or.inl rfl
    · split
      · exact Or.inr rfl
      · exact Or.inr rfl
      · exact deserUnspentLoop_codes libs past _ (Or.inr rfl) _ _ _

/-- The verdict on a document without an error member is the right one exactly when its first
defect is not masked. -/
theorem deserUnspentOutputs_verdict_iff {body : List Byte} {jsonObj : CJson}
    (hparse : libs.cjson.parseBody body = some jsonObj)
    (hmember : jsonObj.getObjectItemCaseSensitive "error" = none) (unspent : UnspentOutputs) :
    VerdictMatches (deserUnspentOutputs libs past body unspent).1 jsonObj ↔ ¬ VerdictMasked jsonObj := by
  have herror : deserError jsonObj = none := by simp [deserError, hmember]
  have hzero := deserUnspentOutputs_eq_zero_iff libs past hparse herror unspent
  unfold VerdictMatches
  constructor
  · intro ⟨hcode, _⟩ hmasked
    exact hmasked.not_wellFormed (hcode.mp (hzero.mpr (Or.inr hmasked)))
  · intro hmasked
    have hcode := hzero.trans (or_iff_left hmasked)
    refine ⟨hcode, fun hformed => ?_⟩
    exact (deserUnspentOutputs_codes libs past body unspent).resolve_left (hcode.not.mpr hformed)

/-- An element without output ids, and one whose output ids are not an array. -/
def idsThenText : CJson :=
  .object [("unspent_outputs",
    .array [.object [("output_ids", .array [])], .object [("output_ids", .string [])]])]

/-- A text for this document. -/
def idsThenTextReply : List Byte :=
  cText "\x7b\"unspent_outputs\":[\x7b\"output_ids\":[]\x7d,\x7b\"output_ids\":\"\"\x7d]\x7d"

/-- The characterisation for this document. -/
theorem deserUnspentOutputs_verdict_iff_idsThenText :
    VerdictMatches (deserUnspentOutputs (sampleLibraries [(idsThenTextReply, idsThenText)]) ⟨[], [], []⟩
        idsThenTextReply unspentOutputsInit).1 idsThenText ↔ ¬ VerdictMasked idsThenText :=
  deserUnspentOutputs_verdict_iff (sampleLibraries [(idsThenTextReply, idsThenText)]) ⟨[], [], []⟩
    (by rfl) rfl unspentOutputsInit

/-- Output ids which are a text go unnoticed behind an element with output ids. -/
theorem defect_behind_ids_accepted :
    ¬ ∀ (libs : Libraries) (past : BufferPast) (body : List Byte) (jsonObj : CJson),
      libs.cjson.parseBody body = some jsonObj → jsonObj.getObjectItemCaseSensitive "error" = none →
        VerdictMatches (deserUnspentOutputs libs past body unspentOutputsInit).1 jsonObj := by
  intro h
  have hmatches := h (sampleLibraries [(idsThenTextReply, idsThenText)]) ⟨[], [], []⟩ idsThenTextReply
    idsThenText (by rfl) rfl
  have hcode : (deserUnspentOutputs (sampleLibraries [(idsThenTextReply, idsThenText)]) ⟨[], [], []⟩
      idsThenTextReply unspentOutputsInit).1 = 0 := by
    decide
  obtain ⟨elements, helements, _, hformed⟩ := hmatches.1.mp hcode
  rw [← Option.some.inj helements] at hformed
  have hbad := (hformed (.object [("output_ids", .string [])]) (by simp)).1 (.string []) rfl
  simp [CJson.elements] at hbad

end Goshimmer
