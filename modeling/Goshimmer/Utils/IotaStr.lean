import Goshimmer.Library.Run
import Goshimmer.Utils.ByteBuffer

/-!
# Growable strings

`utils/iota_str.c`. A string is a block which ends with a NUL behind its characters. An append which has to
grow stores what `realloc` returns before it looks at it, so where the memory is refused the string has lost
its block. All other calls keep the string whole, whatever becomes of their allocations.
-/

namespace Goshimmer

/-- A text in memory, which with its NUL has a size. -/
structure CString where
  bytes : List Byte
  noNul : 0 ∉ bytes
  fits : bytes.length + 1 < 2 ^ 64

/-- `iota_str_t`; the pointer `buf` may be null. -/
structure IotaStr where
  buf : Option (List Byte)
  cap : UInt64
  len : UInt64
  deriving DecidableEq

/-- `iota_str_new`, from the outcomes of its two allocations; the result may be null. -/
def iotaStrNew (granted : Bool) (alloc : Allocation) (s : CString) : Option IotaStr :=
  if granted then
    let len := UInt64.ofNat s.bytes.length
    let cap := len + 1
    if alloc.granted then
      let buf := overwrite (alloc.block cap.toNat) 0 s.bytes
      some ⟨some (overwrite buf len.toNat [0]), cap, len⟩
    else none
  else none

/-- The end of `iota_str_appendn`: the copy and the terminator. It is undefined without a block and where the
block is too short. -/
def iotaStrWrite (istr : IotaStr) (s : List Byte) : Option (Int × IotaStr) :=
  match istr.buf with
  | none => none
  | some buf =>
    if istr.len.toNat + s.length < buf.length then
      let copied := overwrite buf istr.len.toNat s
      let len := istr.len + UInt64.ofNat s.length
      some (0, { istr with buf := some (overwrite copied len.toNat [0]), len := len })
    else none

/-- `iota_str_appendn`. -/
def iotaStrAppendn (alloc : Allocation) (istr : IotaStr) (s : List Byte) : Option (Int × IotaStr) :=
  let neededCap := istr.len + UInt64.ofNat s.length + 1
  if istr.cap < neededCap then
    if alloc.granted then
      iotaStrWrite { istr with buf := some (alloc.grow (istr.buf.getD []) neededCap.toNat), cap := neededCap } s
    else some (-1, { istr with buf := none })
  else iotaStrWrite istr s

/-- `iota_str_append`. -/
def iotaStrAppend (alloc : Allocation) (istr : IotaStr) (s : CString) : Option (Int × IotaStr) :=
  iotaStrAppendn alloc istr s.bytes

/-- `iota_str_append_char`. -/
def iotaStrAppendChar (alloc : Allocation) (istr : IotaStr) (c : Byte) : Option (Int × IotaStr) :=
  iotaStrAppendn alloc istr [c]

/-- `iota_str_clonen`, from the outcomes of its two allocations; the clone may be null. The block of the clone
has the capacity of the original. -/
def iotaStrClonen (granted : Bool) (alloc : Allocation) (istr : IotaStr) (len : UInt64) :
    Option (Option IotaStr) :=
  if granted ∧ alloc.granted then
    match istr.buf with
    | none => none
    | some buf =>
      if len.toNat ≤ buf.length ∧ len.toNat < istr.cap.toNat then
        let copied := overwrite (alloc.block istr.cap.toNat) 0 (buf.take len.toNat)
        some (some ⟨some (overwrite copied len.toNat [0]), len + 1, len⟩)
      else none
  else some none

/-- `iota_str_clone`. -/
def iotaStrClone (granted : Bool) (alloc : Allocation) (istr : IotaStr) : Option (Option IotaStr) :=
  iotaStrClonen granted alloc istr istr.len

/-- The calls on a string. -/
inductive StrOp
  | append (s : CString)
  | appendChar (c : Byte)
  | appendn (s : List Byte)
  | clone (granted : Bool)

/-- A call with the outcome of the allocation of its block. -/
structure StrCall where
  op : StrOp
  alloc : Allocation

/-- What a call returns and the string which is used after it, a clone if there is one; a null clone counts
as -1. An undefined call yields nothing. -/
def StrCall.run (istr : IotaStr) (call : StrCall) : Option (Int × IotaStr) :=
  match call.op with
  | .append s => iotaStrAppend call.alloc istr s
  | .appendChar c => iotaStrAppendChar call.alloc istr c
  | .appendn s => iotaStrAppendn call.alloc istr s
  | .clone granted =>
    (iotaStrClone granted call.alloc istr).map fun
      | some clone => (0, clone)
      | none => (-1, istr)

/-- The bytes which a call appends. -/
def StrOp.bytes : StrOp → List Byte
  | .append s => s.bytes
  | .appendChar c => [c]
  | .appendn s => s
  | .clone _ => []

/-- The characters of a string. -/
def IotaStr.text (istr : IotaStr) : List Byte := (istr.buf.getD []).take istr.len.toNat

/-- There is a block, the capacity has room for the NUL, and the NUL is behind the characters. -/
def IotaStr.Terminated (istr : IotaStr) : Prop :=
  ∃ buf, istr.buf = some buf ∧ istr.len.toNat + 1 ≤ istr.cap.toNat ∧ buf[istr.len.toNat]? = some 0

/-- A call is defined and leaves a terminated string; 0 means that exactly the bytes were appended, and -1
that the string is as it was. -/
def IotaStr.RightCall (istr : IotaStr) (call : StrCall) : Prop :=
  ∃ code after, call.run istr = some (code, after) ∧ after.Terminated ∧
    (code = 0 → after.text = istr.text ++ call.op.bytes) ∧ (code = -1 → after = istr)

/-! ## Whole strings -/

/-- The string has the given block, which the capacity does not exceed and which ends with a NUL behind the
characters. -/
structure IotaStr.Whole (istr : IotaStr) (buf : List Byte) : Prop where
  buf_eq : istr.buf = some buf
  len_lt : istr.len.toNat < istr.cap.toNat
  cap_le : istr.cap.toNat ≤ buf.length
  length_lt : buf.length < 2 ^ 64
  terminated : buf[istr.len.toNat]? = some 0

/-- A whole string is terminated. -/
theorem IotaStr.Whole.toTerminated {istr : IotaStr} {buf : List Byte} (h : istr.Whole buf) : istr.Terminated :=
  ⟨buf, h.buf_eq, h.len_lt, h.terminated⟩

/-- The characters of a whole string. -/
theorem IotaStr.Whole.text_eq {istr : IotaStr} {buf : List Byte} (h : istr.Whole buf) :
    istr.text = buf.take istr.len.toNat := by
  rw [IotaStr.text, h.buf_eq, Option.getD_some]

/-- The string whose characters end with bytes that were copied into a block, and with a NUL behind them. -/
def IotaStr.copied (block s : List Byte) (offset : ℕ) (cap len : UInt64) : IotaStr :=
  ⟨some (overwrite (overwrite block offset s) len.toNat [0]), cap, len⟩

/-- It is whole, where the block and the capacity have room. -/
theorem whole_copied {block s : List Byte} {offset : ℕ} {cap len : UInt64}
    (hlen : len.toNat = offset + s.length) (hcap : len.toNat < cap.toNat) (hblock : cap.toNat ≤ block.length)
    (hsize : block.length < 2 ^ 64) :
    (∃ buf, (IotaStr.copied block s offset cap len).Whole buf) ∧
      (IotaStr.copied block s offset cap len).text = block.take offset ++ s := by
  have hcopied : (overwrite (overwrite block offset s) len.toNat [0]).take (len.toNat + 1) =
      block.take offset ++ s ++ [0] := by
    have hroom : offset + s.length + ([0] : List Byte).length ≤ block.length := by
      rw [List.length_singleton]
      omega
    rw [hlen]
    exact BlockWriter.take_overwrite_overwrite hroom
  have hlength : (block.take offset ++ s).length = len.toNat := by
    rw [List.length_append, List.length_take]
    omega
  have hbuf : (overwrite (overwrite block offset s) len.toNat [0]).length = block.length := by
    rw [BlockWriter.length_overwrite, BlockWriter.length_overwrite]
  have hend : (overwrite (overwrite block offset s) len.toNat [0])[len.toNat]? = some 0 := by
    rw [← List.getElem?_take_of_lt (Nat.lt_succ_self len.toNat), hcopied, ← hlength,
      List.getElem?_append_right (Nat.le_refl _), Nat.sub_self]
    rfl
  have hwhole : (IotaStr.copied block s offset cap len).Whole _ :=
    ⟨rfl, hcap, by rwa [hbuf], by rwa [hbuf], hend⟩
  have htext := congrArg (List.take len.toNat) hcopied
  rw [List.take_take, Nat.min_eq_left (Nat.le_succ len.toNat),
    List.take_append_of_le_length (Nat.le_of_eq hlength.symm), List.take_of_length_le (Nat.le_of_eq hlength)] at htext
  exact ⟨⟨_, hwhole⟩, hwhole.text_eq.trans htext⟩

/-- A new string is whole and has the given characters. -/
theorem whole_iotaStrNew {granted : Bool} {alloc : Allocation} {s : CString} {istr : IotaStr}
    (hnew : iotaStrNew granted alloc s = some istr) : (∃ buf, istr.Whole buf) ∧ istr.text = s.bytes := by
  have hfits : s.bytes.length + 1 < 2 ^ 64 := s.fits
  have hlen : (UInt64.ofNat s.bytes.length).toNat = s.bytes.length :=
    UInt64.toNat_ofNat_of_lt' (Nat.lt_of_succ_lt hfits)
  have hcap : (UInt64.ofNat s.bytes.length + 1).toNat = s.bytes.length + 1 := by
    rw [UInt64.toNat_add, hlen]
    exact Nat.mod_eq_of_lt hfits
  unfold iotaStrNew at hnew
  split at hnew
  · split at hnew
    · rw [← Option.some.inj hnew]
      apply whole_copied (hlen.trans (Nat.zero_add _).symm)
      · omega
      · rw [alloc.block_length]
      · rw [alloc.block_length]
        exact UInt64.toNat_lt _
    · exact absurd hnew.symm (Option.some_ne_none istr)
  · exact absurd hnew.symm (Option.some_ne_none istr)

/-! ## Appending -/

/-- An append is served: its length does not wrap, and memory is granted if the string has to grow. -/
def IotaStr.Serves (istr : IotaStr) (alloc : Allocation) (s : List Byte) : Prop :=
  istr.len.toNat + s.length + 1 < 2 ^ 64 ∧
    (istr.len.toNat + s.length + 1 ≤ istr.cap.toNat ∨ alloc.granted = true)

/-- The capacity which an append needs, where its length does not wrap. -/
theorem toNat_neededCap {len : UInt64} {n : ℕ} (hfits : len.toNat + n + 1 < 2 ^ 64) :
    (len + UInt64.ofNat n + 1).toNat = len.toNat + n + 1 := by
  rw [UInt64.toNat_add, UInt64.toNat_add, UInt64.toNat_ofNat']
  simp only [UInt64.toNat_one]
  omega

/-- The end of an append into a block with room. -/
theorem iotaStrWrite_of_room {istr : IotaStr} {buf s : List Byte} (hbuf : istr.buf = some buf)
    (hroom : istr.len.toNat + s.length < istr.cap.toNat) (hcap : istr.cap.toNat ≤ buf.length)
    (hsize : buf.length < 2 ^ 64) :
    ∃ after, iotaStrWrite istr s = some (0, after) ∧ (∃ block, after.Whole block) ∧
      after.text = buf.take istr.len.toNat ++ s := by
  have hlen : (istr.len + UInt64.ofNat s.length).toNat = istr.len.toNat + s.length := by
    rw [UInt64.toNat_add, UInt64.toNat_ofNat']
    omega
  have hcopied := whole_copied hlen (by rw [hlen]; exact hroom) hcap hsize
  unfold iotaStrWrite
  rw [hbuf]
  dsimp only
  rw [if_pos (hroom.trans_le hcap)]
  exact ⟨_, rfl, hcopied⟩

/-- The end of an append whose length wraps is undefined. -/
theorem iotaStrWrite_of_wrap {istr : IotaStr} {s : List Byte} (hwrap : 2 ^ 64 ≤ istr.len.toNat + s.length + 1)
    (hsize : (istr.buf.getD []).length < 2 ^ 64) : iotaStrWrite istr s = none := by
  unfold iotaStrWrite
  cases hbuf : istr.buf with
  | none => rfl
  | some buf =>
    rw [hbuf, Option.getD_some] at hsize
    exact if_neg (by omega)

/-- An append which is served adds its bytes. -/
theorem IotaStr.Whole.appendn_of_serves {istr : IotaStr} {buf s : List Byte} (h : istr.Whole buf)
    {alloc : Allocation} (hserves : istr.Serves alloc s) :
    ∃ after, iotaStrAppendn alloc istr s = some (0, after) ∧ (∃ block, after.Whole block) ∧
      after.text = istr.text ++ s := by
  have hneeded := toNat_neededCap hserves.1
  have hlt := h.len_lt
  have hcap := h.cap_le
  rw [h.text_eq, iotaStrAppendn]
  split
  · next hgrows =>
    rw [UInt64.lt_iff_toNat_lt, hneeded] at hgrows
    have hgranted := hserves.2.resolve_left (by omega)
    have hkept : (alloc.grow buf (istr.len + UInt64.ofNat s.length + 1).toNat).take istr.len.toNat =
        buf.take istr.len.toNat := take_grow alloc buf (by omega) (by omega)
    rw [if_pos hgranted, h.buf_eq, Option.getD_some, ← hkept]
    apply iotaStrWrite_of_room rfl
    · show istr.len.toNat + s.length < (istr.len + UInt64.ofNat s.length + 1).toNat
      omega
    · exact Nat.le_of_eq (alloc.length_grow buf _).symm
    · rw [alloc.length_grow]
      exact UInt64.toNat_lt _
  · next hroom =>
    rw [UInt64.lt_iff_toNat_lt, hneeded] at hroom
    exact iotaStrWrite_of_room h.buf_eq (by omega) hcap h.length_lt

/-- An append which is not served is undefined, or it returns -1 and the block is lost. -/
theorem IotaStr.Whole.appendn_of_not_serves {istr : IotaStr} {buf s : List Byte} (h : istr.Whole buf)
    {alloc : Allocation} (hserves : ¬ istr.Serves alloc s) :
    iotaStrAppendn alloc istr s = none ∨ iotaStrAppendn alloc istr s = some (-1, { istr with buf := none }) := by
  have hsize := h.length_lt
  rw [iotaStrAppendn]
  by_cases hwrap : 2 ^ 64 ≤ istr.len.toNat + s.length + 1
  · split
    · split
      · apply Or.inl
        apply iotaStrWrite_of_wrap
        · exact hwrap
        · rw [Option.getD_some, alloc.length_grow]
          exact UInt64.toNat_lt _
      · exact Or.inr rfl
    · apply Or.inl
      apply iotaStrWrite_of_wrap hwrap
      rwa [h.buf_eq, Option.getD_some]
  · have hneeded := toNat_neededCap (not_le.mp hwrap)
    have hrefused : ¬ (istr.len.toNat + s.length + 1 ≤ istr.cap.toNat ∨ alloc.granted = true) :=
      fun hmemory => hserves ⟨by omega, hmemory⟩
    rw [not_or] at hrefused
    rw [if_pos (by rw [UInt64.lt_iff_toNat_lt, hneeded]; omega), if_neg hrefused.2]
    exact Or.inr rfl

/-! ## Sequences of calls -/

/-- A clone is null, or it is whole and has the characters of the original. -/
theorem IotaStr.Whole.clone {istr : IotaStr} {buf : List Byte} (h : istr.Whole buf) (granted : Bool)
    (alloc : Allocation) :
    iotaStrClone granted alloc istr = some none ∨
      ∃ clone, iotaStrClone granted alloc istr = some (some clone) ∧ (∃ block, clone.Whole block) ∧
        clone.text = istr.text := by
  have hlt := h.len_lt
  have hcap := h.cap_le
  have hsize := UInt64.toNat_lt istr.cap
  rw [iotaStrClone, iotaStrClonen]
  split
  · rw [h.buf_eq]
    dsimp only
    rw [if_pos ⟨by omega, hlt⟩]
    have hlen : (istr.len + 1).toNat = istr.len.toNat + 1 := by
      rw [UInt64.toNat_add, UInt64.toNat_one]
      omega
    rw [h.text_eq]
    refine Or.inr ⟨_, rfl, ?_⟩
    apply whole_copied
    · rw [List.length_take]
      omega
    · omega
    · rw [alloc.block_length]
      omega
    · rw [alloc.block_length]
      exact hsize
  · exact Or.inl rfl

/-- A call which is served keeps the string whole. -/
theorem IotaStr.Whole.run_of_serves {istr : IotaStr} {buf : List Byte} (h : istr.Whole buf) {call : StrCall}
    (hserves : istr.Serves call.alloc call.op.bytes) :
    ∃ code after, call.run istr = some (code, after) ∧ (∃ block, after.Whole block) ∧
      (code = 0 → after.text = istr.text ++ call.op.bytes) ∧ (code = -1 → after = istr) := by
  obtain ⟨op, alloc⟩ := call
  have happend : ∀ s, istr.Serves alloc s → ∃ code after, iotaStrAppendn alloc istr s = some (code, after) ∧
      (∃ block, after.Whole block) ∧ (code = 0 → after.text = istr.text ++ s) ∧ (code = -1 → after = istr) := by
    intro s hserves
    obtain ⟨after, hafter, hwhole, htext⟩ := h.appendn_of_serves hserves
    exact ⟨0, after, hafter, hwhole, fun _ => htext, fun hcode => absurd hcode (by decide)⟩
  cases op with
  | append s => exact happend s.bytes hserves
  | appendChar c => exact happend [c] hserves
  | appendn s => exact happend s hserves
  | clone granted =>
    have hrun : StrCall.run istr ⟨.clone granted, alloc⟩ = (iotaStrClone granted alloc istr).map fun
        | some clone => (0, clone)
        | none => (-1, istr) := rfl
    rw [hrun]
    rcases h.clone granted alloc with hnull | ⟨clone, hclone, hwhole, htext⟩
    · rw [hnull]
      exact ⟨-1, istr, rfl, ⟨buf, h⟩, fun hcode => absurd hcode (by decide), fun _ => rfl⟩
    · rw [hclone]
      refine ⟨0, clone, rfl, hwhole, fun _ => ?_, fun hcode => absurd hcode (by decide)⟩
      exact htext.trans (List.append_nil _).symm

/-- A right call is one which is served. -/
theorem IotaStr.Whole.serves_of_right {istr : IotaStr} {buf : List Byte} (h : istr.Whole buf) {call : StrCall}
    (hright : istr.RightCall call) : istr.Serves call.alloc call.op.bytes := by
  obtain ⟨op, alloc⟩ := call
  obtain ⟨code, after, hafter, ⟨block, hblock, -⟩, -⟩ := hright
  have happend : ∀ s, iotaStrAppendn alloc istr s = some (code, after) → istr.Serves alloc s := by
    intro s happended
    by_contra hserves
    rcases h.appendn_of_not_serves hserves with hundefined | hlost
    · exact Option.some_ne_none _ (happended.symm.trans hundefined)
    · have hbuf := congrArg (fun result => result.2.buf) (Option.some.inj (happended.symm.trans hlost))
      exact Option.some_ne_none block (hblock.symm.trans hbuf)
  cases op with
  | append s => exact happend s.bytes hafter
  | appendChar c => exact happend [c] hafter
  | appendn s => exact happend s hafter
  | clone granted =>
    have hlt := h.len_lt
    have hsize := UInt64.toNat_lt istr.cap
    show istr.len.toNat + 0 + 1 < 2 ^ 64 ∧ (istr.len.toNat + 0 + 1 ≤ istr.cap.toNat ∨ alloc.granted = true)
    omega

/-- The string which is used after a call, unless something undefined has happened. -/
def strStep (istr : Option IotaStr) (call : StrCall) : Option IotaStr :=
  istr.bind fun istr => (call.run istr).map Prod.snd

/-- Nothing undefined has happened before a call, and the call has a property. -/
def Defined (p : IotaStr → StrCall → Prop) (istr : Option IotaStr) (call : StrCall) : Prop :=
  ∃ str, istr = some str ∧ p str call

/-- Where there is a string, the property remains. -/
theorem defined_some {p : IotaStr → StrCall → Prop} {str : IotaStr} {call : StrCall} :
    Defined p (some str) call ↔ p str call := by
  constructor
  · intro ⟨other, hother, hp⟩
    rwa [Option.some.inj hother]
  · exact fun hp => ⟨str, rfl, hp⟩

/-- A call is served. -/
def IotaStr.ServesCall (istr : IotaStr) (call : StrCall) : Prop := istr.Serves call.alloc call.op.bytes

/-- Nothing undefined has happened, and the string is whole, whatever calls are to come. -/
def StrIntact (istr : Option IotaStr) (_ : List StrCall) : Prop := ∃ str buf, istr = some str ∧ str.Whole buf

/-- A new string is terminated and all calls on it are right exactly when all of them are served. -/
theorem rightStrCalls_iff {granted : Bool} {alloc : Allocation} {s : CString} {istr : IotaStr}
    (hnew : iotaStrNew granted alloc s = some istr) (calls : List StrCall) :
    (istr.Terminated ∧ istr.text = s.bytes ∧
      Throughout strStep (Defined IotaStr.RightCall) (some istr) calls) ↔
    Throughout strStep (Defined IotaStr.ServesCall) (some istr) calls := by
  obtain ⟨⟨buf, hwhole⟩, htext⟩ := whole_iotaStrNew hnew
  have hstart : StrIntact (some istr) calls := ⟨istr, buf, rfl, hwhole⟩
  have hcalls : Throughout strStep (Defined IotaStr.RightCall) (some istr) calls ↔
      Throughout strStep (Defined IotaStr.ServesCall) (some istr) calls := by
    apply Throughout.iff_of_invariant _ _ hstart
    · rintro _ call _ ⟨str, buf, rfl, hwhole⟩ hserves
      obtain ⟨code, after, hrun, ⟨block, hafter⟩, -⟩ := hwhole.run_of_serves (defined_some.mp hserves)
      exact ⟨after, block, by rw [strStep, Option.bind_some, hrun, Option.map_some], hafter⟩
    · rintro _ call _ ⟨str, buf, rfl, hwhole⟩
      rw [defined_some, defined_some]
      constructor
      · exact hwhole.serves_of_right
      · intro hserves
        obtain ⟨code, after, hrun, ⟨block, hafter⟩, hresult⟩ := hwhole.run_of_serves hserves
        exact ⟨code, after, hrun, hafter.toTerminated, hresult⟩
  rw [hcalls]
  exact ⟨fun hall => hall.2.2, fun hall => ⟨hwhole.toTerminated, htext, hall⟩⟩

/-- An allocation which is granted. -/
def grantedAlloc : Allocation := ⟨true, fun _ => 0⟩

/-- The string of a slash. -/
def slash : CString := ⟨[47], by decide, by decide⟩

/-- A letter behind the slash, and a clone which gets no memory. -/
def slashCalls : List StrCall := [⟨.appendChar 97, grantedAlloc⟩, ⟨.clone false, grantedAlloc⟩]

/-- These calls are right. -/
theorem rightStrCalls_iff_slash :
    ∃ istr, iotaStrNew true grantedAlloc slash = some istr ∧
      Throughout strStep (Defined IotaStr.RightCall) (some istr) slashCalls := by
  have hserved : Throughout strStep (Defined IotaStr.ServesCall) (iotaStrNew true grantedAlloc slash) slashCalls :=
    ⟨⟨_, rfl, by decide, by decide⟩, ⟨_, rfl, by decide, by decide⟩, trivial⟩
  exact ⟨_, rfl, ((@rightStrCalls_iff true grantedAlloc slash _ rfl slashCalls).mpr hserved).2.2⟩

/-- A refused `realloc` takes the block away. -/
theorem appendChar_loses_block :
    ¬ ∀ (granted : Bool) (alloc : Allocation) (s : CString) (istr : IotaStr),
      iotaStrNew granted alloc s = some istr → ∀ calls : List StrCall,
        Throughout strStep (Defined IotaStr.RightCall) (some istr) calls := by
  intro h
  obtain ⟨⟨str, hstr, code, after, hrun, ⟨buf, hbuf, -⟩, -⟩, -⟩ :=
    h true grantedAlloc slash _ rfl [⟨.appendChar 97, ⟨false, fun _ => 0⟩⟩]
  rw [← Option.some.inj hstr] at hrun
  have hlost := congrArg (fun result => result.2.buf) (Option.some.inj hrun)
  exact Option.some_ne_none buf (hbuf.symm.trans hlost.symm)

end Goshimmer
