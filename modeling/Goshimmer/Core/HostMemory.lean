import Goshimmer.Core.Wire

/-!
# The memory which a host hands out

The bytes of a new block are indeterminate. None of them reaches the essence of a transaction, the verdict on
its signatures or its text: these depend on the byte order of the host and on the outcomes of its allocations
alone. A buffer keeps what is in use apart from the rest of its block, and this survives even a length which
wraps around.
-/

namespace Goshimmer

/-- Two hosts with the same byte order and the same outcome of an allocation. -/
structure Host.SameOutcome (host host' : Host) : Prop where
  littleEndian : host.littleEndian = host'.littleEndian
  granted : host.alloc.granted = host'.alloc.granted

/-- The essence is the same on both hosts. -/
theorem Host.SameOutcome.txEssence {host host' : Host} (h : host.SameOutcome host') (tx : Transaction) :
    txEssence host tx = Goshimmer.txEssence host' tx := by
  have hiff : (Goshimmer.txEssence host tx).isSome ↔ (Goshimmer.txEssence host' tx).isSome := by
    rw [txEssence_isSome_iff, txEssence_isSome_iff, h.granted, h.littleEndian]
  by_cases hsome : (Goshimmer.txEssence host tx).isSome
  · exact txEssence_congr hsome (hiff.mp hsome)
  · rw [Option.not_isSome_iff_eq_none.mp hsome, Option.not_isSome_iff_eq_none.mp (mt hiff.mpr hsome)]

/-- The verdict on the signatures is the same on hosts which agree call by call. -/
theorem txSignautresValid_congr (sodium : Sodium) {host host' : ℕ → Host}
    (h : ∀ call, (host call).SameOutcome (host' call)) (tx : Transaction) :
    txSignautresValid sodium host tx = txSignautresValid sodium host' tx := by
  have hloop : ∀ (inputs : List OutputId) (call : ℕ),
      txSignautresValidLoop sodium host tx call inputs = txSignautresValidLoop sodium host' tx call inputs := by
    intro inputs
    induction inputs with
    | nil => intro call; rfl
    | cons input rest ih =>
      intro call
      simp only [txSignautresValidLoop, (h call).txEssence, ih]
  rw [txSignautresValid, txSignautresValid, hloop]

/-! ## Buffers which differ behind the bytes in use -/

/-- Two buffers which are the same but for the bytes of their blocks which are not in use. -/
structure ByteBuf.Alike (buf buf' : ByteBuf) : Prop where
  sized : buf.Sized
  sized' : buf'.Sized
  len_eq : buf.len = buf'.len
  cap_eq : buf.cap = buf'.cap
  contents_eq : buf.contents = buf'.contents

/-- A buffer is like itself. -/
theorem ByteBuf.Sized.alike {buf : ByteBuf} (h : buf.Sized) : buf.Alike buf := ⟨h, h, rfl, rfl, rfl⟩

/-- A granted reservation keeps buffers alike, and makes room for what it was asked for. -/
theorem ByteBuf.Alike.reserve {buf buf' : ByteBuf} (h : buf.Alike buf') {alloc alloc' : Allocation}
    (hgranted : alloc.granted = true) (hgranted' : alloc'.granted = true) (len : UInt64) :
    ∃ grown grown', byteBufReserve alloc buf len = (true, grown) ∧ byteBufReserve alloc' buf' len = (true, grown') ∧
      grown.Alike grown' ∧ grown.len = buf.len ∧ len ≤ grown.cap := by
  obtain ⟨grown, hreserve, hgrown⟩ := byteBufReserve_of_granted hgranted h.sized len
  obtain ⟨grown', hreserve', hgrown'⟩ := byteBufReserve_of_granted hgranted' h.sized' len
  refine ⟨grown, grown', hreserve, hreserve', ⟨hgrown.sized, hgrown'.sized, ?_, ?_, ?_⟩, hgrown.len_eq, ?_⟩
  · rw [hgrown.len_eq, hgrown'.len_eq, h.len_eq]
  · rw [← UInt64.toNat_inj, hgrown.cap_eq, hgrown'.cap_eq, h.cap_eq]
  · rw [hgrown.contents_eq, hgrown'.contents_eq, h.contents_eq]
  · rw [UInt64.le_iff_toNat_le, hgrown.cap_eq]
    exact Nat.le_max_right _ _

/-- The bytes in use after an append, also where the length wraps around. -/
theorem ByteBuf.Sized.contents_overwritten {buf : ByteBuf} (h : buf.Sized) (data : List Byte)
    (hroom : buf.len + UInt64.ofNat data.length ≤ buf.cap) :
    ByteBuf.Sized
        { buf with data := overwrite buf.data buf.len.toNat data, len := buf.len + UInt64.ofNat data.length } ∧
      ByteBuf.contents
          { buf with data := overwrite buf.data buf.len.toNat data, len := buf.len + UInt64.ofNat data.length } =
        (buf.contents ++ data).take (buf.len + UInt64.ofNat data.length).toNat := by
  have hcap := UInt64.le_iff_toNat_le.mp hroom
  have hlen := UInt64.le_iff_toNat_le.mp h.len_le
  refine ⟨⟨by rw [BlockWriter.length_overwrite, h.block_length], hroom⟩, ?_⟩
  have hwrapped : (buf.len + UInt64.ofNat data.length).toNat ≤ buf.len.toNat + data.length := by
    rw [UInt64.toNat_add, UInt64.toNat_ofNat']
    refine (Nat.mod_le _ _).trans ?_
    exact Nat.add_le_add_left (Nat.mod_le _ _) _
  exact BlockWriter.take_overwrite_of_le hwrapped (by rw [h.block_length]; exact hcap) (by rw [h.block_length]; exact hlen)

/-- A granted append keeps buffers alike. -/
theorem ByteBuf.Alike.append {buf buf' : ByteBuf} (h : buf.Alike buf') {alloc alloc' : Allocation}
    (hgranted : alloc.granted = true) (hgranted' : alloc'.granted = true) (data : List Byte) :
    (byteBufAppend alloc buf data).2.Alike (byteBufAppend alloc' buf' data).2 := by
  obtain ⟨grown, grown', hreserve, hreserve', halike, hlen, hroom⟩ :=
    h.reserve hgranted hgranted' (buf.len + UInt64.ofNat data.length)
  have hlen' : grown'.len = buf'.len := by rw [← halike.len_eq, hlen, h.len_eq]
  have hdone := halike.sized.contents_overwritten data (by rw [hlen]; exact hroom)
  have hdone' := halike.sized'.contents_overwritten data
    (by rw [hlen', ← halike.cap_eq, ← h.len_eq]; exact hroom)
  have hstep : (byteBufAppend alloc buf data).2 =
      { grown with data := overwrite grown.data grown.len.toNat data, len := grown.len + UInt64.ofNat data.length } := by
    simp only [byteBufAppend, hreserve]
  have hstep' : (byteBufAppend alloc' buf' data).2 =
      { grown' with
        data := overwrite grown'.data grown'.len.toNat data
        len := grown'.len + UInt64.ofNat data.length } := by
    rw [h.len_eq] at hreserve'
    simp only [byteBufAppend, hreserve']
  rw [hstep, hstep']
  refine ⟨hdone.1, hdone'.1, by rw [halike.len_eq], halike.cap_eq, ?_⟩
  rw [hdone.2, hdone'.2, halike.contents_eq, halike.len_eq]

/-- The signatures of a transaction are appended alike. -/
theorem ByteBuf.Alike.appendSignatures {buf buf' : ByteBuf} (h : buf.Alike buf') {alloc alloc' : Allocation}
    (hgranted : alloc.granted = true) (hgranted' : alloc'.granted = true) (signatures : List EdSignature) :
    (appendSignatures alloc buf signatures).Alike (Goshimmer.appendSignatures alloc' buf' signatures) := by
  induction signatures generalizing buf buf' with
  | nil => exact h
  | cons elm rest ih =>
    have hversion := h.append hgranted hgranted' [addressVerEd25519]
    have hkey := hversion.append hgranted hgranted' elm.pubKey.val
    exact ih (hkey.append hgranted hgranted' elm.signature.val)

/-- A text which would not fit a `size_t` with its NUL is refused. -/
theorem byteBuf2Base64_of_overlong {alloc : Allocation} {buf : ByteBuf} (hlen : buf.len ≠ 0)
    (hsize : ¬ 4 * ((buf.contents.length + 2) / 3) + 1 < 2 ^ 64) (hbytes : buf.contents.length < 2 ^ 64) :
    byteBuf2Base64 alloc buf = none := by
  have hzero : UInt64.ofNat buf.contents.length ≠ 0 := by
    rw [ne_eq, ← UInt64.toNat_inj, UInt64.toNat_ofNat_of_lt' hbytes, UInt64.toNat_zero]
    omega
  have hmany : (UInt64.ofNat (2 ^ 64 - 1) - 1) / 4 < UInt64.ofNat ((buf.contents.length + 2) / 3) := by
    have hlimit : ((UInt64.ofNat (2 ^ 64 - 1) - 1) / 4).toNat = 4611686018427387903 := by decide
    have hcount : (UInt64.ofNat ((buf.contents.length + 2) / 3)).toNat = (buf.contents.length + 2) / 3 :=
      UInt64.toNat_ofNat_of_lt' (by simp only [UInt64.size]; omega)
    rw [UInt64.lt_iff_toNat_lt, hcount, hlimit]
    omega
  have hrefused : ∀ dst, (base64Encode dst buf.contents).ret ≠ 0 := by
    intro dst
    unfold base64Encode
    dsimp only
    rw [if_neg hzero, base64_groupCount hbytes, if_pos hmany]
    decide
  rw [byteBuf2Base64, if_neg hlen]
  exact if_neg (hrefused _)

/-- The text of a buffer comes from the bytes in use. -/
theorem ByteBuf.Alike.byteBuf2Base64 {buf buf' : ByteBuf} (h : buf.Alike buf') {alloc alloc' : Allocation}
    (hgranted : alloc.granted = true) (hgranted' : alloc'.granted = true) :
    byteBuf2Base64 alloc buf = Goshimmer.byteBuf2Base64 alloc' buf' := by
  by_cases hempty : buf.len = 0
  · rw [Goshimmer.byteBuf2Base64, Goshimmer.byteBuf2Base64, if_pos hempty, if_pos (h.len_eq ▸ hempty)]
  have hlength := h.sized.contents_length
  have hnonempty : buf.contents ≠ [] := by
    intro hnil
    rw [hnil, List.length_nil, ← UInt64.toNat_zero] at hlength
    exact hempty (UInt64.toNat_inj.mp hlength.symm)
  by_cases hsize : 4 * ((buf.contents.length + 2) / 3) + 1 < 2 ^ 64
  · rw [byteBuf2Base64_of_granted hgranted h.sized hnonempty hsize,
      byteBuf2Base64_of_granted hgranted' h.sized' (h.contents_eq ▸ hnonempty) (h.contents_eq ▸ hsize), h.contents_eq]
  · rw [byteBuf2Base64_of_overlong hempty hsize (by rw [hlength]; exact buf.len.toNat_lt),
      byteBuf2Base64_of_overlong (h.len_eq ▸ hempty) (h.contents_eq ▸ hsize)
        (by rw [← h.contents_eq, hlength]; exact buf.len.toNat_lt)]

/-- The text of a transaction is the same on both hosts. -/
theorem Host.SameOutcome.tx2Base64 {host host' : Host} (h : host.SameOutcome host') (tx : Transaction) :
    tx2Base64 host tx = Goshimmer.tx2Base64 host' tx := by
  cases hessence : Goshimmer.txEssence host tx with
  | none => simp only [Goshimmer.tx2Base64, ← h.txEssence, hessence, Option.bind_eq_bind, Option.bind_none]
  | some essence =>
    have hgranted := ((txEssence_isSome_iff host tx).mp (by rw [hessence, Option.isSome_some])).1
    have hgranted' : host'.alloc.granted = true := h.granted ▸ hgranted
    obtain ⟨grown, grown', hreserve, hreserve', halike, -, -⟩ := (sized_txEssence hessence).alike.reserve hgranted
      hgranted' (essence.len + UInt64.ofNat tx.signatures.count * (1 + 32 + 64) + 1)
    have hsigned := halike.appendSignatures hgranted hgranted' tx.signatures.entries
    have hended := hsigned.append hgranted hgranted' [0]
    simp only [Goshimmer.tx2Base64, ← h.txEssence, hessence, Option.bind_eq_bind, Option.bind_some, hreserve, hreserve']
    exact hended.byteBuf2Base64 hgranted hgranted'

end Goshimmer
