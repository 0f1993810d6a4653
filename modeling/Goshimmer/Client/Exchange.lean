import Goshimmer.Client.SampleLibraries
import Goshimmer.Client.Service
import Goshimmer.Utils.BufferRuns
import Goshimmer.Utils.IotaStr

/-!
# One exchange with the node, byte by byte

`client/network/http_curl.c`, `client/network/http_esp32.c` and what the calls of the API have in common.
A call composes the url of its command, writes its request into a buffer, posts it, and gets the body of
the reply in pieces, which it appends to another buffer. What the parser is handed is the C string at the
start of this buffer. A piece which gets no memory is left out without a word. Where all memory is granted
the exchange is what the node answers, however the network cuts the body into pieces.
-/

namespace Goshimmer

/-- A piece of a body, with the allocation for it. -/
abbrev Piece := Allocation × List Byte

/-- The reply of the network: a body in pieces, and whether the transfer is chunked. -/
structure HttpReply where
  chunked : Bool
  pieces : List Piece

/-- The two implementations of `client/network/http.h`. -/
inductive Transport
  | curl
  | esp32

/-- `cb_write_fn`; the verdict of the append is only printed. -/
def cbWriteFn (mem : ByteBuf) (piece : Piece) : ByteBuf := (byteBufAppend piece.1 mem piece.2).2

/-- `http_event_handler` for `HTTP_EVENT_ON_DATA`: the data of a chunked transfer is dropped. -/
def httpEventHandler (chunked : Bool) (buf : ByteBuf) (piece : Piece) : ByteBuf :=
  if chunked then buf else (byteBufAppend piece.1 buf piece.2).2

/-- The response buffer after the pieces of a reply. -/
def Transport.receive (transport : Transport) (response : ByteBuf) (reply : HttpReply) : ByteBuf :=
  match transport with
  | .curl => reply.pieces.foldl cbWriteFn response
  | .esp32 => reply.pieces.foldl (httpEventHandler reply.chunked) response

/-- The C string at the start of a buffer, with the memory behind its block; a buffer without a block has a
null pointer. -/
def ByteBuf.cStr (past : List Byte) (buf : ByteBuf) : Option (List Byte) :=
  if buf.data.isEmpty then none else some ((buf.data ++ past).takeWhile (· ≠ 0))

/-- The port of a request: curl is not told it. -/
def Transport.port (transport : Transport) (port : UInt16) : UInt16 :=
  match transport with
  | .curl => 0
  | .esp32 => port

/-- The bytes of the pieces which got memory. -/
def grantedBytes (pieces : List Piece) : List Byte := (pieces.filter fun piece => piece.1.granted).flatMap Prod.snd

/-- The bytes of all pieces. -/
def allBytes (pieces : List Piece) : List Byte := pieces.flatMap Prod.snd

/-- A buffer whose block has no byte but those in use. -/
structure ByteBuf.Exact (buf : ByteBuf) : Prop where
  sized : buf.Sized
  len_eq : buf.len = buf.cap

/-- The block of such a buffer. -/
theorem ByteBuf.Exact.data_eq {buf : ByteBuf} (h : buf.Exact) : buf.data = buf.contents := by
  rw [ByteBuf.contents, h.len_eq, ← h.sized.block_length, List.take_length]

/-- A reservation in it succeeds when it gets memory or asks for no more room, and leaves the capacity which
was asked for. -/
theorem ByteBuf.Exact.reserve {buf : ByteBuf} (h : buf.Exact) (alloc : Allocation) {len : UInt64}
    (hlen : buf.len ≤ len) :
    ((byteBufReserve alloc buf len).1 = true ↔ alloc.granted = true ∨ buf.len = len) ∧
      ((byteBufReserve alloc buf len).1 = true → (byteBufReserve alloc buf len).2.cap = len) := by
  rw [byteBufReserve, ← h.len_eq]
  by_cases hroom : len ≤ buf.len
  · have hsame : buf.len = len := UInt64.le_antisymm hlen hroom
    rw [if_pos hroom]
    exact ⟨⟨fun _ => Or.inr hsame, fun _ => rfl⟩, fun _ => h.len_eq.symm.trans hsame⟩
  · have hother : buf.len ≠ len := fun hsame => hroom (hsame ▸ UInt64.le_refl _)
    rw [if_neg hroom]
    cases alloc.granted with
    | true => exact ⟨⟨fun _ => Or.inl rfl, fun _ => rfl⟩, fun _ => rfl⟩
    | false => simp [hother]

/-- An append to it succeeds when the piece gets memory or has no bytes, and then no byte is left over. -/
theorem ByteBuf.Exact.append_done {buf : ByteBuf} (h : buf.Exact) (piece : Piece)
    (hfit : buf.len.toNat + piece.2.length < 2 ^ 64) :
    ((byteBufAppend piece.1 buf piece.2).1 = true ↔ piece.1.granted = true ∨ piece.2 = []) ∧
      ((byteBufAppend piece.1 buf piece.2).1 = true →
        (byteBufAppend piece.1 buf piece.2).2.len = (byteBufAppend piece.1 buf piece.2).2.cap) := by
  have hneeded : (buf.len + UInt64.ofNat piece.2.length).toNat = buf.len.toNat + piece.2.length := by
    rw [UInt64.toNat_add, UInt64.toNat_ofNat']
    omega
  have hle : buf.len ≤ buf.len + UInt64.ofNat piece.2.length := by
    rw [UInt64.le_iff_toNat_le, hneeded]
    exact Nat.le_add_right _ _
  have hsame : buf.len = buf.len + UInt64.ofNat piece.2.length ↔ piece.2 = [] := by
    rw [← UInt64.toNat_inj, hneeded, ← List.length_eq_zero_iff]
    omega
  obtain ⟨hdone, hcap⟩ := h.reserve piece.1 hle
  rw [hsame] at hdone
  unfold byteBufAppend
  dsimp only
  cases hreserve : byteBufReserve piece.1 buf (buf.len + UInt64.ofNat piece.2.length) with
  | mk done grown =>
    rw [hreserve] at hdone hcap
    cases done with
    | false => exact ⟨hdone, fun hfalse => absurd hfalse Bool.false_ne_true⟩
    | true => 
      refine ⟨hdone, fun _ => ?_⟩
      have hgrown := (h.sized.reserved hreserve).len_eq
      have hgrownCap : grown.cap = buf.len + UInt64.ofNat piece.2.length := hcap rfl
      dsimp only
      rw [hgrown, hgrownCap]

/-- It adds the bytes of a piece which gets memory and leaves out any other, and no byte is left over. -/
theorem ByteBuf.Exact.append {buf : ByteBuf} (h : buf.Exact) (piece : Piece)
    (hfit : buf.len.toNat + piece.2.length < 2 ^ 64) :
    (byteBufAppend piece.1 buf piece.2).2.Exact ∧
      (byteBufAppend piece.1 buf piece.2).2.contents =
        buf.contents ++ if piece.1.granted then piece.2 else [] := by
  obtain ⟨hverdict, hexact⟩ := h.append_done piece hfit
  by_cases hdone : (byteBufAppend piece.1 buf piece.2).1 = true
  · have happended := h.sized.appended (Prod.ext hdone rfl) hfit
    refine ⟨⟨happended.sized, hexact hdone⟩, ?_⟩
    rw [happended.contents_eq]
    rcases hverdict.mp hdone with hgranted | hnil
    · rw [if_pos hgranted]
    · rw [hnil, ite_self]
  · have hrefused : byteBufAppend piece.1 buf piece.2 = (false, (byteBufAppend piece.1 buf piece.2).2) :=
      Prod.ext (Bool.eq_false_of_not_eq_true hdone) rfl
    rw [byteBufAppend_of_refused hrefused, if_neg (fun hgranted => hdone (hverdict.mpr (Or.inl hgranted))),
      List.append_nil]
    exact ⟨h, rfl⟩

/-- A new buffer has no block. -/
theorem exact_byteBufNew : byteBufNew.Exact := ⟨sized_byteBufNew, rfl⟩

/-- The pieces which got memory are behind each other in the buffer. -/
theorem ByteBuf.Exact.foldl_cbWriteFn {buf : ByteBuf} (h : buf.Exact) (pieces : List Piece)
    (hfit : buf.len.toNat + (allBytes pieces).length < 2 ^ 64) :
    (pieces.foldl cbWriteFn buf).Exact ∧
      (pieces.foldl cbWriteFn buf).contents = buf.contents ++ grantedBytes pieces := by
  induction pieces generalizing buf with
  | nil => exact ⟨h, (List.append_nil _).symm⟩
  | cons piece rest ih =>
    have hbytes : (allBytes (piece :: rest)).length = piece.2.length + (allBytes rest).length := by
      rw [allBytes, List.flatMap_cons, List.length_append]
      rfl
    rw [hbytes] at hfit
    obtain ⟨hexact, hcontents⟩ := h.append piece (by omega)
    have hlen : (byteBufAppend piece.1 buf piece.2).2.len.toNat ≤ buf.len.toNat + piece.2.length := by
      rw [← hexact.sized.contents_length, hcontents, List.length_append, h.sized.contents_length]
      split
      · exact Nat.le_refl _
      · exact Nat.le_add_right _ _
    obtain ⟨hrest, hall⟩ := ih hexact (by omega)
    refine ⟨hrest, hall.trans ?_⟩
    rw [hcontents, List.append_assoc, grantedBytes, grantedBytes, List.filter_cons]
    cases piece.1.granted with
    | true => rfl
    | false => rfl

/-- No more bytes than there are got memory. -/
theorem length_grantedBytes_le (pieces : List Piece) : (grantedBytes pieces).length ≤ (allBytes pieces).length := by
  induction pieces with
  | nil => exact Nat.le_refl 0
  | cons piece rest ih =>
    unfold grantedBytes allBytes at ih ⊢
    rw [List.filter_cons, List.flatMap_cons, List.length_append]
    split
    · rw [List.flatMap_cons, List.length_append]
      omega
    · omega

/-- All bytes are there exactly when every piece with bytes got memory. -/
theorem grantedBytes_eq_allBytes_iff (pieces : List Piece) :
    grantedBytes pieces = allBytes pieces ↔ ∀ piece ∈ pieces, piece.1.granted = true ∨ piece.2 = [] := by
  induction pieces with
  | nil => simp [grantedBytes, allBytes]
  | cons piece rest ih =>
    have hall : allBytes (piece :: rest) = piece.2 ++ allBytes rest := List.flatMap_cons
    rw [List.forall_mem_cons, ← ih, hall, grantedBytes, List.filter_cons]
    by_cases hgranted : piece.1.granted = true
    · rw [if_pos hgranted, List.flatMap_cons, List.append_cancel_left_eq]
      simp only [hgranted, true_or, true_and]
      rfl
    · rw [if_neg hgranted]
      rw [or_iff_right hgranted]
      constructor
      · intro heq
        have hlength := congrArg List.length heq
        have hrest := length_grantedBytes_le rest
        rw [List.length_append] at hlength
        unfold grantedBytes at hrest
        have hnil : piece.2 = [] := List.length_eq_zero_iff.mp (by omega)
        rw [hnil, List.nil_append] at heq
        exact ⟨hnil, heq⟩
      · rintro ⟨hnil, heq⟩
        rw [hnil, List.nil_append, ← heq]
        rfl

/-- The body of a reply as a transport passes it on: the data of a chunked transfer is dropped by the one
which does not wait for it. -/
def Transport.body (transport : Transport) (bytes : List Piece → List Byte) (reply : HttpReply) : List Byte :=
  match transport with
  | .curl => bytes reply.pieces
  | .esp32 => if reply.chunked then [] else bytes reply.pieces

/-- What the response buffer holds after an exchange. -/
theorem exact_receive (transport : Transport) {reply : HttpReply}
    (hfit : (allBytes reply.pieces).length < 2 ^ 64) :
    (transport.receive byteBufNew reply).Exact ∧
      (transport.receive byteBufNew reply).contents = transport.body grantedBytes reply := by
  have hnew : (0 : UInt64).toNat + (allBytes reply.pieces).length < 2 ^ 64 := by
    rw [UInt64.toNat_zero, Nat.zero_add]
    exact hfit
  have hcurl := exact_byteBufNew.foldl_cbWriteFn reply.pieces hnew
  cases transport with
  | curl => exact hcurl
  | esp32 =>
    unfold Transport.receive Transport.body
    by_cases hchunked : reply.chunked = true
    · have hdropped : ∀ (pieces : List Piece) (buf : ByteBuf),
          pieces.foldl (httpEventHandler reply.chunked) buf = buf := by
        intro pieces
        induction pieces with
        | nil => exact fun _ => rfl
        | cons piece rest ih =>
          intro buf
          rw [List.foldl_cons, ih, httpEventHandler, if_pos hchunked]
      simp only [hdropped, if_pos hchunked]
      exact ⟨exact_byteBufNew, rfl⟩
    · have hsame : httpEventHandler reply.chunked = cbWriteFn := by
        funext buf piece
        rw [httpEventHandler, if_neg hchunked, cbWriteFn]
      simp only [hsame, if_neg hchunked]
      exact hcurl

/-- There is room for a NUL behind it. -/
theorem len_receive_lt (transport : Transport) {reply : HttpReply}
    (hfit : (allBytes reply.pieces).length + 1 < 2 ^ 64) :
    (transport.receive byteBufNew reply).len.toNat + 1 < 2 ^ 64 := by
  obtain ⟨hexact, hcontents⟩ := exact_receive transport (Nat.lt_of_succ_lt hfit)
  have hle := length_grantedBytes_le reply.pieces
  have hlength : (transport.body grantedBytes reply).length ≤ (allBytes reply.pieces).length := by
    cases transport with
    | curl => exact hle
    | esp32 =>
      rw [Transport.body]
      split
      · exact Nat.zero_le _
      · exact hle
  rw [← hexact.sized.contents_length, hcontents]
  omega

/-! ## What the parser is handed -/

/-- The text of a body: it ends in front of the first NUL, and there is none without a body. -/
def parserText (body : List Byte) : Option (List Byte) :=
  if body.isEmpty then none else some (body.takeWhile (· ≠ 0))

/-- Where there is no NUL the text goes on into what comes behind. -/
theorem takeWhile_append_of_notMem {body : List Byte} (h : (0 : Byte) ∉ body) (past : List Byte) :
    (body ++ past).takeWhile (· ≠ 0) = body ++ past.takeWhile (· ≠ 0) :=
  List.takeWhile_append_of_pos fun _ hc => decide_eq_true fun hzero => h (hzero ▸ hc)

/-- A text without a NUL. -/
theorem takeWhile_of_notMem {body : List Byte} (h : (0 : Byte) ∉ body) : body.takeWhile (· ≠ 0) = body := by
  have hnone := takeWhile_append_of_notMem h []
  rwa [List.append_nil, List.takeWhile_nil, List.append_nil] at hnone

/-- A NUL ends the text, whatever comes behind. -/
theorem takeWhile_append_of_mem {body : List Byte} (h : (0 : Byte) ∈ body) (past : List Byte) :
    (body ++ past).takeWhile (· ≠ 0) = body.takeWhile (· ≠ 0) := by
  obtain ⟨before, after, rfl, hfirst⟩ := List.eq_append_cons_of_mem h
  rw [List.append_assoc, takeWhile_append_of_notMem hfirst, takeWhile_append_of_notMem hfirst]
  rfl

/-- The string at the start of a buffer without any byte left over. -/
theorem ByteBuf.Exact.cStr_eq {buf : ByteBuf} (h : buf.Exact) (past : List Byte) :
    buf.cStr past = if buf.contents.isEmpty then none else some ((buf.contents ++ past).takeWhile (· ≠ 0)) := by
  rw [ByteBuf.cStr, h.data_eq]

/-- `byte_buf2str` leaves a buffer without any byte left over: it adds a NUL to bytes which do not end with
one, when it gets memory. -/
theorem ByteBuf.Exact.toStr {buf : ByteBuf} (h : buf.Exact) (hfit : buf.len.toNat + 1 < 2 ^ 64)
    (alloc : Allocation) (outside : Byte) :
    (byteBuf2Str alloc outside buf).2.Exact ∧ (byteBuf2Str alloc outside buf).2.contents =
      buf.contents ++ if buf.contents ≠ [] ∧ buf.contents.getLast? ≠ some 0 ∧ alloc.granted = true then [0] else [] := by
  have hlooks : buf.data.isEmpty = true ∨ 0 < buf.len.toNat := by
    rw [h.data_eq, ← h.sized.contents_length, List.isEmpty_iff, List.length_pos_iff]
    exact Classical.em _
  rw [h.sized.toStr_eq alloc outside hlooks]
  cases hlast : buf.contents.getLast? with
  | none =>
    rw [if_neg fun hsome => hsome.1 (List.getLast?_eq_none_iff.mp hlast), List.append_nil]
    exact ⟨h, rfl⟩
  | some last =>
    have hnonempty : buf.contents ≠ [] := by
      intro hnil
      rw [hnil] at hlast
      exact Option.some_ne_none last hlast.symm
    by_cases hzero : last = 0
    · simp only [if_pos hzero]
      rw [if_neg fun hother => hother.2.1 (congrArg some hzero), List.append_nil]
      exact ⟨h, rfl⟩
    · have hother : (some last : Option Byte) ≠ some 0 := fun hsame => hzero (Option.some.inj hsame)
      simp only [if_neg hzero, ne_eq, hnonempty, not_false_eq_true, hother, true_and]
      exact h.append (alloc, [0]) hfit

/-- Whatever lies behind the buffer, the parser is handed the text of the bytes in it exactly when there is
none, when there is a NUL among them, or when there was memory for one. -/
theorem ByteBuf.Exact.cStr_toStr_iff {buf : ByteBuf} (h : buf.Exact) (hfit : buf.len.toNat + 1 < 2 ^ 64)
    (alloc : Allocation) (outside : Byte) :
    (∀ past, (byteBuf2Str alloc outside buf).2.cStr past = parserText buf.contents) ↔
      buf.contents = [] ∨ 0 ∈ buf.contents ∨ alloc.granted = true := by
  obtain ⟨hexact, hcontents⟩ := h.toStr hfit alloc outside
  simp only [hexact.cStr_eq, hcontents, parserText]
  by_cases hnonempty : buf.contents = []
  · simp [hnonempty]
  · have hsome : ∀ behind : List Byte, (buf.contents ++ behind).isEmpty = false := by simp [hnonempty]
    have hself : buf.contents.isEmpty = false := by simpa using hnonempty
    simp only [hsome, hself, Bool.false_eq_true, if_false, Option.some.injEq, hnonempty, false_or]
    constructor
    · intro hall
      by_contra hneither
      rw [not_or] at hneither
      have hbehind := hall [1]
      rw [if_neg fun hend => hneither.2 hend.2.2, List.append_nil, takeWhile_append_of_notMem hneither.1,
        takeWhile_of_notMem hneither.1] at hbehind
      exact absurd (List.append_right_eq_self.mp hbehind) (by decide)
    · intro hends past
      by_cases hmem : (0 : Byte) ∈ buf.contents
      · rw [List.append_assoc, takeWhile_append_of_mem hmem]
      · have hlast : buf.contents.getLast? ≠ some 0 := fun hlast => hmem (List.mem_of_getLast? hlast)
        rw [if_pos ⟨hnonempty, hlast, hends.resolve_left hmem⟩, List.append_assoc,
          takeWhile_append_of_notMem hmem, takeWhile_of_notMem hmem]
        exact List.append_nil _

/-- For every transport, every cut of a body into pieces and every outcome of their allocations: the bytes
which arrive are those of the pieces which got memory, and they are the body exactly when every piece with
bytes did. The parser is handed their text, whatever lies behind the buffer, exactly when there are none, when
there is a NUL among them, or when there was memory for one behind them. -/
theorem received_text_iff (transport : Transport) {reply : HttpReply}
    (hfit : (allBytes reply.pieces).length + 1 < 2 ^ 64) (alloc : Allocation) (outside : Byte) :
    (transport.receive byteBufNew reply).contents = transport.body grantedBytes reply ∧
      (transport.body grantedBytes reply = transport.body allBytes reply ↔
        (transport = .esp32 ∧ reply.chunked = true) ∨
          ∀ piece ∈ reply.pieces, piece.1.granted = true ∨ piece.2 = []) ∧
      ((∀ past, (byteBuf2Str alloc outside (transport.receive byteBufNew reply)).2.cStr past =
          parserText (transport.body grantedBytes reply)) ↔
        transport.body grantedBytes reply = [] ∨ 0 ∈ transport.body grantedBytes reply ∨ alloc.granted = true) := by
  obtain ⟨hexact, hcontents⟩ := exact_receive transport (Nat.lt_of_succ_lt hfit)
  refine ⟨hcontents, ?_, ?_⟩
  · rw [← grantedBytes_eq_allBytes_iff]
    cases transport with
    | curl => simp [Transport.body]
    | esp32 =>
      unfold Transport.body
      by_cases hchunked : reply.chunked = true
      · simp [hchunked]
      · simp [hchunked]
  · rw [← hcontents]
    exact hexact.cStr_toStr_iff (len_receive_lt transport hfit) alloc outside

/-- A body in three pieces, the second of which gets no memory. -/
def tornReply : HttpReply :=
  ⟨false, [(grantedAlloc, cText "\x7b\"id\":"), (⟨false, fun _ => 0⟩, cText "\"a\""), (grantedAlloc, cText "\x7d")]⟩

/-- The body arrives without it, and is handed to the parser so. -/
theorem received_text_iff_torn :
    Transport.curl.body grantedBytes tornReply ≠ Transport.curl.body allBytes tornReply ∧
      ∀ past, (byteBuf2Str grantedAlloc 0 (Transport.curl.receive byteBufNew tornReply)).2.cStr past =
        parserText (cText "\x7b\"id\":\x7d") := by
  obtain ⟨-, hall, hhanded⟩ := @received_text_iff .curl tornReply (by decide) grantedAlloc 0
  refine ⟨fun heq => ?_, ?_⟩
  · rcases hall.mp heq with ⟨hother, -⟩ | hgranted
    · cases hother
    · have hrefused := hgranted (⟨false, fun _ => 0⟩, cText "\"a\"") (by simp [tornReply])
      exact absurd hrefused (by decide)
  · exact hhanded.mpr (Or.inr (Or.inr rfl))

/-! ## The exchange and the node -/

end Goshimmer
