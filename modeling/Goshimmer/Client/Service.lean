import Goshimmer.Client.Json
import Goshimmer.Core.Transaction
import Mathlib.Data.List.TakeWhile

/-!
# The node and the libraries as the client sees them

`client/client_service.h` and `client/network/http.h`, and the conversions between byte arrays and
base58 texts in `core/address.c`, `core/balance.c` and `core/transaction.c`. A call of the API posts one
request and gets a response body, or the exchange fails. What the node answers is not constrained: it is a
function of the request, and every operation may meet another one.

The conversions only pass buffers to libbase58, whose two functions are parameters. The decoder writes
into a buffer of a declared size, and on failure may leave in it what was there before, so it takes the old
contents and reports the new ones next to its verdict. A text on its way from a document through a buffer
into the decoder arrives as it is when it fits the buffer.
-/

namespace Goshimmer

/-! ## Base58 texts -/

section

/-- The functions of libbase58 which the client calls. -/
structure Base58 where
  /-- The text which `b58enc` writes; every buffer the client passes has room for it. -/
  b58enc : List Byte → List Byte
  /-- `b58tobin`: the return value, and the contents of the destination afterwards. -/
  b58tobin : (size : ℕ) → List Byte → Bytes size → Bool × Bytes size

variable (base58 : Base58)

/-- `address_2_base58`. -/
def address2Base58 (address : Address) : List Byte := base58.b58enc address.val

/-- `address_from_base58`. -/
def addressFromBase58 (base58Str : List Byte) (addr : Address) : Bool × Address :=
  base58.b58tobin 33 base58Str addr

/-- `tx_output_id_from_base58`. -/
def txOutputIdFromBase58 (str : List Byte) (outputId : OutputId) : Bool × OutputId :=
  base58.b58tobin (33 + 32) str outputId

/-- `balance_color_from_base58`. -/
def balanceColorFromBase58 (colorStr : List Byte) (color : Color) : Bool × Color :=
  base58.b58tobin 32 colorStr color

end

/-! ## The node -/

/-- The libraries which the client is linked against. -/
structure Libraries where
  sodium : Sodium
  base58 : Base58
  cjson : CJsonLib

/-- `tangle_client_conf_t`. -/
structure TangleClientConf where
  url : List Byte
  port : UInt16
  deriving DecidableEq

/-- What `http_client_post` is called with: the url and the port of its configuration and the
request body. -/
structure HttpRequest where
  url : List Byte
  port : UInt16
  body : List Byte
  deriving DecidableEq

/-- A node: the response body of an exchange which succeeds. -/
abbrev Node := HttpRequest → Option (List Byte)

/-- The request for a command of the API. A port of zero leaves the zeroed configuration as it is. -/
def TangleClientConf.request (conf : TangleClientConf) (cmd : String) (body : List Byte) : HttpRequest :=
  ⟨conf.url ++ cText cmd, conf.port, body⟩

/-! ## Base58 texts in a document -/

/-- The base58 alphabet. -/
def base58Alphabet : List Byte := cText "123456789ABCDEFGHJKLMNPQRSTUVWXYZabcdefghijkmnopqrstuvwxyz"

/-- What is documented of the two functions: decoding inverts encoding, only texts over the alphabet
decode, a failure leaves the destination alone, and a text has at most 138 characters for every
hundred bytes, and one more. -/
structure Base58.Lawful (base58 : Base58) : Prop where
  inverts : ∀ {size : ℕ} (bytes old : Bytes size),
    base58.b58tobin size (base58.b58enc bytes.val) old = (true, bytes)
  alphabet : ∀ {size : ℕ} {text : List Byte} {old : Bytes size},
    (base58.b58tobin size text old).1 = true → ∀ c ∈ text, c ∈ base58Alphabet
  refused : ∀ {size : ℕ} {text : List Byte} {old : Bytes size},
    (base58.b58tobin size text old).1 = false → (base58.b58tobin size text old).2 = old
  length_le : ∀ bytes : List Byte, (base58.b58enc bytes).length ≤ bytes.length * 138 / 100 + 1

/-- A text which is shorter than the buffer is copied up to its first NUL, and NULs fill the rest. -/
theorem val_strncpy {n : ℕ} {text : List Byte} (h : (text.takeWhile (· ≠ 0)).length < n) :
    ∃ room, (strncpy n text).val = text.takeWhile (· ≠ 0) ++ 0 :: List.replicate room 0 := by
  obtain ⟨room, hroom⟩ : ∃ room, n - (text.takeWhile (· ≠ 0)).length = room + 1 :=
    ⟨n - (text.takeWhile (· ≠ 0)).length - 1, by omega⟩
  refine ⟨room, ?_⟩
  change (text.takeWhile (· ≠ 0) ++ List.replicate n 0).take n = _
  rw [List.take_append, List.take_of_length_le h.le, List.take_replicate, hroom,
    Nat.min_eq_left (by omega), List.replicate_succ]

/-- A text which is shorter than the buffer arrives as it is, up to its first NUL. -/
theorem cString_strncpy {n : ℕ} (past : List Byte) {text : List Byte}
    (h : (text.takeWhile (· ≠ 0)).length < n) :
    cString past (strncpy n text) = text.takeWhile (· ≠ 0) := by
  obtain ⟨room, hbuffer⟩ := val_strncpy h
  have hall : ∀ c ∈ text.takeWhile (· ≠ 0), (fun c : Byte => decide (c ≠ 0)) c = true := by
    intro c hc
    exact List.mem_takeWhile_imp (p := fun c : Byte => decide (c ≠ 0)) hc
  rw [cString, hbuffer, List.append_assoc, List.takeWhile_append_of_pos hall]
  simp

/-- A text over the alphabet has no NUL and no capital I. -/
theorem takeWhile_of_alphabet {text : List Byte} (h : ∀ c ∈ text, c ∈ base58Alphabet) :
    text.takeWhile (· ≠ 0) = text := by
  have hzero : (0 : Byte) ∉ base58Alphabet := by decide
  rw [List.takeWhile_eq_self_iff]
  intro c hc
  rw [decide_eq_true_eq]
  intro heq
  exact hzero (heq ▸ h c hc)

/-- A text with another letter is refused, and the destination stays as it is. -/
theorem Base58.Lawful.refuses {base58 : Base58} (h : base58.Lawful) {size : ℕ} {text : List Byte}
    (hforeign : ∃ c ∈ text, c ∉ base58Alphabet) (old : Bytes size) :
    base58.b58tobin size text old = (false, old) := by
  have hverdict : (base58.b58tobin size text old).1 = false := by
    rw [← Bool.not_eq_true]
    intro hdecodes
    obtain ⟨c, hc, hletter⟩ := hforeign
    exact hletter (h.alphabet hdecodes c hc)
  exact Prod.ext hverdict (h.refused hverdict)

/-- The text of bytes is over the alphabet. -/
theorem Base58.Lawful.alphabet_of_b58enc {base58 : Base58} (h : base58.Lawful) {size : ℕ}
    (bytes : Bytes size) : ∀ c ∈ base58.b58enc bytes.val, c ∈ base58Alphabet :=
  h.alphabet (congrArg Prod.fst (h.inverts bytes bytes))

end Goshimmer
