import Goshimmer.Core.Types
import Mathlib.Data.Rat.Defs

/-!
# JSON documents and the accessors of the client

`client/api/json_utils.c` and `client/api/response_error.c` over the trees of cJSON. A string
value is a C string, so it ends in front of its first NUL. Text is copied out of a document by
`strncpy` into a buffer of a declared size, which pads a short text with zeros and leaves a long
one without a terminator; a reader of such a buffer runs on into the memory behind it.
-/

namespace Goshimmer

/-- The `valuedouble` of a number. -/
inductive Double
  | finite (value : ℚ)
  | infinite (positive : Bool)
  deriving DecidableEq

/-- A tree of cJSON. -/
inductive CJson
  | null
  | bool (value : Bool)
  | number (valueDouble : Double)
  | string (valueString : List Byte)
  | array (elements : List CJson)
  | object (members : List (String × CJson))

/-- The functions of cJSON which the client calls, and the machine's conversion of a `double`
which does not fit the range of `int64_t`. -/
structure CJsonLib where
  /-- `cJSON_Parse` of a text. -/
  parse : List Byte → Option CJson
  /-- `cJSON_PrintUnformatted`. -/
  printUnformatted : CJson → Option (List Byte)
  /-- `(int64_t)` applied outside its range. -/
  castOutOfRange : Double → Int64

/-- The bytes of a text literal. -/
def cText (text : String) : List Byte := text.toList.map fun c => UInt8.ofNat c.toNat

/-- The C string which starts at a buffer; `past` is the memory behind the buffer. -/
def cString {n : ℕ} (past : List Byte) (buffer : Bytes n) : List Byte :=
  (buffer.val ++ past).takeWhile (· ≠ 0)

/-- `strncpy` of a C string into a whole buffer. -/
def strncpy (n : ℕ) (text : List Byte) : Bytes n :=
  ⟨(text.takeWhile (· ≠ 0) ++ List.replicate n 0).take n, by simp⟩

/-- `cJSON_GetObjectItemCaseSensitive`; only an object has children with names. -/
def CJson.getObjectItemCaseSensitive : CJson → String → Option CJson
  | .object members, name => (members.find? fun member => member.1 = name).map Prod.snd
  | _, _ => none

/-- `json_get_string` into a buffer, passed with its old contents and its whole size. -/
def jsonGetString {n : ℕ} (jsonObj : CJson) (key : String) (str : Bytes n) : Int × Bytes n :=
  match jsonObj.getObjectItemCaseSensitive key with
  | some (.string valueString) => (0, strncpy n valueString)
  | _ => (-1, str)

/-- Reading a text succeeds exactly for a member which is a string. -/
theorem jsonGetString_eq_zero_iff {n : ℕ} (jsonObj : CJson) (key : String) (str : Bytes n) :
    (jsonGetString jsonObj key str).1 = 0 ↔
      ∃ valueString, jsonObj.getObjectItemCaseSensitive key = some (.string valueString) := by
  unfold jsonGetString
  split
  · next valueString hitem => exact ⟨fun _ => ⟨valueString, hitem⟩, fun _ => rfl⟩
  · next hother =>
    constructor
    · intro h
      simp at h
    · intro ⟨valueString, hitem⟩
      exact absurd hitem (hother valueString)

/-- `json_get_boolean`. -/
def jsonGetBoolean (jsonObj : CJson) (key : String) (value : Bool) : Int × Bool :=
  match jsonObj.getObjectItemCaseSensitive key with
  | some (.bool valueBool) => (0, valueBool)
  | _ => (-1, value)

/-- `valuedouble >= 0`. -/
def Double.nonneg : Double → Bool
  | .finite value => 0 ≤ value
  | .infinite positive => positive

/-- `(int64_t)valuedouble` for a value which is not negative. -/
def CJsonLib.castInt64 (cjson : CJsonLib) : Double → Int64
  | .finite value =>
    if value < 2 ^ 63 then Int64.ofInt value.floor else cjson.castOutOfRange (.finite value)
  | .infinite positive => cjson.castOutOfRange (.infinite positive)

/-- `json_get_int64`. -/
def jsonGetInt64 (cjson : CJsonLib) (jsonObj : CJson) (objName : String) (num : Int64) : Int × Int64 :=
  match jsonObj.getObjectItemCaseSensitive objName with
  | some (.number valueDouble) =>
    if valueDouble.nonneg then (0, cjson.castInt64 valueDouble) else (-1, num)
  | _ => (-1, num)

/-- `deser_error`: the message of an error response. -/
def deserError (jObj : CJson) : Option (List Byte) :=
  match jObj.getObjectItemCaseSensitive "error" with
  | some (.string msg) => some (msg.takeWhile (· ≠ 0))
  | _ => none

/-- `cJSON_Parse` of a response body: the text ends in front of the first NUL. Without a body the
argument is a null pointer, which the parser refuses. -/
def CJsonLib.parseBody (cjson : CJsonLib) (body : List Byte) : Option CJson :=
  if body.isEmpty then none else cjson.parse (body.takeWhile (· ≠ 0))

end Goshimmer
