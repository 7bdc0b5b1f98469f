import EvidentLedger.Lib.Text
import Mathlib.Data.List.Infix

/-!
# Bytes, texts and JSON values

What `std::str::from_utf8` and `serde_json::Value` are to the code that reads tokens and proof files.
The parser is `serde_json`, a parameter where it is used.
-/

namespace EvidentLedger

open Lib.Text

/-- `std::str::from_utf8`. -/
def fromUtf8 (bytes : List UInt8) : Option String := String.fromUTF8? ⟨bytes.toArray⟩

/-- The bytes of a text are read back. -/
theorem fromUtf8_asBytes (text : String) : fromUtf8 (asBytes text) = some text := by
  unfold fromUtf8 asBytes
  rw [Array.toArray_toList]
  exact dif_pos text.isValidUTF8

/-- `str::contains`. -/
def containsText (needle text : String) : Bool := decide (needle.toList <:+: text.toList)

/-- A `serde_json::Value`; an object has one value for each name. -/
inductive Json where
  | null
  | bool (b : Bool)
  | number (literal : String)
  | string (s : String)
  | array (elements : List Json)
  | object (fields : List (String × Json))

namespace Json

/-- `json[key]`. -/
def index (key : String) : Json → Json
  | object fields => (fields.lookup key).getD null
  | _ => null

def asArray : Json → Option (List Json)
  | array elements => some elements
  | _ => none

def asStr : Json → Option String
  | string s => some s
  | _ => none

/-- `json.get(key)`. -/
def get? (key : String) : Json → Option Json
  | object fields => fields.lookup key
  | _ => none

end Json

end EvidentLedger
