import Fleet.Json
import Fleet.Number.Digit
import Fleet.Number.Decimal
import Fleet.Number.Binary64.Text

/-!
# Writing JSON

A value is written without white space, members in their order.  In a string only the quotation
mark, the backslash and the control characters below U+0020 are escaped.

## Main definitions

* `Json.escape` — the bytes of a string between its quotation marks.
* `Json.write` — the bytes of a value.
-/

namespace Fleet.Json

/-- The bytes of a run of ASCII characters. -/
def asciiBytes (cs : List Char) : Bytes := cs.map fun c => c.toNat.toUInt8

/-- A byte of a string as it is written: short escapes where there is one, else `\u00xx` for a
control character. -/
def escapeByte (b : UInt8) : Bytes :=
  if b == 0x22 then [0x5C, 0x22]
  else if b == 0x5C then [0x5C, 0x5C]
  else if b == 0x08 then [0x5C, 0x62]
  else if b == 0x09 then [0x5C, 0x74]
  else if b == 0x0A then [0x5C, 0x6E]
  else if b == 0x0C then [0x5C, 0x66]
  else if b == 0x0D then [0x5C, 0x72]
  else if b < 0x20 then 0x5C :: 0x75 :: asciiBytes (Digit.hexadecimal Digit.lower 4 b.toNat)
  else [b]

/-- The bytes of a string between its quotation marks. -/
def escape (b : Bytes) : Bytes := b.flatMap escapeByte

/-- A string in quotation marks. -/
def quoted (s : String) : Bytes := 0x22 :: escape (Text.utf8 s) ++ [0x22]

/-- The literal of a number; a number that is none is written as null. -/
def writeNumber : Number → Bytes
  | .natural n => asciiBytes (Decimal.digits n.toNat)
  | .negative n => 0x2D :: asciiBytes (Decimal.digits n.natAbs)
  | .real x => if x.isFinite then asciiBytes x.text else Text.ascii "null"
  | .tooLarge => Text.ascii "null"

mutual

/-- The bytes of a value. -/
def write : Json → Bytes
  | .null => Text.ascii "null"
  | .bool true => Text.ascii "true"
  | .bool false => Text.ascii "false"
  | .number n => writeNumber n
  | .string s => quoted (s.getD "")
  | .array [] => [0x5B, 0x5D]
  | .array (v :: rest) => 0x5B :: write v ++ writeItems rest
  | .object [] => [0x7B, 0x7D]
  | .object ((k, v) :: rest) => 0x7B :: quoted (k.getD "") ++ 0x3A :: write v ++ writeMembers rest

/-- The items of an array after the first one, up to the closing bracket. -/
def writeItems : List Json → Bytes
  | [] => [0x5D]
  | v :: rest => 0x2C :: write v ++ writeItems rest

/-- The members of an object after the first one, up to the closing brace. -/
def writeMembers : List (Option String × Json) → Bytes
  | [] => [0x7D]
  | (k, v) :: rest => 0x2C :: quoted (k.getD "") ++ 0x3A :: write v ++ writeMembers rest

end

end Fleet.Json
