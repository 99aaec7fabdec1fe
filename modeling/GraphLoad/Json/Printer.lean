/-
The compact text of a JSON document: no blanks, only the necessary escapes, floats always with a
fraction or an exponent.
-/
import GraphLoad.Json.Basic
import GraphLoad.Number.Notation
import GraphLoad.Text.Hex

namespace GraphLoad.Json

/-! ## Strings -/

/-- The escape of a code unit of sixteen bits. -/
def codeEscape (n : Nat) : List Char := '\\' :: 'u' :: Text.hexDigits n 4

/-- A character inside a string: quotes, backslashes and control characters are escaped. -/
def escapeChar (c : Char) : List Char :=
  if c = '\x22' then ['\\', '\x22']
  else if c = '\\' then ['\\', '\\']
  else if c = '\n' then ['\\', 'n']
  else if c = '\r' then ['\\', 'r']
  else if c = '\t' then ['\\', 't']
  else if c.toNat = 8 then ['\\', 'b']
  else if c.toNat = 12 then ['\\', 'f']
  else if c.toNat < 32 then codeEscape c.toNat
  else [c]

/-- A string in quotes. -/
def quote (s : String) : String :=
  String.ofList ('\x22' :: s.toList.flatMap escapeChar ++ ['\x22'])

/-! ## Documents -/

/-- A float; infinities and NaN have no JSON form and become `null`. -/
def floatText (d : Double) : String :=
  if d.isFinite then d.scientific else "null"

mutual

/-- The compact text of a document. -/
def text : Json → String
  | .null => "null"
  | .bool b => if b then "true" else "false"
  | .int n => toString n
  | .float d => floatText d
  | .str s => quote s
  | .arr items => "[" ++ String.intercalate "," (itemTexts items) ++ "]"
  | .obj members => "\x7b" ++ String.intercalate "," (memberTexts members) ++ "\x7d"

/-- The texts of the items of an array. -/
def itemTexts : List Json → List String
  | [] => []
  | item :: rest => text item :: itemTexts rest

/-- The texts of the members of an object. -/
def memberTexts : List (String × Json) → List String
  | [] => []
  | (key, value) :: rest => (quote key ++ ":" ++ text value) :: memberTexts rest

end

/-! ## Documents in ASCII -/

/-- A character by itself, or by the escapes of its UTF-16 code units when it is beyond ASCII. -/
def asciiChar (c : Char) : List Char :=
  if c.toNat < 0x80 then [c]
  else if c.toNat < 0x10000 then codeEscape c.toNat
  else
    let n := c.toNat - 0x10000
    codeEscape (0xD800 + n / 0x400) ++ codeEscape (0xDC00 + n % 0x400)

/-- The compact text with nothing beyond ASCII. Such characters stand inside strings only, so that
escaping them leaves the document the same. -/
def asciiText (j : Json) : String := String.ofList (j.text.toList.flatMap asciiChar)

end GraphLoad.Json
