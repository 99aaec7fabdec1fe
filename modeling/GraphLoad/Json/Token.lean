/-
The tokens of a JSON text. Strings keep their code escapes apart from their characters, because a
string is only refused for a lone surrogate where its characters are asked for.
-/
import GraphLoad.Json.Numeral
import GraphLoad.Text.Hex

namespace GraphLoad.Json

/-- A piece of a string: a character as it stands or behind a backslash, or a code of four
hexadecimal digits. -/
inductive Piece
  | char (c : Char)
  | code (n : Nat)

/-- A token of a JSON text. -/
inductive Token
  | openArray
  | closeArray
  | openObject
  | closeObject
  | comma
  | colon
  | null
  | bool (b : Bool)
  | number (n : Numeral)
  | string (pieces : List Piece)

namespace Token

/-! ## Numerals -/

/-- The leading decimal digits and the rest. -/
def takeDigits (cs : List Char) : List Nat × List Char :=
  ((cs.takeWhile Char.isDigit).map fun c => c.toNat - 48, cs.dropWhile Char.isDigit)

/-- The digits behind a point, of which there is at least one. -/
def fraction? : List Char → Option (Option (List Nat) × List Char)
  | '.' :: cs =>
    match takeDigits cs with
    | ([], _) => none
    | (ds, rest) => some (some ds, rest)
  | cs => some (none, cs)

/-- The digits of an exponent behind its sign, of which there is at least one. -/
def exponentDigits? (down : Bool) (cs : List Char) :
    Option (Option (Bool × List Nat) × List Char) :=
  match takeDigits cs with
  | ([], _) => none
  | (ds, rest) => some (some (down, ds), rest)

/-- An exponent, if one follows. -/
def exponent? : List Char → Option (Option (Bool × List Nat) × List Char)
  | [] => some (none, [])
  | c :: cs =>
    if c = 'e' ∨ c = 'E' then
      match cs with
      | '+' :: rest => exponentDigits? false rest
      | '-' :: rest => exponentDigits? true rest
      | rest => exponentDigits? false rest
    else some (none, c :: cs)

/-- A numeral behind its sign. A leading zero stands alone. -/
def numeral? (negative : Bool) (cs : List Char) : Option (Numeral × List Char) :=
  match takeDigits cs with
  | ([], _) => none
  | (0 :: _ :: _, _) => none
  | (whole, rest) =>
    match fraction? rest with
    | none => none
    | some (fraction, rest) =>
      match exponent? rest with
      | none => none
      | some (exponent, rest) => some (⟨negative, whole, fraction, exponent⟩, rest)

/-! ## Strings -/

/-- The number of four hexadecimal digits. -/
def code? (a b c d : Char) : Option Nat := Text.ofHexDigits? [a, b, c, d]

/-- The character behind a backslash. -/
def escaped? (c : Char) : Option Char :=
  if c = '\x22' ∨ c = '\\' ∨ c = '/' then some c
  else if c = 'b' then some (Char.ofNat 8)
  else if c = 'f' then some (Char.ofNat 12)
  else if c = 'n' then some '\n'
  else if c = 'r' then some '\r'
  else if c = 't' then some '\t'
  else none

/-- A string behind its opening quote, and what follows its closing quote. Control characters stand
only behind a backslash. -/
def string? : List Char → Option (List Piece × List Char)
  | [] => none
  | '\\' :: 'u' :: a :: b :: c :: d :: cs =>
    match code? a b c d, string? cs with
    | some n, some (pieces, rest) => some (.code n :: pieces, rest)
    | _, _ => none
  | '\\' :: c :: cs =>
    match escaped? c, string? cs with
    | some c, some (pieces, rest) => some (.char c :: pieces, rest)
    | _, _ => none
  | c :: cs =>
    if c = '\x22' then some ([], cs)
    else if c.toNat < 32 ∨ c = '\\' then none
    else
      match string? cs with
      | some (pieces, rest) => some (.char c :: pieces, rest)
      | none => none

/-! ## Texts -/

/-- The blanks between tokens. -/
def isSpace (c : Char) : Bool := c == ' ' || c == '\t' || c == '\n' || c == '\r'

/-- The token a text starts with and the rest; the text is not blank at its start. -/
def next? : List Char → Option (Token × List Char)
  | '[' :: cs => some (.openArray, cs)
  | ']' :: cs => some (.closeArray, cs)
  | '\x7b' :: cs => some (.openObject, cs)
  | '\x7d' :: cs => some (.closeObject, cs)
  | ',' :: cs => some (.comma, cs)
  | ':' :: cs => some (.colon, cs)
  | 'n' :: 'u' :: 'l' :: 'l' :: cs => some (.null, cs)
  | 't' :: 'r' :: 'u' :: 'e' :: cs => some (.bool true, cs)
  | 'f' :: 'a' :: 'l' :: 's' :: 'e' :: cs => some (.bool false, cs)
  | '\x22' :: cs => (string? cs).map fun (pieces, rest) => (.string pieces, rest)
  | '-' :: cs => (numeral? true cs).map fun (n, rest) => (.number n, rest)
  | cs => (numeral? false cs).map fun (n, rest) => (.number n, rest)

/-- The tokens of a text. Every token takes at least one character. -/
def lex (cs : List Char) : Option (List Token) :=
  match cs with
  | [] => some []
  | c :: rest =>
    if isSpace c then lex rest
    else
      match next? (c :: rest) with
      | none => none
      | some (token, after) =>
        if _ : after.length < (c :: rest).length then (lex after).map (token :: ·) else none
termination_by cs.length
decreasing_by
  · simp
  · assumption

end Token

end GraphLoad.Json
