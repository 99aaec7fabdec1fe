/-
Upper and lower case of whole texts by the full Unicode mappings: `ß` upper-cases to `SS`, `İ`
lower-cases to two characters, and a capital sigma that ends a word lower-cases to `ς`.
-/
import GraphLoad.Text.Case.Table

namespace GraphLoad.Text

namespace Case

/-- Whether a run covers a code point. -/
def Run.covers (r : Run) (n : Nat) : Bool :=
  r.first ≤ n && n ≤ r.last && (n - r.first) % r.step == 0

/-- The code point `n` moved by the run that covers it, or `n` itself. -/
def move (runs : List Run) (n : Nat) : Nat :=
  match runs.find? (·.covers n) with
  | some r => (n + r.shift).toNat
  | none => n

/-- Whether one of the spans holds the code point. -/
def inSpans (spans : List Span) (n : Nat) : Bool :=
  spans.any fun s => s.first ≤ n && n ≤ s.last

/-- Letters that have case: `Cased`, with the ASCII letters first. -/
def isCased (c : Char) : Bool :=
  if c.toNat < 128 then c.isAlpha else inSpans casedSpans c.toNat

/-- Marks and signs that a word's case looks past: `Case_Ignorable`. -/
def isIgnorable (c : Char) : Bool :=
  if c.toNat < 128 then
    c == '\x27' || c == '.' || c == ':' || c == '^' || c == '\x60'
  else inSpans ignorableSpans c.toNat

/-- Whether the first character that is not ignorable has case. -/
def meetsCased (cs : List Char) : Bool :=
  match cs.dropWhile isIgnorable with
  | [] => false
  | c :: _ => isCased c

/-- The lower-case form of one character, whatever stands around it. -/
def lowerChar (c : Char) : List Char :=
  if c.toNat < 128 then [c.toLower]
  else if c.toNat = 0x130 then ['i', Char.ofNat 0x307]
  else [Char.ofNat (move lowerRuns c.toNat)]

/-- The upper-case form of one character. -/
def upperChar (c : Char) : List Char :=
  if c.toNat < 128 then [c.toUpper]
  else
    match upperExpansions.find? (·.1 == c.toNat) with
    | some (_, ns) => ns.map Char.ofNat
    | none => [Char.ofNat (move upperRuns c.toNat)]

/-- Capital sigma. -/
def sigma : Char := Char.ofNat 0x3A3

/-- The lower-case form of the characters after `before` (nearest first). A sigma between a cased
letter and the end of its word takes its final form. -/
def lowerFrom (before : List Char) : List Char → List Char
  | [] => []
  | c :: cs =>
    if c = sigma then
      Char.ofNat (if meetsCased before && !meetsCased cs then 0x3C2 else 0x3C3) ::
        lowerFrom (c :: before) cs
    else lowerChar c ++ lowerFrom (c :: before) cs

end Case

/-- The lower-case form of a text. -/
def lower (s : String) : String :=
  String.ofList (Case.lowerFrom [] s.toList)

/-- The upper-case form of a text. -/
def upper (s : String) : String :=
  String.ofList (s.toList.flatMap Case.upperChar)

end GraphLoad.Text
