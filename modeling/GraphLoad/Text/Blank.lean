/-
White space as the Unicode `White_Space` property has it, and the two ways texts are cleaned of it:
`trim` at both ends, `words` between the parts. Zero-width and control separators such as U+200B and
U+001C are not in the property.
-/

namespace GraphLoad.Text

/-- The characters with the property `White_Space`. -/
def isBlank (c : Char) : Bool :=
  let n := c.toNat
  (9 ≤ n && n ≤ 13) || n == 0x20 || n == 0x85 || n == 0xA0 || n == 0x1680 ||
    (0x2000 ≤ n && n ≤ 0x200A) || n == 0x2028 || n == 0x2029 || n == 0x202F || n == 0x205F ||
    n == 0x3000

/-! ## Both ends -/

/-- A list of characters without the blanks it starts and ends with. -/
def trimChars (cs : List Char) : List Char :=
  ((cs.dropWhile isBlank).reverse.dropWhile isBlank).reverse

/-- A text without the blanks it starts and ends with. -/
def trim (s : String) : String :=
  String.ofList (trimChars s.toList)

/-! ## Between the parts -/

/-- The longest runs of characters that are not blank, in order; `run` is the run read so far. -/
def wordsFrom (run : List Char) : List Char → List (List Char)
  | [] => if run.isEmpty then [] else [run]
  | c :: cs =>
    if isBlank c then
      if run.isEmpty then wordsFrom [] cs else run :: wordsFrom [] cs
    else wordsFrom (run ++ [c]) cs

/-- The blank-separated words of a text; none of them is empty. -/
def words (s : String) : List String :=
  (wordsFrom [] s.toList).map String.ofList

/-! ## Pieces between separators -/

/-- The pieces of a list between the occurrences of `sep`, one more than there are occurrences. -/
def piecesFrom (sep : Char) (piece : List Char) : List Char → List (List Char)
  | [] => [piece]
  | c :: cs => if c = sep then piece :: piecesFrom sep [] cs else piecesFrom sep (piece ++ [c]) cs

/-- The pieces of a text between the occurrences of `sep`. -/
def pieces (sep : Char) (s : String) : List String :=
  (piecesFrom sep [] s.toList).map String.ofList

theorem length_piecesFrom (sep : Char) (piece cs : List Char) :
    (piecesFrom sep piece cs).length = cs.count sep + 1 := by
  induction cs generalizing piece with
  | nil => rfl
  | cons c cs ih =>
    unfold piecesFrom
    split
    · next h => subst h; simp [ih]
    · next h => simp [ih, h]

end GraphLoad.Text
