/-!
# White space

A character is blank if Unicode gives it the property `White_Space`; a text is blank if all its
characters are.  The byte order mark U+FEFF is not blank.

## Main definitions

* `isBlank` — the property on characters.
* `trim` — a text without the blank characters at its ends.
* `Blank` — a text with nothing but blank characters.
-/

namespace Fleet.Text

/-- The property `White_Space` of Unicode. -/
def isBlank (c : Char) : Bool :=
  let n := c.toNat
  (9 ≤ n && n ≤ 13) || n == 0x20 || n == 0x85 || n == 0xA0 || n == 0x1680 ||
    (0x2000 ≤ n && n ≤ 0x200A) || n == 0x2028 || n == 0x2029 || n == 0x202F || n == 0x205F ||
    n == 0x3000

/-- The characters from the first one that is not blank. -/
def trimLeft (cs : List Char) : List Char := cs.dropWhile isBlank

/-- The characters up to the last one that is not blank. -/
def trimRight (cs : List Char) : List Char := (cs.reverse.dropWhile isBlank).reverse

/-- A text without the blank characters at its ends. -/
def trim (s : String) : String := String.ofList (trimRight (trimLeft s.toList))

/-- A text without the blank characters at its right end. -/
def trimEnd (s : String) : String := String.ofList (trimRight s.toList)

/-- A text with no character but blank ones. -/
def Blank (s : String) : Prop := ∀ c ∈ s.toList, isBlank c = true

instance (s : String) : Decidable (Blank s) :=
  decidable_of_iff (s.toList.all isBlank = true) List.all_eq_true

end Fleet.Text
