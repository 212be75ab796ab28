import Fleet.Number.Digit

/-!
# Universally unique identifiers

An identifier is a number of 128 bits.  It is written as thirty-two hexadecimal digits in lower
case, in five groups joined by hyphens.  It is read in either case, hyphenated, without hyphens,
hyphenated in braces, or hyphenated after `urn:uuid:`.

## Main definitions

* `Uuid.text` — the written form.
* `Uuid.parse?` — reading any of the four forms.
* `Uuid.fresh` — the identifiers that are drawn one after another.
-/

namespace Fleet

/-- An identifier of 128 bits. -/
structure Uuid where
  value : BitVec 128
deriving DecidableEq, Inhabited

namespace Uuid

/-- The identifier that is all zeros. -/
def nil : Uuid := ⟨0⟩

/-- The thirty-two digits of an identifier. -/
def plain (u : Uuid) : List Char := Digit.hexadecimal Digit.lower 32 u.value.toNat

/-- Thirty-two digits in groups of eight, four, four, four and twelve. -/
def hyphenate (cs : List Char) : List Char :=
  cs.take 8 ++ '-' :: (cs.drop 8).take 4 ++ '-' :: (cs.drop 12).take 4 ++ '-' ::
    (cs.drop 16).take 4 ++ '-' :: cs.drop 20

/-- The written form of an identifier. -/
def text (u : Uuid) : String := String.ofList (hyphenate u.plain)

/-- The identifier of thirty-two digits. -/
def ofPlain? (cs : List Char) : Option Uuid :=
  if cs.length = 32 then (Digit.number? 16 cs).map fun n => ⟨BitVec.ofNat 128 n⟩ else none

/-- The identifier of five groups joined by hyphens. -/
def ofHyphenated? (cs : List Char) : Option Uuid :=
  let digits := cs.take 8 ++ (cs.drop 9).take 4 ++ (cs.drop 14).take 4 ++ (cs.drop 19).take 4 ++
    cs.drop 24
  if cs.length = 36 ∧ [8, 13, 18, 23].all (fun i => cs[i]? == some '-') then ofPlain? digits
  else none

/-- Reads an identifier in any of its forms; the length tells which one it is. -/
def parse? (s : String) : Option Uuid :=
  let cs := s.toList
  match cs.length with
  | 32 => ofPlain? cs
  | 36 => ofHyphenated? cs
  | 38 => if cs.head? = some '{' ∧ cs.getLast? = some '}' then ofHyphenated? (cs.tail.dropLast)
    else none
  | 45 => if "urn:uuid:".toList.isPrefixOf cs then ofHyphenated? (cs.drop 9) else none
  | _ => none

/-- Bits that mark an identifier as drawn at random. -/
def randomMark : Nat := 0x5eed0fa1ea7b4d6e8f3900000000

/-- The `n`-th identifier of a supply; different numbers below `2 ^ 32` give different ones. -/
def fresh (n : Nat) : Uuid := ⟨BitVec.ofNat 128 ((randomMark <<< 16) + n)⟩

end Uuid

end Fleet
