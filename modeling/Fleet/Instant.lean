import Fleet.Number.Decimal
import Fleet.Text.Blank

/-!
# Instants

An instant is a date of the Gregorian calendar, a second of that day and a fraction in nanoseconds,
all in UTC.  A fraction of a whole second or more marks a leap second.  Instants are ordered by
date, then second, then fraction.

## Main definitions

* `Date`, `Instant` — the types; a date that does not exist cannot be built.
* `Instant.le` — the order.
* `Instant.shift` — the instant so many seconds earlier or later, less than a day away.
* `Instant.text` — the form of RFC 3339 with `Z` and as few of 0, 3, 6 and 9 digits as lose nothing.
-/

namespace Fleet

/-- A year with a twenty-ninth of February. -/
def leapYear (y : Int) : Bool := y % 4 == 0 && (y % 100 != 0 || y % 400 == 0)

/-- The number of days of a month. -/
def daysInMonth (y : Int) (m : Nat) : Nat :=
  if m = 2 then (if leapYear y then 29 else 28)
  else if m = 4 ∨ m = 6 ∨ m = 9 ∨ m = 11 then 30
  else 31

/-- A date of the proleptic Gregorian calendar. -/
structure Date where
  year : Int
  month : Nat
  day : Nat
  month_pos : 1 ≤ month := by omega
  month_le : month ≤ 12 := by omega
  day_pos : 1 ≤ day := by omega
  day_le : day ≤ daysInMonth year month
deriving DecidableEq

namespace Date

/-- The date with these numbers, if it exists. -/
def of? (year : Int) (month day : Nat) : Option Date :=
  if h : (1 ≤ month ∧ month ≤ 12) ∧ 1 ≤ day ∧ day ≤ daysInMonth year month then
    some ⟨year, month, day, h.1.1, h.1.2, h.2.1, h.2.2⟩
  else none

@[simp] theorem of?_self (d : Date) : of? d.year d.month d.day = some d := by
  simp [of?, d.month_pos, d.month_le, d.day_pos, d.day_le]

theorem one_le_daysInMonth (y : Int) (m : Nat) : 1 ≤ daysInMonth y m := by
  unfold daysInMonth
  split
  · split <;> omega
  · split <;> omega

/-- The following day. -/
def next (d : Date) : Date :=
  if h : d.day < daysInMonth d.year d.month then
    { d with day := d.day + 1, day_pos := by omega, day_le := h }
  else if h : d.month < 12 then
    { year := d.year, month := d.month + 1, day := 1, day_le := one_le_daysInMonth _ _ }
  else { year := d.year + 1, month := 1, day := 1, day_le := one_le_daysInMonth _ _ }

/-- The day before. -/
def previous (d : Date) : Date :=
  if h : 1 < d.day then
    { d with
      day := d.day - 1
      day_pos := by omega
      day_le := Nat.le_trans (Nat.sub_le ..) d.day_le }
  else if h : 1 < d.month then
    have := d.month_le
    { year := d.year, month := d.month - 1, day := daysInMonth d.year (d.month - 1),
      day_pos := one_le_daysInMonth _ _, day_le := Nat.le_refl _ }
  else
    { year := d.year - 1, month := 12, day := daysInMonth (d.year - 1) 12,
      day_pos := one_le_daysInMonth _ _, day_le := Nat.le_refl _ }

/-- The days from the first of March of the year zero. -/
def dayNumber (d : Date) : Int :=
  let y := if d.month ≤ 2 then d.year - 1 else d.year
  let m := (d.month + 9) % 12
  365 * y + y / 4 - y / 100 + y / 400 + (153 * m + 2) / 5 + (d.day - 1)

end Date

/-- The seconds of a day. -/
def secondsPerDay : Nat := 86400

/-- An instant in UTC. -/
structure Instant where
  date : Date
  second : Fin secondsPerDay
  nano : Fin 2000000000
deriving DecidableEq

namespace Instant

/-- The first second of the year 1970. -/
def epoch : Instant := ⟨⟨1970, 1, 1, by omega, by omega, by omega, by decide⟩, ⟨0, by decide⟩, 0⟩

/-- The numbers by which instants are ordered, the weightiest first. -/
def key (t : Instant) : List Int :=
  [t.date.year, t.date.month, t.date.day, t.second.val, t.nano.val]

/-- One instant is not later than another. -/
def le (s t : Instant) : Bool := !t.key.lex s.key fun a b => decide (a < b)

instance : LE Instant := ⟨fun s t => s.le t = true⟩

instance (s t : Instant) : Decidable (s ≤ t) := inferInstanceAs (Decidable (s.le t = true))

/-- The instant so many seconds later, earlier if negative; less than a day away. -/
def shift (t : Instant) (seconds : Int) : Instant :=
  let s : Int := t.second.val + seconds
  let date := if s < 0 then t.date.previous else if secondsPerDay ≤ s then t.date.next else t.date
  { t with
    date := date
    second := ⟨(s % secondsPerDay).toNat, by unfold secondsPerDay; omega⟩ }

/-- The seconds from the first of March of the year zero. -/
def seconds (t : Instant) : Int := t.date.dayNumber * secondsPerDay + t.second.val

/-- A number with at least so many digits. -/
def padded (width n : Nat) : List Char :=
  let ds := Decimal.digits n
  List.replicate (width - ds.length) '0' ++ ds

/-- A year: four digits, with a sign outside of 0 to 9999. -/
def yearText (y : Int) : List Char :=
  if 0 ≤ y ∧ y ≤ 9999 then padded 4 y.toNat
  else (if y < 0 then '-' else '+') :: padded 4 y.natAbs

/-- A fraction of a second in as few of 0, 3, 6 and 9 digits as lose nothing. -/
def fractionText (nano : Nat) : List Char :=
  if nano = 0 then []
  else if nano % 1000000 = 0 then '.' :: padded 3 (nano / 1000000)
  else if nano % 1000 = 0 then '.' :: padded 6 (nano / 1000)
  else '.' :: padded 9 nano

/-- The written form of an instant; a leap second is the second sixty. -/
def chars (t : Instant) : List Char :=
  let leap := t.nano.val / 1000000000
  yearText t.date.year ++ '-' :: padded 2 t.date.month ++ '-' :: padded 2 t.date.day ++ 'T' ::
    padded 2 (t.second.val / 3600) ++ ':' :: padded 2 (t.second.val / 60 % 60) ++ ':' ::
    padded 2 (t.second.val % 60 + leap) ++ fractionText (t.nano.val % 1000000000) ++ ['Z']

/-- The written form of an instant. -/
def text (t : Instant) : String := String.ofList t.chars

end Instant

end Fleet
