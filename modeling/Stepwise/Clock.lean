import Stepwise.Number.Decimal

/-!
# The clock

Instants are counted in microseconds from the first moment of 2024. Their text is the calendar
date and the time of day, with six digits of a second only where they are not all zero.
-/

namespace Stepwise

/-- A moment, in microseconds from the beginning of 2024. -/
structure Instant where
  micros : Nat
  deriving DecidableEq, Inhabited

namespace Instant

/-- Whole seconds after the beginning of 2024. -/
def ofSeconds (n : Nat) : Instant := ⟨n * 1000000⟩

/-- The year, month and day, so many days after the beginning of 2024. The count runs from a
first of March that begins a cycle of 400 years, so that a leap day comes last in its year. -/
def calendar (days : Nat) : Nat × Nat × Nat :=
  let fromMarch := days + 739191
  let cycle := fromMarch / 146097
  let day := fromMarch % 146097
  let year := (day - day / 1460 + day / 36524 - day / 146096) / 365
  let dayOfYear := day - (365 * year + year / 4 - year / 100)
  let month := (5 * dayOfYear + 2) / 153
  let dayOfMonth := dayOfYear - (153 * month + 2) / 5 + 1
  let year := cycle * 400 + year
  if month < 10 then (year, month + 3, dayOfMonth) else (year + 1, month - 9, dayOfMonth)

/-- A number in at least `width` digits. -/
def padded (width n : Nat) : List Char :=
  let digits := Decimal.digitsOf n
  List.replicate (width - digits.length) '0' ++ digits

/-- The text of an instant, without a time zone. -/
def text (i : Instant) : String :=
  let seconds := i.micros / 1000000
  let fraction := i.micros % 1000000
  let (year, month, day) := calendar (seconds / 86400)
  let time := seconds % 86400
  let date := padded 4 year ++ '-' :: padded 2 month ++ '-' :: padded 2 day
  let clock := padded 2 (time / 3600) ++ ':' :: padded 2 (time / 60 % 60)
    ++ ':' :: padded 2 (time % 60)
  String.ofList (date ++ 'T' :: clock ++ (if fraction = 0 then [] else '.' :: padded 6 fraction))

/-- The text of an instant with the offset of universal time. -/
def zonedText (i : Instant) : String := i.text ++ "+00:00"

end Instant

end Stepwise
