import Mathlib.Algebra.Order.Group.Int
import Mathlib.Data.Rat.Defs
import SynitWaf.Go.Strings

/-!
# Machine integers, durations, Unix time and dates

Instants and durations are integers, in nanoseconds as in Go's `time` package.

* `int64`: the value of a sum or product that may have wrapped around;
* `millisecond`, `second`, `unix`, `seconds`;
* `truncate`, **`lt_truncate_iff`**: when the next second begins;
* `Zone`, `Civil`, `civil`: the date and the time of day of a second; `format`.
-/

namespace Go

/-- The `int64` with the given value modulo `2 ^ 64`. -/
def int64 (n : ℤ) : ℤ := n.bmod (2 ^ 64)

theorem int64_eq {n : ℤ} (h0 : 0 ≤ n) (h : n < 2 ^ 63) : int64 n = n :=
  Int.bmod_eq_of_le (by omega) (by omega)

/-- `time.Millisecond`. -/
def millisecond : ℤ := 1000000

/-- `time.Second`. -/
def second : ℤ := 1000000000

/-- `Time.Unix`: the whole seconds of an instant. -/
def unix (t : ℤ) : ℤ := t / second

/-- `Duration.Seconds`, as a rational number. -/
def seconds (d : ℤ) : ℚ := d / 1000000000

/-- `Time.Truncate`, for a duration that divides a second or a whole number of them. -/
def truncate (t d : ℤ) : ℤ := t - t % d

/-- **The next second**: it has not begun as long as the whole seconds are the same. -/
theorem lt_truncate_iff {t u : ℤ} : u < truncate t second + second ↔ unix u ≤ unix t := by
  unfold truncate unix second
  omega

/-! ## Dates -/

/-- A time zone: the seconds by which its clocks are ahead of UTC, for each second of Unix time. -/
abbrev Zone := ℤ → ℤ

/-- Coordinated Universal Time. -/
def utc : Zone := fun _ => 0

/-- A date of the Gregorian calendar and a time of day. -/
structure Civil where
  year : ℤ
  month : ℤ
  day : ℤ
  hour : ℤ
  minute : ℤ
  second : ℤ
  deriving DecidableEq

/-- The date and time of day of a second, counted from the beginning of 1970. Years begin in March, so
that a leap day is the last of its year. -/
def civil (seconds : ℤ) : Civil :=
  let days := seconds / 86400 + 719468
  let ofEra := days % 146097
  let yearOfEra := (ofEra - ofEra / 1460 + ofEra / 36524 - ofEra / 146096) / 365
  let ofYear := ofEra - (365 * yearOfEra + yearOfEra / 4 - yearOfEra / 100)
  let fromMarch := (5 * ofYear + 2) / 153
  let month := if fromMarch < 10 then fromMarch + 3 else fromMarch - 9
  { year := days / 146097 * 400 + yearOfEra + (if month ≤ 2 then 1 else 0)
    month
    day := ofYear - (153 * fromMarch + 2) / 5 + 1
    hour := seconds % 86400 / 3600
    minute := seconds % 3600 / 60
    second := seconds % 60 }

/-- The date and time of day of an instant in a time zone. -/
def civilIn (zone : Zone) (t : ℤ) : Civil := civil (unix t + zone (unix t))

/-- The names of the months, short. -/
def monthNames : List GoString :=
  [str "Jan", str "Feb", str "Mar", str "Apr", str "May", str "Jun", str "Jul", str "Aug", str "Sep",
    str "Oct", str "Nov", str "Dec"]

/-- A number with zeros in front of it, up to a width; the sign does not count. -/
def zeroPad (width : ℕ) (n : ℤ) : GoString :=
  let digits := itoa n.natAbs
  (if n < 0 then str "-" else []) ++ List.replicate (width - digits.length) (byte '0') ++ digits

/-- The elements of a layout of `Time.Format`. -/
inductive Layout where
  | longYear
  | year
  | zeroMonth
  | month
  | zeroDay
  | day
  | hour
  | zeroHour12
  | zeroMinute
  | zeroSecond

/-- `Time.Format` with a layout of one element. -/
def Civil.format (c : Civil) : Layout → GoString
  | .longYear => zeroPad 4 c.year
  | .year => zeroPad 2 (if c.year < 0 then 0 else c.year % 100)
  | .zeroMonth => zeroPad 2 c.month
  | .month => (monthNames.drop (c.month.toNat - 1)).headD []
  | .zeroDay => zeroPad 2 c.day
  | .day => itoa c.day
  | .hour => zeroPad 2 c.hour
  | .zeroHour12 => zeroPad 2 (if c.hour % 12 = 0 then 12 else c.hour % 12)
  | .zeroMinute => zeroPad 2 c.minute
  | .zeroSecond => zeroPad 2 c.second

example : civil 1790035199 = ⟨2026, 9, 21, 23, 59, 59⟩ := by decide

example : civil (-1) = ⟨1969, 12, 31, 23, 59, 59⟩ := by decide

end Go
