/-
  File:      Irez/Basis/Calendar.lean
  Subject:   The proleptic Gregorian calendar: dates, the next date, and the number of a date.

  * `Date` -- a date that exists;
  * `Date.ordinal` -- how many days lie before it, from the 1st of January of the year 0;
  * `Date.ordinal_next` -- the next date has the next number;
  * `Date.ordinal_lt_iff` -- the numbers are in the order of the dates;
  * `Date.iterate_next_iff` -- the `n`-th date after another one is told by its number.
-/
import Mathlib.Logic.Function.Iterate
import Mathlib.Tactic.IntervalCases

namespace Irez.Basis.Calendar

/-! ## 1. Years and months -/

def isLeap (y : Nat) : Bool := y % 4 = 0 && (y % 100 ≠ 0 || y % 400 = 0)

def yearLength (y : Nat) : Nat := if isLeap y then 366 else 365

def monthLength (y m : Nat) : Nat :=
  if m = 2 then if isLeap y then 29 else 28
  else if m = 4 ∨ m = 6 ∨ m = 9 ∨ m = 11 then 30 else 31

/-- The days of the years before `y`, from the year 0 on. -/
def daysBeforeYear : Nat → Nat
  | 0 => 0
  | y + 1 => daysBeforeYear y + yearLength y

/-- The days of the year `y` before its month `m`. -/
def daysBeforeMonth (y : Nat) : Nat → Nat
  | 0 => 0
  | 1 => 0
  | m + 2 => daysBeforeMonth y (m + 1) + monthLength y (m + 1)

theorem isLeap_iff {y : Nat} : isLeap y = true ↔ y % 4 = 0 ∧ (y % 100 ≠ 0 ∨ y % 400 = 0) := by
  simp [isLeap]

/-- The leap years are counted by three divisions. -/
theorem daysBeforeYear_eq (y : Nat) :
    daysBeforeYear y + (y + 99) / 100 = 365 * y + (y + 3) / 4 + (y + 399) / 400 := by
  induction y with
  | zero => rfl
  | succ y ih =>
    have hlength : yearLength y + (if y % 100 = 0 then 1 else 0) =
        365 + (if y % 4 = 0 then 1 else 0) + (if y % 400 = 0 then 1 else 0) := by
      unfold yearLength
      simp only [isLeap_iff]
      grind
    have h4 : (y + 1 + 3) / 4 = (y + 3) / 4 + if y % 4 = 0 then 1 else 0 := by
      split <;> omega
    have h100 : (y + 1 + 99) / 100 = (y + 99) / 100 + if y % 100 = 0 then 1 else 0 := by
      split <;> omega
    have h400 : (y + 1 + 399) / 400 = (y + 399) / 400 + if y % 400 = 0 then 1 else 0 := by
      split <;> omega
    unfold daysBeforeYear
    omega

theorem daysBeforeYear_succ (y : Nat) :
    daysBeforeYear (y + 1) = daysBeforeYear y + yearLength y := rfl

theorem daysBeforeMonth_succ {y m : Nat} (hm : 1 ≤ m) :
    daysBeforeMonth y (m + 1) = daysBeforeMonth y m + monthLength y m := by
  obtain ⟨k, rfl⟩ := Nat.exists_eq_add_of_le' hm
  rfl

theorem daysBeforeYear_mono {y y' : Nat} (h : y < y') :
    daysBeforeYear y + yearLength y ≤ daysBeforeYear y' := by
  induction y' with
  | zero => omega
  | succ z ih =>
    rcases Nat.lt_succ_iff_lt_or_eq.mp h with hz | rfl
    · have hz := ih hz
      rw [daysBeforeYear_succ]
      omega
    · exact Nat.le_refl _

theorem daysBeforeMonth_mono {y m m' : Nat} (hm : 1 ≤ m) (h : m < m') :
    daysBeforeMonth y m + monthLength y m ≤ daysBeforeMonth y m' := by
  induction m' with
  | zero => omega
  | succ k ih =>
    rw [daysBeforeMonth_succ (by omega)]
    rcases Nat.lt_succ_iff_lt_or_eq.mp h with hk | rfl
    · have hk := ih hk
      omega
    · exact Nat.le_refl _

/-- A year is its months. -/
theorem daysBeforeMonth_twelve (y : Nat) :
    daysBeforeMonth y 12 + monthLength y 12 = yearLength y := by
  unfold yearLength
  cases h : isLeap y with
  | true => simp [daysBeforeMonth, monthLength, h]
  | false => simp [daysBeforeMonth, monthLength, h]

/-! ## 2. Dates -/

@[ext]
structure Date where
  year : Nat
  month : Nat
  day : Nat
  month_pos : 1 ≤ month
  month_le : month ≤ 12
  day_pos : 1 ≤ day
  day_le : day ≤ monthLength year month

namespace Date

/-- The days before the date, from the 1st of January of the year 0 on. -/
def ordinal (d : Date) : Nat :=
  daysBeforeYear d.year + daysBeforeMonth d.year d.month + (d.day - 1)

theorem monthLength_pos (y m : Nat) : 1 ≤ monthLength y m := by
  unfold monthLength
  grind

/-- The date of the following day. -/
def next (d : Date) : Date :=
  if hd : d.day < monthLength d.year d.month then
    { d with day := d.day + 1, day_pos := by omega, day_le := hd }
  else if hm : d.month < 12 then
    { year := d.year, month := d.month + 1, day := 1, month_pos := by omega, month_le := by omega,
      day_pos := Nat.le_refl 1, day_le := monthLength_pos _ _ }
  else
    { year := d.year + 1, month := 1, day := 1, month_pos := Nat.le_refl 1, month_le := by omega,
      day_pos := Nat.le_refl 1, day_le := monthLength_pos _ _ }

/-- **The next date has the next number.** -/
theorem ordinal_next (d : Date) : d.next.ordinal = d.ordinal + 1 := by
  have hpos := d.day_pos
  have hle := d.day_le
  unfold next
  split
  · show daysBeforeYear d.year + daysBeforeMonth d.year d.month + (d.day + 1 - 1) =
      daysBeforeYear d.year + daysBeforeMonth d.year d.month + (d.day - 1) + 1
    omega
  · rename_i hd
    split
    · have hmonth := daysBeforeMonth_succ (y := d.year) d.month_pos
      show daysBeforeYear d.year + daysBeforeMonth d.year (d.month + 1) + (1 - 1) =
        daysBeforeYear d.year + daysBeforeMonth d.year d.month + (d.day - 1) + 1
      omega
    · rename_i hm
      have htwelve : d.month = 12 := Nat.le_antisymm d.month_le (by omega)
      have hyear := daysBeforeMonth_twelve d.year
      show daysBeforeYear (d.year + 1) + 0 + (1 - 1) =
        daysBeforeYear d.year + daysBeforeMonth d.year d.month + (d.day - 1) + 1
      rw [htwelve] at hd hle ⊢
      rw [daysBeforeYear_succ]
      omega

theorem ordinal_iterate (d : Date) (n : Nat) : (next^[n] d).ordinal = d.ordinal + n := by
  induction n with
  | zero => rfl
  | succ n ih =>
    rw [Function.iterate_succ_apply', ordinal_next, ih]
    rfl

/-! ### The order of dates -/

/-- One date comes before the other. -/
def Before (d e : Date) : Prop :=
  d.year < e.year ∨ d.year = e.year ∧ (d.month < e.month ∨ d.month = e.month ∧ d.day < e.day)

theorem Before.ordinal_lt {d e : Date} (h : d.Before e) : d.ordinal < e.ordinal := by
  have hpos := d.day_pos
  have hle := d.day_le
  have hmonth : daysBeforeMonth d.year d.month + monthLength d.year d.month ≤ yearLength d.year := by
    rcases Nat.lt_or_eq_of_le d.month_le with hm | hm
    · have hmono := daysBeforeMonth_mono (y := d.year) d.month_pos hm
      have hyear := daysBeforeMonth_twelve d.year
      omega
    · rw [hm, daysBeforeMonth_twelve]
  unfold ordinal
  rcases h with hy | ⟨hy, hm | ⟨hm, hday⟩⟩
  · have hyear := daysBeforeYear_mono hy
    omega
  · have hmono := daysBeforeMonth_mono (y := d.year) d.month_pos hm
    rw [← hy]
    omega
  · rw [← hy, ← hm]
    omega

theorem before_trichotomy (d e : Date) : d.Before e ∨ d = e ∨ e.Before d := by
  unfold Before
  rcases Nat.lt_trichotomy d.year e.year with hy | hy | hy
  · exact .inl (.inl hy)
  · rcases Nat.lt_trichotomy d.month e.month with hm | hm | hm
    · exact .inl (.inr ⟨hy, .inl hm⟩)
    · rcases Nat.lt_trichotomy d.day e.day with hd | hd | hd
      · exact .inl (.inr ⟨hy, .inr ⟨hm, hd⟩⟩)
      · exact .inr (.inl (Date.ext hy hm hd))
      · exact .inr (.inr (.inr ⟨hy.symm, .inr ⟨hm.symm, hd⟩⟩))
    · exact .inr (.inr (.inr ⟨hy.symm, .inl hm⟩))
  · exact .inr (.inr (.inl hy))

/-- **The numbers are in the order of the dates.** -/
theorem ordinal_lt_iff {d e : Date} : d.ordinal < e.ordinal ↔ d.Before e := by
  constructor
  · intro h
    rcases before_trichotomy d e with hlt | rfl | hgt
    · exact hlt
    · exact absurd h (Nat.lt_irrefl _)
    · exact absurd h (Nat.lt_asymm hgt.ordinal_lt)
  · exact Before.ordinal_lt

theorem ordinal_inj {d e : Date} (h : d.ordinal = e.ordinal) : d = e := by
  rcases before_trichotomy d e with hlt | heq | hgt
  · exact absurd h (Nat.ne_of_lt hlt.ordinal_lt)
  · exact heq
  · exact absurd h.symm (Nat.ne_of_lt hgt.ordinal_lt)

/-- **The `n`-th date after another one** is the one whose number is larger by `n`. -/
theorem iterate_next_iff {d e : Date} {n : Nat} : next^[n] d = e ↔ e.ordinal = d.ordinal + n := by
  constructor
  · intro h
    rw [← h, ordinal_iterate]
  · intro h
    exact ordinal_inj ((ordinal_iterate d n).trans h.symm)

end Date

end Irez.Basis.Calendar
