/-
  File:      Irez/Timestamp.lean
  Subject:   `chrono_free_timestamp` (mcp/src/install.rs 479-504).

  The name of a backup ends in the moment at which it was made. The formula counts years from
  March on, in eras of 400 years. Every operation on machine integers is checked: where one of them
  left its type the result would be `none`.

  * `civil` -- the formula;
  * `chronoFreeTimestamp` -- the text;
  * `DayOfEra` -- a day of an era, taken apart at its leap days;
  * `civil_at` -- the formula gives the date and the time of the moment;
  * `timestamps_in_order` -- what the text says, and that later moments have later texts.
-/
import Irez.Basis.Calendar
import Irez.Basis.Text

open Irez.Basis Irez.Basis.Calendar

namespace Irez.Installer

/-! ## 1. The formula -/

def checkedAdd (a b : Nat) : Option Nat := if a + b < 18446744073709551616 then some (a + b) else none

def checkedSub (a b : Nat) : Option Nat := if b ≤ a then some (a - b) else none

def checkedMul (a b : Nat) : Option Nat := if a * b < 18446744073709551616 then some (a * b) else none

/-- The result of an operation of type `i64`. -/
def i64 (n : Int) : Option Int := if -9223372036854775808 ≤ n ∧ n < 9223372036854775808 then some n else none

/-- `as i64`. -/
def asI64 (n : Nat) : Int := (n : Int).bmod (18446744073709551616)

/-- `as u64`. -/
def asU64 (n : Int) : Nat := (n % 18446744073709551616).toNat

section Checked

variable {a b : Nat}

theorem checkedAdd_eq (h : a + b < 18446744073709551616) : checkedAdd a b = some (a + b) := if_pos h

theorem checkedSub_eq (h : b ≤ a) : checkedSub a b = some (a - b) := if_pos h

theorem checkedMul_eq (h : a * b < 18446744073709551616) : checkedMul a b = some (a * b) := if_pos h

theorem i64_eq {n : Int} (h : -9223372036854775808 ≤ n ∧ n < 9223372036854775808) : i64 n = some n := if_pos h

theorem asI64_eq (h : a < 9223372036854775808) : asI64 a = a := by
  unfold asI64
  exact Int.bmod_eq_of_le (by omega) (by omega)

theorem asU64_eq (h : a < 18446744073709551616) : asU64 a = a := by
  unfold asU64
  omega

/-- A step that gives a value. -/
theorem bind_ok {α β : Type} {x : Option α} {v : α} {f : α → Option β} (h : x = some v) :
    (x >>= f) = f v := by
  rw [h]
  rfl

end Checked

/-- `era` and `doe`, from the days since the epoch. -/
def eraOf (days : Int) : Option (Int × Nat) := do
  let z ← i64 (days + 719468)
  let shifted ← if 0 ≤ z then some z else i64 (z - 146096)
  let era := shifted.tdiv 146097
  let start ← i64 (era * 146097)
  let doe ← i64 (z - start)
  return (era, asU64 doe)

/-- `yoe` and `doy`. -/
def yearOfEra (doe : Nat) : Option (Nat × Nat) := do
  let days ← checkedSub doe (doe / 1460)
  let days ← checkedAdd days (doe / 36524)
  let days ← checkedSub days (doe / 146096)
  let yoe := days / 365
  let start ← checkedMul 365 yoe
  let start ← checkedAdd start (yoe / 4)
  let start ← checkedSub start (yoe / 100)
  let doy ← checkedSub doe start
  return (yoe, doy)

/-- `month` and `day`. -/
def monthDay (doy : Nat) : Option (Nat × Nat) := do
  let n ← checkedMul 5 doy
  let n ← checkedAdd n 2
  let mp := n / 153
  let start ← checkedMul 153 mp
  let start ← checkedAdd start 2
  let day ← checkedSub doy (start / 5)
  let day ← checkedAdd day 1
  let month ← if mp < 10 then checkedAdd mp 3 else checkedSub mp 9
  return (month, day)

/-- What the text is made of. -/
structure Civil where
  year : Int
  month : Nat
  day : Nat
  hour : Nat
  minute : Nat
  second : Nat
  deriving DecidableEq, Repr

/-- The formula, from the seconds since the epoch. -/
def civil (secs : UInt64) : Option Civil := do
  let days := asI64 (secs.toNat / 86400)
  let secsOfDay := secs.toNat % 86400
  let (era, doe) ← eraOf days
  let (yoe, doy) ← yearOfEra doe
  let year ← i64 (era * 400)
  let year ← i64 (asI64 yoe + year)
  let (month, day) ← monthDay doy
  let year ← if month ≤ 2 then i64 (year + 1) else some year
  return { year, month, day, hour := secsOfDay / 3600, minute := (secsOfDay % 3600) / 60,
           second := secsOfDay % 60 }

/-- `{year:04}`. -/
def paddedYear (year : Int) : List Char :=
  if year < 0 then '-' :: padded 3 year.natAbs else padded 4 year.natAbs

def Civil.text (c : Civil) : List Char :=
  paddedYear c.year ++ padded 2 c.month ++ padded 2 c.day ++
    '-' :: (padded 2 c.hour ++ padded 2 c.minute ++ padded 2 c.second)

/-- The text, from what the clock gives (0 before the epoch). -/
def chronoFreeTimestamp (secs : UInt64) : Option (List Char) := (civil secs).map Civil.text

/-! ## 2. Days of an era -/

/-- The day `doe` of an era by its century, its four years, its year and its day. -/
structure DayOfEra (doe c q n t : Nat) : Prop where
  sum : doe = 36524 * c + 1461 * q + 365 * n + t
  century : c ≤ 3
  four : q ≤ 24
  year : n ≤ 3
  day : t ≤ 365
  /-- Only the last year of four has 366 days, and that of a century only in the last one. -/
  last : t = 365 → n = 3 ∧ (q = 24 → c = 3)

theorem exists_dayOfEra {doe : Nat} (h : doe < 146097) : ∃ c q n t, DayOfEra doe c q n t := by
  obtain ⟨c, r, hsum, hc, hr, hlast⟩ : ∃ c r, doe = 36524 * c + r ∧ c ≤ 3 ∧ r ≤ 36524 ∧
      (r = 36524 → c = 3) := by
    refine ⟨min 3 (doe / 36524), doe - 36524 * min 3 (doe / 36524), ?_⟩
    omega
  obtain ⟨q, s, hr', hq, hs, hlast'⟩ : ∃ q s, r = 1461 * q + s ∧ q ≤ 24 ∧ s ≤ 1460 ∧
      (s = 1460 → q = 24 → c = 3) := by
    refine ⟨min 24 (r / 1461), r - 1461 * min 24 (r / 1461), ?_⟩
    omega
  obtain ⟨n, t, hs', hn, ht, hlast''⟩ : ∃ n t, s = 365 * n + t ∧ n ≤ 3 ∧ t ≤ 365 ∧
      (t = 365 → n = 3) := by
    refine ⟨min 3 (s / 365), s - 365 * min 3 (s / 365), ?_⟩
    omega
  exact ⟨c, q, n, t, by omega, hc, hq, hn, ht, by omega⟩

section DayOfEra

variable {doe c q n t : Nat}

/-- The three corrections cancel: `yoe` is the year of the era. -/
theorem DayOfEra.yoe (h : DayOfEra doe c q n t) :
    (doe - doe / 1460 + doe / 36524 - doe / 146096) / 365 = 100 * c + 4 * q + n := by
  obtain ⟨hsum, hc, hq, hn, ht, hlast⟩ := h
  -- from somewhere in the last year of four on `doe / 1460` is one ahead
  have h1460 : doe / 1460 = 25 * c + q + (24 * c + q + 365 * n + t) / 1460 := by omega
  have hahead : (24 * c + q + 365 * n + t) / 1460 ≤ 1 := by omega
  have hlast' : t = 365 → (24 * c + q + 365 * n + t) / 1460 = 1 := by omega
  have hfirst : t = 0 → (24 * c + q + 365 * n + t) / 1460 = 0 := by omega
  -- on the last day of the era `doe / 36524` is one ahead, and so is `doe / 146096`
  have hcancel : doe / 36524 = c + doe / 146096 := by
    by_cases hday : 1461 * q + 365 * n + t = 36524
    · obtain rfl : c = 3 := by omega
      omega
    · have hday' : 1461 * q + 365 * n + t < 36524 := by omega
      have h146096 : doe / 146096 = 0 := by omega
      omega
  omega

theorem DayOfEra.yearOfEra (h : DayOfEra doe c q n t) :
    yearOfEra doe = some (100 * c + 4 * q + n, t) := by
  have hyoe := h.yoe
  obtain ⟨hsum, hc, hq, hn, ht, hlast⟩ := h
  have hdoe : doe ≤ 146096 := by omega
  have hdays := checkedSub_eq (Nat.div_le_self doe 1460)
  have hdays' := checkedAdd_eq (a := doe - doe / 1460) (b := doe / 36524) (by omega)
  have hdays'' := checkedSub_eq (a := doe - doe / 1460 + doe / 36524) (b := doe / 146096) (by omega)
  have hfour : (100 * c + 4 * q + n) / 4 = 25 * c + q := by omega
  have hcentury : (100 * c + 4 * q + n) / 100 = c := by omega
  have hyear : 365 * (100 * c + 4 * q + n) + 24 * c + q + t = doe := by omega
  have hY : 100 * c + 4 * q + n ≤ 399 := by omega
  clear hsum
  generalize 100 * c + 4 * q + n = Y at *
  have hstart := checkedMul_eq (a := 365) (b := Y) (by omega)
  have hstart' := checkedAdd_eq (a := 365 * Y) (b := 25 * c + q) (by omega)
  have hstart'' := checkedSub_eq (a := 365 * Y + (25 * c + q)) (b := c) (by omega)
  have hdoy := checkedSub_eq (a := doe) (b := 365 * Y + (25 * c + q) - c) (by omega)
  have hday : doe - (365 * Y + (25 * c + q) - c) = t := by omega
  simp only [Installer.yearOfEra, hdays, hdays', hdays'', hyoe, hfour, hcentury, hstart, hstart',
    hstart'', hdoy, hday, Option.bind_eq_bind, Option.bind_some, Option.pure_def]

/-- The 29th of February is there where the last day of the year needs it. -/
theorem DayOfEra.leap (h : DayOfEra doe c q n t) (ht : t = 365) (era : Nat) :
    isLeap (100 * c + 4 * q + n + 400 * era + 1) = true := by
  obtain ⟨hn, hq⟩ := h.last ht
  have hfour := h.four
  have hcentury := h.century
  rw [isLeap_iff]
  refine ⟨by omega, ?_⟩
  by_cases hq' : q = 24
  · have hc := hq hq'
    exact .inr (by omega)
  · exact .inl (by omega)

/-- The days before March of the year after the one an era's day lies in. -/
theorem DayOfEra.daysBefore (h : DayOfEra doe c q n t) (era : Nat) :
    daysBeforeYear (100 * c + 4 * q + n + 400 * era + 1) + t = 146097 * era + doe + 366 := by
  have heq := daysBeforeYear_eq (100 * c + 4 * q + n + 400 * era + 1)
  obtain ⟨hsum, hc, hq, hn, ht, hlast⟩ := h
  omega

end DayOfEra

/-! ## 3. Months -/

theorem monthDay_eq {t mp : Nat} (ht : t ≤ 365) (hmp : (5 * t + 2) / 153 = mp) :
    monthDay t = some (if mp < 10 then mp + 3 else mp - 9, t - (153 * mp + 2) / 5 + 1) := by
  have hmul := checkedMul_eq (a := 5) (b := t) (by omega)
  have hadd := checkedAdd_eq (a := 5 * t) (b := 2) (by omega)
  have hmul' := checkedMul_eq (a := 153) (b := mp) (by omega)
  have hadd' := checkedAdd_eq (a := 153 * mp) (b := 2) (by omega)
  have hsub := checkedSub_eq (a := t) (b := (153 * mp + 2) / 5) (by omega)
  have hday := checkedAdd_eq (a := t - (153 * mp + 2) / 5) (b := 1) (by omega)
  have hlate := checkedAdd_eq (a := mp) (b := 3) (by omega)
  by_cases hm : mp < 10
  · simp only [monthDay, hmul, hadd, hmp, hmul', hadd', hsub, hday, if_pos hm, hlate,
      Option.bind_eq_bind, Option.bind_some, Option.pure_def]
  · have hearly := checkedSub_eq (a := mp) (b := 9) (by omega)
    simp only [monthDay, hmul, hadd, hmp, hmul', hadd', hsub, hday, if_neg hm, hearly,
      Option.bind_eq_bind, Option.bind_some, Option.pure_def]

/-- The months from March to December start where `(153 * mp + 2) / 5` says. -/
theorem month_start {y mp : Nat} (h : mp < 10) :
    daysBeforeMonth y (mp + 3) = 31 + monthLength y 2 + (153 * mp + 2) / 5 ∧
      monthLength y (mp + 3) = (153 * (mp + 1) + 2) / 5 - (153 * mp + 2) / 5 := by
  interval_cases mp
  all_goals
    simp [daysBeforeMonth, monthLength]
    try omega

/-- **The day `t` from the 1st of March of the year `y` on** is a date of this year or of the
    next. -/
theorem monthDay_date {y t : Nat} (ht : t ≤ 365) (hleap : t = 365 → isLeap (y + 1) = true) :
    ∃ d : Date, monthDay t = some (d.month, d.day) ∧
      d.year = (if d.month ≤ 2 then y + 1 else y) ∧
      d.ordinal + 306 = daysBeforeYear (y + 1) + t := by
  obtain ⟨mp, hmp⟩ : ∃ mp, (5 * t + 2) / 153 = mp := ⟨_, rfl⟩
  have hmp' : mp ≤ 11 := by omega
  have hyear := daysBeforeYear_succ y
  have hlength : yearLength y = 337 + monthLength y 2 := by
    unfold yearLength monthLength
    grind
  rw [monthDay_eq ht hmp]
  by_cases hm : mp < 10
  · obtain ⟨hstart, hmonth⟩ := month_start (y := y) hm
    refine ⟨⟨y, mp + 3, t - (153 * mp + 2) / 5 + 1, by omega, by omega, by omega, by omega⟩, ?_, ?_, ?_⟩
    · simp [hm]
    · simp
    · show daysBeforeYear y + daysBeforeMonth y (mp + 3) + (t - (153 * mp + 2) / 5 + 1 - 1) + 306 = _
      omega
  · obtain rfl | rfl : mp = 10 ∨ mp = 11 := by omega
    · have hmonth : monthLength (y + 1) 1 = 31 := rfl
      refine ⟨⟨y + 1, 1, t - 306 + 1, by omega, by omega, by omega, by omega⟩, rfl, rfl, ?_⟩
      show daysBeforeYear (y + 1) + 0 + (t - 306 + 1 - 1) + 306 = _
      omega
    · have hmonth : t - 337 + 1 ≤ monthLength (y + 1) 2 := by
        unfold monthLength
        by_cases hl : t = 365
        · simp [hleap hl, hl]
        · grind
      refine ⟨⟨y + 1, 2, t - 337 + 1, by omega, by omega, by omega, hmonth⟩, rfl, rfl, ?_⟩
      show daysBeforeYear (y + 1) + (0 + 31) + (t - 337 + 1 - 1) + 306 = _
      omega

/-! ## 4. Dates -/

def epoch : Date := ⟨1970, 1, 1, Nat.zero_lt_one, by decide, Nat.zero_lt_one, by decide⟩

theorem epoch_ordinal : epoch.ordinal = 719528 := by
  have hyear := daysBeforeYear_eq 1970
  simp only [Date.ordinal, epoch, daysBeforeMonth]
  omega

theorem eraOf_eq {days z : Nat} (h : days < 281474976710656) (hz : days + 719468 = z) :
    eraOf days = some (((z / 146097 : Nat) : Int), z % 146097) := by
  have hcast : (days : Int) + 719468 = z := by omega
  have hpos : (0 : Int) ≤ z := by omega
  have hera : (z : Int).tdiv 146097 = ((z / 146097 : Nat) : Int) := rfl
  have hrest : (z : Int) - ((z / 146097 : Nat) : Int) * 146097 = ((z % 146097 : Nat) : Int) := by
    omega
  have hz' := i64_eq (n := (z : Int)) (by omega)
  have hstart := i64_eq (n := ((z / 146097 : Nat) : Int) * 146097) (by omega)
  have hdoe := i64_eq (n := ((z % 146097 : Nat) : Int)) (by omega)
  have hu := asU64_eq (a := z % 146097) (by omega)
  unfold eraOf
  rw [hcast, bind_ok hz', if_pos hpos, bind_ok rfl]
  dsimp only
  rw [hera, bind_ok hstart, hrest, bind_ok hdoe, hu]
  rfl

/-- **The formula gives the date and the time of the day.** -/
theorem civil_eq (secs : UInt64) : ∃ d : Date,
    d.ordinal = epoch.ordinal + secs.toNat / 86400 ∧
      civil secs = some ⟨d.year, d.month, d.day, secs.toNat % 86400 / 3600,
        secs.toNat % 86400 % 3600 / 60, secs.toNat % 86400 % 60⟩ := by
  have hsecs : secs.toNat < 18446744073709551616 := secs.toNat_lt
  obtain ⟨days, hdays⟩ : ∃ days, secs.toNat / 86400 = days := ⟨_, rfl⟩
  have hbound : days < 281474976710656 := by omega
  obtain ⟨z, hz⟩ : ∃ z, days + 719468 = z := ⟨_, rfl⟩
  have hera := eraOf_eq hbound hz
  obtain ⟨c, q, n, t, hd⟩ := exists_dayOfEra (Nat.mod_lt z (by decide : 0 < 146097))
  have hbefore := hd.daysBefore (z / 146097)
  obtain ⟨d, hmonth, hyear, hord⟩ := monthDay_date hd.day fun ht => hd.leap ht (z / 146097)
  have hyoe := hd.yearOfEra
  refine ⟨d, by rw [epoch_ordinal]; omega, ?_⟩
  have hY : 100 * c + 4 * q + n < 400 := by
    have hcentury := hd.century
    have hfour := hd.four
    have hn := hd.year
    omega
  have hE : z / 146097 < 281474976710656 := by omega
  clear hd hbefore hord
  generalize z / 146097 = era at *
  generalize z % 146097 = doe at *
  generalize 100 * c + 4 * q + n = Y at *
  have hcast := asI64_eq (a := days) (by omega)
  have hcast' := asI64_eq (a := Y) (by omega)
  have hstart := i64_eq (n := (era : Int) * 400) (by omega)
  have hsum := i64_eq (n := (Y : Int) + era * 400) (by omega)
  have hthis : (Y : Int) + era * 400 = ((Y + 400 * era : Nat) : Int) := by omega
  unfold civil
  rw [hdays, hcast]
  dsimp only
  rw [bind_ok hera]
  dsimp only
  rw [bind_ok hyoe]
  dsimp only
  rw [bind_ok hstart, hcast', bind_ok hsum, bind_ok hmonth]
  dsimp only
  by_cases hm : d.month ≤ 2
  · have hnext := i64_eq (n := (Y : Int) + era * 400 + 1) (by omega)
    rw [if_pos hm] at hyear ⊢
    rw [bind_ok hnext, hthis, hyear]
    rfl
  · rw [if_neg hm] at hyear ⊢
    rw [bind_ok rfl, hthis, hyear]
    rfl

/-- The fields are the date and the time of the day, in UTC, at the moment `secs`. -/
structure Civil.At (c : Civil) (secs : Nat) : Prop where
  date : ∃ d : Date, c.year = d.year ∧ c.month = d.month ∧ c.day = d.day ∧
    d.ordinal = epoch.ordinal + secs / 86400 ∧ Date.next^[secs / 86400] epoch = d
  time : c.hour * 3600 + c.minute * 60 + c.second = secs % 86400
  minute : c.minute < 60
  second : c.second < 60

theorem civil_at (secs : UInt64) : ∃ c, civil secs = some c ∧ c.At secs.toNat := by
  obtain ⟨d, hord, hcivil⟩ := civil_eq secs
  refine ⟨_, hcivil, ⟨d, rfl, rfl, rfl, hord, Date.iterate_next_iff.mpr hord⟩, ?_, ?_, ?_⟩
  · show secs.toNat % 86400 / 3600 * 3600 + secs.toNat % 86400 % 3600 / 60 * 60 +
      secs.toNat % 86400 % 60 = _
    omega
  · show secs.toNat % 86400 % 3600 / 60 < 60
    omega
  · show secs.toNat % 86400 % 60 < 60
    omega

/-- Each moment has a text. -/
theorem exists_stamp (secs : UInt64) : ∃ stamp, chronoFreeTimestamp secs = some stamp := by
  obtain ⟨c, hc, -⟩ := civil_at secs
  rw [chronoFreeTimestamp, hc]
  exact ⟨c.text, rfl⟩

/-! ## 5. The order of the texts -/

theorem paddedYear_eq (y : Nat) : paddedYear (y : Int) = padded 4 y := by
  unfold paddedYear
  rw [if_neg (by omega), Int.natAbs_natCast]

/-- Times of one day are in the order of their fields. -/
theorem time_lt {h m s h' m' s' : Nat} (hm : m < 60) (hm' : m' < 60) (hs : s < 60) (hs' : s' < 60)
    (hlt : h * 3600 + m * 60 + s < h' * 3600 + m' * 60 + s') :
    h < h' ∨ h = h' ∧ (m < m' ∨ m = m' ∧ s < s') := by
  rcases Nat.lt_trichotomy h h' with hh | rfl | hh
  · exact .inl hh
  · rcases Nat.lt_trichotomy m m' with hmin | rfl | hmin
    · exact .inr ⟨rfl, .inl hmin⟩
    · exact .inr ⟨rfl, .inr ⟨rfl, by omega⟩⟩
    · omega
  · omega

theorem Date.month_day_lt (d : Date) : d.month < 10 ^ 2 ∧ d.day < 10 ^ 2 := by
  have hmonth := d.month_le
  have hday := d.day_le
  have hlength : monthLength d.year d.month ≤ 31 := by
    unfold monthLength
    grind
  omega

/-- **Later fields have a later text**, up to the year 9999. -/
theorem Civil.At.text_lt {c c' : Civil} {secs secs' : Nat} (h : c.At secs) (h' : c'.At secs')
    (hlt : secs < secs') (hyear : c'.year < 10000) : c.text < c'.text := by
  obtain ⟨⟨d, hy, hm, hd, hord, -⟩, htime, hminute, hsecond⟩ := h
  obtain ⟨⟨d', hy', hm', hd', hord', -⟩, htime', hminute', hsecond'⟩ := h'
  have hhour : c.hour < 10 ^ 2 := by omega
  have hhour' : c'.hour < 10 ^ 2 := by omega
  have hle : d.Before d' ∨ d = d' ∧ secs % 86400 < secs' % 86400 := by
    by_cases hday : secs / 86400 < secs' / 86400
    · exact .inl (Date.ordinal_lt_iff.mp (by omega))
    · exact .inr ⟨Date.ordinal_inj (by omega), by omega⟩
  have hy4' : d'.year < 10 ^ 4 := by omega
  have hy4 : d.year < 10 ^ 4 := by
    rcases hle with (hbefore | hbefore) | hbefore
    · omega
    · omega
    · rw [hbefore.1]
      exact hy4'
  obtain ⟨hmonth, hday⟩ := Date.month_day_lt d
  obtain ⟨hmonth', hday'⟩ := Date.month_day_lt d'
  unfold Civil.text
  rw [hy, hy', paddedYear_eq, paddedYear_eq, hm, hm', hd, hd']
  simp only [List.append_assoc]
  rw [padded_append_lt_iff (by decide) hy4 hy4', padded_append_lt_iff (by decide) hmonth hmonth',
    padded_append_lt_iff (by decide) hday hday', List.cons_lt_cons_iff,
    padded_append_lt_iff (by decide) hhour hhour',
    padded_append_lt_iff (by decide) (Nat.lt_trans hminute (by decide))
      (Nat.lt_trans hminute' (by decide)),
    padded_lt_iff (by decide) (Nat.lt_trans hsecond (by decide)) (Nat.lt_trans hsecond' (by decide))]
  rcases hle with (hyears | ⟨hyears, hmonths | ⟨hmonths, hdays⟩⟩) | ⟨rfl, hless⟩
  · exact .inl hyears
  · exact .inr ⟨hyears, .inl hmonths⟩
  · exact .inr ⟨hyears, .inr ⟨hmonths, .inl hdays⟩⟩
  · rw [← htime, ← htime'] at hless
    exact .inr ⟨rfl, .inr ⟨rfl, .inr ⟨rfl, .inr ⟨rfl, time_lt hminute hminute' hsecond hsecond' hless⟩⟩⟩⟩

/-- **Two moments with one text are the same.** -/
theorem Civil.At.text_inj {c c' : Civil} {secs secs' : Nat} (h : c.At secs) (h' : c'.At secs')
    (htext : c.text = c'.text) : secs = secs' := by
  obtain ⟨⟨d, hy, hm, hd, hord, -⟩, htime, hminute, hsecond⟩ := h
  obtain ⟨⟨d', hy', hm', hd', hord', -⟩, htime', hminute', hsecond'⟩ := h'
  obtain ⟨hmonth, hday⟩ := Date.month_day_lt d
  obtain ⟨hmonth', hday'⟩ := Date.month_day_lt d'
  have hlength : ∀ n n', n < 10 ^ 2 → n' < 10 ^ 2 → (padded 2 n).length = (padded 2 n').length := by
    intro n n' hn hn'
    rw [padded_length (by decide) hn, padded_length (by decide) hn']
  have hseconds := hlength c.second c'.second (by omega) (by omega)
  have hminutes := hlength c.minute c'.minute (by omega) (by omega)
  have hhours := hlength c.hour c'.hour (by omega) (by omega)
  unfold Civil.text at htext
  rw [hy, hy', paddedYear_eq, paddedYear_eq, hm, hm', hd, hd'] at htext
  obtain ⟨hdate, hclock⟩ := List.append_inj' htext (by
    simp only [List.length_cons, List.length_append]
    omega)
  obtain ⟨hclock, hs⟩ := List.append_inj' (List.cons.inj hclock).2 hseconds
  obtain ⟨hh, hmin⟩ := List.append_inj' hclock hminutes
  obtain ⟨hdate, hdd⟩ := List.append_inj' hdate (hlength _ _ hday hday')
  obtain ⟨hyy, hmm⟩ := List.append_inj' hdate (hlength _ _ hmonth hmonth')
  have hd : d = d' := Date.ext (padded_inj hyy) (padded_inj hmm) (padded_inj hdd)
  have hh := padded_inj hh
  have hmin := padded_inj hmin
  have hs := padded_inj hs
  rw [hd] at hord
  omega

theorem chronoFreeTimestamp_inj {secs secs' : UInt64}
    (h : chronoFreeTimestamp secs = chronoFreeTimestamp secs') : secs = secs' := by
  obtain ⟨c, hc, hat⟩ := civil_at secs
  obtain ⟨c', hc', hat'⟩ := civil_at secs'
  unfold chronoFreeTimestamp at h
  rw [hc, hc'] at h
  exact UInt64.toNat_inj.mp (hat.text_inj hat' (Option.some.inj h))

/-- The name of a backup, from the name of the file. -/
def backupName (fileName stamp : List Char) : List Char := fileName ++ ".bak-".toList ++ stamp

/-- **The text of a moment**: no operation leaves its type, the text is that of the date and the
    time of the day, and up to the year 9999 a later moment has a later text and a later backup
    name. -/
theorem timestamps_in_order (secs : UInt64) :
    (∃ c, civil secs = some c ∧ chronoFreeTimestamp secs = some c.text ∧ c.At secs.toNat ∧
      1 ≤ c.month ∧ c.month ≤ 12 ∧ 1 ≤ c.day ∧ c.day ≤ monthLength c.year.toNat c.month) ∧
    ∀ later c stamp stamp', secs < later → civil later = some c → c.year < 10000 →
      chronoFreeTimestamp secs = some stamp → chronoFreeTimestamp later = some stamp' →
      stamp < stamp' ∧ ∀ fileName, backupName fileName stamp < backupName fileName stamp' := by
  obtain ⟨c, hc, hat⟩ := civil_at secs
  have htext : chronoFreeTimestamp secs = some c.text := by rw [chronoFreeTimestamp, hc]; rfl
  constructor
  · obtain ⟨d, hy, hm, hd, -, -⟩ := hat.date
    refine ⟨c, hc, htext, hat, ?_⟩
    rw [hy, hm, hd]
    exact ⟨d.month_pos, d.month_le, d.day_pos, d.day_le⟩
  · intro later c' stamp stamp' hlt hc' hyear hstamp hstamp'
    obtain ⟨c'', hc'', hat'⟩ := civil_at later
    obtain rfl := Option.some.inj (hc''.symm.trans hc')
    rw [htext] at hstamp
    rw [chronoFreeTimestamp, hc'] at hstamp'
    obtain rfl := Option.some.inj hstamp
    obtain rfl := Option.some.inj hstamp'
    have hless := hat.text_lt hat' hlt hyear
    exact ⟨hless, fun fileName => List.append_left_lt hless⟩

/-- The 29th of February 2000. -/
example : chronoFreeTimestamp 951782400 = some "20000229-000000".toList := by decide

end Irez.Installer
