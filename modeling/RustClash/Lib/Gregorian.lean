import Mathlib.Order.Monotone.Basic
import Mathlib.Tactic.IntervalCases

/-!
# The Gregorian calendar

Dates of the proleptic Gregorian calendar, one day after the other, and where a day of a
cycle of 400 years lies.  Years are counted here from the first of March of the year 0 of
the cycle, so that the day of a leap year is the last one of its year.
-/

namespace Gregorian

def isLeap (year : Int) : Bool := year % 4 = 0 && (year % 100 ≠ 0 || year % 400 = 0)

def daysInMonth (year : Int) : (month : Nat) → Nat
  | 2 => if isLeap year then 29 else 28
  | 4 | 6 | 9 | 11 => 30
  | _ => 31

structure Date where
  year : Int
  month : Nat
  day : Nat
  one_le_month : 1 ≤ month
  month_le : month ≤ 12
  one_le_day : 1 ≤ day
  day_le : day ≤ daysInMonth year month
deriving DecidableEq

theorem one_le_daysInMonth (year : Int) (month : Nat) : 1 ≤ daysInMonth year month := by
  unfold daysInMonth
  split
  · split <;> decide
  all_goals decide

/-- The day after. -/
def Date.next (d : Date) : Date :=
  if hday : d.day < daysInMonth d.year d.month then
    { d with day := d.day + 1, one_le_day := Nat.le_add_left 1 d.day, day_le := hday }
  else if hmonth : d.month < 12 then
    ⟨d.year, d.month + 1, 1, Nat.le_add_left 1 d.month, hmonth, Nat.le_refl 1,
      one_le_daysInMonth _ _⟩
  else ⟨d.year + 1, 1, 1, Nat.le_refl 1, by decide, Nat.le_refl 1, one_le_daysInMonth _ _⟩

/-- The first of January 1970. -/
def epoch : Date := ⟨1970, 1, 1, by decide, by decide, by decide, by decide⟩

/-- The date of a day after the epoch. -/
def dateOf : (day : Nat) → Date
  | 0 => epoch
  | day + 1 => (dateOf day).next

/-! ## The days of a cycle -/

/-- The days of a cycle before its year `y`. -/
def yearStart (y : Nat) : Nat := 365 * y + y / 4 - y / 100 + y / 400

theorem yearStart_strictMono : StrictMono yearStart := by
  refine strictMono_nat_of_lt_succ fun y => ?_
  simp only [yearStart]
  omega

/-- The year of a cycle that a day falls into, if the day lies in it. -/
structure InYear (doe y : Nat) : Prop where
  start : yearStart y ≤ doe
  stop : doe < yearStart (y + 1)

/-- The estimate of the year times 365: every fourth year is a day longer, but for centuries. -/
def yearDays (doe : Nat) : Nat := doe - doe / 1460 + doe / 36524 - doe / 146096

theorem yearDays_mono : Monotone yearDays := by
  refine monotone_nat_of_le_succ fun doe => ?_
  simp only [yearDays]
  omega

/-- The estimate is right on the first and on the last day of each year. -/
theorem yearDays_ends : ∀ y < 400, y ≤ yearDays (yearStart y) / 365 ∧
    yearDays (yearStart (y + 1) - 1) / 365 ≤ y := by
  decide +kernel

/-- It grows with the day, so it is right on every day. -/
theorem InYear.estimate {doe y : Nat} (h : InYear doe y) (hy : y < 400) :
    yearDays doe / 365 = y := by
  obtain ⟨hfirst, hlast⟩ := yearDays_ends y hy
  refine Nat.le_antisymm ?_ ?_
  · exact (Nat.div_le_div_right (yearDays_mono (Nat.le_sub_one_of_lt h.stop))).trans hlast
  · exact hfirst.trans (Nat.div_le_div_right (yearDays_mono h.start))

/-! ## The months of a year -/

/-- The days of a year before its month `mp`, from March on. -/
def monthStart (mp : Nat) : Nat := (153 * mp + 2) / 5

/-- The month as it is numbered from January on. -/
def monthOf (mp : Nat) : Nat := if mp < 10 then mp + 3 else mp - 9

theorem monthStart_mono : Monotone monthStart := by
  intro a b h
  simp only [monthStart]
  omega

theorem monthStart_succ {mp : Nat} (h : mp < 11) (year : Int) :
    monthStart (mp + 1) = monthStart mp + daysInMonth year (monthOf mp) := by
  interval_cases mp <;> rfl

theorem isLeap_iff (era : Int) (y : Nat) :
    isLeap (era * 400 + y) ↔ 4 ∣ y ∧ (¬ 100 ∣ y ∨ 400 ∣ y) := by
  have h4 : (era * 400 + y) % 4 = 0 ↔ 4 ∣ y := by omega
  have h100 : (era * 400 + y) % 100 = 0 ↔ 100 ∣ y := by omega
  have h400 : (era * 400 + y) % 400 = 0 ↔ 400 ∣ y := by omega
  simp only [isLeap, ne_eq, Bool.and_eq_true, Bool.or_eq_true, decide_eq_true_eq, h4, h100, h400]

/-- February ends the year, and is as long as the rule of leap years says. -/
theorem yearStart_succ (era : Int) (y : Nat) :
    yearStart (y + 1) = yearStart y + monthStart 11 + daysInMonth (era * 400 + (y + 1 : Nat)) 2 := by
  have hfeb : monthStart 11 = 337 := rfl
  have hle : y / 100 ≤ 365 * y + y / 4 := by omega
  have h100 : 100 ∣ y + 1 → 4 ∣ y + 1 := Nat.dvd_trans (by decide)
  have h400 : 400 ∣ y + 1 → 100 ∣ y + 1 := Nat.dvd_trans (by decide)
  have hleap := isLeap_iff era (y + 1)
  simp only [yearStart, Nat.succ_div, hfeb, daysInMonth, hleap]
  generalize y / 4 = a, y / 100 = b, y / 400 = c at hle ⊢
  by_cases hd4 : 4 ∣ y + 1
  · by_cases hd100 : 100 ∣ y + 1
    · by_cases hd400 : 400 ∣ y + 1
      · simp only [hd4, hd100, hd400, if_true, not_true, or_true, and_true]
        omega
      · simp only [hd4, hd100, hd400, if_true, if_false, not_true, or_false, and_false]
        omega
    · have hd400 : ¬ 400 ∣ y + 1 := fun h => hd100 (h400 h)
      simp only [hd4, hd100, hd400, if_true, if_false, not_false_eq_true, or_false, and_true]
      omega
  · have hd100 : ¬ 100 ∣ y + 1 := fun h => hd4 (h100 h)
    have hd400 : ¬ 400 ∣ y + 1 := fun h => hd100 (h400 h)
    simp only [hd4, hd100, hd400, if_false, false_and]
    omega

/-- The date is so many days after the first of March of the year 0: in the year `y` of a cycle,
and the month `mp` of that year. -/
structure Date.At (d : Date) (days era : Int) (y mp : Nat) : Prop where
  days : days = era * 146097 + yearStart y + monthStart mp + (d.day - 1)
  y_lt : y < 400
  mp_lt : mp < 12
  year : d.year = era * 400 + (if mp < 10 then y else y + 1 : Nat)
  month : d.month = monthOf mp

namespace Date.At

variable {d : Date} {days era : Int} {y mp : Nat}

/-- The month ends where the next one, or the next year, begins. -/
theorem stop (h : d.At days era y mp) : yearStart y + monthStart mp + daysInMonth d.year d.month =
    if mp < 11 then yearStart y + monthStart (mp + 1) else yearStart (y + 1) := by
  split
  · next hmp => rw [h.month, monthStart_succ hmp, Nat.add_assoc]
  · next hmp =>
      obtain rfl : mp = 11 := Nat.le_antisymm (Nat.lt_succ_iff.mp h.mp_lt) (Nat.not_lt.mp hmp)
      have hyear : d.year = era * 400 + (y + 1 : Nat) := h.year
      rw [h.month, hyear, yearStart_succ era y]
      rfl

/-- The day after is the next one of the month, or the first of the next month, which after
February is that of the next year. -/
theorem next (h : d.At days era y mp) : ∃ era y mp, d.next.At (days + 1) era y mp := by
  have hdays := h.days
  have hstop := h.stop
  have hday := d.one_le_day
  have hyear := h.year
  have hmonth := h.month
  rw [Date.next]
  split
  · refine ⟨era, y, mp, ?_, h.y_lt, h.mp_lt, hyear, hmonth⟩
    show days + 1 = _ + (((d.day + 1 : Nat) : Int) - 1)
    omega
  next hlast =>
  have heq : d.day = daysInMonth d.year d.month := Nat.le_antisymm d.day_le (Nat.not_lt.mp hlast)
  rw [← heq] at hstop
  have hmp := h.mp_lt
  by_cases hfeb : mp < 11
  · rw [if_pos hfeb] at hstop
    simp only [monthOf] at hmonth
    split
    · next hdec =>
        -- December is the month 9, and the only one whose next one is of another year.
        have hdecember : mp ≠ 9 := by
          rintro rfl
          have htwelve : d.month = 12 := hmonth
          omega
        have hiff : mp + 1 < 10 ↔ mp < 10 := by omega
        refine ⟨era, y, mp + 1, ?_, h.y_lt, by omega, ?_, ?_⟩
        · show days + 1 = _ + (((1 : Nat) : Int) - 1)
          omega
        · simp only [hiff]
          exact hyear
        · show d.month + 1 = monthOf (mp + 1)
          rw [monthOf, hmonth]
          split <;> split <;> omega
    · next hdec =>
        obtain rfl : mp = 9 := by
          split at hmonth <;> omega
        refine ⟨era, y, 10, ?_, h.y_lt, by decide, ?_, rfl⟩
        · show days + 1 = era * 146097 + yearStart y + monthStart (9 + 1) + (((1 : Nat) : Int) - 1)
          omega
        · have hlast : d.year = era * 400 + y := hyear
          show d.year + 1 = era * 400 + (y + 1 : Nat)
          omega
  · obtain rfl : mp = 11 := by omega
    have hfour : d.month = 2 := hmonth
    rw [if_neg hfeb] at hstop
    rw [dif_pos (by rw [hfour]; decide)]
    have hnext : d.year = era * 400 + (y + 1 : Nat) := hyear
    have hmarch : d.month + 1 = monthOf 0 := by rw [hfour]; rfl
    by_cases hcycle : y + 1 < 400
    · refine ⟨era, y + 1, 0, ?_, hcycle, by decide, hnext, hmarch⟩
      have hstart : monthStart 0 = 0 := rfl
      show days + 1 = _ + (((1 : Nat) : Int) - 1)
      omega
    · obtain rfl : y = 399 := by
        have hy := h.y_lt
        omega
      refine ⟨era + 1, 0, 0, ?_, by decide, by decide, ?_, hmarch⟩
      · have hstart : monthStart 0 = 0 := rfl
        have hfirst : yearStart 0 = 0 := rfl
        have hcycles : yearStart (399 + 1) = 146097 := rfl
        show days + 1 = _ + (((1 : Nat) : Int) - 1)
        omega
      · show d.year = (era + 1) * 400 + (0 : Nat)
        rw [hnext]
        omega

theorem day_lt (h : d.At days era y mp) : d.day - 1 < monthStart (mp + 1) - monthStart mp := by
  have hone := d.one_le_day
  have hle := d.day_le
  have hstop := h.stop
  split at hstop
  · omega
  · next hmp =>
      obtain rfl : mp = 11 := Nat.le_antisymm (Nat.lt_succ_iff.mp h.mp_lt) (Nat.not_lt.mp hmp)
      have hstart : monthStart 11 = 337 ∧ monthStart (11 + 1) = 367 := ⟨rfl, rfl⟩
      have hfeb : d.month = 2 := h.month
      have hlen : daysInMonth d.year 2 ≤ 29 := by
        rw [daysInMonth]
        split <;> decide
      rw [hfeb] at hle
      omega

/-- The day of a year that a date stands on. -/
theorem inYear (h : d.At days era y mp) :
    InYear (yearStart y + (monthStart mp + (d.day - 1))) y := by
  have hstop := h.stop
  have hday := d.one_le_day
  have hle := d.day_le
  have hmono : mp < 11 → monthStart (mp + 1) ≤ monthStart 11 := fun hmp => monthStart_mono hmp
  have hyear := yearStart_succ era y
  refine ⟨Nat.le_add_right _ _, ?_⟩
  split at hstop
  · next hmp =>
      have := hmono hmp
      omega
  · omega

theorem era_nonneg (h : d.At days era y mp) (hdays : 0 ≤ days) : 0 ≤ era := by
  have hcount := h.days
  have hone := d.one_le_day
  have hlt := Nat.lt_of_lt_of_le h.inYear.stop (yearStart_strictMono.monotone (b := 400) h.y_lt)
  have hcycle : yearStart 400 = 146097 := rfl
  omega

end Date.At

/-- Where the date of every day after the epoch is. -/
theorem dateOf_at (day : Nat) : ∃ era y mp, (dateOf day).At (day + 719468) era y mp := by
  induction day with
  | zero => exact ⟨4, 369, 10, by decide, by decide, by decide, by decide, by decide⟩
  | succ day ih =>
      obtain ⟨era, y, mp, h⟩ := ih
      obtain ⟨era', y', mp', h'⟩ := h.next
      refine ⟨era', y', mp', ?_⟩
      have hcast : ((day + 1 : Nat) : Int) + 719468 = day + 719468 + 1 := by omega
      rw [dateOf, hcast]
      exact h'

end Gregorian
