import RustClash.Lib.Checked
import RustClash.Lib.Gregorian

/-!
# The date of expiry

A subscription says when it expires in seconds of Unix time, and `MainView` shows the date of a
time after zero.  `civil_from_unix` counts in `i64`, `u32` and `i32`: a difference below zero, and
a year that has no room, is a `Fault`.
-/

namespace RustClash

open Checked Gregorian

/-- `v as i32`. -/
def asI32 (v : Int) : Int := v.bmod (2 ^ 32)

/-- A sum or a product of `i32`. -/
def i32 (v : Int) : Checked Int := if -2 ^ 31 ≤ v ∧ v < 2 ^ 31 then .ok v else .error .overflow

/-- The year, the month and the day. -/
def civilFromUnix (unix : Int) : Checked (Int × Nat × Nat) := do
  let z := unix / 86400 + 719468
  let era := z / 146097
  let doe := (z % 146097).toNat
  let days ← sub doe (doe / 1460)
  let days ← sub (days + doe / 36524) (doe / 146096)
  let yoe := days / 365
  let cycles ← i32 (asI32 era * 400)
  let y ← i32 (asI32 yoe + cycles)
  let before ← sub (365 * yoe + yoe / 4) (yoe / 100)
  let doy ← sub doe before
  let mp := (5 * doy + 2) / 153
  let d ← sub doy ((153 * mp + 2) / 5)
  let m ← if mp < 10 then pure (mp + 3) else sub mp 9
  let y ← if m ≤ 2 then i32 (y + 1) else pure y
  return (y, m, d + 1)

/-! ## Dates -/

theorem i32_ok {v : Int} (h : 0 ≤ v) (hlt : v < 2 ^ 31) : i32 v = .ok v :=
  if_pos ⟨by omega, hlt⟩

theorem asI32_of_lt {v : Int} (h : 0 ≤ v) (hlt : v < 2 ^ 31) : asI32 v = v := by
  rw [asI32, Int.bmod_def]
  omega

/-- The month whose days a day of a year is among. -/
theorem month_of_doy {mp day : Nat} (h : day < monthStart (mp + 1) - monthStart mp) :
    (5 * (monthStart mp + day) + 2) / 153 = mp := by
  simp only [monthStart] at h ⊢
  omega

/-- What is computed is the date that stands on the day. -/
theorem civilFromUnix_at {unix era : Int} {d : Date} {y mp : Nat}
    (h : d.At (unix / 86400 + 719468) era y mp) (hera : 0 ≤ era) (hyear : d.year < 2 ^ 31) :
    civilFromUnix unix = .ok (d.year, d.month, d.day) := by
  have hin := h.inYear
  have hy := h.y_lt
  have hmp := h.mp_lt
  have hday := d.one_le_day
  obtain ⟨doe, hdoe⟩ : ∃ doe, doe = yearStart y + (monthStart mp + (d.day - 1)) := ⟨_, rfl⟩
  rw [← hdoe] at hin
  have hlt : doe < 146097 :=
    Nat.lt_of_lt_of_le hin.stop (yearStart_strictMono.monotone (b := 400) hy)
  have hz : unix / 86400 + 719468 = era * 146097 + doe := by
    have hdays := h.days
    omega
  have hmod : ((unix / 86400 + 719468) % 146097).toNat = doe := by omega
  have hdiv : (unix / 86400 + 719468) / 146097 = era := by omega
  have hestimate : (doe - doe / 1460 + doe / 36524 - doe / 146096) / 365 = y := hin.estimate hy
  have hstart : yearStart y = 365 * y + y / 4 - y / 100 := by
    simp only [yearStart]
    omega
  have hcentury : y / 100 ≤ 365 * y + y / 4 := by omega
  have hdoy : doe - (365 * y + y / 4 - y / 100) = monthStart mp + (d.day - 1) := by omega
  have hmonth : (5 * (monthStart mp + (d.day - 1)) + 2) / 153 = mp := month_of_doy h.day_lt
  have hmarch : (153 * mp + 2) / 5 = monthStart mp := rfl
  have hyears := h.year
  have hroom : era * 400 + y < 2 ^ 31 := by
    split at hyears <;> omega
  simp only [civilFromUnix, hmod, hdiv]
  rw [sub_ok (Nat.div_le_self _ _), ok_bind, sub_ok (by omega), ok_bind]
  simp only [hestimate]
  rw [asI32_of_lt hera (by omega), i32_ok (by omega) (by omega), ok_bind,
    asI32_of_lt (by omega) (by omega), i32_ok (by omega) (by omega), ok_bind, sub_ok hcentury,
    ok_bind, sub_ok (by rw [← hstart]; exact hin.start), ok_bind]
  simp only [hdoy, hmonth, hmarch]
  rw [sub_ok (Nat.le_add_right _ _), ok_bind, Nat.add_sub_cancel_left, Nat.sub_add_cancel hday]
  have hnumber := h.month
  rw [monthOf] at hnumber
  split at hyears
  · next hlow =>
      rw [if_pos hlow] at hnumber
      rw [if_pos hlow, pure_bind, ← hnumber, if_neg (by omega), pure_bind, hyears,
        Int.add_comm (era * 400)]
      rfl
  · next hlow =>
      rw [if_neg hlow] at hnumber
      rw [if_neg hlow, sub_ok (by omega), ok_bind, ← hnumber, if_pos (by omega),
        i32_ok (by omega) (by omega), ok_bind, hyears]
      have hsum : (y : Int) + era * 400 + 1 = era * 400 + (y + 1 : Nat) := by omega
      rw [hsum]
      rfl

/-- For every time after the epoch whose year has room, the date is that of its day: the first of
January 1970 on the first day, and on every day after it the next date of the calendar. -/
theorem civilFromUnix_eq {unix : Int} (hpos : 0 < unix)
    (hyear : (dateOf (unix / 86400).toNat).year < 2 ^ 31) :
    civilFromUnix unix = .ok ((dateOf (unix / 86400).toNat).year,
      (dateOf (unix / 86400).toNat).month, (dateOf (unix / 86400).toNat).day) := by
  have hday : ((unix / 86400).toNat : Int) = unix / 86400 := by omega
  obtain ⟨era, y, mp, h⟩ := dateOf_at (unix / 86400).toNat
  rw [hday] at h
  exact civilFromUnix_at h (h.era_nonneg (by omega)) hyear

/-- A leap day. -/
theorem civilFromUnix_eq_leap : civilFromUnix 68169605 = .ok (1972, 2, 29) := by
  have hday : dateOf ((68169605 : Int) / 86400).toNat =
      ⟨1972, 2, 29, by decide, by decide, by decide, by decide⟩ := by
    decide +kernel
  have h := civilFromUnix_eq (show (0 : Int) < 68169605 by decide) (by rw [hday]; decide)
  rw [hday] at h
  exact h

end RustClash
