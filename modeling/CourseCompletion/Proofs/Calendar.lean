import CourseCompletion.Calendar
import Mathlib.Tactic.IntervalCases

/-!
# Days and dates

Every day has a date that the calendar has (`Date.exists_ofDayNumber`), and the number of that date
is the day (`Date.dayNumber_ofDayNumber`).

A day of a cycle is written as a century, a period of four years, a year of the period and a day of
the year, which is the last of a leap year at most (`parts_of_day`).
-/

namespace CourseCompletion

namespace Date

/-! ## years of a cycle -/

/-- a day of a cycle: the century, the period in it, the year in the period, and the day -/
theorem parts_of_day {c : Nat} (hc : c < 146097) :
    ∃ h a e d, c = 36524 * h + 1461 * a + 365 * e + d ∧ h ≤ 3 ∧ a ≤ 24 ∧ e ≤ 3 ∧ d ≤ 365 ∧
      (d = 365 → e = 3 ∧ (a ≠ 24 ∨ h = 3)) := by
  obtain ⟨h, r, hr, hh, hle, hlast⟩ :
      ∃ h r, c = 36524 * h + r ∧ h ≤ 3 ∧ r ≤ 36524 ∧ (r = 36524 → h = 3) := by
    by_cases h3 : c / 36524 ≤ 3
    · exact ⟨c / 36524, c % 36524, by omega, h3, by omega, by omega⟩
    · exact ⟨3, c - 36524 * 3, by omega, by omega, by omega, by omega⟩
  obtain ⟨a, t, ht, ha, hlt⟩ : ∃ a t, r = 1461 * a + t ∧ a ≤ 24 ∧ t < 1461 :=
    ⟨r / 1461, r % 1461, by omega, by omega, by omega⟩
  obtain ⟨e, d, hd, he, hdle, hday⟩ :
      ∃ e d, t = 365 * e + d ∧ e ≤ 3 ∧ d ≤ 365 ∧ (d = 365 → e = 3) := by
    by_cases h3 : t / 365 ≤ 3
    · exact ⟨t / 365, t % 365, by omega, h3, by omega, by omega⟩
    · exact ⟨3, t - 365 * 3, by omega, by omega, by omega, by omega⟩
  refine ⟨h, a, e, d, by omega, hh, ha, he, hdle, fun h365 => ⟨hday h365, ?_⟩⟩
  have h3 := hday h365
  omega

/-- the year of a cycle that a day of it lies in, and the day of that year -/
theorem year_of_day {c : Nat} (hc : c < 146097) :
    ∃ y d, (c - c / 1460 + c / 36524 - c / 146096) / 365 = y ∧
      c = 365 * y + y / 4 - y / 100 + d ∧ y < 400 ∧ d ≤ 365 ∧
      (d = 365 → (y + 1) % 4 = 0 ∧ ((y + 1) % 100 ≠ 0 ∨ (y + 1) % 400 = 0)) := by
  obtain ⟨h, a, e, d, rfl, hh, ha, he, hd, hlast⟩ := parts_of_day hc
  have hquarter : (100 * h + 4 * a + e) / 4 = 25 * h + a := by omega
  have hcentury : (100 * h + 4 * a + e) / 100 = h := by omega
  refine ⟨100 * h + 4 * a + e, d, ?_, by omega, by omega, hd, fun h365 => ?_⟩
  · generalize hr : 24 * h + a + 365 * e + d = r
    have hsum : 36524 * h + 1461 * a + 365 * e + d = 1460 * (25 * h + a) + r := by omega
    have hshort : (1460 * (25 * h + a) + r) / 1460 = 25 * h + a + r / 1460 :=
      Nat.mul_add_div (by decide) _ _
    have hlong : (1460 * (25 * h + a) + r) / 36524 =
        h + (1460 * (25 * h + a) + r) / 146096 := by
      have hrest : 1461 * a + 365 * e + d ≤ 36524 := by omega
      have hend : 1461 * a + 365 * e + d = 36524 → h = 3 := by omega
      have hsame : 1460 * (25 * h + a) + r = 36524 * h + (1461 * a + 365 * e + d) := by omega
      rw [hsame]
      generalize 1461 * a + 365 * e + d = rest at hrest hend
      interval_cases h <;> omega
    rw [hsum, hshort, hlong]
    generalize (1460 * (25 * h + a) + r) / 146096 = last
    -- one day is taken off in the last days of a leap year, as for every leap year before
    by_cases hδ : r < 1460
    · rw [Nat.div_eq_of_lt hδ]
      omega
    · have hone : r / 1460 = 1 := by omega
      rw [hone]
      omega
  · obtain ⟨rfl, hlong⟩ := hlast h365
    omega

/-! ## months of a year -/

/-- the month of a day of a year that begins in March -/
theorem month_of_day {d : Nat} (hd : d ≤ 365) :
    (5 * d + 2) / 153 ≤ 11 ∧ daysBefore ((5 * d + 2) / 153) ≤ d := by
  unfold daysBefore
  omega

/-- A day of a year lies in its month, if the last one does, which only leap years have. -/
theorem day_le_daysInMonth {year : Int} {d month : Nat} (hd : d ≤ 365)
    (hlast : d = 365 → isLeapYear year = true)
    (hm : month = (5 * d + 2) / 153) :
    d - daysBefore month + 1 ≤ daysInMonth year (if month < 10 then month + 3 else month - 9) := by
  have hle : month ≤ 11 := by omega
  unfold daysBefore daysInMonth
  by_cases hleap : isLeapYear year = true
  · rw [if_pos hleap]
    interval_cases month <;> simp <;> omega
  · have hd' : d ≠ 365 := fun h => hleap (hlast h)
    rw [if_neg hleap]
    interval_cases month <;> simp <;> omega

/-! ## dates -/

/-- the date in a year that begins in March, counted from cycles -/
def inYear (cycle : Int) (y d : Nat) : Date :=
  let month := (5 * d + 2) / 153
  { year := cycle * 400 + y + (if month < 10 then 0 else 1)
    month := if month < 10 then month + 3 else month - 9
    day := d - daysBefore month + 1 }

/-- where a day lies in its cycle, and the date there -/
theorem ofDayNumber_eq (n : Int) :
    ∃ (cycle : Int) (y d : Nat), ofDayNumber n = inYear cycle y d ∧
      n + 719468 = cycle * 146097 + (365 * y + y / 4 - y / 100 + d : Nat) ∧ y < 400 ∧ d ≤ 365 ∧
      (d = 365 → (y + 1) % 4 = 0 ∧ ((y + 1) % 100 ≠ 0 ∨ (y + 1) % 400 = 0)) := by
  have hc : ((n + 719468) % 146097).toNat < 146097 := by omega
  obtain ⟨y, d, hy, hyd, hlt, hd, hlast⟩ := year_of_day hc
  have hday : ((n + 719468) % 146097).toNat - (365 * y + y / 4 - y / 100) = d := by omega
  refine ⟨(n + 719468) / 146097, y, d, ?_, by omega, hlt, hd, hlast⟩
  unfold ofDayNumber
  simp only [hy, hday]
  rfl

theorem exists_ofDayNumber (n : Int) : (ofDayNumber n).Exists := by
  obtain ⟨cycle, y, d, heq, -, hy, hd, hlast⟩ := ofDayNumber_eq n
  obtain ⟨hmonth, -⟩ := month_of_day hd
  rw [heq]
  refine ⟨?_, ?_, Nat.le_add_left 1 _, day_le_daysInMonth hd (fun h365 => ?_) rfl⟩
  · show 1 ≤ if (5 * d + 2) / 153 < 10 then (5 * d + 2) / 153 + 3 else (5 * d + 2) / 153 - 9
    split <;> omega
  · show (if (5 * d + 2) / 153 < 10 then (5 * d + 2) / 153 + 3 else (5 * d + 2) / 153 - 9) ≤ 12
    split <;> omega
  · obtain ⟨hquarter, hcentury⟩ := hlast h365
    obtain rfl := h365
    show decide (_ % (4 : Int) = 0 ∧ (_ % (100 : Int) ≠ 0 ∨ _ % (400 : Int) = 0)) = true
    rw [decide_eq_true_eq]
    show (cycle * 400 + y + 1) % 4 = 0 ∧
      ((cycle * 400 + y + 1) % 100 ≠ 0 ∨ (cycle * 400 + y + 1) % 400 = 0)
    omega

/-- **The number of the date of a day is the day.** -/
theorem dayNumber_ofDayNumber (n : Int) : (ofDayNumber n).dayNumber = n := by
  obtain ⟨cycle, y, d, heq, hn, hy, hd, -⟩ := ofDayNumber_eq n
  obtain ⟨hmonth, hbefore⟩ := month_of_day hd
  rw [heq]
  unfold dayNumber inYear
  generalize hm : (5 * d + 2) / 153 = m at hmonth hbefore ⊢
  have hindex : ((if m < 10 then m + 3 else m - 9) + 9) % 12 = m := by split <;> omega
  have hyear : (if (if m < 10 then m + 3 else m - 9) ≤ 2 then
      cycle * 400 + (y : Int) + (if m < 10 then 0 else 1) - 1
      else cycle * 400 + y + (if m < 10 then 0 else 1)) = cycle * 400 + y := by
    by_cases h10 : m < 10
    · simp [h10]
    · simp only [h10, if_false]
      rw [if_pos (by omega)]
      omega
  simp only [hindex, hyear]
  omega

/-- The days that instants lie in have years that instants have. -/
theorem year_ofDayNumber {n : Int} (h : -96465292 ≤ n ∧ n ≤ 95026236) :
    -262143 ≤ (ofDayNumber n).year ∧ (ofDayNumber n).year ≤ 262142 := by
  obtain ⟨cycle, y, d, heq, hn, hy, hd, -⟩ := ofDayNumber_eq n
  rw [heq]
  show -262143 ≤ cycle * 400 + y + (if (5 * d + 2) / 153 < 10 then 0 else 1) ∧
    cycle * 400 + y + (if (5 * d + 2) / 153 < 10 then 0 else 1) ≤ 262142
  have hcycle : -656 ≤ cycle ∧ cycle ≤ 655 := by omega
  -- only the first and the last of these cycles have years that instants have not
  obtain rfl | rfl | hinner : cycle = -656 ∨ cycle = 655 ∨ (-655 ≤ cycle ∧ cycle ≤ 654) := by omega
  · split <;> omega
  · split <;> omega
  · split <;> omega

end Date

end CourseCompletion
