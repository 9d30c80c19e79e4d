import Mathlib.Data.List.Basic
import Mathlib.Tactic.Common

-- The proleptic Gregorian calendar, its days counted from the first of January of year 1.
namespace Calendar

def IsLeap (year : Int) : Prop := year % 4 = 0 ∧ (year % 100 ≠ 0 ∨ year % 400 = 0)

instance (year : Int) : Decidable (IsLeap year) := inferInstanceAs (Decidable (_ ∧ _))

def yearLength (year : Int) : Int := if IsLeap year then 366 else 365

def monthLengths (year : Int) : List Int :=
  [31,if IsLeap year then 29 else 28,31,30,31,30,31,31,30,31,30,31]

def daysBeforeYear (year : Int) : Int :=
  365 * (year - 1) + (year - 1) / 4 - (year - 1) / 100 + (year - 1) / 400

-- The last year that begins no later than the day.
def yearOf (days : Int) : Int :=
  let near := days * 400 / 146097
  if days < daysBeforeYear (near + 1) then near
  else if days < daysBeforeYear (near + 2) then near + 1
  else near + 2

def before : List Int → Nat → Int
  | [], _ => 0
  | _ :: _, 0 => 0
  | length :: later, index + 1 => length + before later index

def total : List Int → Int
  | [] => 0
  | length :: later => length + total later

-- The part of a row of lengths that a day falls into, and the day within it.
def place : List Int → Int → Nat × Int
  | [], day => (0,day)
  | length :: later, day =>
      if day < length then (0,day)
      else ((place later (day - length)).1 + 1,(place later (day - length)).2)

variable {days year day : Int} {lengths : List Int}

theorem daysBeforeYear_succ (year : Int) :
    daysBeforeYear (year + 1) = daysBeforeYear year + yearLength year := by
  unfold daysBeforeYear yearLength
  by_cases h : IsLeap year
  · rw [if_pos h]
    unfold IsLeap at h
    omega
  · rw [if_neg h]
    unfold IsLeap at h
    omega

theorem total_monthLengths (year : Int) : total (monthLengths year) = yearLength year := by
  unfold yearLength monthLengths
  split <;> rfl

theorem yearOf_spec (days : Int) :
    daysBeforeYear (yearOf days) ≤ days ∧ days < daysBeforeYear (yearOf days + 1) := by
  have hlow : daysBeforeYear (days * 400 / 146097) ≤ days := by
    unfold daysBeforeYear
    omega
  have hhigh : days < daysBeforeYear (days * 400 / 146097 + 2 + 1) := by
    unfold daysBeforeYear
    omega
  have htwo : days * 400 / 146097 + 1 + 1 = days * 400 / 146097 + 2 := by omega
  unfold yearOf
  dsimp only
  split
  · next hfirst => exact ⟨hlow,hfirst⟩
  · next hfirst =>
      split
      · next hsecond => exact ⟨Int.not_lt.mp hfirst,htwo ▸ hsecond⟩
      · next hsecond => exact ⟨Int.not_lt.mp hsecond,hhigh⟩

theorem place_spec (hlow : 0 ≤ day) (hhigh : day < total lengths) :
    ∃ h : (place lengths day).1 < lengths.length, 0 ≤ (place lengths day).2 ∧
      (place lengths day).2 < lengths[(place lengths day).1] ∧
      day = before lengths (place lengths day).1 + (place lengths day).2 := by
  induction lengths generalizing day with
  | nil => exact absurd (Int.lt_of_le_of_lt hlow hhigh) (by decide)
  | cons length later ih =>
      by_cases hin : day < length
      · have hplace : place (length :: later) day = (0,day) := by rw [place,if_pos hin]
        simp only [hplace]
        exact ⟨Nat.zero_lt_succ _,hlow,hin,(Int.zero_add day).symm⟩
      · have hplace : place (length :: later) day =
            ((place later (day - length)).1 + 1,(place later (day - length)).2) := by
          rw [place,if_neg hin]
        have hrest : day - length < total later := by
          rw [total] at hhigh
          omega
        have hbehind : 0 ≤ day - length := by omega
        obtain ⟨hlt,hnonneg,hshort,heq⟩ := ih hbehind hrest
        simp only [hplace]
        refine ⟨Nat.succ_lt_succ hlt,hnonneg,hshort,?_⟩
        rw [before]
        omega

structure Date where
  year : Int
  month : Nat
  day : Int
  deriving DecidableEq

def dateOf (days : Int) : Date :=
  let year := yearOf days
  let placed := place (monthLengths year) (days - daysBeforeYear year)
  ⟨year,placed.1,placed.2⟩

def daysOf (date : Date) : Int :=
  daysBeforeYear date.year + before (monthLengths date.year) date.month + date.day

theorem dateOf_place (days : Int) : ∃ h : (dateOf days).month < (monthLengths (dateOf days).year).length,
    0 ≤ (dateOf days).day ∧ (dateOf days).day < (monthLengths (dateOf days).year)[(dateOf days).month] ∧
      days - daysBeforeYear (dateOf days).year =
        before (monthLengths (dateOf days).year) (dateOf days).month + (dateOf days).day := by
  obtain ⟨hlow,hhigh⟩ := yearOf_spec days
  have hwithin : days - daysBeforeYear (yearOf days) < total (monthLengths (yearOf days)) := by
    rw [total_monthLengths]
    rw [daysBeforeYear_succ] at hhigh
    omega
  exact place_spec (by omega) hwithin

theorem daysOf_dateOf (days : Int) : daysOf (dateOf days) = days := by
  obtain ⟨-,-,-,heq⟩ := dateOf_place days
  rw [daysOf]
  omega

theorem month_lt (days : Int) : (dateOf days).month < 12 := (dateOf_place days).1

theorem monthLengths_le : ∀ length ∈ monthLengths year, length ≤ 31 := by
  unfold monthLengths
  split <;> simp

theorem day_bounds (days : Int) : 0 ≤ (dateOf days).day ∧ (dateOf days).day < 31 := by
  obtain ⟨hlt,hnonneg,hshort,-⟩ := dateOf_place days
  have hlength := monthLengths_le _ (List.getElem_mem hlt)
  exact ⟨hnonneg,by omega⟩

theorem year_bounds {low high : Int} (hlow : daysBeforeYear low ≤ days)
    (hhigh : days < daysBeforeYear (high + 1)) :
    low ≤ (dateOf days).year ∧ (dateOf days).year ≤ high := by
  obtain ⟨hbegun,hnext⟩ := yearOf_spec days
  have hyear : (dateOf days).year = yearOf days := rfl
  rw [hyear]
  unfold daysBeforeYear at hlow hhigh hbegun hnext
  omega

end Calendar
