import Mathlib.Data.List.TakeWhile
import PuCli.Library.Calendar

namespace PuCli.Serve

-- `std::tm`, as far as a stamp uses it.
structure Tm where
  tmYear : Int
  tmMon : Int
  tmMday : Int
  tmHour : Int
  tmMin : Int
  tmSec : Int
  deriving DecidableEq

-- The days from the first of January of year 1 to the epoch.
def kEpochDays : Int := 719162

def kTicksPerSecond : Int := 1000000000

def gmtime (seconds : Int) : Tm :=
  let date := Calendar.dateOf (seconds / 86400 + kEpochDays)
  let rest := seconds % 86400
  { tmYear := date.year - 1900
    tmMon := date.month
    tmMday := date.day + 1
    tmHour := rest / 3600
    tmMin := rest % 3600 / 60
    tmSec := rest % 60 }

-- Fields out of their range count on into the next larger one.
def timegm (utc : Tm) : Int :=
  let date : Calendar.Date :=
    ⟨utc.tmYear + 1900 + utc.tmMon / 12,(utc.tmMon % 12).toNat,utc.tmMday - 1⟩
  let days := Calendar.daysOf date - kEpochDays
  ((days * 24 + utc.tmHour) * 60 + utc.tmMin) * 60 + utc.tmSec

def paddedDigits (n : Nat) : List Char := if n < 10 then '0' :: Nat.toDigits 10 n else Nat.toDigits 10 n

def yearDigits (year : Int) : List Char :=
  if year < 0 then '-' :: Nat.toDigits 10 year.natAbs else Nat.toDigits 10 year.natAbs

-- `strftime` with the one format that is used.
def strftime (utc : Tm) : List Char :=
  yearDigits (utc.tmYear + 1900) ++ '-' :: (paddedDigits (utc.tmMon + 1).toNat ++
    '-' :: (paddedDigits utc.tmMday.toNat ++ 'T' :: (paddedDigits utc.tmHour.toNat ++
      ':' :: (paddedDigits utc.tmMin.toNat ++ ':' :: (paddedDigits utc.tmSec.toNat ++ ['Z'])))))

def isSpace (c : Char) : Bool := c = ' ' ∨ (9 ≤ c.toNat ∧ c.toNat ≤ 13)

-- `%4d` and `%2d` of `sscanf`.
def scanInt (width : Nat) (text : List Char) : Option (Int × List Char) :=
  let text := text.dropWhile isSpace
  let signed := text.head? = some '-' ∨ text.head? = some '+'
  let body := if signed then text.tail else text
  let digits := (body.take (if signed then width - 1 else width)).takeWhile Char.isDigit
  if digits = [] then none
  else
    let number : Int := Nat.ofDigitChars 10 digits 0
    some (if text.head? = some '-' then -number else number,body.drop digits.length)

def scanChar (c : Char) : List Char → Option (List Char)
  | [] => none
  | d :: rest => if d = c then some rest else none

def scanStamp (text : List Char) : Option Tm := do
  let (year,text) ← scanInt 4 text
  let text ← scanChar '-' text
  let (month,text) ← scanInt 2 text
  let text ← scanChar '-' text
  let (day,text) ← scanInt 2 text
  let text ← scanChar 'T' text
  let (hour,text) ← scanInt 2 text
  let text ← scanChar ':' text
  let (minute,text) ← scanInt 2 text
  let text ← scanChar ':' text
  let (second,_) ← scanInt 2 text
  some ⟨year - 1900,month - 1,day,hour,minute,second⟩

-- A time point is a count of nanoseconds; `to_time_t` cuts it towards zero.
def toTimeT (time : Int64) : Int := time.toInt.tdiv kTicksPerSecond

-- Seconds in the clock's ticks: `from_time_t`, and a span on its way into a sum with a time point.
def ticksOf (seconds : Int) : Int64 := Int64.ofInt seconds * Int64.ofInt kTicksPerSecond

def stamp (time : Int64) : String := String.ofList (strftime (gmtime (toTimeT time)))

def parseStamp (text : String) : Option Int64 :=
  (scanStamp (text.toList.takeWhile (fun c => c.toNat ≠ 0))).map (fun utc => ticksOf (timegm utc))

def ageSeconds (stamp now : String) : Int :=
  match parseStamp stamp, parseStamp now with
  | some past, some current => (current - past).toInt.tdiv kTicksPerSecond
  | _, _ => 0

variable {seconds year : Int} {n width : Nat} {c : Char} {digits rest : List Char}

theorem gmtime_date (seconds : Int) : Calendar.Date.mk
    ((gmtime seconds).tmYear + 1900 + (gmtime seconds).tmMon / 12)
    ((gmtime seconds).tmMon % 12).toNat ((gmtime seconds).tmMday - 1) =
      Calendar.dateOf (seconds / 86400 + kEpochDays) := by
  have hmonth := Calendar.month_lt (seconds / 86400 + kEpochDays)
  unfold gmtime
  generalize Calendar.dateOf (seconds / 86400 + kEpochDays) = date at hmonth ⊢
  obtain ⟨year,month,day⟩ := date
  dsimp only at hmonth ⊢
  rw [Calendar.Date.mk.injEq]
  refine ⟨?_,?_,?_⟩ <;> omega

theorem timegm_gmtime (seconds : Int) : timegm (gmtime seconds) = seconds := by
  rw [timegm,gmtime_date,Calendar.daysOf_dateOf]
  simp only [gmtime]
  omega

theorem ofDigitChars_padded (n : Nat) : Nat.ofDigitChars 10 (paddedDigits n) 0 = n := by
  unfold paddedDigits
  split
  · rw [Nat.ofDigitChars_cons]
    exact Nat.ofDigitChars_ten_toDigits
  · exact Nat.ofDigitChars_ten_toDigits

theorem isDigit_padded (hc : c ∈ paddedDigits n) : c.isDigit = true := by
  have hdigits : c ∈ Nat.toDigits 10 n → c.isDigit = true :=
    Nat.isDigit_of_mem_toDigits (by decide) (by decide)
  unfold paddedDigits at hc
  split at hc
  · rcases List.mem_cons.mp hc with rfl | hc
    · decide
    · exact hdigits hc
  · exact hdigits hc

theorem padded_ne_nil (n : Nat) : paddedDigits n ≠ [] := by
  unfold paddedDigits
  split
  · exact List.cons_ne_nil _ _
  · exact Nat.toDigits_ne_nil

theorem length_padded (h : n < 100) : (paddedDigits n).length ≤ 2 := by
  unfold paddedDigits
  split
  · next hsmall =>
      have hone := (Nat.length_toDigits_le_iff (by decide) (by decide)).mpr
        (show n < 10 ^ 1 by omega)
      rw [List.length_cons]
      omega
  · exact (Nat.length_toDigits_le_iff (by decide) (by decide)).mpr (show n < 10 ^ 2 by omega)

theorem isDigit_plain (h : c.isDigit = true) : isSpace c = false ∧ c ≠ '-' ∧ c ≠ '+' := by
  have hc : 48 ≤ c.toNat := by
    simp only [Char.isDigit,Bool.and_eq_true,decide_eq_true_eq,UInt32.le_iff_toNat_le] at h
    exact h.1
  refine ⟨?_,?_,?_⟩
  · refine decide_eq_false ?_
    rintro (rfl | ⟨-,hle⟩)
    · exact absurd hc (by decide)
    · omega
  · rintro rfl
    exact absurd hc (by decide)
  · rintro rfl
    exact absurd hc (by decide)

theorem takeWhile_digits (hd : ∀ d ∈ digits, d.isDigit = true) (hc : c.isDigit = false)
    (hw : digits.length ≤ width) (rest : List Char) :
    ((digits ++ c :: rest).take width).takeWhile Char.isDigit = digits := by
  rw [List.take_append,List.take_of_length_le hw,List.takeWhile_append_of_pos hd]
  cases width - digits.length with
  | zero => exact List.append_nil digits
  | succ k =>
      rw [List.take_succ_cons,List.takeWhile_cons_of_neg (by simp [hc]),List.append_nil]

theorem scanInt_digits (hne : digits ≠ []) (hd : ∀ d ∈ digits, d.isDigit = true)
    (hc : c.isDigit = false) (hw : digits.length ≤ width) (rest : List Char) :
    scanInt width (digits ++ c :: rest) =
      some ((Nat.ofDigitChars 10 digits 0 : Int),c :: rest) := by
  obtain ⟨d,later,rfl⟩ := List.exists_cons_of_ne_nil hne
  obtain ⟨hspace,hminus,hplus⟩ := isDigit_plain (hd d List.mem_cons_self)
  have htext : ((d :: later) ++ c :: rest).dropWhile isSpace = (d :: later) ++ c :: rest := by
    rw [List.cons_append,List.dropWhile_cons_of_neg (by simp [hspace])]
  have hhead : ((d :: later) ++ c :: rest).head? = some d := rfl
  unfold scanInt
  simp only [htext,hhead,Option.some.injEq,hminus,hplus,or_self,if_false]
  rw [takeWhile_digits hd hc hw,if_neg (List.cons_ne_nil d later),List.drop_left]

theorem scanInt_padded (h : n < 100) (hc : c.isDigit = false) (rest : List Char) :
    scanInt 2 (paddedDigits n ++ c :: rest) = some ((n : Int),c :: rest) := by
  rw [scanInt_digits (padded_ne_nil n) (fun _ hd => isDigit_padded hd) hc (length_padded h),
    ofDigitChars_padded]

theorem yearDigits_of_nonneg (h : 0 ≤ year) : yearDigits year = Nat.toDigits 10 year.natAbs :=
  if_neg (Int.not_lt.mpr h)

theorem scanInt_year (hlow : 0 ≤ year) (hhigh : year < 10000) (hc : c.isDigit = false)
    (rest : List Char) : scanInt 4 (yearDigits year ++ c :: rest) = some (year,c :: rest) := by
  have hshort : (Nat.toDigits 10 year.natAbs).length ≤ 4 :=
    (Nat.length_toDigits_le_iff (by decide) (by decide)).mpr (show year.natAbs < 10 ^ 4 by omega)
  rw [yearDigits_of_nonneg hlow,
    scanInt_digits Nat.toDigits_ne_nil
      (fun _ hd => Nat.isDigit_of_mem_toDigits (by decide) (by decide) hd) hc hshort,
    Nat.ofDigitChars_ten_toDigits,Int.natAbs_of_nonneg hlow]

theorem scanChar_cons (c : Char) (rest : List Char) : scanChar c (c :: rest) = some rest :=
  if_pos rfl

structure Printable (utc : Tm) : Prop where
  year : 0 ≤ utc.tmYear + 1900 ∧ utc.tmYear + 1900 < 10000
  month : 0 ≤ utc.tmMon + 1 ∧ utc.tmMon + 1 < 100
  day : 0 ≤ utc.tmMday ∧ utc.tmMday < 100
  hour : 0 ≤ utc.tmHour ∧ utc.tmHour < 100
  minute : 0 ≤ utc.tmMin ∧ utc.tmMin < 100
  second : 0 ≤ utc.tmSec ∧ utc.tmSec < 100

variable {utc : Tm}

theorem scanStamp_strftime (h : Printable utc) : scanStamp (strftime utc) = some utc := by
  obtain ⟨year,month,day,hour,minute,second⟩ := utc
  obtain ⟨⟨hy,hy'⟩,⟨hm,hm'⟩,⟨hd,hd'⟩,⟨hh,hh'⟩,⟨hn,hn'⟩,⟨hs,hs'⟩⟩ := h
  dsimp only at *
  unfold scanStamp strftime
  dsimp only
  rw [scanInt_year hy hy' (by decide)]
  simp only [Option.bind_eq_bind,Option.bind_some,scanChar_cons]
  rw [scanInt_padded (by omega) (by decide)]
  simp only [Option.bind_some,scanChar_cons]
  rw [scanInt_padded (by omega) (by decide)]
  simp only [Option.bind_some,scanChar_cons]
  rw [scanInt_padded (by omega) (by decide)]
  simp only [Option.bind_some,scanChar_cons]
  rw [scanInt_padded (by omega) (by decide)]
  simp only [Option.bind_some,scanChar_cons]
  rw [scanInt_padded (by omega) (by decide)]
  simp only [Option.bind_some,Option.some.injEq,Tm.mk.injEq]
  refine ⟨?_,?_,?_,?_,?_,?_⟩ <;> omega

theorem toNat_ne_zero_of_isDigit (h : c.isDigit = true) : c.toNat ≠ 0 := by
  intro hzero
  have hc : c = Char.ofNat 0 := by rw [← hzero,Char.ofNat_toNat]
  rw [hc] at h
  exact absurd h (by decide)

theorem strftime_no_nul (h : 0 ≤ utc.tmYear + 1900) : ∀ c ∈ strftime utc, c.toNat ≠ 0 := by
  have hpadded (n : Nat) : ∀ c ∈ paddedDigits n, c.toNat ≠ 0 := fun c hc =>
    toNat_ne_zero_of_isDigit (isDigit_padded hc)
  have hyear : ∀ c ∈ yearDigits (utc.tmYear + 1900), c.toNat ≠ 0 := by
    rw [yearDigits_of_nonneg h]
    exact fun c hc => toNat_ne_zero_of_isDigit
      (Nat.isDigit_of_mem_toDigits (by decide) (by decide) hc)
  unfold strftime
  simp only [List.forall_mem_append,List.forall_mem_cons]
  exact ⟨hyear,by decide,hpadded _,by decide,hpadded _,by decide,hpadded _,by decide,hpadded _,
    by decide,hpadded _,by decide,List.forall_mem_nil _⟩

-- The seconds a clock of 64-bit nanoseconds can show.
def Shown (seconds : Int) : Prop := -9223372036 ≤ seconds ∧ seconds ≤ 9223372036

theorem tdiv_cases (ticks : Int) :
    (0 ≤ ticks ∧ ticks.tdiv kTicksPerSecond = ticks / 1000000000) ∨
      (ticks < 0 ∧ ticks.tdiv kTicksPerSecond = -(-ticks / 1000000000)) := by
  by_cases h : 0 ≤ ticks
  · exact .inl ⟨h,Int.tdiv_eq_ediv_of_nonneg h⟩
  · refine .inr ⟨Int.not_le.mp h,?_⟩
    have hback : ticks.tdiv kTicksPerSecond = -(-ticks).tdiv kTicksPerSecond := by
      rw [Int.neg_tdiv,Int.neg_neg]
    rw [hback,Int.tdiv_eq_ediv_of_nonneg (by omega)]
    rfl

theorem shown_toTimeT (time : Int64) : Shown (toTimeT time) := by
  have hlow := Int64.le_toInt time
  have hhigh := Int64.toInt_lt time
  unfold Shown toTimeT
  rcases tdiv_cases time.toInt with ⟨hsign,heq⟩ | ⟨hsign,heq⟩ <;> rw [heq] <;> omega

theorem printable_gmtime (h : Shown seconds) : Printable (gmtime seconds) := by
  obtain ⟨hlow,hhigh⟩ := h
  have hmonth := Calendar.month_lt (seconds / 86400 + kEpochDays)
  have hday := Calendar.day_bounds (seconds / 86400 + kEpochDays)
  have hyear : 1600 ≤ (Calendar.dateOf (seconds / 86400 + kEpochDays)).year ∧
      (Calendar.dateOf (seconds / 86400 + kEpochDays)).year ≤ 2400 := by
    refine Calendar.year_bounds ?_ ?_
    · simp only [Calendar.daysBeforeYear,kEpochDays]
      omega
    · simp only [Calendar.daysBeforeYear,kEpochDays]
      omega
  constructor <;> simp only [gmtime] <;> omega

theorem toInt_ticksOf (h : Shown seconds) :
    (ticksOf seconds).toInt = seconds * kTicksPerSecond := by
  obtain ⟨hlow,hhigh⟩ := h
  have hsmall : (Int64.ofInt seconds).toInt = seconds :=
    Int64.toInt_ofInt_of_le (by omega) (by omega)
  have hticks : (Int64.ofInt kTicksPerSecond).toInt = kTicksPerSecond :=
    Int64.toInt_ofInt_of_le (by decide) (by decide)
  rw [ticksOf,Int64.toInt_mul,hsmall,hticks]
  unfold kTicksPerSecond
  exact Int.bmod_eq_of_le (by omega) (by omega)

theorem parseStamp_stamp (time : Int64) :
    parseStamp (stamp time) = some (ticksOf (toTimeT time)) := by
  have hprint := printable_gmtime (shown_toTimeT time)
  have hwhole : (strftime (gmtime (toTimeT time))).takeWhile (fun c => c.toNat ≠ 0) =
      strftime (gmtime (toTimeT time)) := by
    refine List.takeWhile_eq_self_iff.mpr ?_
    intro c hc
    exact decide_eq_true (strftime_no_nul hprint.year.1 c hc)
  rw [parseStamp,stamp,String.toList_ofList,hwhole,scanStamp_strftime hprint,Option.map_some,timegm_gmtime]

end PuCli.Serve
