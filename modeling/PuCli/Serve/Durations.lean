import PuCli.Serve.Board
import PuCli.Serve.Stamp

namespace PuCli.Serve

def kMaxTicks : Int := 9223372036854775807

-- A positive count in decimal digits, and behind it one of the four units.
def IsDuration (text : String) (n : Nat) (scale : Int) : Prop :=
  ∃ digits unit, text.toList = digits ++ unit ∧ digits ≠ [] ∧ (∀ c ∈ digits, c.isDigit = true) ∧
    Nat.ofDigitChars 10 digits 0 = n ∧ 0 < n ∧ unitScale unit = some scale

-- `Board::Post` reads the clock for its stamps and once more for the deadline.
def deadline (now : Int64) (span : Int) : Int64 := now + ticksOf span

def clockTick (posted now : Int64) (newId : String) : Tick :=
  ⟨stamp posted,newId,fun span => stamp (deadline now span)⟩

-- The deadline without any bound on its ticks.
def dueTicks (now : Int64) (n : Nat) (scale : Int) : Int := now.toInt + n * scale * kTicksPerSecond

structure ExactDue (now later : Int64) (n : Nat) (scale span : Int) : Prop where
  product : span = n * scale
  ticks : (ticksOf span).toInt = n * scale * kTicksPerSecond
  due : (deadline now span).toInt = dueTicks now n scale
  parsed : ∃ time, parseStamp (stamp (deadline now span)) = some time ∧
    time.toInt = (dueTicks now n scale).tdiv kTicksPerSecond * kTicksPerSecond
  age : ageSeconds (stamp (deadline now span)) (stamp later) =
    toTimeT later - (dueTicks now n scale).tdiv kTicksPerSecond

structure ExactDuration (text : String) (now later : Int64) : Prop where
  accepted : (∃ span, parseDuration text = some span) ↔ ∃ n scale, IsDuration text n scale
  due : ∀ n scale span, IsDuration text n scale → parseDuration text = some span →
    ExactDue now later n scale span

-- The ticks that the age of the deadline is a difference of.
def ageTicks (now later : Int64) (n : Nat) (scale : Int) : Int :=
  (toTimeT later - (dueTicks now n scale).tdiv kTicksPerSecond) * kTicksPerSecond

structure FitsTicks (now later : Int64) (n : Nat) (scale : Int) : Prop where
  span : n * scale * kTicksPerSecond ≤ kMaxTicks
  deadline : dueTicks now n scale ≤ kMaxTicks
  age : -kMaxTicks ≤ ageTicks now later n scale ∧ ageTicks now later n scale ≤ kMaxTicks

variable {text : String} {n : Nat} {scale span : Int} {now later posted : Int64}
  {digits unit : List Char}

theorem unitScale_cases (h : unitScale unit = some scale) :
    (∃ c, unit = [c] ∧ c.isDigit = false) ∧
      (scale = 1 ∨ scale = 60 ∨ scale = 3600 ∨ scale = 86400) := by
  unfold unitScale at h
  split at h
  · next hs => exact ⟨⟨'s',hs,by decide⟩,.inl (Option.some.inj h).symm⟩
  · split at h
    · next hm => exact ⟨⟨'m',hm,by decide⟩,.inr (.inl (Option.some.inj h).symm)⟩
    · split at h
      · next hh => exact ⟨⟨'h',hh,by decide⟩,.inr (.inr (.inl (Option.some.inj h).symm))⟩
      · split at h
        · next hd => exact ⟨⟨'d',hd,by decide⟩,.inr (.inr (.inr (Option.some.inj h).symm))⟩
        · cases h

theorem count_eq (digits : List Char) :
    digits.foldl (fun n c => n * 10 + (c.toNat - '0'.toNat)) 0 = Nat.ofDigitChars 10 digits 0 := by
  rw [Nat.ofDigitChars_eq_foldl]
  congr 1
  funext n c
  rw [Nat.mul_comm]

theorem parseDuration_of_isDuration (h : IsDuration text n scale) :
    parseDuration text = if 2 ^ 63 ≤ n then none else some (Int.bmod (n * scale) (2 ^ 64)) := by
  obtain ⟨digits,unit,htext,hne,hdigits,rfl,hpos,hunit⟩ := h
  obtain ⟨⟨c,rfl,hc⟩,-⟩ := unitScale_cases hunit
  have htake : text.toList.takeWhile Char.isDigit = digits := by
    rw [htext,List.takeWhile_append_of_pos hdigits,List.takeWhile_cons_of_neg (by simp [hc]),
      List.append_nil]
  have hdrop : text.toList.dropWhile Char.isDigit = [c] := by
    rw [htext,List.dropWhile_append_of_pos hdigits,List.dropWhile_cons_of_neg (by simp [hc])]
  rw [parseDuration,htake,hdrop,count_eq,hunit]
  have hzero : Nat.ofDigitChars 10 digits 0 ≠ 0 := Nat.pos_iff_ne_zero.mp hpos
  simp only [hne,hzero,false_or,or_false,Option.map_some]

theorem isDuration_of_parseDuration (h : parseDuration text = some span) :
    ∃ n scale, IsDuration text n scale := by
  unfold parseDuration at h
  dsimp only at h
  split at h
  · cases h
  · next hcount =>
      simp only [not_or,count_eq] at hcount
      obtain ⟨scale,hunit,-⟩ := Option.map_eq_some_iff.mp h
      refine ⟨_,scale,text.toList.takeWhile Char.isDigit,text.toList.dropWhile Char.isDigit,
        List.takeWhile_append_dropWhile.symm,hcount.1,?_,rfl,Nat.pos_iff_ne_zero.mpr hcount.2.2,hunit⟩
      exact fun c hc => List.mem_takeWhile_imp hc

theorem toInt_ticksOf_bmod (seconds : Int) :
    (ticksOf seconds).toInt = (seconds * kTicksPerSecond).bmod (2 ^ 64) := by
  have hticks : (Int64.ofInt kTicksPerSecond).toInt = kTicksPerSecond :=
    Int64.toInt_ofInt_of_le (by decide) (by decide)
  have hseconds : (Int64.ofInt seconds).toInt = seconds.bmod (2 ^ 64) := Int64.toInt_ofInt
  rw [ticksOf,Int64.toInt_mul,hticks,hseconds,Int.bmod_mul_bmod]

theorem toInt_deadline_bmod (now : Int64) (span : Int) :
    (deadline now span).toInt = (now.toInt + span * kTicksPerSecond).bmod (2 ^ 64) := by
  rw [deadline,Int64.toInt_add,toInt_ticksOf_bmod,Int.add_bmod_bmod]

theorem ageSeconds_stamps (past current : Int64) : ageSeconds (stamp past) (stamp current) =
    (((toTimeT current - toTimeT past) * kTicksPerSecond).bmod (2 ^ 64)).tdiv kTicksPerSecond := by
  rw [ageSeconds,parseStamp_stamp,parseStamp_stamp]
  dsimp only
  rw [Int64.toInt_sub,toInt_ticksOf (shown_toTimeT current),toInt_ticksOf (shown_toTimeT past),
    ← Int.sub_mul]

theorem bmod_eq_iff_fits {ticks : Int} :
    ticks.bmod (2 ^ 64) = ticks ↔ -9223372036854775808 ≤ ticks ∧ ticks ≤ kMaxTicks := by
  unfold kMaxTicks
  constructor
  · intro h
    have hlow : -(2 ^ 64 : Nat) / 2 ≤ ticks := h ▸ Int.le_bmod (by decide)
    have hhigh : ticks < ((2 ^ 64 : Nat) + 1) / 2 := h ▸ Int.bmod_lt (by decide)
    omega
  · rintro ⟨hlow,hhigh⟩
    exact Int.bmod_eq_of_le (by omega) (by omega)

theorem seconds_exact_iff {seconds : Int} :
    ((seconds * kTicksPerSecond).bmod (2 ^ 64)).tdiv kTicksPerSecond = seconds ↔
      -kMaxTicks ≤ seconds * kTicksPerSecond ∧ seconds * kTicksPerSecond ≤ kMaxTicks := by
  constructor
  · intro h
    have hlow : -(2 ^ 64 : Nat) / 2 ≤ (seconds * kTicksPerSecond).bmod (2 ^ 64) :=
      Int.le_bmod (by decide)
    have hhigh : (seconds * kTicksPerSecond).bmod (2 ^ 64) < ((2 ^ 64 : Nat) + 1) / 2 :=
      Int.bmod_lt (by decide)
    generalize (seconds * kTicksPerSecond).bmod (2 ^ 64) = wrapped at h hlow hhigh
    unfold kMaxTicks
    rcases tdiv_cases wrapped with ⟨hsign,heq⟩ | ⟨hsign,heq⟩ <;>
      rw [heq] at h <;> simp only [kTicksPerSecond] <;> omega
  · rintro ⟨hlow,hhigh⟩
    have hsame := bmod_eq_iff_fits.mpr ⟨show -9223372036854775808 ≤ seconds * kTicksPerSecond by
      unfold kMaxTicks at hlow
      omega,hhigh⟩
    rw [hsame]
    exact Int.mul_tdiv_cancel seconds (by decide)

theorem fits_of_exact (h : ExactDue now later n scale span) :
    FitsTicks now later n scale := by
  have hspan := Int64.toInt_lt (ticksOf span)
  have hdue := Int64.toInt_lt (deadline now span)
  rw [h.ticks] at hspan
  rw [h.due] at hdue
  have hsecond : toTimeT (deadline now span) = (dueTicks now n scale).tdiv kTicksPerSecond := by
    rw [toTimeT,h.due]
  have hage := h.age
  rw [ageSeconds_stamps,hsecond] at hage
  exact ⟨by unfold kMaxTicks; omega,by unfold kMaxTicks; omega,seconds_exact_iff.mp hage⟩

theorem le_product (hd : IsDuration text n scale) : 1 ≤ (n : Int) * scale ∧ (n : Int) ≤ n * scale := by
  obtain ⟨digits,unit,-,-,-,-,hpos,hunit⟩ := hd
  rcases (unitScale_cases hunit).2 with rfl | rfl | rfl | rfl <;> omega

theorem parseDuration_of_fits (hd : IsDuration text n scale) (h : n * scale * kTicksPerSecond ≤ kMaxTicks) :
    parseDuration text = some (n * scale) := by
  obtain ⟨hone,hn⟩ := le_product hd
  have hsmall : (n : Int) * scale ≤ kMaxTicks := by
    unfold kMaxTicks kTicksPerSecond at *
    omega
  have hsame : ((n : Int) * scale).bmod (2 ^ 64) = n * scale :=
    bmod_eq_iff_fits.mpr ⟨by omega,hsmall⟩
  have hcount : ¬ 2 ^ 63 ≤ n := by
    unfold kMaxTicks at hsmall
    omega
  rw [parseDuration_of_isDuration hd,if_neg hcount,hsame]

theorem exact_of_fits (hd : IsDuration text n scale) (h : FitsTicks now later n scale)
    (hp : parseDuration text = some span) : ExactDue now later n scale span := by
  obtain ⟨hone,-⟩ := le_product hd
  rw [parseDuration_of_fits hd h.span] at hp
  obtain rfl := Option.some.inj hp
  have hnonneg : 0 ≤ n * scale * kTicksPerSecond := by
    unfold kTicksPerSecond
    omega
  have hticks : (ticksOf (n * scale)).toInt = n * scale * kTicksPerSecond := by
    rw [toInt_ticksOf_bmod]
    exact bmod_eq_iff_fits.mpr ⟨by omega,h.span⟩
  have hdue : (deadline now (n * scale)).toInt = dueTicks now n scale := by
    have hnow := Int64.le_toInt now
    have hmax := h.deadline
    unfold dueTicks at hmax ⊢
    rw [toInt_deadline_bmod]
    exact bmod_eq_iff_fits.mpr ⟨by omega,hmax⟩
  have hsecond : toTimeT (deadline now (n * scale)) =
      (dueTicks now n scale).tdiv kTicksPerSecond := by rw [toTimeT,hdue]
  refine ⟨rfl,hticks,hdue,⟨_,parseStamp_stamp _,?_⟩,?_⟩
  · rw [toInt_ticksOf (shown_toTimeT _),hsecond]
  · rw [ageSeconds_stamps,hsecond]
    exact seconds_exact_iff.mpr h.age

theorem exactDuration_iff (text : String) (now later : Int64) : ExactDuration text now later ↔
    ∀ n scale, IsDuration text n scale → FitsTicks now later n scale := by
  constructor
  · intro h n scale hd
    obtain ⟨span,hp⟩ := h.accepted.mpr ⟨n,scale,hd⟩
    exact fits_of_exact (h.due n scale span hd hp)
  · intro h
    refine ⟨⟨fun ⟨span,hp⟩ => isDuration_of_parseDuration hp,?_⟩,
      fun n scale span hd hp => exact_of_fits hd (h n scale hd) hp⟩
    rintro ⟨n,scale,hd⟩
    exact ⟨_,parseDuration_of_fits hd (h n scale hd).span⟩

def longDuration : String := "9223372036854775807d"

theorem long_duration_wraps : IsDuration longDuration 9223372036854775807 86400 ∧
    parseDuration longDuration = some (-86400) ∧ ¬ ExactDuration longDuration 0 0 := by
  have hd : IsDuration longDuration 9223372036854775807 86400 :=
    ⟨"9223372036854775807".toList,['d'],by decide,by decide,List.all_eq_true.mp (by decide),by decide,
      by decide,by decide⟩
  have hp : parseDuration longDuration = some (-86400) := by decide
  refine ⟨hd,hp,?_⟩
  intro h
  have hproduct := (h.due _ _ _ hd hp).product
  exact absurd hproduct (by decide)

-- On a clock past the epoch the deadline alone decides.
theorem fitsTicks_iff_of_epoch (hd : IsDuration text n scale) (hnow : 0 ≤ now.toInt)
    (hlater : 0 ≤ later.toInt) : FitsTicks now later n scale ↔ dueTicks now n scale ≤ kMaxTicks := by
  refine ⟨FitsTicks.deadline,?_⟩
  intro hmax
  obtain ⟨hone,-⟩ := le_product hd
  have hspan : n * scale * kTicksPerSecond ≤ kMaxTicks := by
    unfold dueTicks at hmax
    omega
  have hdue : 0 ≤ dueTicks now n scale := by
    unfold dueTicks kTicksPerSecond
    omega
  have hlast := Int64.toInt_lt later
  refine ⟨hspan,hmax,?_⟩
  unfold ageTicks toTimeT
  rw [Int.tdiv_eq_ediv_of_nonneg hdue,Int.tdiv_eq_ediv_of_nonneg hlater]
  unfold kTicksPerSecond kMaxTicks at *
  omega

theorem post_due {b b' : Board} {r : ActionResult} {request : JobRequest} {newId : String}
    (h : b.post (clockTick posted now newId) request = .ok (r,b')) (hdue : request.due = some text) :
    ∃ span, parseDuration text = some span ∧ r.job.dueAt = some (stamp (deadline now span)) := by
  obtain ⟨due,hok,-,-,rfl,-⟩ := Board.post_ok h
  rw [hdue,Board.dueIn] at hok
  cases hp : parseDuration text with
  | none =>
      rw [hp] at hok
      cases hok
  | some span =>
      rw [hp] at hok
      exact ⟨span,rfl,(Except.ok.inj hok).symm⟩

end PuCli.Serve
