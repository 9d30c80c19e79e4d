import PuCli.Library.Brackets

-- The texts of JSON as bytes; what a string holds besides ASCII is left to the encoding.
namespace JsonGrammar

open Brackets

def blank (b : UInt8) : Bool := b = 0x20 ∨ b = 0x09 ∨ b = 0x0A ∨ b = 0x0D

def digit (b : UInt8) : Bool := 0x30 ≤ b ∧ b ≤ 0x39

def hexDigit (b : UInt8) : Bool := digit b ∨ (0x41 ≤ b ∧ b ≤ 0x46) ∨ (0x61 ≤ b ∧ b ≤ 0x66)

def Blank (t : List UInt8) : Prop := ∀ b ∈ t, blank b = true

structure Digits (t : List UInt8) : Prop where
  some : t ≠ []
  all : ∀ b ∈ t, digit b = true

inductive Integer : List UInt8 → Prop
  | zero : Integer [0x30]
  | nonzero {d : UInt8} {t : List UInt8} (hd : digit d = true) (hz : d ≠ 0x30)
      (ht : ∀ b ∈ t, digit b = true) : Integer (d :: t)

inductive Fraction : List UInt8 → Prop
  | none : Fraction []
  | digits {t : List UInt8} (h : Digits t) : Fraction (0x2E :: t)

inductive Exponent : List UInt8 → Prop
  | none : Exponent []
  | digits {e : UInt8} {sign t : List UInt8} (he : e = 0x65 ∨ e = 0x45)
      (hs : sign = [] ∨ sign = [0x2B] ∨ sign = [0x2D]) (h : Digits t) : Exponent (e :: (sign ++ t))

inductive Number : List UInt8 → Prop
  | mk {sign i f e : List UInt8} (hs : sign = [] ∨ sign = [0x2D]) (hi : Integer i)
      (hf : Fraction f) (he : Exponent e) : Number (sign ++ (i ++ (f ++ e)))

def escapable : List UInt8 := [0x22,0x5C,0x2F,0x62,0x66,0x6E,0x72,0x74]

inductive Characters : List UInt8 → Prop
  | nil : Characters []
  | plain {b : UInt8} {t : List UInt8} (hb : 0x20 ≤ b ∧ b ≠ 0x22 ∧ b ≠ 0x5C) (ht : Characters t) :
      Characters (b :: t)
  | escape {b : UInt8} {t : List UInt8} (hb : b ∈ escapable) (ht : Characters t) :
      Characters (0x5C :: b :: t)
  | unicode {h t : List UInt8} (hl : h.length = 4) (hh : ∀ b ∈ h, hexDigit b = true)
      (ht : Characters t) : Characters (0x5C :: 0x75 :: (h ++ t))

inductive StringText : List UInt8 → Prop
  | mk {t : List UInt8} (h : Characters t) : StringText (0x22 :: (t ++ [0x22]))

inductive Part where
  | value
  | element
  | elements
  | members

-- `n` arrays and objects may still be opened inside each other.
inductive Grammar : Part → Nat → List UInt8 → Prop
  | null {n : Nat} : Grammar .value n [0x6E,0x75,0x6C,0x6C]
  | yes {n : Nat} : Grammar .value n [0x74,0x72,0x75,0x65]
  | no {n : Nat} : Grammar .value n [0x66,0x61,0x6C,0x73,0x65]
  | number {n : Nat} {t : List UInt8} (h : Number t) : Grammar .value n t
  | string {n : Nat} {t : List UInt8} (h : StringText t) : Grammar .value n t
  | emptyArray {n : Nat} {w : List UInt8} (hw : Blank w) :
      Grammar .value (n + 1) (0x5B :: (w ++ [0x5D]))
  | array {n : Nat} {es : List UInt8} (h : Grammar .elements n es) :
      Grammar .value (n + 1) (0x5B :: (es ++ [0x5D]))
  | emptyObject {n : Nat} {w : List UInt8} (hw : Blank w) :
      Grammar .value (n + 1) (0x7B :: (w ++ [0x7D]))
  | object {n : Nat} {ms : List UInt8} (h : Grammar .members n ms) :
      Grammar .value (n + 1) (0x7B :: (ms ++ [0x7D]))
  | element {n : Nat} {w v u : List UInt8} (hw : Blank w) (hv : Grammar .value n v)
      (hu : Blank u) : Grammar .element n (w ++ (v ++ u))
  | one {n : Nat} {t : List UInt8} (h : Grammar .element n t) : Grammar .elements n t
  | more {n : Nat} {t es : List UInt8} (h : Grammar .element n t) (hes : Grammar .elements n es) :
      Grammar .elements n (t ++ 0x2C :: es)
  | member {n : Nat} {w k u t : List UInt8} (hw : Blank w) (hk : StringText k) (hu : Blank u)
      (h : Grammar .element n t) : Grammar .members n (w ++ (k ++ (u ++ 0x3A :: t)))
  | moreMembers {n : Nat} {w k u t ms : List UInt8} (hw : Blank w) (hk : StringText k)
      (hu : Blank u) (h : Grammar .element n t) (hms : Grammar .members n ms) :
      Grammar .members n (w ++ (k ++ (u ++ 0x3A :: (t ++ 0x2C :: ms))))

def Text (n : Nat) (t : List UInt8) : Prop := Grammar .element n t

-- An array or an object, whole.
def Container (n : Nat) (t : List UInt8) : Prop :=
  Grammar .value n t ∧ (t.head? = some 0x5B ∨ t.head? = some 0x7B)

def specials : List UInt8 := [0x22,0x5C,0x5B,0x7B,0x5D,0x7D]

def mark (b : UInt8) : Mark :=
  if b = 0x22 then .quotes
  else if b = 0x5C then .escapes
  else if b = 0x5B ∨ b = 0x7B then .opens
  else if b = 0x5D ∨ b = 0x7D then .closes
  else .plain

variable {n m : Nat} {t v w u q : List UInt8} {b : UInt8} {part : Part}

theorem mark_plain (h : b ∉ specials) : mark b = .plain := by
  simp only [specials,List.mem_cons,List.not_mem_nil,not_or] at h
  simp [mark,h]

theorem plain_of {p : UInt8 → Bool} (hp : specials.all (fun b => !p b) = true)
    (ht : ∀ b ∈ t, p b = true) : ∀ b ∈ t, mark b = .plain := by
  intro b hb
  refine mark_plain ?_
  intro hs
  have := List.all_eq_true.mp hp b hs
  rw [ht b hb] at this
  cases this

theorem balanced_blank (h : Blank t) : Balanced mark t :=
  balanced_plain (plain_of (by decide) h)

theorem balanced_all_digits (h : ∀ b ∈ t, digit b = true) : Balanced mark t :=
  balanced_plain (plain_of (by decide) h)

theorem balanced_literal (h : t.all (fun b => b ∉ specials) = true) : Balanced mark t :=
  balanced_plain (fun b hb => mark_plain (of_decide_eq_true (List.all_eq_true.mp h b hb)))

theorem balanced_cons_plain (hb : b ∉ specials) (h : Balanced mark t) : Balanced mark (b :: t) :=
  balanced_append (balanced_one (step_plain (mark_plain hb))) h

theorem balanced_integer (h : Integer t) : Balanced mark t := by
  cases h with
  | zero => exact balanced_literal (by decide)
  | nonzero hd _ ht => exact balanced_all_digits (List.forall_mem_cons.mpr ⟨hd,ht⟩)

theorem balanced_fraction (h : Fraction t) : Balanced mark t := by
  cases h with
  | none => exact balanced_nil
  | digits h => exact balanced_cons_plain (by decide) (balanced_all_digits h.all)

theorem balanced_exponent (h : Exponent t) : Balanced mark t := by
  cases h with
  | none => exact balanced_nil
  | @digits _ sign _ he hs h =>
      have hsign : sign.all (fun b => b ∉ specials) = true := by
        rcases hs with rfl | rfl | rfl <;> decide
      refine balanced_cons_plain ?_ (balanced_append (balanced_literal hsign) (balanced_all_digits h.all))
      rcases he with rfl | rfl <;> decide

theorem balanced_number (h : Number t) : Balanced mark t := by
  cases h with
  | @mk sign _ _ _ hs hi hf he =>
      have hsign : sign.all (fun b => b ∉ specials) = true := by
        rcases hs with rfl | rfl <;> decide
      exact balanced_append (balanced_literal hsign) (balanced_append (balanced_integer hi)
        (balanced_append (balanced_fraction hf) (balanced_exponent he)))

theorem mark_inside (hq : b ≠ 0x22) (he : b ≠ 0x5C) : mark b ≠ .quotes ∧ mark b ≠ .escapes := by
  rw [mark,if_neg hq,if_neg he]
  split
  · decide
  · split <;> decide

theorem quoted_characters (h : Characters t) : Quoted mark t := by
  induction h with
  | nil => exact quoted_nil
  | @plain b t hb _ ih =>
      refine quoted_cons ?_ ih
      intro depth
      obtain ⟨hquote,hescape⟩ := mark_inside hb.2.1 hb.2.2
      rw [step]
      split <;> simp_all
  | escape _ _ ih => exact quoted_escape rfl _ ih
  | @unicode h t hl hh _ ih =>
      refine quoted_escape rfl _ ?_
      clear hl
      induction h with
      | nil => exact ih
      | cons b h ihh =>
          obtain ⟨hb,hh⟩ := List.forall_mem_cons.mp hh
          have hplain : mark b = .plain := plain_of (by decide) (t := [b])
            (List.forall_mem_singleton.mpr hb) b (List.mem_singleton_self b)
          refine quoted_cons ?_ (ihh hh)
          intro depth
          simp [step,hplain]

theorem balanced_string (h : StringText t) : Balanced mark t := by
  cases h with
  | mk h => exact balanced_quoted rfl rfl (quoted_characters h)

theorem balanced_grammar (h : Grammar part n t) : Balanced mark t := by
  induction h with
  | null => exact balanced_literal (by decide)
  | yes => exact balanced_literal (by decide)
  | no => exact balanced_literal (by decide)
  | number h => exact balanced_number h
  | string h => exact balanced_string h
  | emptyArray hw => exact balanced_bracketed rfl rfl (balanced_blank hw)
  | array _ ih => exact balanced_bracketed rfl rfl ih
  | emptyObject hw => exact balanced_bracketed rfl rfl (balanced_blank hw)
  | object _ ih => exact balanced_bracketed rfl rfl ih
  | element hw _ hu ih =>
      exact balanced_append (balanced_blank hw) (balanced_append ih (balanced_blank hu))
  | one _ ih => exact ih
  | more _ _ ih ihs => exact balanced_append ih (balanced_cons_plain (by decide) ihs)
  | member hw hk hu _ ih =>
      exact balanced_append (balanced_blank hw) (balanced_append (balanced_string hk)
        (balanced_append (balanced_blank hu) (balanced_cons_plain (by decide) ih)))
  | moreMembers hw hk hu _ _ ih ihs =>
      exact balanced_append (balanced_blank hw) (balanced_append (balanced_string hk)
        (balanced_append (balanced_blank hu) (balanced_cons_plain (by decide)
          (balanced_append ih (balanced_cons_plain (by decide) ihs)))))

theorem digit_head (h : digit b = true) : b ∉ specials ∧ blank b = false := by
  constructor
  · intro hs
    have := List.all_eq_true.mp (show specials.all (fun b => !digit b) = true by decide) b hs
    rw [h] at this
    cases this
  · by_contra hb
    rw [Bool.not_eq_false] at hb
    rcases of_decide_eq_true hb with rfl | rfl | rfl | rfl <;> revert h <;> decide

theorem number_head (h : Number t) :
    ∃ b rest, t = b :: rest ∧ b ∉ specials ∧ blank b = false := by
  cases h with
  | mk hs hi hf he =>
      rcases hs with rfl | rfl
      · cases hi with
        | zero => exact ⟨0x30,_,rfl,by decide⟩
        | nonzero hd _ _ => exact ⟨_,_,rfl,digit_head hd⟩
      · exact ⟨0x2D,_,rfl,by decide⟩

theorem value_head (h : Grammar .value n t) : ∃ b rest, t = b :: rest ∧ blank b = false := by
  cases h with
  | number h =>
      obtain ⟨b,rest,ht,-,hb⟩ := number_head h
      exact ⟨b,rest,ht,hb⟩
  | string h =>
      cases h with
      | mk h => exact ⟨0x22,_,rfl,by decide⟩
  | null => exact ⟨0x6E,_,rfl,by decide⟩
  | yes => exact ⟨0x74,_,rfl,by decide⟩
  | no => exact ⟨0x66,_,rfl,by decide⟩
  | emptyArray _ => exact ⟨0x5B,_,rfl,by decide⟩
  | array _ => exact ⟨0x5B,_,rfl,by decide⟩
  | emptyObject _ => exact ⟨0x7B,_,rfl,by decide⟩
  | object _ => exact ⟨0x7B,_,rfl,by decide⟩

def starts : List UInt8 := [0x22,0x2D,0x5B,0x66,0x6E,0x74,0x7B]

theorem value_starts (h : Grammar .value n t) :
    ∃ b rest, t = b :: rest ∧ (digit b = true ∨ b ∈ starts) := by
  cases h with
  | number h =>
      obtain ⟨hs,hi,-,-⟩ := h
      rcases hs with rfl | rfl
      · cases hi with
        | zero => exact ⟨0x30,_,rfl,.inl rfl⟩
        | nonzero hd _ _ => exact ⟨_,_,rfl,.inl hd⟩
      · exact ⟨0x2D,_,rfl,.inr (by decide)⟩
  | string h =>
      cases h with
      | mk h => exact ⟨0x22,_,rfl,.inr (by decide)⟩
  | null => exact ⟨0x6E,_,rfl,.inr (by decide)⟩
  | yes => exact ⟨0x74,_,rfl,.inr (by decide)⟩
  | no => exact ⟨0x66,_,rfl,.inr (by decide)⟩
  | emptyArray _ => exact ⟨0x5B,_,rfl,.inr (by decide)⟩
  | array _ => exact ⟨0x5B,_,rfl,.inr (by decide)⟩
  | emptyObject _ => exact ⟨0x7B,_,rfl,.inr (by decide)⟩
  | object _ => exact ⟨0x7B,_,rfl,.inr (by decide)⟩

-- Behind its blanks a text goes on as a value does.
def Started (t : List UInt8) : Prop :=
  ∃ w b rest, t = w ++ b :: rest ∧ Blank w ∧ (digit b = true ∨ b ∈ starts)

theorem Started.append (h : Started t) (u : List UInt8) : Started (t ++ u) := by
  obtain ⟨w,b,rest,rfl,hw,hb⟩ := h
  exact ⟨w,b,rest ++ u,by rw [List.append_assoc,List.cons_append],hw,hb⟩

theorem Started.head (h : Started (b :: t)) (hb : blank b = false) :
    digit b = true ∨ b ∈ starts := by
  obtain ⟨w,c,rest,ht,hw,hc⟩ := h
  cases w with
  | nil =>
      rw [(List.cons.inj ht).1]
      exact hc
  | cons a w =>
      have hblank := hw a (List.mem_cons_self ..)
      rw [← (List.cons.inj ht).1,hb] at hblank
      cases hblank

theorem element_started (h : Grammar .element n t) : Started t := by
  cases h with
  | @element _ w v u hw hv hu =>
      obtain ⟨c,rest,rfl,hc⟩ := value_starts hv
      exact ⟨w,c,rest ++ u,rfl,hw,hc⟩

theorem elements_started (h : Grammar .elements n t) : Started t := by
  cases h with
  | one h => exact element_started h
  | more h _ => exact (element_started h).append _

theorem text_not_blank (h : Text n t) : ¬ Blank t := by
  cases h with
  | element _ hv _ =>
      obtain ⟨b,rest,rfl,hb⟩ := value_head hv
      intro hall
      have := hall b (by simp)
      rw [hb] at this
      cases this

theorem text_settles (h : Text n t) : scan mark ⟨.outside,0⟩ t = ⟨.outside,0⟩ :=
  (balanced_grammar h).settles 0

theorem container_shape (h : Container n t) : ∃ a inner b, t = a :: (inner ++ [b]) ∧
    mark a = .opens ∧ mark b = .closes ∧ Balanced mark inner := by
  obtain ⟨hv,hhead⟩ := h
  cases hv with
  | emptyArray hw => exact ⟨_,_,_,rfl,rfl,rfl,balanced_blank hw⟩
  | array h => exact ⟨_,_,_,rfl,rfl,rfl,balanced_grammar h⟩
  | emptyObject hw => exact ⟨_,_,_,rfl,rfl,rfl,balanced_blank hw⟩
  | object h => exact ⟨_,_,_,rfl,rfl,rfl,balanced_grammar h⟩
  | null => exact absurd hhead (by decide)
  | yes => exact absurd hhead (by decide)
  | no => exact absurd hhead (by decide)
  | string h =>
      cases h with
      | mk h => rcases hhead with hb | hb <;> exact absurd (Option.some.inj hb) (by decide)
  | number h =>
      obtain ⟨b,rest,rfl,hb,-⟩ := number_head h
      rcases hhead with hh | hh
      · obtain rfl : b = 0x5B := Option.some.inj hh
        exact absurd (by decide) hb
      · obtain rfl : b = 0x7B := Option.some.inj hh
        exact absurd (by decide) hb

-- A front of a container's text is blank, or its bracket is still open.
theorem front_open (hw : Blank w) (h : Container n v) (hq : w ++ v = q ++ b :: u) :
    Blank q ∨ 0 < (scan mark ⟨.outside,0⟩ q).depth := by
  rcases List.append_eq_append_iff.mp hq with ⟨mid,rfl,hv⟩ | ⟨mid,rfl,-⟩
  · obtain ⟨a,inner,close,rfl,ha,-,hinner⟩ := container_shape h
    by_cases hmid : mid = []
    · subst hmid
      rw [List.append_nil]
      exact .inl hw
    · refine .inr ?_
      rw [scan_append,(balanced_blank hw).settles]
      refine open_front ha hinner ?_ hmid 0
      rcases List.eq_nil_or_concat u with rfl | ⟨u,last,rfl⟩
      · rw [← List.cons_append] at hv
        exact ⟨[],(List.append_nil _).trans (List.append_inj_left' hv rfl).symm⟩
      · rw [← List.cons_append,List.concat_eq_append,← List.cons_append,← List.append_assoc] at hv
        exact ⟨b :: u,(List.append_inj_left' hv rfl).symm⟩
  · exact .inl (fun c hc => hw c (List.mem_append_left _ hc))

-- No proper front of a container's text is a text of its own.
theorem front_not_text (hw : Blank w) (h : Container n v) (hq : w ++ v = q ++ b :: u) :
    ¬ Text m q := by
  intro ht
  rcases front_open hw h hq with hblank | hopen
  · exact text_not_blank ht hblank
  · rw [text_settles ht] at hopen
    exact Nat.lt_irrefl 0 hopen

end JsonGrammar
