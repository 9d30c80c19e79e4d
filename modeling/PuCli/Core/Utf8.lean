import Mathlib.Data.String.Basic
import Mathlib.Data.List.Basic
import Mathlib.Tactic.Common

namespace PuCli

namespace Utf8

def kReplacementCharacter : Char := '\ufffd'

def kMaxCodePoint : Nat := 0x10FFFF
def kSurrogateFirst : Nat := 0xD800
def kSurrogateLast : Nat := 0xDFFF

def isContinuationByte (byte : UInt8) : Bool := byte &&& 0xC0 = 0x80

def sequenceLength (lead : UInt8) : Nat :=
  if lead &&& 0x80 = 0x00 then 1
  else if lead &&& 0xE0 = 0xC0 then 2
  else if lead &&& 0xF0 = 0xE0 then 3
  else if lead &&& 0xF8 = 0xF0 then 4
  else 0

def leadPayloadMask : Nat → UInt8
  | 1 => 0x7F
  | 2 => 0x1F
  | 3 => 0x0F
  | _ => 0x07

def endsWithPartialSequence (text : List UInt8) : Bool :=
  if text.isEmpty then false
  else
    let index := (text.reverse.dropWhile isContinuationByte).length
    if index = 0 then true
    else
      let length := sequenceLength (text.getD (index - 1) 0)
      if length ≤ 1 then false else text.length - (index - 1) < length

def decodeCodePoint : List UInt8 → Nat
  | [] => 0
  | lead :: rest =>
      rest.foldl (fun codePoint byte => codePoint <<< 6 ||| (byte &&& 0x3F).toNat)
        (lead &&& leadPayloadMask (rest.length + 1)).toNat

def isOverlong (length codePoint : Nat) : Bool :=
  (length = 2 ∧ codePoint < 0x80) ∨ (length = 3 ∧ codePoint < 0x800) ∨
    (length = 4 ∧ codePoint < 0x10000)

def isSurrogate (codePoint : Nat) : Bool :=
  kSurrogateFirst ≤ codePoint ∧ codePoint ≤ kSurrogateLast

def validSequenceLength : List UInt8 → Option Nat
  | [] => none
  | lead :: rest =>
      let length := sequenceLength lead
      if length = 0 ∨ rest.length + 1 < length then none
      else if ¬ (rest.take (length - 1)).all isContinuationByte then none
      else
        let codePoint := decodeCodePoint (lead :: rest.take (length - 1))
        if isOverlong length codePoint ∨ isSurrogate codePoint ∨ kMaxCodePoint < codePoint then none
        else some length

def sanitizeFrom : Nat → List UInt8 → List Char
  | 0, _ => []
  | fuel + 1, text =>
      if text.isEmpty then []
      else match validSequenceLength text with
        | none => kReplacementCharacter :: sanitizeFrom fuel text.tail
        | some length =>
            Char.ofNat (decodeCodePoint (text.take length)) :: sanitizeFrom fuel (text.drop length)

def sanitizeUtf8 (text : List UInt8) : String := String.ofList (sanitizeFrom text.length text)

def bytesOf (s : String) : List UInt8 := s.toList.flatMap String.utf8EncodeChar

theorem shift_or {a b : Nat} (h : b < 64) : a <<< 6 ||| b = 64 * a + b := by
  rw [← Nat.shiftLeft_add_eq_or_of_lt (by simpa using h),Nat.shiftLeft_eq]
  omega

theorem lead_two : ∀ n < 32, sequenceLength (UInt8.ofNat (n + 0xc0)) = 2 ∧
    (UInt8.ofNat (n + 0xc0) &&& leadPayloadMask 2).toNat = n := by decide

theorem lead_three : ∀ n < 16, sequenceLength (UInt8.ofNat (n + 0xe0)) = 3 ∧
    (UInt8.ofNat (n + 0xe0) &&& leadPayloadMask 3).toNat = n := by decide

theorem lead_four : ∀ n < 8, sequenceLength (UInt8.ofNat (n + 0xf0)) = 4 ∧
    (UInt8.ofNat (n + 0xf0) &&& leadPayloadMask 4).toNat = n := by decide

theorem lead_one : ∀ n < 128, sequenceLength (UInt8.ofNat n) = 1 ∧
    (UInt8.ofNat n &&& leadPayloadMask 1).toNat = n := by decide

theorem continuation : ∀ n < 64, isContinuationByte (UInt8.ofNat (n + 0x80)) = true ∧
    (UInt8.ofNat (n + 0x80) &&& 0x3F).toNat = n := by decide

theorem validSequenceLength_append {lead : UInt8} {more rest : List UInt8} {codePoint : Nat}
    (hl : sequenceLength lead = more.length + 1) (hc : more.all isContinuationByte = true)
    (hd : decodeCodePoint (lead :: more) = codePoint)
    (ho : isOverlong (more.length + 1) codePoint = false)
    (hv : codePoint < 0xD800 ∨ 0xDFFF < codePoint ∧ codePoint < 0x110000) :
    validSequenceLength (lead :: (more ++ rest)) = some (more.length + 1) := by
  have hs : isSurrogate codePoint = false := by
    refine decide_eq_false ?_
    simp only [kSurrogateFirst,kSurrogateLast]
    omega
  have hm : ¬ kMaxCodePoint < codePoint := by
    simp only [kMaxCodePoint]
    omega
  have hlen : ¬ (more.length + 1 = 0 ∨ (more ++ rest).length + 1 < more.length + 1) := by
    rw [List.length_append]
    omega
  simp only [validSequenceLength,hl,if_neg hlen,Nat.add_sub_cancel,List.take_left,hc,hd,ho,hs]
  simp [hm]

theorem encoded_decodes (c : Char) : ∃ lead more, String.utf8EncodeChar c = lead :: more ∧
    decodeCodePoint (lead :: more) = c.toNat ∧
    ∀ rest, validSequenceLength (lead :: (more ++ rest)) = some (more.length + 1) := by
  have hv : c.toNat < 0xD800 ∨ 0xDFFF < c.toNat ∧ c.toNat < 0x110000 := c.valid
  have hval : c.val.toNat = c.toNat := rfl
  unfold String.utf8EncodeChar
  dsimp only
  rw [hval]
  generalize c.toNat = v at hv ⊢
  split
  · next h1 =>
      obtain ⟨hlead,hbits⟩ := lead_one v (by omega)
      have hd : decodeCodePoint [UInt8.ofNat v] = v := by simpa [decodeCodePoint] using hbits
      refine ⟨_,_,rfl,hd,?_⟩
      intro rest
      exact validSequenceLength_append hlead rfl hd (by simp [isOverlong]) hv
  · next h1 =>
      obtain ⟨hlow,hlowBits⟩ := continuation (v % 64) (by omega)
      split
      · next h2 =>
          obtain ⟨hlead,hbits⟩ := lead_two (v / 64 % 32) (by omega)
          have hd : decodeCodePoint [UInt8.ofNat (v / 64 % 32 + 0xc0),
              UInt8.ofNat (v % 64 + 0x80)] = v := by
            simp only [decodeCodePoint,List.foldl_cons,List.foldl_nil,List.length_cons,
              List.length_nil,hlowBits,hbits]
            rw [shift_or (by omega)]
            omega
          refine ⟨_,_,rfl,hd,?_⟩
          intro rest
          refine validSequenceLength_append hlead (by simp only [List.all_cons,List.all_nil,hlow,Bool.and_self]) hd ?_ hv
          simp only [isOverlong,List.length_cons,List.length_nil]
          refine decide_eq_false ?_
          omega
      · next h2 =>
          obtain ⟨hmid,hmidBits⟩ := continuation (v / 64 % 64) (by omega)
          split
          · next h3 =>
              obtain ⟨hlead,hbits⟩ := lead_three (v / 4096 % 16) (by omega)
              have hd : decodeCodePoint [UInt8.ofNat (v / 4096 % 16 + 0xe0),
                  UInt8.ofNat (v / 64 % 64 + 0x80),UInt8.ofNat (v % 64 + 0x80)] = v := by
                simp only [decodeCodePoint,List.foldl_cons,List.foldl_nil,List.length_cons,
                  List.length_nil,hlowBits,hmidBits,hbits]
                rw [shift_or (by omega),shift_or (by omega)]
                omega
              refine ⟨_,_,rfl,hd,?_⟩
              intro rest
              refine validSequenceLength_append hlead (by simp only [List.all_cons,List.all_nil,hlow,hmid,
                Bool.and_self]) hd ?_ hv
              simp only [isOverlong,List.length_cons,List.length_nil]
              refine decide_eq_false ?_
              omega
          · next h3 =>
              obtain ⟨hhigh,hhighBits⟩ := continuation (v / 4096 % 64) (by omega)
              obtain ⟨hlead,hbits⟩ := lead_four (v / 262144 % 8) (by omega)
              have hd : decodeCodePoint [UInt8.ofNat (v / 262144 % 8 + 0xf0),
                  UInt8.ofNat (v / 4096 % 64 + 0x80),UInt8.ofNat (v / 64 % 64 + 0x80),
                  UInt8.ofNat (v % 64 + 0x80)] = v := by
                simp only [decodeCodePoint,List.foldl_cons,List.foldl_nil,List.length_cons,
                  List.length_nil,hlowBits,hmidBits,hhighBits,hbits]
                rw [shift_or (by omega),shift_or (by omega),shift_or (by omega)]
                omega
              refine ⟨_,_,rfl,hd,?_⟩
              intro rest
              refine validSequenceLength_append hlead (by simp only [List.all_cons,List.all_nil,hlow,hmid,
                hhigh,Bool.and_self]) hd ?_ hv
              simp only [isOverlong,List.length_cons,List.length_nil]
              refine decide_eq_false ?_
              omega

theorem sanitizeFrom_encoded (cs : List Char) {fuel : Nat}
    (h : (cs.flatMap String.utf8EncodeChar).length ≤ fuel) :
    sanitizeFrom fuel (cs.flatMap String.utf8EncodeChar) = cs := by
  induction cs generalizing fuel with
  | nil => cases fuel <;> rfl
  | cons c cs ih =>
      obtain ⟨lead,more,henc,hd,hlen⟩ := encoded_decodes c
      rw [List.flatMap_cons,henc] at h ⊢
      cases fuel with
      | zero => simp at h
      | succ fuel =>
          have hrest : (cs.flatMap String.utf8EncodeChar).length ≤ fuel := by
            simp only [List.cons_append,List.length_cons,List.length_append] at h
            omega
          simp only [sanitizeFrom,List.cons_append,hlen,List.isEmpty_cons,List.take_succ_cons,
            List.drop_succ_cons,List.take_left,List.drop_left,hd,Char.ofNat_toNat,ih hrest]
          rfl

theorem sanitizeUtf8_bytesOf (s : String) : sanitizeUtf8 (bytesOf s) = s := by
  unfold sanitizeUtf8
  rw [bytesOf,sanitizeFrom_encoded s.toList le_rfl,String.ofList_toList]

end Utf8

end PuCli
