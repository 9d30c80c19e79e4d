import Mathlib.Data.List.Basic
import Mathlib.Data.List.GetD
import Mathlib.Data.Nat.ModEq
import Mathlib.Tactic.Common

namespace PuCli

namespace PeerToken

variable {a b : List UInt8}

def lengthsDiffer (a b : List UInt8) : UInt8 := UInt8.ofNat (a.length ^^^ b.length)

def foldByte (a b : List UInt8) (difference : UInt8) (i : Nat) : UInt8 :=
  let left := a.getD i 0
  let right := b.getD i 0
  difference ||| (left ^^^ right)

def constantTimeEquals (a b : List UInt8) : Bool :=
  let length := max a.length b.length
  (List.range length).foldl (foldByte a b) (lengthsDiffer a b) = 0

-- `PeerConfig::Accepts`; of the configuration it reads the token alone.
def accepts (token presentedToken : List UInt8) : Bool :=
  !token.isEmpty && constantTimeEquals token presentedToken

theorem foldl_foldByte (n : Nat) (difference : UInt8) :
    (List.range n).foldl (foldByte a b) difference = 0 ↔
      difference = 0 ∧ ∀ i < n, a.getD i 0 = b.getD i 0 := by
  induction n with
  | zero => simp
  | succ n ih =>
      rw [List.range_succ,List.foldl_concat]
      change _ ||| (a.getD n 0 ^^^ b.getD n 0) = 0 ↔ _
      rw [UInt8.or_eq_zero_iff,ih,UInt8.xor_eq_zero_iff,and_assoc]
      refine and_congr_right (fun _ => ?_)
      constructor
      · rintro ⟨hbelow,hn⟩ i hi
        rcases Nat.lt_succ_iff_lt_or_eq.mp hi with hlt | rfl
        · exact hbelow i hlt
        · exact hn
      · intro h
        exact ⟨fun i hi => h i (Nat.lt_succ_of_lt hi),h n (Nat.lt_succ_self n)⟩

theorem lengthsDiffer_eq_zero_iff (a b : List UInt8) :
    lengthsDiffer a b = 0 ↔ a.length % 256 = b.length % 256 := by
  rw [lengthsDiffer,UInt8.ofNat_xor,UInt8.xor_eq_zero_iff,← UInt8.toNat_inj,UInt8.toNat_ofNat',
    UInt8.toNat_ofNat']

theorem constantTimeEquals_iff (a b : List UInt8) : constantTimeEquals a b = true ↔
    a.length % 256 = b.length % 256 ∧ ∀ i < max a.length b.length, a.getD i 0 = b.getD i 0 := by
  rw [constantTimeEquals,decide_eq_true_iff,foldl_foldByte,lengthsDiffer_eq_zero_iff]

theorem constantTimeEquals_comm (a b : List UInt8) :
    constantTimeEquals a b = constantTimeEquals b a := by
  rw [Bool.eq_iff_iff,constantTimeEquals_iff,constantTimeEquals_iff,eq_comm,max_comm]
  exact and_congr_right (fun _ => forall_congr' fun i => imp_congr_right fun _ => eq_comm)

-- `a` with a whole number of times 256 zero bytes behind it, at least once.
def Padded (a b : List UInt8) : Prop := ∃ k, 0 < k ∧ b = a ++ List.replicate (256 * k) 0

theorem getD_padded (a : List UInt8) (n i : Nat) :
    (a ++ List.replicate n 0).getD i 0 = a.getD i 0 := by
  rcases Nat.lt_or_ge i a.length with h | h
  · rw [List.getD_append _ _ _ _ h]
  · rw [List.getD_append_right _ _ _ _ h,List.getD_eq_default _ _ h]
    exact List.getElem?_getD_replicate_default_eq _ _ _

theorem constantTimeEquals_padded (h : Padded a b) : constantTimeEquals a b = true := by
  obtain ⟨k,-,rfl⟩ := h
  rw [constantTimeEquals_iff]
  refine ⟨?_,fun i _ => (getD_padded a _ i).symm⟩
  rw [List.length_append,List.length_replicate,Nat.add_mul_mod_self_left]

theorem constantTimeEquals_refl (a : List UInt8) : constantTimeEquals a a = true :=
  (constantTimeEquals_iff a a).mpr ⟨rfl,fun _ _ => rfl⟩

theorem not_padded_self (a : List UInt8) : ¬ Padded a a := by
  rintro ⟨k,hk,h⟩
  have := congrArg List.length h
  rw [List.length_append,List.length_replicate] at this
  omega

theorem eq_or_padded (hle : a.length ≤ b.length) (h : constantTimeEquals a b = true) :
    a = b ∨ Padded a b := by
  obtain ⟨hmod,hbytes⟩ := (constantTimeEquals_iff a b).mp h
  rw [max_eq_right hle] at hbytes
  have hsplit : b = a ++ List.replicate (b.length - a.length) 0 := by
    refine List.ext_getElem (by simp; omega) ?_
    intro i hi hi'
    have hi0 := hbytes i hi
    rw [← getD_padded a (b.length - a.length) i,List.getD_eq_getElem _ _ hi,
      List.getD_eq_getElem _ _ hi'] at hi0
    exact hi0.symm
  obtain ⟨k,hk⟩ : ∃ k, b.length - a.length = 256 * k :=
    (Nat.modEq_iff_dvd' hle).mp hmod
  rw [hk] at hsplit
  rcases Nat.eq_zero_or_pos k with rfl | hpos
  · exact .inl (by simpa using hsplit.symm)
  · exact .inr ⟨k,hpos,hsplit⟩

theorem constantTimeEquals_true_iff (a b : List UInt8) :
    constantTimeEquals a b = true ↔ a = b ∨ Padded a b ∨ Padded b a := by
  constructor
  · intro h
    rcases Nat.le_total a.length b.length with hle | hle
    · exact (eq_or_padded hle h).imp_right .inl
    · rw [constantTimeEquals_comm] at h
      exact (eq_or_padded hle h).imp Eq.symm .inr
  · rintro (rfl | h | h)
    · exact constantTimeEquals_refl a
    · exact constantTimeEquals_padded h
    · rw [constantTimeEquals_comm]
      exact constantTimeEquals_padded h

-- The length difference is folded into one byte, so whole multiples of 256 go unseen there, and
-- the bytes missing on one side are read as zero.
theorem token_equality_iff (a b : List UInt8) :
    ((constantTimeEquals a b = true ↔ a = b) ∧ (accepts a b = true ↔ a ≠ [] ∧ a = b)) ↔
      ¬ (Padded a b ∨ Padded b a) := by
  constructor
  · rintro ⟨hequal,-⟩ hpad
    obtain rfl := hequal.mp ((constantTimeEquals_true_iff a b).mpr (.inr hpad))
    exact hpad.elim (not_padded_self a) (not_padded_self a)
  · intro hpad
    have hequal : constantTimeEquals a b = true ↔ a = b := by
      rw [constantTimeEquals_true_iff,or_iff_left hpad]
    refine ⟨hequal,?_⟩
    rw [accepts,Bool.and_eq_true,hequal]
    simp

theorem padded_token_accepted :
    constantTimeEquals (0x73 :: List.replicate 256 0) [0x73] = true ∧
      accepts (0x73 :: List.replicate 256 0) [0x73] = true ∧
      (0x73 :: List.replicate 256 0 : List UInt8) ≠ [0x73] := by
  have hequal : constantTimeEquals (0x73 :: List.replicate 256 0) [0x73] = true := by
    rw [constantTimeEquals_comm]
    exact constantTimeEquals_padded ⟨1,Nat.one_pos,rfl⟩
  refine ⟨hequal,?_,?_⟩
  · rw [accepts,hequal]
    rfl
  · intro h
    cases h

end PeerToken

end PuCli
