import PuCli.Core.Utf8Cut
import PuCli.Exec.Capture

namespace PuCli

namespace Exec

open Utf8

variable {maxBytes p : Nat} {keep : Keep} {stream text : List UInt8}

-- The cut of an over-long end falls between two characters, or a newline behind it replaces it.
def CutsBetween (maxBytes : Nat) (keep : Keep) (stream : List UInt8) : Prop :=
  maxBytes = 0 ∨ keep = .kHead ∨ stream.length * 4 ≤ maxBytes * 5 ∨
    kNewline ∈ stream.drop (stream.length - maxBytes) ∨
      (stream.drop (stream.length - maxBytes)).head?.all (fun byte => !isContinuationByte byte) = true

theorem cut_at (h : isValidUtf8 stream = true) (p : Nat) : Cut (stream.take p) (stream.drop p) := by
  refine cut_valid ?_
  rwa [List.take_append_drop]

theorem newline_length : sequenceLength kNewline = 1 := by decide

theorem drop_valid_of_newline (h : isValidUtf8 stream = true)
    (hline : (stream.take p).getLast? = some kNewline) : isValidUtf8 (stream.drop p) = true :=
  (cut_at h p).back_valid ((cut_at h p).front_valid_of_ascii hline newline_length)

theorem popPartial_encode (fuel : Nat) (xs : List Char) :
    Capture.popPartial fuel (encode xs) = encode xs := by
  cases fuel with
  | zero => rfl
  | succ fuel => rw [Capture.popPartial,encode_partial_eq_false,if_neg (by simp)]

theorem popPartial_inside (fuel : Nat) {xs : List Char} {lead : UInt8} {more rest : List UInt8}
    (hs : Sequence lead (more ++ rest)) (hr : rest ≠ []) (hf : more.length < fuel) :
    Capture.popPartial fuel (encode xs ++ lead :: more) = encode xs := by
  induction fuel generalizing more rest with
  | zero => omega
  | succ fuel ih =>
      rw [Capture.popPartial,if_pos ⟨by simp,@Cut.inside_partial _ _ xs _ hs hr⟩]
      cases more using List.reverseRecOn with
      | nil => rw [List.dropLast_concat,popPartial_encode]
      | append_singleton more byte =>
          rw [← List.cons_append,← List.append_assoc,List.dropLast_concat]
          rw [List.append_assoc] at hs
          rw [List.length_append,List.length_singleton] at hf
          exact ih hs (by simp) (by omega)

theorem popPartial_valid {front back : List UInt8} (h : Cut front back) :
    isValidUtf8 (Capture.popPartial front.length front) = true := by
  cases h with
  | between xs ys hf _ =>
      rw [hf,popPartial_encode]
      exact isValidUtf8_encode xs
  | inside xs ys lead more rest hs hr hf _ =>
      rw [hf,popPartial_inside _ hs hr (by rw [List.length_append,List.length_cons]; omega)]
      exact isValidUtf8_encode xs

theorem trimmed_valid (h : isValidUtf8 stream = true) (n : Nat) :
    isValidUtf8 (Capture.trimmed (stream.take n)) = true := by
  by_cases hmem : kNewline ∈ stream.take n
  · obtain ⟨tail,htail,-,hlast⟩ := trimmed_of_mem hmem
    have hcut : Cut (Capture.trimmed (stream.take n)) (tail ++ stream.drop n) := by
      refine cut_valid ?_
      rwa [← List.append_assoc,← htail,List.take_append_drop]
    exact hcut.front_valid_of_ascii hlast newline_length
  · rw [trimmed_of_not_mem hmem]
    exact popPartial_valid (cut_at h n)

theorem Start.valid_iff (hs : Start maxBytes stream p) (h : isValidUtf8 stream = true)
    (hm : 0 < maxBytes) :
    isValidUtf8 (stream.drop p) = true ↔ CutsBetween maxBytes .kEnd stream := by
  unfold CutsBetween
  rw [or_iff_right hm.ne',or_iff_right (by simp)]
  cases hs with
  | whole hfew => exact iff_of_true h (.inl hfew)
  | dropped hmuch =>
      rw [or_iff_right (by omega)]
      have hp := droppedTo_dropAt maxBytes stream
      generalize dropAt maxBytes stream = p at hp ⊢
      cases hp with
      | inside hfree =>
          rw [or_iff_right hfree]
          exact (cut_at h _).back_valid_iff
      | @behind k hcut hk hfirst =>
          obtain ⟨hlt,-⟩ := List.getElem?_eq_some_iff.mp hk
          refine iff_of_true (drop_valid_of_newline h ((getLast?_take_succ hlt).trans hk)) (.inl ?_)
          obtain ⟨i,rfl⟩ := Nat.exists_eq_add_of_le hcut
          rw [← List.getElem?_drop] at hk
          exact List.mem_of_getElem? hk
  | filled hmuch hline =>
      have hv := drop_valid_of_newline h hline
      exact iff_of_true hv (.inr (.inr ((cut_at h _).back_valid_iff.mp hv)))

-- Half a character stays at the head of a kept end whose cut falls inside one, with no newline
-- behind it; the head of a stream is repaired.
theorem captured_valid_iff (maxBytes : Nat) (keep : Keep) (chunks : List (List UInt8))
    (h : isValidUtf8 chunks.flatten = true) :
    isValidUtf8 (capture maxBytes keep chunks).text = true ↔
      CutsBetween maxBytes keep chunks.flatten := by
  have ht := capture_taken maxBytes keep chunks
  generalize (capture maxBytes keep chunks).text = text at ht ⊢
  generalize chunks.flatten = stream at h ht ⊢
  cases ht with
  | all hm => exact iff_of_true h (.inl hm)
  | head hm hle => exact iff_of_true h (.inr (.inl rfl))
  | headTrimmed hm hlt => exact iff_of_true (trimmed_valid h maxBytes) (.inr (.inl rfl))
  | tail hm hs => exact hs.valid_iff h hm

def accents : List UInt8 := [0xC3, 0xA9, 0xC3, 0xA9, 0xC3, 0xA9, 0x61]

theorem captured_half_character :
    ¬ ∀ (maxBytes : Nat) (keep : Keep) (chunks : List (List UInt8)), 4 ≤ maxBytes →
      isValidUtf8 chunks.flatten = true → isValidUtf8 (capture maxBytes keep chunks).text = true := by
  intro h
  have hcut : (capture 4 .kEnd [accents]).text = [0xA9, 0xC3, 0xA9, 0x61] := by decide
  have hv := h 4 .kEnd [accents] le_rfl (by decide)
  rw [hcut] at hv
  revert hv
  decide

theorem captured_valid_accents :
    isValidUtf8 (capture 4 .kEnd [[0xC3], [0xA9, 0xC3, 0xA9, 0x61, 0x61]]).text = true ↔
      CutsBetween 4 .kEnd [0xC3, 0xA9, 0xC3, 0xA9, 0x61, 0x61] :=
  captured_valid_iff 4 .kEnd [[0xC3], [0xA9, 0xC3, 0xA9, 0x61, 0x61]] (by decide)

end Exec

end PuCli
