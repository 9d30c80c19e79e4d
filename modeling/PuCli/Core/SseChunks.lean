import PuCli.Core.Sse
import PuCli.Library.LineFraming

namespace PuCli

namespace Sse

open Framing

variable {raw rest buffer line : List UInt8} {σ ρ : Type} {handle : σ → List UInt8 → σ × List ρ}

theorem nextLine_closed (h : kNewline ∉ raw) (rest : List UInt8) :
    nextLine (raw ++ kNewline :: rest) =
      if Utf8.endsWithPartialSequence (stripReturn raw) then none
      else some (stripReturn raw,rest) := by
  rw [nextLine,Lines.findIdx?_first h]
  dsimp only
  rw [List.take_left,List.append_cons,List.drop_left' (by simp)]

theorem nextLine_open (h : kNewline ∉ buffer) : nextLine buffer = none := by
  rw [nextLine,Lines.findIdx?_absent h]

theorem nextLine_some_iff : nextLine buffer = some (line,rest) ↔
    ∃ raw, buffer = raw ++ kNewline :: rest ∧ kNewline ∉ raw ∧ line = stripReturn raw ∧
      Utf8.endsWithPartialSequence line = false := by
  constructor
  · intro h
    by_cases hmem : kNewline ∈ buffer
    · obtain ⟨raw,back,rfl,hraw⟩ := List.eq_append_cons_of_mem hmem
      rw [nextLine_closed hraw] at h
      split at h
      · cases h
      · next hwhole =>
          obtain ⟨rfl,rfl⟩ := Prod.mk.inj (Option.some.inj h)
          exact ⟨raw,rfl,hraw,rfl,by simpa using hwhole⟩
    · rw [nextLine_open hmem] at h
      cases h
  · rintro ⟨raw,rfl,hraw,rfl,hwhole⟩
    rw [nextLine_closed hraw,hwhole,if_neg Bool.false_ne_true]

def lineFraming : Framing UInt8 (List UInt8) where
  next := nextLine
  shrinks := by
    intro buffer line rest h
    obtain ⟨raw,rfl,-⟩ := nextLine_some_iff.mp h
    simp only [List.length_append,List.length_cons]
    omega
  grows := by
    intro buffer line rest h more
    obtain ⟨raw,rfl,hraw⟩ := nextLine_some_iff.mp h
    exact nextLine_some_iff.mpr ⟨raw,by rw [List.append_assoc,List.cons_append],hraw⟩

-- The loop of `Feed` hands on the frames of the buffer and keeps what is left of it.
theorem feedLines_frames (handle : σ → List UInt8 → σ × List ρ) (fuel : Nat) (p : SseParser σ) :
    feedLines handle fuel p =
      (⟨(lineFraming.framesFrom fuel p.buffer).2,
          (handleAll handle p.state (lineFraming.framesFrom fuel p.buffer).1).1⟩,
        (handleAll handle p.state (lineFraming.framesFrom fuel p.buffer).1).2) := by
  induction fuel generalizing p with
  | zero => rfl
  | succ fuel ih =>
      rw [feedLines,framesFrom]
      have hnext : lineFraming.next p.buffer = nextLine p.buffer := rfl
      rw [hnext]
      cases nextLine p.buffer with
      | none => rfl
      | some found =>
          obtain ⟨line,rest⟩ := found
          dsimp only
          rw [ih]
          rfl

theorem feed_frames (handle : σ → List UInt8 → σ × List ρ) (p : SseParser σ)
    (data : List UInt8) : feed handle p data =
      (⟨(lineFraming.frames (p.buffer ++ data)).2,
          (handleAll handle p.state (lineFraming.frames (p.buffer ++ data)).1).1⟩,
        (handleAll handle p.state (lineFraming.frames (p.buffer ++ data)).1).2) :=
  feedLines_frames handle _ _

-- However a stream is split, what was handed on is what its frames give.
theorem feedAll_frames (handle : σ → List UInt8 → σ × List ρ) (s : σ) (seen : List UInt8)
    (chunks : List (List UInt8)) :
    let before := lineFraming.frames seen
    let after := lineFraming.frames (seen ++ chunks.flatten)
    let fed := feedAll handle ⟨before.2,(handleAll handle s before.1).1⟩ chunks
    fed.1 = ⟨after.2,(handleAll handle s after.1).1⟩ ∧
      (handleAll handle s before.1).2 ++ fed.2 = (handleAll handle s after.1).2 := by
  induction chunks generalizing seen with
  | nil =>
      dsimp only
      rw [List.flatten_nil,List.append_nil,feedAll,List.append_nil]
      exact ⟨rfl,rfl⟩
  | cons data chunks ih =>
      obtain ⟨hstate,hreports⟩ := ih (seen ++ data)
      dsimp only at hstate hreports ⊢
      rw [List.flatten_cons,← List.append_assoc,← hstate,← hreports]
      rw [frames_append lineFraming seen data,handleAll_append,feedAll,feed_frames]
      exact ⟨rfl,(List.append_assoc _ _ _).symm⟩

theorem feedAll_start (handle : σ → List UInt8 → σ × List ρ) (s : σ) (chunks : List (List UInt8)) :
    feedAll handle { state := s } chunks =
      (⟨(lineFraming.frames chunks.flatten).2,
          (handleAll handle s (lineFraming.frames chunks.flatten).1).1⟩,
        (handleAll handle s (lineFraming.frames chunks.flatten).1).2) := by
  have h := feedAll_frames handle s [] chunks
  exact Prod.ext h.1 h.2

theorem parse_chunks_agree (parses : List UInt8 → Bool) (bare hasRetry : Bool)
    {chunks chunks' : List (List UInt8)} (h : chunks.flatten = chunks'.flatten) :
    parse parses { bareLinesAreEvents := bare, hasRetry := hasRetry } chunks =
      parse parses { bareLinesAreEvents := bare, hasRetry := hasRetry } chunks' := by
  unfold parse
  rw [feedAll_start,feedAll_start,h]

-- A byte at a time, as a socket may deliver it: half a character, half a line end, half a name.
theorem parse_bytewise_agrees :
    parse (fun _ => true) {} [[0x64, 0x61], [0x74, 0x61, 0x3A, 0xC3], [0xA9, 0x0D], [0x0A, 0x0D, 0x0A]] =
      parse (fun _ => true) {} [[0x64, 0x61, 0x74, 0x61, 0x3A, 0xC3, 0xA9, 0x0D, 0x0A, 0x0D, 0x0A]] :=
  parse_chunks_agree (fun _ => true) false false rfl

end Sse

end PuCli
