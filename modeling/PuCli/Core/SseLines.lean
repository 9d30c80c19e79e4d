import PuCli.Core.SseChunks
import PuCli.Library.Lines

namespace PuCli

namespace Sse

open Framing

variable {raw rest stream : List UInt8}

-- The calls of `HandleLine` alone: the parser's loop around a handler that notes its argument.
def noteLine (_ : Unit) (line : List UInt8) : Unit × List (List UInt8) := ((),[line])

def handledLines (chunks : List (List UInt8)) : List (List UInt8) :=
  let fed := feedAll noteLine { state := () } chunks
  fed.2 ++ (closeLine noteLine fed.1).2

-- The lines the stream is made of, each without its line end.
def streamLines (stream : List UInt8) : List (List UInt8) :=
  (Lines.split kNewline stream).map stripReturn

def closing (buffer : List UInt8) : List (List UInt8) :=
  if buffer.isEmpty then []
  else if Utf8.endsWithPartialSequence (stripReturn buffer) then [] else [stripReturn buffer]

theorem handleAll_noteLine (lines : List (List UInt8)) :
    handleAll noteLine () lines = ((),lines) := by
  induction lines with
  | nil => rfl
  | cons line lines ih =>
      rw [handleAll]
      exact congrArg (fun noted => ((),line :: noted)) (congrArg Prod.snd ih)

theorem closeLine_note (buffer : List UInt8) :
    (closeLine noteLine ⟨buffer,()⟩).2 = closing buffer := by
  rw [closeLine,closing]
  dsimp only
  split
  · rfl
  · split <;> rfl

theorem handledLines_eq (chunks : List (List UInt8)) : handledLines chunks =
    (lineFraming.frames chunks.flatten).1 ++ closing (lineFraming.frames chunks.flatten).2 := by
  rw [handledLines,feedAll_start,handleAll_noteLine]
  dsimp only
  rw [closeLine_note]

theorem closeLine_closing {σ ρ : Type} (handle : σ → List UInt8 → σ × List ρ) (buffer : List UInt8)
    (s : σ) : closeLine handle ⟨buffer,s⟩ = handleAll handle s (closing buffer) := by
  rw [closeLine,closing]
  dsimp only
  split
  · rfl
  · split
    · rfl
    · rw [handleAll,handleAll,List.append_nil]

-- What a parse reports depends on the stream through the lines handed to `HandleLine` alone.
theorem parse_handledLines (parses : List UInt8 → Bool) (s : Frame) (chunks : List (List UInt8)) :
    parse parses s chunks =
      (handleAll (handleLine parses) s (handledLines chunks)).2 ++
        (dispatch (handleAll (handleLine parses) s (handledLines chunks)).1).2 := by
  rw [handledLines_eq,handleAll_append,parse,feedAll_start]
  dsimp only
  rw [finish,closeLine_closing,List.append_assoc]

theorem streamLines_cons (h : kNewline ∉ raw) (rest : List UInt8) :
    streamLines (raw ++ kNewline :: rest) = stripReturn raw :: streamLines rest := by
  rw [streamLines,Lines.split_cons h]
  rfl

theorem streamLines_open (hne : stream ≠ []) (h : kNewline ∉ stream) :
    streamLines stream = [stripReturn stream] := by
  rw [streamLines,Lines.split_of_not_mem hne h]
  rfl

theorem newline_mem_stripReturn : kNewline ∈ stripReturn stream ↔ kNewline ∈ stream := by
  rw [stripReturn]
  split
  · next hlast =>
      obtain ⟨front,rfl⟩ := List.getLast?_eq_some_iff.mp hlast
      rw [List.dropLast_concat,List.mem_append]
      exact (or_iff_left (by decide)).symm
  · exact Iff.rfl

theorem frames_lines_iff (stream : List UInt8) :
    (lineFraming.frames stream).1 ++ closing (lineFraming.frames stream).2 = streamLines stream ↔
      ∀ line ∈ streamLines stream, Utf8.endsWithPartialSequence line = false := by
  induction hn : stream.length using Nat.strongRecOn generalizing stream with
  | ind n ih =>
      by_cases hmem : kNewline ∈ stream
      · obtain ⟨raw,rest,rfl,hraw⟩ := List.eq_append_cons_of_mem hmem
        have hnext := nextLine_closed hraw rest
        rw [streamLines_cons hraw,List.forall_mem_cons]
        by_cases hpart : Utf8.endsWithPartialSequence (stripReturn raw) = true
        · -- The first line waits for good, and what is closed at the end has a newline inside.
          rw [if_pos hpart] at hnext
          rw [frames_none hnext,List.nil_append]
          refine iff_of_false ?_ (fun h => by rw [hpart] at h; exact absurd h.1 (by decide))
          have hinside : kNewline ∈ stripReturn (raw ++ kNewline :: rest) :=
            newline_mem_stripReturn.mpr hmem
          intro h
          rw [closing] at h
          split at h
          · cases h
          · split at h
            · cases h
            · rw [(List.cons.inj h).1,newline_mem_stripReturn] at hinside
              exact hraw hinside
        · rw [if_neg hpart] at hnext
          rw [frames_some hnext,List.cons_append,List.cons_inj_right]
          have hshort : rest.length < n := by
            rw [← hn,List.length_append,List.length_cons]
            omega
          rw [ih rest.length hshort rest rfl]
          exact (and_iff_right (by simpa using hpart)).symm
      · have hnext : lineFraming.next stream = none := nextLine_open hmem
        rw [frames_none hnext,List.nil_append,closing]
        cases stream with
        | nil => exact iff_of_true rfl (List.forall_mem_nil _)
        | cons byte stream =>
            rw [streamLines_open (List.cons_ne_nil _ _) hmem,List.forall_mem_singleton]
            split
            · next hempty => cases hempty
            · split
              · next hpart => exact iff_of_false (List.cons_ne_nil _ _).symm (by simp [hpart])
              · next hpart => exact iff_of_true rfl (by simpa using hpart)

-- Each line is handed on, once and in order, as long as none ends inside a character.
theorem handledLines_iff (chunks : List (List UInt8)) :
    handledLines chunks = streamLines chunks.flatten ↔
      ∀ line ∈ streamLines chunks.flatten, Utf8.endsWithPartialSequence line = false := by
  rw [handledLines_eq]
  exact frames_lines_iff chunks.flatten

-- `a` with half a character, then `b`: one call, its argument both lines.
def brokenFirst : List UInt8 := [0x61, 0xC3, 0x0A, 0x62, 0x0A]

theorem handledLines_merged :
    handledLines [brokenFirst] = [[0x61, 0xC3, 0x0A, 0x62, 0x0A]] ∧
      streamLines brokenFirst = [[0x61, 0xC3], [0x62]] ∧
      handledLines [brokenFirst] ≠ streamLines brokenFirst := by
  decide

end Sse

end PuCli
