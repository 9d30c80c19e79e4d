import Mathlib.Data.List.GetD
import PuCli.Exec.Capture
import PuCli.Paging.Pager

namespace PuCli

namespace Paging

open Exec

variable {buffer : Buffer} {anchor : Anchor} {n start : Nat}

theorem zero_cons_indexLinesFrom (position : Nat) {text : List UInt8} (hne : text ≠ []) :
    position :: indexLinesFrom position text =
      Lines.offsets position (Lines.pieces kNewline text) := by
  induction text generalizing position with
  | nil => exact absurd rfl hne
  | cons byte rest ih =>
      cases rest with
      | nil =>
          by_cases hb : byte = kNewline <;>
            simp [indexLinesFrom,Lines.pieces,Lines.offsets,hb]
      | cons next rest =>
          have hnext := ih (position + 1) (List.cons_ne_nil next rest)
          rw [indexLinesFrom]
          by_cases hb : byte = kNewline
          · subst hb
            rw [if_pos rfl,Lines.pieces_sep,Lines.offsets,List.length_singleton,← hnext]
            rfl
          · obtain ⟨piece,later,hp⟩ :=
              @Lines.exists_pieces _ _ kNewline _ (List.cons_ne_nil next rest)
            rw [hp,Lines.offsets] at hnext
            rw [if_neg hb,List.nil_append,Lines.pieces_cons hb hp,Lines.offsets,List.length_cons,
              (List.cons.inj hnext).2]
            congr 2
            omega

theorem indexLines_eq (text : List UInt8) :
    indexLines text = Lines.offsets 0 (Lines.pieces kNewline text) := by
  cases text with
  | nil => rfl
  | cons byte rest =>
      rw [indexLines,List.isEmpty_cons,if_neg (by simp)]
      exact zero_cons_indexLinesFrom 0 (List.cons_ne_nil byte rest)

namespace Buffer

def held (b : Buffer) : List (List UInt8) := Lines.split kNewline b.text

theorem length_held (b : Buffer) : b.held.length = b.lines := by
  rw [held,Lines.length_split,lines,lineStarts,indexLines_eq,Lines.length_offsets]

theorem lines_eq_countLines (b : Buffer) : b.lines = countLines b.text := by
  rw [← length_held,held,Lines.length_split,countLines_eq]

theorem line_eq (b : Buffer) {index : Nat} (h : index < b.held.length) :
    b.line index = b.held[index] := by
  let ps := Lines.pieces kNewline b.text
  have hps : index < ps.length := by rwa [held,Lines.length_split] at h
  have htext : ps.flatten = b.text := Lines.flatten_pieces kNewline b.text
  have hstarts : b.lineStarts = Lines.offsets 0 ps := indexLines_eq b.text
  have hstart : b.lineStarts.getD index 0 = (ps.take index).flatten.length := by
    have hget := Lines.getD_offsets 0 ps hps.le
    rw [hstarts,List.getD_eq_getElem _ _ (by rwa [Lines.length_offsets])]
    rwa [List.getD_eq_getElem _ _ (by rwa [Lines.length_offsets]),Nat.zero_add] at hget
  have hstop : b.lineStarts.getD (index + 1) b.text.length =
      (ps.take index).flatten.length + ps[index].length := by
    have hget := Lines.getD_offsets 0 ps (Nat.succ_le_of_lt hps)
    rw [htext,Nat.zero_add,Nat.zero_add,List.take_succ_eq_append_getElem hps,List.flatten_append,
      List.flatten_singleton,List.length_append] at hget
    rw [hstarts,hget]
  have hpiece := Lines.drop_take_flatten ps hps
  rw [htext] at hpiece
  rw [line]
  simp only [hstart,hstop,Nat.add_sub_cancel_left,hpiece]
  exact (List.getElem_map (Lines.chop kNewline)).symm

end Buffer

-- The lines a page shows, as positions in its buffer.
def shown (buffer : Buffer) (n start : Nat) : List (List UInt8) := (buffer.held.drop start).take n

theorem flatMap_line (b : Buffer) (start count : Nat) (h : start + count ≤ b.held.length) :
    (List.range' start count).flatMap (fun index => b.line index ++ [kNewline]) =
      ((b.held.drop start).take count).flatMap (fun line => line ++ [kNewline]) := by
  induction count generalizing start with
  | zero => simp
  | succ count ih =>
      have hlt : start < b.held.length := by omega
      rw [List.range'_succ,List.flatMap_cons,ih (start + 1) (by omega),b.line_eq hlt,
        List.drop_eq_getElem_cons hlt,List.take_succ_cons,List.flatMap_cons]

theorem read_empty (h : buffer.lines ≤ startOf buffer.lines n anchor ∨ n = 0) :
    read buffer anchor n = {} := by
  unfold read
  dsimp only
  split
  · rfl
  · next hne => exact if_pos (h.resolve_right (fun hn => hne (.inr hn)))

structure PageAt (buffer : Buffer) (n start : Nat) (page : Page) : Prop where
  text : page.text = (shown buffer n start).flatMap (fun line => line ++ [kNewline])
  first : page.first = start + 1 + buffer.extent.skipped
  last : page.last = min buffer.lines (start + n) + buffer.extent.skipped
  earlier : page.earlier =
    if 0 < start then some ⟨buffer.id, if n < start then start - n else 0⟩ else none
  later : page.later =
    if start + n < buffer.lines then some ⟨buffer.id, start + n⟩ else none

theorem pageAt_read (hn : 0 < n) (h : startOf buffer.lines n anchor < buffer.lines) :
    PageAt buffer n (startOf buffer.lines n anchor) (read buffer anchor n) := by
  unfold read
  dsimp only
  rw [if_neg (by omega),if_neg (by omega)]
  generalize startOf buffer.lines n anchor = start at h
  have hlen := buffer.length_held
  refine ⟨?_,rfl,rfl,rfl,?_⟩
  · dsimp only
    rw [flatMap_line buffer start _ (by omega),shown]
    congr 1
    conv_rhs => rw [List.take_eq_take_min]
    rw [List.length_drop]
    congr 1
    omega
  · dsimp only
    by_cases hl : start + n < buffer.lines
    · rw [if_pos (by omega),if_pos hl,Nat.min_eq_right hl.le]
    · rw [if_neg (by omega),if_neg hl]

theorem length_shown (buffer : Buffer) (n start : Nat) :
    (shown buffer n start).length = min n (buffer.lines - start) := by
  rw [shown,List.length_take,List.length_drop,buffer.length_held]

theorem held_of_shown {i : Nat} {line : List UInt8} (h : (shown buffer n start)[i]? = some line) :
    buffer.held[start + i]? = some line := by
  rw [shown,List.getElem?_take] at h
  split at h
  · rwa [List.getElem?_drop] at h
  · cases h

end Paging

end PuCli
