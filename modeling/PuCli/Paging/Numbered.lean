import PuCli.Paging.Lines

namespace PuCli

namespace Paging

open Exec

variable {maxBytes p : Nat} {keep : Keep} {stream text front rest : List UInt8}

-- A line as a page shows it, at its place in the command's output.
inductive Shows (cut : Keep → List UInt8 → Prop) (keep : Keep) (output : List (List UInt8))
    (retained index : Nat) (line : List UInt8) : Prop
  | whole (h : output[index]? = some line)
  | back {whole : List UInt8} (hk : keep = .kEnd) (hfirst : index + retained = output.length)
      (h : output[index]? = some whole) (hs : line <:+ whole) (hcut : cut keep whole)
  | front {whole : List UInt8} (hk : keep = .kHead) (hlast : index + 1 = retained)
      (h : output[index]? = some whole) (hs : line <+: whole) (hcut : cut keep whole)

inductive Numbered (cut : Keep → List UInt8 → Prop) (keep : Keep) (output : List (List UInt8))
    (retained : Nat) (page : Page) : Prop
  | empty (h : page = {})
  | lines {index : Nat} {lines : List (List UInt8)} (hfirst : page.first = index + 1)
      (hlast : page.last = index + lines.length)
      (htext : page.text = lines.flatMap (fun line => line ++ [kNewline]))
      (hlines : ∀ (i : Nat) (line : List UInt8), lines[i]? = some line →
        Shows cut keep output retained (index + i) line)

def Over (maxBytes : Nat) (_ : Keep) (whole : List UInt8) : Prop := maxBytes < whole.length

def OverOrPartial (maxBytes : Nat) (keep : Keep) (whole : List UInt8) : Prop :=
  maxBytes < whole.length ∨
    keep = .kHead ∧ whole.length = maxBytes ∧ Utf8.endsWithPartialSequence whole = true

def skippedLines (keep : Keep) (stream text : List UInt8) : Nat :=
  if keep = .kEnd then countLines stream - countLines text else 0

-- Every line of a kept text, where its number puts it.
def Placed (maxBytes : Nat) (keep : Keep) (stream text : List UInt8) : Prop :=
  ∀ (i : Nat) (line : List UInt8), (Lines.split kNewline text)[i]? = some line →
    Shows (OverOrPartial maxBytes) keep (Lines.split kNewline stream) (countLines text)
      (skippedLines keep stream text + i) line

theorem length_split (text : List UInt8) : (Lines.split kNewline text).length = countLines text := by
  rw [Lines.length_split,countLines_eq]

theorem placed_whole (keep : Keep) (stream : List UInt8) : Placed maxBytes keep stream stream := by
  intro i line h
  have hskip : skippedLines keep stream stream = 0 := by
    unfold skippedLines
    split <;> omega
  refine .whole ?_
  rw [hskip,Nat.zero_add]
  exact h

theorem placed_front (hc : Lines.Closed kNewline text) :
    Placed maxBytes .kHead (text ++ rest) text := by
  intro i line h
  have hskip : skippedLines .kHead (text ++ rest) text = 0 := if_neg (by simp)
  refine .whole ?_
  rw [hskip,Nat.zero_add,Lines.split_closed hc,
    List.getElem?_append_left (List.getElem?_eq_some_iff.mp h).1]
  exact h

theorem placed_back (hc : Lines.Closed kNewline front) :
    Placed maxBytes .kEnd (front ++ text) text := by
  intro i line h
  have hskip : skippedLines .kEnd (front ++ text) text = countLines front := by
    rw [skippedLines,if_pos rfl,countLines_closed hc]
    omega
  refine .whole ?_
  rw [hskip,Lines.split_closed hc,← length_split,List.getElem?_append_right (by omega),
    Nat.add_sub_cancel_left]
  exact h

theorem placed_nil (keep : Keep) (stream : List UInt8) : Placed maxBytes keep stream [] := by
  intro i line h
  cases h

theorem eq_of_singleton {i : Nat} {line : List UInt8} (h : [text][i]? = some line) :
    i = 0 ∧ text = line := by
  cases i with
  | zero => exact ⟨rfl,Option.some.inj h⟩
  | succ i => cases h

theorem popPartial_eq_self_or (fuel : Nat) (text : List UInt8) :
    Capture.popPartial fuel text = text ∨ Utf8.endsWithPartialSequence text = true := by
  cases fuel with
  | zero => exact .inl rfl
  | succ fuel =>
      rw [Capture.popPartial]
      split
      · next h => exact .inr h.2
      · exact .inl rfl

-- No newline among the first bytes: what is kept of them is the front of the first line.
theorem placed_open_head (hlt : maxBytes < stream.length)
    (hfree : kNewline ∉ stream.take maxBytes) :
    Placed maxBytes .kHead stream (Capture.trimmed (stream.take maxBytes)) := by
  have hlen : (stream.take maxBytes).length = maxBytes := List.length_take_of_le hlt.le
  obtain ⟨tail,htail,-⟩ := popPartial_prefix (stream.take maxBytes).length (stream.take maxBytes)
  have hpop := popPartial_eq_self_or (stream.take maxBytes).length (stream.take maxBytes)
  rw [trimmed_of_not_mem hfree]
  generalize Capture.popPartial (stream.take maxBytes).length (stream.take maxBytes) = text
    at htail hpop
  by_cases hne : text = []
  · rw [hne]
    exact placed_nil _ _
  have hopen : kNewline ∉ text := fun h => hfree (htail ▸ List.mem_append_left _ h)
  have hrest : stream.drop maxBytes ≠ [] := by
    intro hnil
    have := congrArg List.length hnil
    simp at this
    omega
  obtain ⟨piece,later,hp⟩ := @Lines.exists_pieces _ _ kNewline _ hrest
  have hsplit : Lines.split kNewline stream =
      (stream.take maxBytes ++ Lines.chop kNewline piece) :: later.map (Lines.chop kNewline) := by
    have := Lines.split_open hfree hp
    rwa [List.take_append_drop] at this
  intro i line h
  rw [Lines.split_of_not_mem hne hopen] at h
  obtain ⟨rfl,rfl⟩ := eq_of_singleton h
  have hone : countLines text = 1 := countLines_open hne hopen
  have hskip : skippedLines .kHead stream text = 0 := if_neg (by simp)
  rw [hskip,hsplit,hone]
  by_cases hend : Lines.chop kNewline piece = []
  · rw [hend,List.append_nil]
    obtain hwhole | hpart := hpop
    · exact .whole (congrArg some hwhole.symm)
    · exact .front rfl rfl rfl ⟨tail,htail.symm⟩ (.inr ⟨rfl,hlen,hpart⟩)
  · have hpos := List.length_pos_of_ne_nil hend
    refine .front rfl rfl rfl ?_ (.inl ?_)
    · rw [htail,List.append_assoc]
      exact List.prefix_append _ _
    · rw [List.length_append,hlen]
      omega

theorem placed_open_end (hm : 0 < maxBytes) (hlt : maxBytes < stream.length)
    (hfree : kNewline ∉ stream.drop (stream.length - maxBytes)) :
    Placed maxBytes .kEnd stream (stream.drop (stream.length - maxBytes)) := by
  have hlen : (stream.drop (stream.length - maxBytes)).length = maxBytes := by
    rw [List.length_drop]
    omega
  obtain ⟨front,tail,hsplit,hc,hopen⟩ :=
    Lines.exists_open_tail kNewline (stream.take (stream.length - maxBytes))
  have hstream : stream = front ++ (tail ++ stream.drop (stream.length - maxBytes)) := by
    rw [← List.append_assoc,← hsplit,List.take_append_drop]
  generalize stream.drop (stream.length - maxBytes) = text at hfree hlen hstream ⊢
  have hne : text ≠ [] := by
    rintro rfl
    exact hm.ne hlen
  subst hstream
  have hback : kNewline ∉ tail ++ text := by simp [hopen,hfree]
  have hlast : tail ++ text ≠ [] := by simp [hne]
  have hone : countLines text = 1 := countLines_open hne hfree
  have hskip : skippedLines .kEnd (front ++ (tail ++ text)) text = countLines front := by
    rw [skippedLines,if_pos rfl,countLines_closed hc,countLines_open hlast hback,hone]
    omega
  intro i line h
  rw [Lines.split_of_not_mem hne hfree] at h
  obtain ⟨rfl,rfl⟩ := eq_of_singleton h
  have hat : (Lines.split kNewline (front ++ (tail ++ text)))[countLines front + 0]? =
      some (tail ++ text) := by
    rw [Lines.split_closed hc,Lines.split_of_not_mem hlast hback,← length_split,Nat.add_zero,
      List.getElem?_concat_length]
  rw [hskip,hone]
  cases tail with
  | nil => exact .whole hat
  | cons byte tail =>
      refine .back rfl ?_ hat ⟨byte :: tail,rfl⟩ (.inl ?_)
      · rw [length_split,countLines_closed hc,countLines_open hlast hback]
      · rw [List.length_append,hlen,List.length_cons]
        omega

theorem placed_taken (h : Taken maxBytes stream keep text) : Placed maxBytes keep stream text := by
  cases h with
  | all hm => exact placed_whole keep stream
  | head hm hle => exact placed_whole .kHead stream
  | headTrimmed hm hlt =>
      by_cases hmem : kNewline ∈ stream.take maxBytes
      · obtain ⟨tail,htail,-,hlast⟩ := trimmed_of_mem hmem
        have hsplit : stream = Capture.trimmed (stream.take maxBytes) ++
            (tail ++ stream.drop maxBytes) := by
          rw [← List.append_assoc,← htail,List.take_append_drop]
        generalize Capture.trimmed (stream.take maxBytes) = text at hsplit hlast ⊢
        rw [hsplit]
        exact placed_front (.inr hlast)
      · exact placed_open_head hlt hmem
  | @tail p hm hs =>
      have hbehind {p : Nat} (hc : (stream.take p).getLast? = some kNewline) :
          Placed maxBytes .kEnd stream (stream.drop p) := by
        have := @placed_back maxBytes (stream.drop p) (stream.take p) (.inr hc)
        rwa [List.take_append_drop] at this
      cases hs with
      | whole hfew => exact placed_whole .kEnd stream
      | filled hmuch hline => exact hbehind hline
      | dropped hmuch =>
          have hp := droppedTo_dropAt maxBytes stream
          generalize dropAt maxBytes stream = p at hp
          cases hp with
          | inside hfree => exact placed_open_end hm (by omega) hfree
          | behind hcut hk hfirst =>
              obtain ⟨hlt,-⟩ := List.getElem?_eq_some_iff.mp hk
              exact hbehind ((getLast?_take_succ hlt).trans hk)

theorem skipped_capture (maxBytes : Nat) (keep : Keep) (chunks : List (List UInt8)) :
    (capture maxBytes keep chunks).extent.skipped =
      skippedLines keep chunks.flatten (capture maxBytes keep chunks).text := by
  have he := capture_extent maxBytes keep chunks
  rw [Extent.skipped,he,skippedLines]
  by_cases hk : keep = .kEnd
  · simp only [hk,decide_true,true_and,if_true]
    split <;> omega
  · simp [hk]

theorem pages_numbered (maxBytes : Nat) (keep : Keep) (chunks : List (List UInt8)) (pager : Pager)
    (verdict : Verdict) (sourceKey : String) (anchor : Anchor) (n : Nat) :
    let buffer := (pager.store (capture maxBytes keep chunks) verdict sourceKey).1
    buffer.lines = buffer.extent.retained ∧
      Numbered (OverOrPartial maxBytes) keep (Lines.split kNewline chunks.flatten) buffer.lines
        (read buffer anchor n) := by
  intro buffer
  have htext : buffer.text = (capture maxBytes keep chunks).text := rfl
  have hextent : buffer.extent = (capture maxBytes keep chunks).extent := rfl
  have hretained : buffer.lines = countLines buffer.text := buffer.lines_eq_countLines
  have hplaced : Placed maxBytes keep chunks.flatten buffer.text :=
    placed_taken (htext ▸ capture_taken maxBytes keep chunks)
  have hskipped : buffer.extent.skipped = skippedLines keep chunks.flatten buffer.text := by
    rw [hextent,skipped_capture,htext]
  refine ⟨?_,?_⟩
  · rw [hretained,hextent,capture_extent,htext]
  · by_cases hpage : 0 < n ∧ startOf buffer.lines n anchor < buffer.lines
    · obtain ⟨htext,hfirst,hlast,-,-⟩ := pageAt_read hpage.1 hpage.2
      generalize startOf buffer.lines n anchor = start at hpage htext hfirst hlast
      refine @Numbered.lines _ _ _ _ _ (buffer.extent.skipped + start) _ (by omega) ?_ htext ?_
      · rw [hlast,length_shown]
        omega
      · intro i line h
        have hline := hplaced (start + i) line (held_of_shown h)
        rwa [← hskipped,← hretained,← Nat.add_assoc] at hline
    · exact .empty (read_empty (by omega))

-- A line as long as the budget that ends in half a sequence is shown without that half.
theorem page_shows_part_of_fitting_line :
    ¬ Numbered (Over 2) .kHead (Lines.split kNewline [0x61, 0xE2, 0x0A])
      1 (read ((⟨[], 0, {}, "1a2b", 1, 1⟩ : Pager).store (capture 2 .kHead [[0x61, 0xE2, 0x0A]])
        { command := "printf" } "").1 .head 1) := by
  intro h
  cases h with
  | empty h => exact absurd (congrArg Page.text h) (by decide)
  | @lines index lines hfirst hlast htext hlines =>
      have hzero : 1 = index + 1 := hfirst
      obtain rfl : index = 0 := by omega
      have hone : 1 = 0 + lines.length := hlast
      obtain ⟨line,rfl⟩ := List.length_eq_one_iff.mp (by omega : lines.length = 1)
      have hshown : [0x61] ++ [kNewline] = line ++ [kNewline] := by
        rw [List.flatMap_singleton] at htext
        exact htext
      obtain rfl := List.append_cancel_right hshown
      cases hlines 0 [0x61] rfl with
      | whole h => exact absurd h (by decide)
      | back hk => cases hk
      | front hk hlast h hs hcut =>
          obtain rfl := Option.some.inj h
          exact Nat.lt_irrefl 2 hcut

end Paging

end PuCli
