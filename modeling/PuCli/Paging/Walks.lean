import PuCli.Library.Trail
import PuCli.Paging.Lines

namespace PuCli

namespace Paging

variable {buffer : Buffer} {anchor : Anchor} {page : Page} {n start : Nat}

theorem parseDigits_toDigits (n : Nat) : parseDigits (Nat.toDigits 10 n) = some n := by
  have hdigits : (Nat.toDigits 10 n).all Char.isDigit = true :=
    List.all_eq_true.mpr (fun c hc => Nat.isDigit_of_mem_toDigits (by decide) (by decide) hc)
  have hvalue : (Nat.toDigits 10 n).foldl (fun line c => line * 10 + (c.toNat - '0'.toNat)) 0 = n := by
    simp only [Nat.mul_comm _ 10]
    rw [← Nat.ofDigitChars_eq_foldl,Nat.ofDigitChars_ten_toDigits]
  rw [parseDigits,if_pos hdigits,hvalue]

theorem colon_not_mem_toDigits (n : Nat) : ':' ∉ Nat.toDigits 10 n := by
  intro h
  exact absurd (Nat.isDigit_of_mem_toDigits (by decide) (by decide) h) (by decide)

theorem toList_toText (c : Cursor) :
    c.toText.toList = c.buffer.toList ++ ':' :: Nat.toDigits 10 c.line := by
  rw [Cursor.toText,String.toList_append,String.toList_append,List.append_assoc]
  exact congrArg _ (congrArg _ Nat.toList_repr)

theorem cursor_parse_toText (c : Cursor) (hb : c.buffer ≠ "") (hl : c.line < 10 ^ 12) :
    Cursor.parse c.toText = some c := by
  have hfree : ∀ d ∈ (Nat.toDigits 10 c.line).reverse, decide (d ≠ ':') = true := by
    intro d hd
    refine decide_eq_true ?_
    rintro rfl
    exact colon_not_mem_toDigits _ (List.mem_reverse.mp hd)
  have hreversed : c.toText.toList.reverse =
      (Nat.toDigits 10 c.line).reverse ++ (':' :: c.buffer.toList.reverse) := by
    rw [toList_toText]
    simp
  have hcolon : ':' ∈ c.toText.toList := by
    rw [toList_toText]
    simp
  have hlen : (Nat.toDigits 10 c.line).length ≤ 12 :=
    (Nat.length_toDigits_le_iff (by decide) (by decide)).mpr hl
  have hname : c.buffer.toList.reverse ≠ [] := by
    simpa using hb
  rw [Cursor.parse]
  simp only [hreversed,List.takeWhile_append_of_pos hfree,List.dropWhile_append_of_pos hfree]
  have hstop : (':' :: c.buffer.toList.reverse).takeWhile (fun d => d ≠ ':') = [] := by simp
  have hrest : (':' :: c.buffer.toList.reverse).dropWhile (fun d => d ≠ ':') =
      ':' :: c.buffer.toList.reverse := by simp
  rw [hstop,hrest,List.append_nil,List.reverse_reverse,List.drop_succ_cons,List.drop_zero,
    if_neg (by simp [hcolon,hname,Nat.toDigits_ne_nil]),if_neg (by omega),parseDigits_toDigits]
  simp

theorem anchor_parse_toText (c : Cursor) (hb : c.buffer ≠ "") (hl : c.line < 10 ^ 12) :
    Anchor.parse c.toText = some (.cursor c) := by
  have hcolon : ':' ∈ c.toText.toList := by
    rw [toList_toText]
    simp
  have hhead : c.toText ≠ "head" := by
    intro h
    rw [h] at hcolon
    exact absurd hcolon (by decide)
  have htail : c.toText ≠ "tail" := by
    intro h
    rw [h] at hcolon
    exact absurd hcolon (by decide)
  rw [Anchor.parse,if_neg hhead,if_neg htail,cursor_parse_toText c hb hl]
  rfl

-- The lines a page shows, under the numbers it gives them; an empty page gives none.
def Page.numbers (page : Page) : List Nat :=
  if page.first = 0 then [] else List.range' page.first (page.last + 1 - page.first)

def Buffer.numbers (b : Buffer) : List Nat := List.range' (b.extent.skipped + 1) b.lines

-- The page a printed cursor opens.
def neighbour (way : Page → Option Cursor) (buffer : Buffer) (n : Nat) (page : Page) :
    Option Page :=
  ((way page).bind (fun c => Anchor.parse c.toText)).map (fun anchor => read buffer anchor n)

theorem numbers_pageAt (h : PageAt buffer n start page) (hs : start < buffer.lines) :
    page.numbers =
      List.range' (buffer.extent.skipped + 1 + start) (min n (buffer.lines - start)) := by
  have hfirst := h.first
  have hcount : page.last + 1 - page.first = min n (buffer.lines - start) := by
    rw [h.first,h.last]
    omega
  rw [Page.numbers,if_neg (by omega),hcount,h.first]
  congr 1
  omega

theorem mem_numbers_pageAt (h : PageAt buffer n start page) (hs : start < buffer.lines) {k : Nat} :
    k ∈ page.numbers ↔ buffer.extent.skipped + 1 + start ≤ k ∧
      k < buffer.extent.skipped + 1 + min buffer.lines (start + n) := by
  rw [numbers_pageAt h hs,List.mem_range'_1]
  omega

theorem pageAt_cursor (hn : 0 < n) {line : Nat} (h : line < buffer.lines) (id : String) :
    PageAt buffer n line (read buffer (.cursor ⟨id, line⟩) n) :=
  @pageAt_read buffer (.cursor ⟨id, line⟩) n hn h

theorem read_or_pageAt (hn : 0 < n) (buffer : Buffer) (anchor : Anchor) :
    read buffer anchor n = {} ∨ startOf buffer.lines n anchor < buffer.lines ∧
      PageAt buffer n (startOf buffer.lines n anchor) (read buffer anchor n) := by
  by_cases hs : startOf buffer.lines n anchor < buffer.lines
  · exact .inr ⟨hs,pageAt_read hn hs⟩
  · exact .inl (read_empty (by omega))

-- What a page says of itself and of the pages beside it.
structure Charted (buffer : Buffer) (n : Nat) (page : Page) : Prop where
  text : page.text =
    page.numbers.flatMap (fun k => buffer.line (k - (buffer.extent.skipped + 1)) ++ [kNewline])
  within : ∀ k ∈ page.numbers, k ∈ buffer.numbers
  cursors : ∀ c : Cursor, page.earlier = some c ∨ page.later = some c →
    Cursor.parse c.toText = some c ∧ Anchor.parse c.toText = some (.cursor c) ∧
      c.buffer = buffer.id ∧ (read buffer (.cursor c) n).numbers ≠ []
  earlier : page.numbers ≠ [] → page.earlier = none → buffer.extent.skipped + 1 ∈ page.numbers
  later : page.numbers ≠ [] → page.later = none →
    buffer.extent.skipped + buffer.lines ∈ page.numbers

theorem charted_empty : Charted buffer n {} := by
  refine ⟨rfl,?_,?_,fun h => absurd rfl h,fun h => absurd rfl h⟩
  · intro k hk
    cases hk
  · rintro c (h | h) <;> cases h

section Walk

variable (hid : buffer.id ≠ "") (hlines : buffer.lines < 10 ^ 12) (hn : 0 < n)

include hn in
theorem read_cursor_numbers {line : Nat} (h : line < buffer.lines) (id : String) :
    (read buffer (.cursor ⟨id, line⟩) n).numbers ≠ [] := by
  rw [numbers_pageAt (pageAt_cursor hn h id) h]
  refine List.ne_nil_of_length_pos ?_
  rw [List.length_range']
  omega

include hid hlines hn in
theorem charted_pageAt (h : PageAt buffer n start page) (hs : start < buffer.lines) :
    Charted buffer n page := by
  have hnumbers := numbers_pageAt h hs
  have hcursor {line : Nat} (hl : line < buffer.lines) {c : Cursor} (hc : ⟨buffer.id, line⟩ = c) :
      Cursor.parse c.toText = some c ∧ Anchor.parse c.toText = some (.cursor c) ∧
        c.buffer = buffer.id ∧ (read buffer (.cursor c) n).numbers ≠ [] := by
    subst hc
    have hlt := hl.trans hlines
    exact ⟨cursor_parse_toText _ hid hlt,anchor_parse_toText _ hid hlt,rfl,
      read_cursor_numbers hn hl buffer.id⟩
  refine ⟨?_,?_,?_,?_,?_⟩
  · have hlen := buffer.length_held
    have hheld := flatMap_line buffer start (min n (buffer.lines - start)) (by omega)
    rw [h.text,hnumbers,← List.map_add_range',List.flatMap_map]
    simp only [Nat.add_sub_cancel_left]
    rw [hheld,shown,List.take_eq_take_min,List.length_drop,hlen]
  · intro k hk
    obtain ⟨hlo,hhi⟩ := (mem_numbers_pageAt h hs).mp hk
    rw [Buffer.numbers,List.mem_range'_1]
    omega
  · rintro c (hc | hc)
    · rw [h.earlier] at hc
      split at hc
      · refine hcursor ?_ (Option.some.inj hc)
        split <;> omega
      · cases hc
    · rw [h.later] at hc
      split at hc
      · next hlt => exact hcursor hlt (Option.some.inj hc)
      · cases hc
  · intro _ hnone
    rw [h.earlier] at hnone
    have hzero : ¬ 0 < start := by
      intro hpos
      rw [if_pos hpos] at hnone
      cases hnone
    rw [mem_numbers_pageAt h hs]
    omega
  · intro _ hnone
    rw [h.later] at hnone
    have hend : ¬ start + n < buffer.lines := by
      intro hlt
      rw [if_pos hlt] at hnone
      cases hnone
    rw [mem_numbers_pageAt h hs]
    omega

include hid hlines hn in
theorem forward_walk (hs : start < buffer.lines) (hp : PageAt buffer n start page) :
    ∃ pages, Trail (neighbour Page.later buffer n) page pages ∧
      pages.flatMap Page.numbers =
        List.range' (buffer.extent.skipped + 1 + start) (buffer.lines - start) := by
  induction h : buffer.lines - start using Nat.strong_induction_on generalizing start page with
  | _ left ih =>
      subst h
      by_cases hlt : start + n < buffer.lines
      · obtain ⟨pages,htrail,hall⟩ := ih _ (by omega) hlt (pageAt_cursor hn hlt buffer.id) rfl
        refine ⟨page :: pages,.more ?_ htrail,?_⟩
        · rw [neighbour,hp.later,if_pos hlt,Option.bind_some,
            anchor_parse_toText _ hid (hlt.trans hlines)]
          rfl
        · rw [List.flatMap_cons,hall,numbers_pageAt hp hs,Nat.min_eq_left (by omega),
            ← Nat.add_assoc,List.range'_append_1]
          congr 1
          omega
      · refine ⟨[page],.last ?_,?_⟩
        · rw [neighbour,hp.later,if_neg hlt]
          rfl
        · rw [List.flatMap_singleton,numbers_pageAt hp hs,Nat.min_eq_right (by omega)]

include hid hlines hn in
theorem backward_walk (hs : start < buffer.lines) (hp : PageAt buffer n start page) :
    ∃ pages last, Trail (neighbour Page.earlier buffer n) page pages ∧
      pages.getLast? = some last ∧ last.first = buffer.extent.skipped + 1 ∧
      ∀ k, buffer.extent.skipped + 1 ≤ k →
        k < buffer.extent.skipped + 1 + min buffer.lines (start + n) →
        ∃ shown ∈ pages, k ∈ shown.numbers := by
  induction start using Nat.strong_induction_on generalizing page with
  | _ start ih =>
      by_cases hpos : 0 < start
      · let back := if n < start then start - n else 0
        have hback : back < start := by
          unfold back
          split <;> omega
        have hreach : start ≤ back + n := by
          unfold back
          split <;> omega
        have hlt : back < buffer.lines := hback.trans hs
        obtain ⟨pages,last,htrail,hlast,hfirst,hall⟩ :=
          ih back hback hlt (pageAt_cursor hn hlt buffer.id)
        refine ⟨page :: pages,last,.more ?_ htrail,?_,hfirst,?_⟩
        · rw [neighbour,hp.earlier,if_pos hpos,Option.bind_some,
            anchor_parse_toText _ hid (hlt.trans hlines)]
          rfl
        · rw [List.getLast?_cons,hlast]
          rfl
        · intro k hlo hhi
          by_cases hk : buffer.extent.skipped + 1 + start ≤ k
          · exact ⟨page,List.mem_cons_self,(mem_numbers_pageAt hp hs).mpr ⟨hk,hhi⟩⟩
          · obtain ⟨shown,hmem,hin⟩ := hall k hlo (by omega)
            exact ⟨shown,List.mem_cons_of_mem _ hmem,hin⟩
      · refine ⟨[page],page,.last ?_,rfl,?_,?_⟩
        · rw [neighbour,hp.earlier,if_neg hpos]
          rfl
        · rw [hp.first]
          omega
        · intro k hlo hhi
          refine ⟨page,List.mem_cons_self,(mem_numbers_pageAt hp hs).mpr ⟨by omega,hhi⟩⟩

end Walk

theorem numbers_nil (h : ¬ 0 < buffer.lines) : buffer.numbers = [] := by
  rw [Buffer.numbers,Nat.eq_zero_of_not_pos h]
  rfl

theorem trail_empty (way : Page → Option Cursor) (h : way {} = none) :
    Trail (neighbour way buffer n) {} [{}] := by
  refine .last ?_
  rw [neighbour,h]
  rfl

theorem walks_reach_every_line (pager : Pager) (captured : Exec.Captured) (verdict : Exec.Verdict)
    (sourceKey : String) {n : Nat} (hn : 0 < n)
    (hlines : (pager.store captured verdict sourceKey).1.lines < 10 ^ 12) :
    let buffer := (pager.store captured verdict sourceKey).1
    (∃ pages, Trail (neighbour Page.later buffer n) (read buffer .head n) pages ∧
      pages.flatMap Page.numbers = buffer.numbers) ∧
    (∃ pages, Trail (neighbour Page.earlier buffer n) (read buffer .tail n) pages ∧
      (∀ k ∈ buffer.numbers, ∃ page ∈ pages, k ∈ page.numbers) ∧
      (0 < buffer.lines → ∃ last, pages.getLast? = some last ∧
        last.first = buffer.extent.skipped + 1)) ∧
    ∀ anchor, Charted buffer n (read buffer anchor n) := by
  intro buffer
  have hid : buffer.id ≠ "" := pager.store_buffer_id_ne captured verdict sourceKey
  refine ⟨?_,?_,?_⟩
  · by_cases hpos : 0 < buffer.lines
    · have hhead : PageAt buffer n 0 (read buffer .head n) := @pageAt_read buffer .head n hn hpos
      obtain ⟨pages,htrail,hall⟩ := forward_walk hid hlines hn hpos hhead
      exact ⟨pages,htrail,hall⟩
    · have hempty : read buffer .head n = {} := read_empty (.inl (by omega))
      rw [hempty]
      exact ⟨[{}],trail_empty Page.later rfl,(numbers_nil hpos).symm⟩
  · by_cases hpos : 0 < buffer.lines
    · let start := if n < buffer.lines then buffer.lines - n else 0
      have hstart : start < buffer.lines := by
        unfold start
        split <;> omega
      have hreach : buffer.lines ≤ start + n := by
        unfold start
        split <;> omega
      have htail : PageAt buffer n start (read buffer .tail n) :=
        @pageAt_read buffer .tail n hn hstart
      obtain ⟨pages,last,htrail,hlast,hfirst,hall⟩ := backward_walk hid hlines hn hstart htail
      refine ⟨pages,htrail,?_,fun _ => ⟨last,hlast,hfirst⟩⟩
      intro k hk
      rw [Buffer.numbers,List.mem_range'_1] at hk
      exact hall k hk.1 (by omega)
    · have hempty : read buffer .tail n = {} := read_empty (.inl (by omega))
      rw [hempty,numbers_nil hpos]
      refine ⟨[{}],trail_empty Page.earlier rfl,?_,fun h => absurd h hpos⟩
      intro k hk
      cases hk
  · intro anchor
    obtain hempty | ⟨hs,hp⟩ := read_or_pageAt hn buffer anchor
    · rw [hempty]
      exact charted_empty
    · exact charted_pageAt hid hlines hn hp hs

-- Three lines read two at a time.
theorem walks_reach_every_line_of_three :
    let buffer := ((⟨[], 0, {}, "1a2b", 1, 1⟩ : Pager).store
      ⟨[0x61, 0x0A, 0x62, 0x0A, 0x63], ⟨3, 5, 3, false⟩⟩ { command := "printf" } "").1
    (∃ pages, Trail (neighbour Page.later buffer 2) (read buffer .head 2) pages ∧
      pages.flatMap Page.numbers = buffer.numbers) ∧
    (∃ pages, Trail (neighbour Page.earlier buffer 2) (read buffer .tail 2) pages ∧
      (∀ k ∈ buffer.numbers, ∃ page ∈ pages, k ∈ page.numbers) ∧
      (0 < buffer.lines → ∃ last, pages.getLast? = some last ∧
        last.first = buffer.extent.skipped + 1)) ∧
    ∀ anchor, Charted buffer 2 (read buffer anchor 2) :=
  walks_reach_every_line _ _ _ _ (by decide) (by decide)

end Paging

end PuCli
