import PuCli.Exec.Capture

namespace PuCli

namespace Exec

variable {maxBytes p q : Nat} {keep : Keep} {stream front rest text : List UInt8}

-- What a compaction late by up to a quarter leaves for Take.
def FitsBudget (maxBytes : Nat) (keep : Keep) (stream : List UInt8) : Prop :=
  maxBytes = 0 ∨ keep = .kHead ∨ stream.length ≤ maxBytes ∨ maxBytes * 5 < stream.length * 4

theorem length_trimmed_le (text : List UInt8) : (Capture.trimmed text).length ≤ text.length := by
  by_cases h : kNewline ∈ text
  · obtain ⟨tail,htail,-⟩ := trimmed_of_mem h
    have hlen := congrArg List.length htail
    rw [List.length_append] at hlen
    omega
  · obtain ⟨tail,htail,-⟩ := popPartial_prefix text.length text
    have hlen := congrArg List.length htail
    rw [List.length_append] at hlen
    rw [trimmed_of_not_mem h]
    omega

theorem Start.length_drop_le_iff (h : Start maxBytes stream p) :
    (stream.drop p).length ≤ maxBytes ↔
      stream.length ≤ maxBytes ∨ maxBytes * 5 < stream.length * 4 := by
  rw [List.length_drop]
  cases h with
  | whole h => omega
  | dropped h =>
      have := (droppedTo_dropAt maxBytes stream).bounds
      omega
  | filled h hline => omega

theorem captured_within_budget_iff (maxBytes : Nat) (keep : Keep) (chunks : List (List UInt8)) :
    (0 < maxBytes → (capture maxBytes keep chunks).text.length ≤ maxBytes) ↔
      FitsBudget maxBytes keep chunks.flatten := by
  have h := capture_taken maxBytes keep chunks
  generalize (capture maxBytes keep chunks).text = text at h ⊢
  cases h with
  | all hm => exact iff_of_true (fun hpos => absurd hm hpos.ne') (.inl hm)
  | head hm hle => exact iff_of_true (fun _ => hle) (.inr (.inl rfl))
  | headTrimmed hm hlt =>
      refine iff_of_true (fun _ => ?_) (.inr (.inl rfl))
      have := length_trimmed_le (chunks.flatten.take maxBytes)
      rw [List.length_take] at this
      omega
  | tail hm hs =>
      have hiff := hs.length_drop_le_iff
      constructor
      · intro hfits
        exact .inr (.inr (hiff.mp (hfits hm)))
      · intro hcond _
        exact hiff.mpr (hcond.resolve_left hm.ne' |>.resolve_left (by simp))

theorem captured_beyond_budget :
    (capture 4 .kEnd [[0x61, 0x61, 0x61, 0x61, 0x61]]).text.length = 5 := by decide

-- Nothing tells the splittings apart unless the last line that fits starts right at the cut.
def SplitFree (maxBytes : Nat) (keep : Keep) (stream : List UInt8) : Prop :=
  maxBytes = 0 ∨ keep = .kHead ∨ (stream.length - 1) * 4 ≤ maxBytes * 5 ∨
    (stream.take (stream.length - maxBytes)).getLast? ≠ some kNewline ∨
      kNewline ∉ stream.drop (stream.length - maxBytes)

theorem Start.unique (hp : Start maxBytes stream p) (hq : Start maxBytes stream q)
    (hm : 0 < maxBytes) (h : SplitFree maxBytes .kEnd stream) : p = q := by
  have hfilled (hmuch : maxBytes * 5 < (stream.length - 1) * 4)
      (hline : (stream.take (stream.length - maxBytes)).getLast? = some kNewline) :
      dropAt maxBytes stream = stream.length - maxBytes := by
    have hnone : kNewline ∉ stream.drop (stream.length - maxBytes) := by
      rcases h with h | h | h | h | h
      · omega
      · cases h
      · omega
      · exact absurd hline h
      · exact h
    exact (droppedTo_dropAt _ _).unique (.inside hnone)
  cases hp with
  | whole hp =>
      cases hq with
      | whole _ => rfl
      | dropped hq => omega
      | filled hq _ => omega
  | dropped hp =>
      cases hq with
      | whole hq => omega
      | dropped _ => rfl
      | filled hq hline => exact hfilled hq hline
  | filled hp hline =>
      cases hq with
      | whole hq => omega
      | dropped _ => exact (hfilled hp hline).symm
      | filled _ _ => rfl

theorem Taken.unique {text' : List UInt8} (ht : Taken maxBytes stream keep text)
    (ht' : Taken maxBytes stream keep text') (h : SplitFree maxBytes keep stream) :
    text = text' := by
  cases ht with
  | all hm =>
      cases ht' with
      | all _ => rfl
      | head hm' _ => rfl
      | headTrimmed hm' _ => omega
      | tail hm' _ => omega
  | head hm hle =>
      cases ht' with
      | all _ => rfl
      | head _ _ => rfl
      | headTrimmed _ hlt => omega
  | headTrimmed hm hlt =>
      cases ht' with
      | all hm' => omega
      | head _ hle => omega
      | headTrimmed _ _ => rfl
  | tail hm hs =>
      cases ht' with
      | all hm' => omega
      | tail _ hs' => rw [hs.unique hs' hm h]

namespace Capture

variable {c : Capture} {seen data : List UInt8}

structure Cut (maxBytes : Nat) (c : Capture) (seen : List UInt8) (p : Nat) : Prop where
  maxBytes : c.maxBytes = maxBytes
  keep : c.keep = .kEnd
  truncated : c.truncated = true
  text : c.text = seen.drop p

theorem cut_first (hm : 0 < maxBytes) (hmuch : maxBytes * 5 < front.length * 4) :
    Cut maxBytes (append { maxBytes := maxBytes, keep := .kEnd } front) front
      (dropAt maxBytes front) := by
  have hne : front ≠ [] := by
    rintro rfl
    simp at hmuch
  have happend : append { maxBytes := maxBytes, keep := .kEnd } front =
      dropOnce { count { maxBytes := maxBytes, keep := .kEnd } front with text := front } := by
    rw [append_end hne hm rfl,appendEnd]
    refine (if_pos (show maxBytes * 5 < front.length * 4 from hmuch)).trans ?_
    exact dropToBudget_of_lt (show maxBytes < front.length by omega)
  rw [happend]
  exact ⟨rfl,rfl,rfl,rfl⟩

theorem Cut.append (h : Cut maxBytes c seen p) (hm : 0 < maxBytes) (hp : p ≤ seen.length)
    (hfits : (seen ++ data).length ≤ p + maxBytes) : Cut maxBytes (c.append data) (seen ++ data) p := by
  cases data with
  | nil =>
      rw [List.append_nil]
      exact h
  | cons byte data =>
      have htext : c.text ++ byte :: data = (seen ++ byte :: data).drop p := by
        rw [List.drop_append_of_le_length hp,h.text]
      have happend : c.append (byte :: data) =
          { c.count (byte :: data) with text := c.text ++ byte :: data } := by
        rw [append_end (List.cons_ne_nil byte data) (h.maxBytes ▸ hm) h.keep,appendEnd]
        dsimp only
        refine if_neg (show ¬ c.maxBytes * 5 < (c.text ++ byte :: data).length * 4 from ?_)
        rw [htext,List.length_drop,h.maxBytes]
        omega
      rw [happend]
      exact ⟨h.maxBytes,h.keep,h.truncated,htext⟩

theorem Cut.text_take (h : Cut maxBytes c seen p) (hfits : seen.length ≤ p + maxBytes) :
    c.take.text = seen.drop p := by
  have hle : c.text.length ≤ c.maxBytes := by
    rw [h.text,h.maxBytes,List.length_drop]
    omega
  rw [Capture.text_take,h.truncated,h.keep,if_pos rfl]
  exact (if_neg (by omega)).trans h.text

end Capture

-- How the text of two chunks comes out when the first alone is over the budget.
theorem text_capture_cut (hm : 0 < maxBytes) (hmuch : maxBytes * 5 < front.length * 4)
    (hfits : (front ++ rest).length ≤ dropAt maxBytes front + maxBytes) :
    (capture maxBytes .kEnd [front, rest]).text = (front ++ rest).drop (dropAt maxBytes front) := by
  have hle := (droppedTo_dropAt maxBytes front).bounds.2
  exact ((Capture.cut_first hm hmuch).append hm hle hfits).text_take hfits

theorem text_capture_single (hm : 0 < maxBytes) (hmuch : maxBytes * 5 < stream.length * 4) :
    (capture maxBytes .kEnd [stream]).text = stream.drop (dropAt maxBytes stream) := by
  have := (droppedTo_dropAt maxBytes stream).bounds
  exact (Capture.cut_first hm hmuch).text_take (by omega)

theorem capture_chunks_agree_iff (maxBytes : Nat) (keep : Keep) (stream : List UInt8) :
    (∀ chunks chunks' : List (List UInt8), chunks.flatten = stream → chunks'.flatten = stream →
      capture maxBytes keep chunks = capture maxBytes keep chunks') ↔
        SplitFree maxBytes keep stream := by
  constructor
  · intro h
    by_contra hnot
    simp only [SplitFree,not_or,not_le,ne_eq,not_not] at hnot
    obtain ⟨hm,hk,hmuch,hline,hmem⟩ := hnot
    have hpos := Nat.pos_of_ne_zero hm
    obtain rfl : keep = .kEnd := by
      cases keep with
      | kHead => exact absurd rfl hk
      | kEnd => rfl
    cases stream using List.reverseRecOn with
    | nil => simp at hmuch
    | append_singleton front byte =>
        rw [List.length_append,List.length_singleton] at hmuch hline hmem
        have hlen : (front ++ [byte]).length = front.length + 1 := by simp
        have hcut : front.length + 1 - maxBytes = front.length - maxBytes + 1 := by omega
        rw [hcut] at hline hmem
        have hat : front[front.length - maxBytes]? = some kNewline := by
          rw [getLast?_take_succ (by omega),List.getElem?_append_left (by omega)] at hline
          exact hline
        have hfront := (DroppedTo.behind le_rfl hat (by omega)).unique (droppedTo_dropAt _ _)
        have htwo := @text_capture_cut _ front [byte] hpos (by omega) (by omega)
        have hone := @text_capture_single _ (front ++ [byte]) hpos (by omega)
        rw [h [front, [byte]] [front ++ [byte]] (by simp) (by simp),hone,← hfront] at htwo
        have hsame := congrArg List.length htwo
        simp only [List.length_drop] at hsame
        have hle := (droppedTo_dropAt maxBytes (front ++ [byte])).bounds
        refine (droppedTo_dropAt maxBytes (front ++ [byte])).not_mem (by omega) ?_
        rw [hlen,hcut]
        exact hmem
  · intro h chunks chunks' hs hs'
    have htext : (capture maxBytes keep chunks).text = (capture maxBytes keep chunks').text :=
      Taken.unique (hs ▸ capture_taken maxBytes keep chunks)
        (hs' ▸ capture_taken maxBytes keep chunks') h
    have hextent := capture_extent maxBytes keep chunks
    rw [htext,hs,← hs',← capture_extent] at hextent
    cases hc : capture maxBytes keep chunks
    cases hc' : capture maxBytes keep chunks'
    rw [hc,hc'] at htext hextent
    simp_all

def lateLine : List UInt8 := [0x78, 0x78, 0x78, 0x78, 0x0A, 0x61, 0x62, 0x63]

theorem capture_chunks_disagree :
    [lateLine ++ [0x0A]].flatten = [lateLine, [0x0A]].flatten ∧
      (capture 4 .kEnd [lateLine ++ [0x0A]]).text = [] ∧
      (capture 4 .kEnd [lateLine, [0x0A]]).text = [0x61, 0x62, 0x63, 0x0A] ∧
      capture 4 .kEnd [lateLine ++ [0x0A]] ≠ capture 4 .kEnd [lateLine, [0x0A]] := by
  decide

structure Honest (maxBytes : Nat) (stream : List UInt8) (captured : Captured) : Prop where
  truncated : captured.extent.truncated = true ↔ captured.text.length < stream.length
  kept : stream ≠ [] → 0 < maxBytes → captured.text ≠ []

def HonestWhen (maxBytes : Nat) (stream : List UInt8) : Keep → Prop
  | .kHead =>
      maxBytes = 0 ∨ stream.length ≤ maxBytes ∨ kNewline ∈ stream.take maxBytes ∨
        (∃ n, 0 < n ∧ n ≤ maxBytes ∧ Utf8.endsWithPartialSequence (stream.take n) = false) ∧
          kNewline ∈ stream.dropLast
  | .kEnd =>
      maxBytes = 0 ∨ stream.length * 4 ≤ maxBytes * 5 ∨
        kNewline ∈ (stream.drop (stream.length - maxBytes)).dropLast ∨
        kNewline ∉ stream.drop (stream.length - maxBytes) ∧ kNewline ∈ stream

theorem countLines_concat (front : List UInt8) (byte : UInt8) :
    countLines (front ++ [byte]) = front.count kNewline + 1 := by
  by_cases hb : byte = kNewline <;> simp [countLines,hb]

theorem one_lt_countLines_iff : 1 < countLines text ↔ kNewline ∈ text.dropLast := by
  cases text using List.reverseRecOn with
  | nil => simp [countLines]
  | append_singleton front byte =>
      rw [countLines_concat,List.dropLast_concat,← List.count_pos_iff]
      omega

structure HonestText (maxBytes : Nat) (stream text : List UInt8) : Prop where
  truncated : countLines text < countLines stream ↔ text.length < stream.length
  kept : stream ≠ [] → 0 < maxBytes → text ≠ []

theorem honest_capture_iff (maxBytes : Nat) (keep : Keep) (chunks : List (List UInt8)) :
    Honest maxBytes chunks.flatten (capture maxBytes keep chunks) ↔
      HonestText maxBytes chunks.flatten (capture maxBytes keep chunks).text := by
  have he := capture_extent maxBytes keep chunks
  have ht : (capture maxBytes keep chunks).extent.truncated = true ↔
      countLines (capture maxBytes keep chunks).text < countLines chunks.flatten := by
    rw [Extent.truncated,he,decide_eq_true_iff]
  exact ⟨fun h => ⟨ht.symm.trans h.truncated,h.kept⟩,fun h => ⟨ht.trans h.truncated,h.kept⟩⟩

theorem honestText_whole (maxBytes : Nat) (stream : List UInt8) :
    HonestText maxBytes stream stream :=
  ⟨iff_of_false (Nat.lt_irrefl _) (Nat.lt_irrefl _),fun hne _ => hne⟩

theorem honestText_front (hc : Lines.Closed kNewline text) (hne : text ≠ []) (hr : rest ≠ []) :
    HonestText maxBytes (text ++ rest) text := by
  refine ⟨iff_of_true ?_ ?_,fun _ _ => hne⟩
  · have := countLines_pos hr
    rw [countLines_closed hc]
    omega
  · have := List.length_pos_of_ne_nil hr
    rw [List.length_append]
    omega

theorem honestText_back (hc : Lines.Closed kNewline front) (hf : front ≠ []) (hne : text ≠ []) :
    HonestText maxBytes (front ++ text) text := by
  refine ⟨iff_of_true ?_ ?_,fun _ _ => hne⟩
  · have := countLines_pos hf
    rw [countLines_closed hc]
    omega
  · have := List.length_pos_of_ne_nil hf
    rw [List.length_append]
    omega

-- A text without a newline counts as one line, so only a second line of the stream tells it cut.
theorem honestText_open_iff (hne : text ≠ []) (h : kNewline ∉ text)
    (hshort : text.length < stream.length) :
    HonestText maxBytes stream text ↔ kNewline ∈ stream.dropLast := by
  have hone := countLines_open hne h
  rw [← one_lt_countLines_iff]
  constructor
  · intro ht
    have := ht.truncated.mpr hshort
    omega
  · intro hlines
    exact ⟨iff_of_true (by omega) hshort,fun _ _ => hne⟩

theorem not_honestText_nil (hne : stream ≠ []) (hm : 0 < maxBytes) :
    ¬ HonestText maxBytes stream [] := fun h => h.kept hne hm rfl

theorem popPartial_eq_nil_iff (text : List UInt8) : Capture.popPartial text.length text = [] ↔
    ∀ n, 0 < n → n ≤ text.length → Utf8.endsWithPartialSequence (text.take n) = true := by
  induction text using List.reverseRecOn with
  | nil =>
      refine iff_of_true rfl ?_
      intro n hn hle
      exact absurd hle (by simpa using hn.ne')
  | append_singleton front byte ih =>
      have hlen : (front ++ [byte]).length = front.length + 1 := by simp
      have hfront : ∀ n, n ≤ front.length → (front ++ [byte]).take n = front.take n :=
        fun n hn => List.take_append_of_le_length hn
      rw [hlen,Capture.popPartial,List.dropLast_concat]
      by_cases hpart : Utf8.endsWithPartialSequence (front ++ [byte]) = true
      · rw [if_pos ⟨by simp,hpart⟩,ih]
        constructor
        · intro h n hn hle
          by_cases hlast : n ≤ front.length
          · rw [hfront n hlast]
            exact h n hn hlast
          · rw [List.take_of_length_le (by omega)]
            exact hpart
        · intro h n hn hle
          rw [← hfront n hle]
          exact h n hn (by omega)
      · rw [if_neg (fun h => hpart h.2)]
        refine iff_of_false (by simp) (fun h => hpart ?_)
        have := h (front.length + 1) (Nat.succ_pos _) le_rfl
        rwa [List.take_of_length_le (by omega)] at this

theorem trimmed_ne_nil_iff (hlt : maxBytes < stream.length)
    (hfree : kNewline ∉ stream.take maxBytes) : Capture.trimmed (stream.take maxBytes) ≠ [] ↔
      ∃ n, 0 < n ∧ n ≤ maxBytes ∧ Utf8.endsWithPartialSequence (stream.take n) = false := by
  have hlen : (stream.take maxBytes).length = maxBytes := List.length_take_of_le hlt.le
  rw [trimmed_of_not_mem hfree,Ne,popPartial_eq_nil_iff,hlen]
  push Not
  refine exists_congr (fun n => and_congr_right (fun _ => and_congr_right (fun hle => ?_)))
  rw [List.take_take,Nat.min_eq_left hle]
  exact iff_of_eq (Bool.not_eq_true _)

theorem honestText_trimmed_iff (hm : 0 < maxBytes) (hlt : maxBytes < stream.length) :
    HonestText maxBytes stream (Capture.trimmed (stream.take maxBytes)) ↔
      kNewline ∈ stream.take maxBytes ∨
        Capture.trimmed (stream.take maxBytes) ≠ [] ∧ kNewline ∈ stream.dropLast := by
  have hlen := length_trimmed_le (stream.take maxBytes)
  rw [List.length_take] at hlen
  by_cases hmem : kNewline ∈ stream.take maxBytes
  · refine iff_of_true ?_ (.inl hmem)
    obtain ⟨tail,htail,-,hlast⟩ := trimmed_of_mem hmem
    have hsplit : stream = Capture.trimmed (stream.take maxBytes) ++
        (tail ++ stream.drop maxBytes) := by
      rw [← List.append_assoc,← htail,List.take_append_drop]
    have hne : Capture.trimmed (stream.take maxBytes) ≠ [] := by
      intro hnil
      rw [hnil] at hlast
      cases hlast
    generalize Capture.trimmed (stream.take maxBytes) = text at hsplit hlast hne hlen ⊢
    rw [hsplit]
    refine honestText_front (.inr hlast) hne ?_
    intro hnil
    rw [hnil,List.append_nil] at hsplit
    rw [hsplit] at hlt
    omega
  · rw [or_iff_right hmem]
    have hopen : kNewline ∉ Capture.trimmed (stream.take maxBytes) := by
      obtain ⟨tail,htail,-⟩ := popPartial_prefix (stream.take maxBytes).length (stream.take maxBytes)
      rw [trimmed_of_not_mem hmem]
      exact fun h => hmem (htail ▸ List.mem_append_left _ h)
    by_cases hne : Capture.trimmed (stream.take maxBytes) = []
    · rw [hne]
      refine iff_of_false (not_honestText_nil ?_ hm) (fun h => h.1 rfl)
      rintro rfl
      simp at hlt
    · rw [honestText_open_iff hne hopen (by omega)]
      exact (and_iff_right hne).symm

theorem closed_take (h : (stream.take p).getLast? = some kNewline) :
    Lines.Closed kNewline (stream.take p) ∧ stream.take p ≠ [] := by
  refine ⟨.inr h,?_⟩
  intro hnil
  rw [hnil] at h
  cases h

theorem honestText_behind (hc : (stream.take p).getLast? = some kNewline)
    (hlt : p < stream.length) : HonestText maxBytes stream (stream.drop p) := by
  obtain ⟨hclosed,hne⟩ := closed_take hc
  have htext : stream.drop p ≠ [] := by
    intro hnil
    have := congrArg List.length hnil
    simp at this
    omega
  have h := @honestText_back maxBytes _ _ hclosed hne htext
  rwa [List.take_append_drop] at h

theorem dropLast_of_drop (h : stream.drop p ≠ []) :
    stream.dropLast = stream.take p ++ (stream.drop p).dropLast := by
  conv_lhs => rw [← List.take_append_drop p stream]
  rw [List.dropLast_append_of_ne_nil h]

theorem honestText_dropAt_iff (hm : 0 < maxBytes) (hmuch : maxBytes * 5 < stream.length * 4) :
    HonestText maxBytes stream (stream.drop (dropAt maxBytes stream)) ↔
      kNewline ∈ (stream.drop (stream.length - maxBytes)).dropLast ∨
        kNewline ∉ stream.drop (stream.length - maxBytes) ∧ kNewline ∈ stream := by
  have hp := droppedTo_dropAt maxBytes stream
  generalize dropAt maxBytes stream = p at hp ⊢
  cases hp with
  | inside h =>
      have hlen : (stream.drop (stream.length - maxBytes)).length = maxBytes := by
        rw [List.length_drop]
        omega
      have hne : stream.drop (stream.length - maxBytes) ≠ [] := by
        intro hnil
        rw [hnil] at hlen
        exact hm.ne hlen
      have hback : kNewline ∉ (stream.drop (stream.length - maxBytes)).dropLast :=
        fun hmem => h ((List.dropLast_subset _) hmem)
      have hall : kNewline ∈ stream ↔ kNewline ∈ stream.take (stream.length - maxBytes) := by
        conv_lhs => rw [← List.take_append_drop (stream.length - maxBytes) stream]
        rw [List.mem_append,or_iff_left h]
      rw [honestText_open_iff hne h (by omega),dropLast_of_drop hne,List.mem_append,
        or_iff_left hback,or_iff_right hback,and_iff_right h,hall]
  | @behind k hcut hk hfirst =>
      obtain ⟨i,rfl⟩ := Nat.exists_eq_add_of_le hcut
      obtain ⟨hlt,-⟩ := List.getElem?_eq_some_iff.mp hk
      have hat : (stream.drop (stream.length - maxBytes))[i]? = some kNewline := by
        rw [List.getElem?_drop,hk]
      rw [or_iff_left (fun h => h.1 (List.mem_of_getElem? hat))]
      by_cases hend : stream.length - maxBytes + i + 1 < stream.length
      · refine iff_of_true (honestText_behind ((getLast?_take_succ hlt).trans hk) hend) ?_
        refine List.mem_of_getElem? (i := i) ?_
        rw [List.getElem?_dropLast,if_pos (by rw [List.length_drop]; omega),hat]
      · rw [List.drop_eq_nil_of_le (by omega)]
        refine iff_of_false (not_honestText_nil ?_ hm) ?_
        · rintro rfl
          simp at hmuch
        · intro hmem
          obtain ⟨j,hj⟩ := List.getElem?_of_mem hmem
          rw [List.getElem?_dropLast,List.length_drop] at hj
          split at hj
          · rw [List.getElem?_drop] at hj
            exact hfirst _ (Nat.le_add_right _ _) (by omega) hj
          · cases hj

theorem Taken.honest_head_iff (h : Taken maxBytes stream .kHead text) :
    HonestText maxBytes stream text ↔ HonestWhen maxBytes stream .kHead := by
  cases h with
  | all hm => exact iff_of_true (honestText_whole _ _) (.inl hm)
  | head hm hle => exact iff_of_true (honestText_whole _ _) (.inr (.inl hle))
  | headTrimmed hm hlt =>
      have hwhen : HonestWhen maxBytes stream .kHead ↔ kNewline ∈ stream.take maxBytes ∨
          (∃ n, 0 < n ∧ n ≤ maxBytes ∧ Utf8.endsWithPartialSequence (stream.take n) = false) ∧
            kNewline ∈ stream.dropLast :=
        (or_iff_right hm.ne').trans (or_iff_right (Nat.not_le_of_lt hlt))
      rw [honestText_trimmed_iff hm hlt,hwhen]
      refine or_congr_right' (fun hfree => ?_)
      rw [trimmed_ne_nil_iff hlt hfree]

theorem Taken.honest_end (h : Taken maxBytes stream .kEnd text)
    (hw : HonestWhen maxBytes stream .kEnd) : HonestText maxBytes stream text := by
  cases h with
  | all hm => exact honestText_whole _ _
  | tail hm hs =>
      cases hs with
      | whole hfew => exact honestText_whole _ _
      | dropped hmuch =>
          rw [honestText_dropAt_iff hm hmuch]
          exact (hw.resolve_left (by omega)).resolve_left (by omega)
      | filled hmuch hline => exact honestText_behind hline (by omega)

theorem captured_honest_iff (maxBytes : Nat) (keep : Keep) (stream : List UInt8) :
    (∀ chunks : List (List UInt8), chunks.flatten = stream →
      Honest maxBytes stream (capture maxBytes keep chunks)) ↔
        HonestWhen maxBytes stream keep := by
  have hflat : [stream].flatten = stream := by simp
  have hsingle := honest_capture_iff maxBytes keep [stream]
  have htaken := capture_taken maxBytes keep [stream]
  rw [hflat] at hsingle htaken
  cases keep with
  | kHead =>
      constructor
      · intro h
        exact htaken.honest_head_iff.mp (hsingle.mp (h [stream] hflat))
      · rintro hw chunks rfl
        exact (honest_capture_iff _ _ _).mpr ((capture_taken _ _ _).honest_head_iff.mpr hw)
  | kEnd =>
      constructor
      · intro h
        by_contra hnot
        simp only [HonestWhen,not_or] at hnot
        obtain ⟨hm,hfew,hnot⟩ := hnot
        have hpos := Nat.pos_of_ne_zero hm
        have htext := hsingle.mp (h [stream] hflat)
        rw [text_capture_single hpos (by omega),honestText_dropAt_iff hpos (by omega)] at htext
        exact htext.elim hnot.1 hnot.2
      · rintro hw chunks rfl
        exact (honest_capture_iff _ _ _).mpr ((capture_taken _ _ _).honest_end hw)

-- One long line: cut without a sign of it, and with its newline at the end not kept at all.
theorem captured_dishonest :
    ¬ Honest 3 [0x61, 0x61, 0x61, 0x61] (capture 3 .kHead [[0x61, 0x61, 0x61, 0x61]]) ∧
      ¬ Honest 3 [0x61, 0x61, 0x61, 0x61, 0x0A]
        (capture 3 .kEnd [[0x61, 0x61, 0x61, 0x61, 0x0A]]) := by
  constructor
  · intro h
    exact absurd (h.truncated.mpr (by decide)) (by decide)
  · intro h
    exact h.kept (by decide) (by decide) (by decide)

end Exec

end PuCli
