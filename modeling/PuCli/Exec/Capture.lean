import Mathlib.Data.List.Induction
import PuCli.Exec.Run
import PuCli.Library.Lines

namespace PuCli

namespace Exec

variable {maxBytes : Nat} {keep : Keep} {stream seen data text front : List UInt8}

theorem countLines_eq (text : List UInt8) :
    countLines text = (Lines.pieces kNewline text).length := by
  rw [Lines.length_pieces]
  cases text with
  | nil => rfl
  | cons byte rest =>
      have hclosed : Lines.Closed kNewline (byte :: rest) ↔
          (byte :: rest).getLast? = some kNewline := or_iff_right (List.cons_ne_nil _ _)
      simp only [countLines,List.isEmpty_cons,Bool.false_eq_true,if_false,hclosed]
      split <;> rfl

theorem countLines_open (hne : text ≠ []) (h : kNewline ∉ text) : countLines text = 1 := by
  rw [countLines_eq,Lines.pieces_of_not_mem hne h,List.length_singleton]

theorem countLines_closed (hc : Lines.Closed kNewline front) (rest : List UInt8) :
    countLines (front ++ rest) = countLines front + countLines rest := by
  rw [countLines_eq,countLines_eq,countLines_eq,Lines.pieces_closed hc,List.length_append]

theorem countLines_pos (h : text ≠ []) : 0 < countLines text := by
  rw [countLines_eq]
  exact List.length_pos_of_ne_nil (mt Lines.pieces_eq_nil_iff.mp h)

theorem getLast?_take_succ {k : Nat} (hk : k < stream.length) :
    (stream.take (k + 1)).getLast? = stream[k]? := by
  rw [List.getLast?_take,if_neg (Nat.succ_ne_zero k),Nat.add_sub_cancel,List.getElem?_eq_getElem hk,
    Option.some_or]

-- Where the text starts that a compaction of the whole stream leaves.
def dropAt (maxBytes : Nat) (stream : List UInt8) : Nat :=
  let cut := stream.length - maxBytes
  match (stream.drop cut).findIdx? (fun byte => byte = kNewline) with
  | none => cut
  | some newline => cut + newline + 1

inductive DroppedTo (maxBytes : Nat) (stream : List UInt8) : Nat → Prop
  | inside (h : kNewline ∉ stream.drop (stream.length - maxBytes)) :
      DroppedTo maxBytes stream (stream.length - maxBytes)
  | behind {k : Nat} (hcut : stream.length - maxBytes ≤ k) (hk : stream[k]? = some kNewline)
      (hfirst : ∀ j, stream.length - maxBytes ≤ j → j < k → stream[j]? ≠ some kNewline) :
      DroppedTo maxBytes stream (k + 1)

theorem droppedTo_dropAt (maxBytes : Nat) (stream : List UInt8) :
    DroppedTo maxBytes stream (dropAt maxBytes stream) := by
  unfold dropAt
  dsimp only
  cases hi : (stream.drop (stream.length - maxBytes)).findIdx? (fun byte => byte = kNewline) with
  | none =>
      refine .inside ?_
      intro hmem
      simpa using List.findIdx?_eq_none_iff.mp hi _ hmem
  | some i =>
      obtain ⟨hlt,hat,hbefore⟩ := List.findIdx?_eq_some_iff_getElem.mp hi
      refine .behind (by omega) ?_ ?_
      · rw [← List.getElem?_drop,List.getElem?_eq_getElem hlt]
        simpa using hat
      · intro j hj hlt hj'
        obtain ⟨i',rfl⟩ := Nat.exists_eq_add_of_le hj
        rw [← List.getElem?_drop] at hj'
        obtain ⟨hb,hval⟩ := List.getElem?_eq_some_iff.mp hj'
        have := hbefore i' (by omega)
        simp [hval] at this

theorem DroppedTo.unique {p q : Nat} (hp : DroppedTo maxBytes stream p)
    (hq : DroppedTo maxBytes stream q) : p = q := by
  have hnone {k : Nat} (h : kNewline ∉ stream.drop (stream.length - maxBytes))
      (hcut : stream.length - maxBytes ≤ k) : stream[k]? ≠ some kNewline := by
    intro hk
    obtain ⟨i,rfl⟩ := Nat.exists_eq_add_of_le hcut
    rw [← List.getElem?_drop] at hk
    exact h (List.mem_of_getElem? hk)
  cases hp with
  | inside h =>
      cases hq with
      | inside _ => rfl
      | behind hcut hk _ => exact absurd hk (hnone h hcut)
  | behind hcut hk hfirst =>
      cases hq with
      | inside h => exact absurd hk (hnone h hcut)
      | behind hcut' hk' hfirst' =>
          congr 1
          by_contra hne
          rcases Nat.lt_or_gt_of_ne hne with hlt | hlt
          · exact hfirst' _ hcut hlt hk
          · exact hfirst _ hcut' hlt hk'

theorem DroppedTo.bounds {p : Nat} (h : DroppedTo maxBytes stream p) :
    stream.length - maxBytes ≤ p ∧ p ≤ stream.length := by
  cases h with
  | inside _ => omega
  | behind hcut hk _ =>
      obtain ⟨hlt,-⟩ := List.getElem?_eq_some_iff.mp hk
      omega

theorem DroppedTo.not_mem {p : Nat} (h : DroppedTo maxBytes stream p)
    (hp : p = stream.length - maxBytes) : kNewline ∉ stream.drop (stream.length - maxBytes) := by
  cases h with
  | inside h => exact h
  | behind hcut _ _ => omega

-- What a compaction of an earlier part left is what one of the whole stream leaves, or it fills
-- the budget exactly, from the start of a line on.
theorem DroppedTo.later {u : List UInt8} {p : Nat} (hp : DroppedTo maxBytes u p)
    (hu : u <+: stream) (hover : maxBytes < u.length) (hfits : stream.length ≤ p + maxBytes) :
    DroppedTo maxBytes stream p ∨
      u.length < stream.length ∧ p = stream.length - maxBytes ∧
        (stream.take p).getLast? = some kNewline := by
  obtain ⟨v,rfl⟩ := hu
  rw [List.length_append] at hfits ⊢
  cases hp with
  | inside h =>
      obtain rfl : v = [] := List.eq_nil_of_length_eq_zero (by omega)
      rw [List.append_nil]
      exact .inl (.inside h)
  | @behind k hcut hk hfirst =>
      obtain ⟨hlt,hval⟩ := List.getElem?_eq_some_iff.mp hk
      have hat : (u ++ v)[k]? = some kNewline := by rw [List.getElem?_append_left hlt,hk]
      by_cases hexact : k + 1 = u.length + v.length - maxBytes
      · refine .inr ⟨by omega,hexact,?_⟩
        rw [getLast?_take_succ (by rw [List.length_append]; omega),hat]
      · refine .inl (.behind (by rw [List.length_append]; omega) hat ?_)
        intro j hj hjk
        rw [List.length_append] at hj
        rw [List.getElem?_append_left (by omega)]
        exact hfirst j (by omega) hjk

theorem dropAt_drop {p : Nat} (hp : p ≤ stream.length - maxBytes) :
    p + dropAt maxBytes (stream.drop p) = dropAt maxBytes stream := by
  have hcut : p + (stream.length - p - maxBytes) = stream.length - maxBytes := by omega
  unfold dropAt
  dsimp only
  rw [List.length_drop,List.drop_drop,hcut]
  split <;> omega

namespace Capture

variable {c : Capture}

structure Counted (c : Capture) (seen : List UInt8) : Prop where
  bytes : c.extent.bytes = seen.length
  newlines : c.newlines = seen.count kNewline
  last : c.last = seen.getLast?.getD kNewline

theorem Counted.count (h : Counted c seen) (data : List UInt8) :
    Counted (c.count data) (seen ++ data) := by
  refine ⟨?_,?_,?_⟩
  · rw [List.length_append,← h.bytes]
    rfl
  · rw [List.count_append,← h.newlines]
    rfl
  · cases data using List.reverseRecOn with
    | nil =>
        rw [List.append_nil,← h.last]
        rfl
    | append_singleton data byte =>
        rw [← List.append_assoc,List.getLast?_concat]
        simp [Capture.count]

theorem Counted.lines (h : Counted c seen) :
    (c.newlines + if 0 < c.extent.bytes ∧ c.last ≠ kNewline then 1 else 0) = countLines seen := by
  rw [h.bytes,h.newlines,h.last]
  cases seen using List.reverseRecOn with
  | nil => rfl
  | append_singleton seen byte =>
      by_cases hb : byte = kNewline <;> simp [countLines,hb]

structure SameCounts (c c' : Capture) : Prop where
  maxBytes : c'.maxBytes = c.maxBytes
  keep : c'.keep = c.keep
  extent : c'.extent = c.extent
  newlines : c'.newlines = c.newlines
  last : c'.last = c.last

theorem SameCounts.refl (c : Capture) : SameCounts c c := ⟨rfl,rfl,rfl,rfl,rfl⟩

theorem Counted.of_same {c' : Capture} (h : Counted c seen) (hs : SameCounts c c') :
    Counted c' seen :=
  ⟨hs.extent ▸ h.bytes,hs.newlines ▸ h.newlines,hs.last ▸ h.last⟩

theorem sameCounts_dropWhileOver (fuel : Nat) (c : Capture) :
    SameCounts c (dropWhileOver fuel c) := by
  induction fuel generalizing c with
  | zero => exact .refl c
  | succ fuel ih =>
      rw [dropWhileOver]
      split
      · obtain ⟨hm,hk,he,hn,hl⟩ := ih c.dropOnce
        exact ⟨hm,hk,he,hn,hl⟩
      · exact .refl c

theorem sameCounts_appendEnd (c : Capture) (data : List UInt8) : SameCounts c (c.appendEnd data) := by
  rw [appendEnd]
  dsimp only
  split
  · obtain ⟨hm,hk,he,hn,hl⟩ := sameCounts_dropWhileOver (c.text ++ data).length
      { c with text := c.text ++ data }
    exact ⟨hm,hk,he,hn,hl⟩
  · exact ⟨rfl,rfl,rfl,rfl,rfl⟩

theorem sameCounts_append (c : Capture) (hd : data ≠ []) :
    SameCounts (c.count data) (c.append data) := by
  rw [append,if_neg (by simpa using hd)]
  dsimp only
  split
  · exact ⟨rfl,rfl,rfl,rfl,rfl⟩
  · split
    · exact ⟨rfl,rfl,rfl,rfl,rfl⟩
    · exact sameCounts_appendEnd _ _

theorem Counted.append (h : Counted c seen) (data : List UInt8) :
    Counted (c.append data) (seen ++ data) := by
  cases data with
  | nil =>
      rw [List.append_nil]
      exact h
  | cons byte data => exact (h.count _).of_same (sameCounts_append c (by simp))

theorem append_head (hd : data ≠ []) (hm : 0 < c.maxBytes) (hk : c.keep = .kHead) :
    c.append data = (c.count data).appendHead data := by
  rw [append,if_neg (by simpa using hd)]
  dsimp only
  rw [if_neg (show (c.count data).maxBytes ≠ 0 from hm.ne'),
    show (c.count data).keep = .kHead from hk]

theorem append_end (hd : data ≠ []) (hm : 0 < c.maxBytes) (hk : c.keep = .kEnd) :
    c.append data = (c.count data).appendEnd data := by
  rw [append,if_neg (by simpa using hd)]
  dsimp only
  rw [if_neg (show (c.count data).maxBytes ≠ 0 from hm.ne'),
    show (c.count data).keep = .kEnd from hk]

structure HeadKept (c : Capture) (seen : List UInt8) : Prop where
  text : c.text = seen.take c.maxBytes
  truncated : c.truncated = decide (c.maxBytes < seen.length)

theorem HeadKept.appendHead (h : HeadKept c seen) (data : List UInt8) :
    HeadKept (c.appendHead data) (seen ++ data) := by
  have hlen : c.text.length = min c.maxBytes seen.length := by rw [h.text,List.length_take]
  constructor
  · change c.text ++ data.take (min data.length (if c.text.length < c.maxBytes
      then c.maxBytes - c.text.length else 0)) = (seen ++ data).take c.maxBytes
    rw [List.take_append,← h.text]
    congr 1
    rw [Nat.min_comm,← List.take_eq_take_min,hlen]
    congr 1
    split <;> omega
  · change (c.truncated || decide (min data.length (if c.text.length < c.maxBytes
      then c.maxBytes - c.text.length else 0) < data.length)) =
        decide (c.maxBytes < (seen ++ data).length)
    rw [h.truncated,hlen,List.length_append,← Bool.decide_or]
    congr 1
    grind

theorem dropOnce_text (c : Capture) : c.dropOnce.text = c.text.drop (dropAt c.maxBytes c.text) := rfl

theorem dropToBudget_of_le (h : c.text.length ≤ c.maxBytes) : c.dropToBudget = c := by
  unfold dropToBudget
  cases c.text.length with
  | zero => rfl
  | succ n => rw [dropWhileOver,if_neg (by omega)]

-- One step of the loop is enough: what it keeps lies behind the cut.
theorem dropToBudget_of_lt (h : c.maxBytes < c.text.length) : c.dropToBudget = c.dropOnce := by
  have hlen : c.dropOnce.text.length ≤ c.dropOnce.maxBytes := by
    have := (droppedTo_dropAt c.maxBytes c.text).bounds
    change (c.text.drop (dropAt c.maxBytes c.text)).length ≤ c.maxBytes
    rw [List.length_drop]
    omega
  unfold dropToBudget
  obtain ⟨n,hn⟩ : ∃ n, c.text.length = n + 1 := ⟨c.text.length - 1,by omega⟩
  rw [hn,dropWhileOver,if_pos (by omega)]
  cases n with
  | zero => rfl
  | succ n => rw [dropWhileOver,if_neg (by omega)]

structure EndKept (c : Capture) (seen : List UInt8) (p : Nat) : Prop where
  text : c.text = seen.drop p
  start : p = 0 ∧ c.truncated = false ∧ seen.length * 4 ≤ c.maxBytes * 5 ∨
    c.truncated = true ∧ ∃ u, u <+: seen ∧ c.maxBytes * 5 < u.length * 4 ∧
      DroppedTo c.maxBytes u p

theorem EndKept.start_le {p : Nat} (h : EndKept c seen p) : p ≤ seen.length := by
  rcases h.start with ⟨rfl,-⟩ | ⟨-,u,hu,-,hp⟩
  · exact Nat.zero_le _
  · exact hp.bounds.2.trans hu.length_le

theorem endKept_dropped {p : Nat} (htext : c.text = seen.drop p)
    (hover : c.maxBytes < c.text.length) (hmuch : c.maxBytes * 5 < seen.length * 4) :
    EndKept c.dropToBudget seen (dropAt c.maxBytes seen) := by
  have hlen : c.text.length = seen.length - p := by rw [htext,List.length_drop]
  rw [dropToBudget_of_lt hover]
  refine ⟨?_,.inr ⟨rfl,seen,List.prefix_refl _,hmuch,droppedTo_dropAt _ _⟩⟩
  rw [dropOnce_text,htext,List.drop_drop,dropAt_drop (by omega)]

theorem EndKept.appendEnd {p : Nat} (h : EndKept c seen p) (data : List UInt8) :
    ∃ q, EndKept (c.appendEnd data) (seen ++ data) q := by
  have htext : c.text ++ data = (seen ++ data).drop p := by
    rw [List.drop_append_of_le_length h.start_le,h.text]
  have hlen : (c.text ++ data).length = (seen ++ data).length - p := by rw [htext,List.length_drop]
  rw [Capture.appendEnd]
  dsimp only
  split
  · next hmuch =>
      have hover : c.maxBytes < (c.text ++ data).length := by omega
      exact ⟨_,@endKept_dropped _ { c with text := c.text ++ data } p htext hover
        (show c.maxBytes * 5 < (seen ++ data).length * 4 by omega)⟩
  · next hfew =>
      refine ⟨p,htext,h.start.imp ?_ ?_⟩
      · rintro ⟨rfl,ht,-⟩
        exact ⟨rfl,ht,show (seen ++ data).length * 4 ≤ c.maxBytes * 5 by omega⟩
      · rintro ⟨ht,u,hu,hrest⟩
        exact ⟨ht,u,hu.trans (List.prefix_append _ _),hrest⟩

-- What the fields hold that depend on the budget and on the end kept.
inductive Held (c : Capture) (seen : List UInt8) : Prop
  | whole (hm : c.maxBytes = 0) (htext : c.text = seen) (htruncated : c.truncated = false)
  | head (hm : 0 < c.maxBytes) (hk : c.keep = .kHead) (hkept : HeadKept c seen)
  | tail {p : Nat} (hm : 0 < c.maxBytes) (hk : c.keep = .kEnd) (hkept : EndKept c seen p)

theorem held_start (maxBytes : Nat) (keep : Keep) :
    Held { maxBytes := maxBytes, keep := keep } [] := by
  cases maxBytes with
  | zero => exact .whole rfl rfl rfl
  | succ n =>
      cases keep with
      | kHead => exact .head (Nat.succ_pos n) rfl ⟨rfl,rfl⟩
      | kEnd => exact .tail (Nat.succ_pos n) rfl ⟨rfl,.inl ⟨rfl,rfl,Nat.zero_le _⟩⟩

theorem Held.append (h : Held c seen) (data : List UInt8) : Held (c.append data) (seen ++ data) := by
  cases data with
  | nil =>
      rw [List.append_nil]
      exact h
  | cons byte data =>
      have hne := List.cons_ne_nil byte data
      cases h with
      | whole hm htext htruncated =>
          have happend : c.append (byte :: data) =
              { c.count (byte :: data) with text := c.text ++ byte :: data } := by
            rw [Capture.append,if_neg (by simp)]
            dsimp only
            rw [if_pos (show (c.count (byte :: data)).maxBytes = 0 from hm)]
            rfl
          rw [happend]
          exact .whole hm (congrArg (· ++ byte :: data) htext) htruncated
      | head hm hk hkept =>
          rw [append_head hne hm hk]
          exact .head hm hk ((⟨hkept.text,hkept.truncated⟩ :
            HeadKept (c.count (byte :: data)) seen).appendHead _)
      | tail hm hk hkept =>
          rw [append_end hne hm hk]
          obtain ⟨q,hq⟩ := (⟨hkept.text,hkept.start⟩ :
            EndKept (c.count (byte :: data)) seen _).appendEnd (byte :: data)
          have hsame := sameCounts_appendEnd (c.count (byte :: data)) (byte :: data)
          exact .tail (hsame.maxBytes ▸ hm) (hsame.keep.trans hk) hq

structure Read (maxBytes : Nat) (keep : Keep) (c : Capture) (seen : List UInt8) : Prop where
  maxBytes : c.maxBytes = maxBytes
  keep : c.keep = keep
  counted : Counted c seen
  held : Held c seen

theorem Read.append (h : Read maxBytes keep c seen) (data : List UInt8) :
    Read maxBytes keep (c.append data) (seen ++ data) := by
  have hsame : (c.append data).maxBytes = c.maxBytes ∧ (c.append data).keep = c.keep := by
    cases data with
    | nil => exact ⟨rfl,rfl⟩
    | cons byte data =>
        have hs := sameCounts_append c (List.cons_ne_nil byte data)
        exact ⟨hs.maxBytes,hs.keep⟩
  exact ⟨hsame.1.trans h.maxBytes,hsame.2.trans h.keep,h.counted.append data,h.held.append data⟩

theorem Read.foldl (h : Read maxBytes keep c seen) (chunks : List (List UInt8)) :
    Read maxBytes keep (chunks.foldl Capture.append c) (seen ++ chunks.flatten) := by
  induction chunks generalizing c seen with
  | nil =>
      rw [List.flatten_nil,List.append_nil]
      exact h
  | cons chunk chunks ih =>
      rw [List.flatten_cons,← List.append_assoc]
      exact ih (h.append chunk)

theorem read_chunks (maxBytes : Nat) (keep : Keep) (chunks : List (List UInt8)) :
    Read maxBytes keep (chunks.foldl Capture.append { maxBytes := maxBytes, keep := keep })
      chunks.flatten :=
  Read.foldl ⟨rfl,rfl,⟨rfl,rfl,rfl⟩,held_start maxBytes keep⟩ chunks

end Capture

-- Where the text starts that is kept of a stream's end, however it came in.
inductive Start (maxBytes : Nat) (stream : List UInt8) : Nat → Prop
  | whole (h : stream.length * 4 ≤ maxBytes * 5) : Start maxBytes stream 0
  | dropped (h : maxBytes * 5 < stream.length * 4) : Start maxBytes stream (dropAt maxBytes stream)
  | filled (h : maxBytes * 5 < (stream.length - 1) * 4)
      (hline : (stream.take (stream.length - maxBytes)).getLast? = some kNewline) :
      Start maxBytes stream (stream.length - maxBytes)

inductive Taken (maxBytes : Nat) (stream : List UInt8) : Keep → List UInt8 → Prop
  | all {keep : Keep} (h : maxBytes = 0) : Taken maxBytes stream keep stream
  | head (hm : 0 < maxBytes) (h : stream.length ≤ maxBytes) : Taken maxBytes stream .kHead stream
  | headTrimmed (hm : 0 < maxBytes) (h : maxBytes < stream.length) :
      Taken maxBytes stream .kHead (Capture.trimmed (stream.take maxBytes))
  | tail {p : Nat} (hm : 0 < maxBytes) (h : Start maxBytes stream p) :
      Taken maxBytes stream .kEnd (stream.drop p)

namespace Capture

theorem text_dropToBudget (c : Capture) : c.dropToBudget.text =
    if c.maxBytes < c.text.length then c.text.drop (dropAt c.maxBytes c.text) else c.text := by
  split
  · next h => rw [dropToBudget_of_lt h,dropOnce_text]
  · next h => rw [dropToBudget_of_le (Nat.le_of_not_lt h)]

theorem text_take (c : Capture) : c.take.text =
    if c.truncated then
      match c.keep with
      | .kHead => trimmed c.text
      | .kEnd => if c.maxBytes < c.text.length then c.text.drop (dropAt c.maxBytes c.text) else c.text
    else c.text := by
  unfold take
  cases c.keep <;> cases c.truncated <;> simp [text_dropToBudget]

theorem Read.extent_take (h : Read maxBytes keep c stream) : c.take.extent =
    ⟨countLines stream, stream.length, countLines c.take.text, decide (keep = .kEnd)⟩ := by
  have hlines := h.counted.lines
  have hbytes := h.counted.bytes
  have hkeep := h.keep
  have hdrop (c : Capture) : c.dropToBudget.extent = c.extent :=
    (sameCounts_dropWhileOver _ c).extent
  unfold take
  cases keep <;> cases c.truncated <;> simpa [hbytes,hkeep,hdrop] using hlines

theorem EndKept.taken {p : Nat} (hm : 0 < c.maxBytes) (hk : c.keep = .kEnd)
    (h : EndKept c stream p) : Taken c.maxBytes stream .kEnd c.take.text := by
  have hlen : c.text.length = stream.length - p := by rw [h.text,List.length_drop]
  rw [text_take,hk]
  obtain ⟨rfl,ht,hfew⟩ | ⟨ht,u,hu,hmuch,hp⟩ := h.start
  · rw [if_neg (by simp [ht]),h.text]
    exact .tail hm (.whole hfew)
  · have hgrown := hu.length_le
    rw [if_pos ht]
    dsimp only
    split
    · next hover =>
        rw [h.text,List.drop_drop,dropAt_drop (by omega)]
        exact .tail hm (.dropped (by omega))
    · next hfits =>
        rw [h.text]
        obtain hp | ⟨hlt,rfl,hline⟩ := hp.later hu (by omega) (by omega)
        · rw [hp.unique (droppedTo_dropAt _ _)]
          exact .tail hm (.dropped (by omega))
        · exact .tail hm (.filled (by omega) hline)

theorem Read.taken (h : Read maxBytes keep c stream) : Taken maxBytes stream keep c.take.text := by
  obtain ⟨rfl,rfl,-,hheld⟩ := h
  cases hheld with
  | whole hm htext htruncated =>
      rw [text_take,if_neg (by simp [htruncated]),htext]
      exact .all hm
  | head hm hk hkept =>
      rw [text_take,hk,hkept.truncated]
      by_cases hover : c.maxBytes < stream.length
      · rw [if_pos (by simpa using hover),hkept.text]
        exact .headTrimmed hm hover
      · rw [if_neg (by simpa using hover),hkept.text,List.take_of_length_le (by omega)]
        exact .head hm (by omega)
  | tail hm hk hkept => exact hk ▸ hkept.taken hm hk

end Capture

theorem not_partial_newline (text : List UInt8) :
    Utf8.endsWithPartialSequence (text ++ [kNewline]) = false := by
  have hc : Utf8.isContinuationByte kNewline = false := by decide
  have hl : Utf8.sequenceLength kNewline = 1 := by decide
  simp [Utf8.endsWithPartialSequence,hc,hl]

theorem popPartial_prefix (fuel : Nat) (text : List UInt8) :
    ∃ tail, text = Capture.popPartial fuel text ++ tail ∧ kNewline ∉ tail := by
  induction fuel generalizing text with
  | zero => exact ⟨[],(List.append_nil _).symm,List.not_mem_nil⟩
  | succ fuel ih =>
      rw [Capture.popPartial]
      split
      · next h =>
          cases text using List.reverseRecOn with
          | nil => simp at h
          | append_singleton text byte =>
              have hne : byte ≠ kNewline := by
                rintro rfl
                simp [not_partial_newline] at h
              rw [List.dropLast_concat]
              obtain ⟨tail,htail,hfree⟩ := ih text
              refine ⟨tail ++ [byte],?_,?_⟩
              · rw [← List.append_assoc,← htail]
              · simp [hfree,hne.symm]
      · exact ⟨[],(List.append_nil _).symm,List.not_mem_nil⟩

theorem rfindNewline_eq_none_iff : Capture.rfindNewline text = none ↔ kNewline ∉ text := by
  simp only [Capture.rfindNewline,Option.map_eq_none_iff,List.findIdx?_eq_none_iff,List.mem_reverse,
    decide_eq_false_iff_not]
  exact ⟨fun h hmem => h _ hmem rfl,fun h byte hmem hb => h (hb ▸ hmem)⟩

theorem rfindNewline_append (front : List UInt8) {tail : List UInt8} (h : kNewline ∉ tail) :
    Capture.rfindNewline (front ++ kNewline :: tail) = some front.length := by
  have hnone : tail.reverse.findIdx? (fun byte => byte = kNewline) = none := by
    rw [List.findIdx?_eq_none_iff]
    intro byte hmem
    refine decide_eq_false ?_
    rintro rfl
    exact h (List.mem_reverse.mp hmem)
  have hfind : (front ++ kNewline :: tail).reverse.findIdx? (fun byte => byte = kNewline) =
      some tail.length := by
    simp [List.findIdx?_append,hnone,List.findIdx?_cons]
  rw [Capture.rfindNewline,hfind,Option.map_some]
  simp only [List.length_append,List.length_cons]
  congr 1
  omega

theorem trimmed_of_not_mem (h : kNewline ∉ text) :
    Capture.trimmed text = Capture.popPartial text.length text := by
  obtain ⟨tail,htail,-⟩ := popPartial_prefix text.length text
  have hfree : kNewline ∉ Capture.popPartial text.length text := by
    intro hmem
    exact h (htail ▸ List.mem_append_left _ hmem)
  rw [Capture.trimmed,rfindNewline_eq_none_iff.mpr hfree]

theorem trimmed_of_mem (h : kNewline ∈ text) : ∃ tail, text = Capture.trimmed text ++ tail ∧
    kNewline ∉ tail ∧ (Capture.trimmed text).getLast? = some kNewline := by
  obtain ⟨tail,htail,hfree⟩ := popPartial_prefix text.length text
  have hmem : kNewline ∈ Capture.popPartial text.length text := by
    rw [htail,List.mem_append] at h
    exact h.resolve_right hfree
  obtain ⟨front,back,hsplit,hback⟩ := List.eq_append_cons_of_mem (List.mem_reverse.mpr hmem)
  have hpopped : Capture.popPartial text.length text = back.reverse ++ kNewline :: front.reverse := by
    rw [← List.reverse_reverse (Capture.popPartial text.length text),hsplit]
    simp
  have hfront : kNewline ∉ front.reverse := by simpa using hback
  have htrim : Capture.trimmed text = back.reverse ++ [kNewline] := by
    rw [Capture.trimmed,hpopped,rfindNewline_append _ hfront]
    dsimp only
    rw [List.append_cons,List.take_left' (by simp)]
  refine ⟨front.reverse ++ tail,?_,?_,?_⟩
  · conv_lhs => rw [htail,hpopped]
    rw [htrim]
    simp
  · simp only [List.mem_append,not_or]
    exact ⟨hfront,hfree⟩
  · rw [htrim,List.getLast?_concat]

theorem capture_extent (maxBytes : Nat) (keep : Keep) (chunks : List (List UInt8)) :
    (capture maxBytes keep chunks).extent =
      ⟨countLines chunks.flatten, chunks.flatten.length,
        countLines (capture maxBytes keep chunks).text, decide (keep = .kEnd)⟩ :=
  (Capture.read_chunks maxBytes keep chunks).extent_take

theorem capture_taken (maxBytes : Nat) (keep : Keep) (chunks : List (List UInt8)) :
    Taken maxBytes chunks.flatten keep (capture maxBytes keep chunks).text :=
  (Capture.read_chunks maxBytes keep chunks).taken

end Exec

end PuCli
