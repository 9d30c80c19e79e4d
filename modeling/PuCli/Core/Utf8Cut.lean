import PuCli.Core.Utf8Valid

namespace PuCli

namespace Utf8

variable {text front back more : List UInt8} {lead : UInt8}

theorem continuation_length : ∀ byte, isContinuationByte byte = true → sequenceLength byte = 0 :=
  all_bytes (by decide +kernel)

structure Sequence (lead : UInt8) (more : List UInt8) : Prop where
  length : sequenceLength lead = more.length + 1
  continued : ∀ byte ∈ more, isContinuationByte byte = true

theorem Sequence.lead_not_continuation (h : Sequence lead more) : isContinuationByte lead = false := by
  by_contra hc
  have hzero := continuation_length lead (by simpa using hc)
  have := h.length
  omega

theorem sequence_encodeChar (c : Char) :
    ∃ lead more, String.utf8EncodeChar c = lead :: more ∧ Sequence lead more := by
  obtain ⟨lead,more,rest,htext,hn,hl,hc,-⟩ :=
    validSequenceLength_some (validSequenceLength_encoded c [])
  have hrest : rest = [] := by
    rw [List.append_nil] at htext
    rw [htext,List.length_cons,List.length_append] at hn
    exact List.eq_nil_of_length_eq_zero (by omega)
  subst hrest
  rw [List.append_nil,List.append_nil] at htext
  exact ⟨lead,more,htext,hl,hc⟩

theorem endsWithPartialSequence_append (front : List UInt8)
    (hl : isContinuationByte lead = false) (hc : ∀ byte ∈ more, isContinuationByte byte = true) :
    endsWithPartialSequence (front ++ lead :: more) =
      decide (more.length + 1 < sequenceLength lead) := by
  have hdrop : ((front ++ lead :: more).reverse.dropWhile isContinuationByte).length =
      front.length + 1 := by
    rw [List.reverse_append,List.reverse_cons,List.append_assoc,
      List.dropWhile_append_of_pos (by simpa using hc),List.singleton_append,
      List.dropWhile_cons_of_neg (by simpa using hl)]
    simp
  have hget : (front ++ lead :: more).getD front.length 0 = lead := by simp
  have hempty : (front ++ lead :: more).isEmpty = false := by simp
  unfold endsWithPartialSequence
  rw [hempty,if_neg Bool.false_ne_true]
  dsimp only
  rw [hdrop,if_neg (Nat.succ_ne_zero _),Nat.add_sub_cancel,hget]
  split
  · exact (decide_eq_false (by omega)).symm
  · refine decide_eq_decide.mpr ?_
    rw [List.length_append,List.length_cons]
    omega

-- Where a cut through a valid text falls.
inductive Cut (front back : List UInt8) : Prop
  | between (xs ys : List Char) (hf : front = encode xs) (hb : back = encode ys) : Cut front back
  | inside (xs ys : List Char) (lead : UInt8) (more rest : List UInt8)
      (hs : Sequence lead (more ++ rest)) (hr : rest ≠ [])
      (hf : front = encode xs ++ lead :: more) (hb : back = rest ++ encode ys) : Cut front back

theorem Cut.cons {front back : List UInt8} (h : Cut front back) (c : Char) :
    Cut (String.utf8EncodeChar c ++ front) back := by
  cases h with
  | between xs ys hf hb => exact .between (c :: xs) ys (by rw [hf,encode_cons]) hb
  | inside xs ys lead more rest hs hr hf hb =>
      exact .inside (c :: xs) ys lead more rest hs hr (by rw [hf,encode_cons,List.append_assoc]) hb

theorem cut_encode (cs : List Char) {front back : List UInt8} (h : encode cs = front ++ back) :
    Cut front back := by
  induction cs generalizing front with
  | nil =>
      obtain ⟨rfl,rfl⟩ := List.append_eq_nil_iff.mp h.symm
      exact .between [] [] rfl rfl
  | cons c cs ih =>
      rw [encode_cons] at h
      rcases List.append_eq_append_iff.mp h with ⟨mid,hfront,hrest⟩ | ⟨mid,hchar,hback⟩
      · rw [hfront]
        exact (ih hrest).cons c
      · obtain ⟨lead,more,henc,hseq⟩ := sequence_encodeChar c
        cases front with
        | nil =>
            refine .between [] (c :: cs) rfl ?_
            rw [encode_cons,hchar,hback]
            rfl
        | cons byte front =>
            cases mid with
            | nil =>
                refine .between [c] cs ?_ hback
                rw [encode_cons,hchar,encode_nil,List.append_nil,List.append_nil]
            | cons byte' mid =>
                rw [henc,List.cons_append] at hchar
                obtain ⟨rfl,rfl⟩ := List.cons.inj hchar
                exact .inside [] cs _ front (byte' :: mid) hseq (List.cons_ne_nil _ _) rfl hback

theorem cut_valid {front back : List UInt8} (h : isValidUtf8 (front ++ back) = true) :
    Cut front back := by
  obtain ⟨cs,hcs⟩ := (isValidUtf8_iff _).mp h
  exact cut_encode cs hcs.symm

theorem encode_last (cs : List Char) (hne : cs ≠ []) : ∃ xs lead more,
    encode cs = encode xs ++ lead :: more ∧ Sequence lead more := by
  obtain ⟨xs,c,rfl⟩ := List.eq_nil_or_concat cs |>.resolve_left hne
  obtain ⟨lead,more,henc,hseq⟩ := sequence_encodeChar c
  refine ⟨xs,lead,more,?_,hseq⟩
  rw [List.concat_eq_append,encode_append,encode_cons,henc,encode_nil,List.append_nil]

theorem encode_partial_eq_false (cs : List Char) : endsWithPartialSequence (encode cs) = false := by
  cases cs with
  | nil => rfl
  | cons c cs =>
      obtain ⟨xs,lead,more,henc,hseq⟩ := encode_last (c :: cs) (List.cons_ne_nil _ _)
      rw [henc,endsWithPartialSequence_append _ hseq.lead_not_continuation hseq.continued,hseq.length]
      exact decide_eq_false (Nat.lt_irrefl _)

theorem encode_head (cs : List Char) {byte : UInt8} {rest : List UInt8}
    (h : encode cs = byte :: rest) : isContinuationByte byte = false := by
  cases cs with
  | nil => cases h
  | cons c cs =>
      obtain ⟨lead,more,henc,hseq⟩ := sequence_encodeChar c
      rw [encode_cons,henc,List.cons_append] at h
      obtain ⟨rfl,-⟩ := List.cons.inj h
      exact hseq.lead_not_continuation

-- The rest of a cut is a text of its own unless it starts inside a character.
theorem Cut.back_valid_iff (h : Cut front back) :
    isValidUtf8 back = true ↔ back.head?.all (fun byte => !isContinuationByte byte) = true := by
  cases h with
  | between xs ys hf hb =>
      refine iff_of_true ((isValidUtf8_iff _).mpr ⟨ys,hb⟩) ?_
      cases back with
      | nil => rfl
      | cons byte rest => simpa using encode_head ys hb.symm
  | inside xs ys lead more rest hs hr hf hb =>
      cases rest with
      | nil => exact absurd rfl hr
      | cons byte rest =>
          have hbyte : isContinuationByte byte = true := hs.continued byte (by simp)
          refine iff_of_false ?_ ?_
          · intro hv
            obtain ⟨cs,hcs⟩ := (isValidUtf8_iff _).mp hv
            rw [hb,List.cons_append] at hcs
            rw [encode_head cs hcs.symm] at hbyte
            cases hbyte
          · rw [hb]
            simp [hbyte]

theorem Cut.inside_partial {xs : List Char} {rest : List UInt8}
    (hs : Sequence lead (more ++ rest)) (hr : rest ≠ []) :
    endsWithPartialSequence (encode xs ++ lead :: more) = true := by
  rw [endsWithPartialSequence_append _ hs.lead_not_continuation
    (fun byte hmem => hs.continued byte (List.mem_append_left _ hmem)),hs.length]
  have hpos := List.length_pos_of_ne_nil hr
  refine decide_eq_true ?_
  rw [List.length_append]
  omega

-- A one-byte character never lies inside another one.
theorem Cut.front_valid_of_ascii (h : Cut front back) {byte : UInt8}
    (hlast : front.getLast? = some byte) (hb : sequenceLength byte = 1) :
    isValidUtf8 front = true := by
  cases h with
  | between xs ys hf _ => exact (isValidUtf8_iff _).mpr ⟨xs,hf⟩
  | inside xs ys lead more rest hs hr hf _ =>
      exfalso
      have hmem : byte ∈ lead :: more := by
        rw [hf,List.getLast?_append_of_ne_nil _ (List.cons_ne_nil _ _)] at hlast
        exact List.mem_of_getLast? hlast
      rcases List.mem_cons.mp hmem with rfl | hmore
      · have hlen := hs.length
        have hpos := List.length_pos_of_ne_nil hr
        rw [List.length_append] at hlen
        omega
      · have hzero := continuation_length byte (hs.continued byte (List.mem_append_left _ hmore))
        omega

theorem Cut.back_valid (h : Cut front back) (hf : isValidUtf8 front = true) :
    isValidUtf8 back = true := by
  cases h with
  | between _ ys _ hb => exact (isValidUtf8_iff _).mpr ⟨ys,hb⟩
  | inside xs ys lead more rest hs hr hfront hb =>
      obtain ⟨cs,hcs⟩ := (isValidUtf8_iff _).mp hf
      have hpart := @Cut.inside_partial _ _ xs _ hs hr
      rw [← hfront,hcs,encode_partial_eq_false] at hpart
      cases hpart

theorem Cut.front_valid_of_head (h : Cut front back)
    (hb : back.head?.all (fun byte => !isContinuationByte byte) = true) :
    isValidUtf8 front = true := by
  cases h with
  | between xs _ hf _ => exact (isValidUtf8_iff _).mpr ⟨xs,hf⟩
  | inside xs ys lead more rest hs hr _ hback =>
      obtain ⟨byte,rest,rfl⟩ := List.exists_cons_of_ne_nil hr
      rw [hback] at hb
      simp [hs.continued byte (by simp)] at hb

theorem valid_append (hf : isValidUtf8 front = true) (hb : isValidUtf8 back = true) :
    isValidUtf8 (front ++ back) = true := by
  obtain ⟨xs,rfl⟩ := (isValidUtf8_iff _).mp hf
  obtain ⟨ys,rfl⟩ := (isValidUtf8_iff _).mp hb
  rw [← encode_append]
  exact isValidUtf8_encode _

theorem valid_partial_eq_false (h : isValidUtf8 text = true) : endsWithPartialSequence text = false := by
  obtain ⟨cs,rfl⟩ := (isValidUtf8_iff _).mp h
  exact encode_partial_eq_false cs

end Utf8

end PuCli
