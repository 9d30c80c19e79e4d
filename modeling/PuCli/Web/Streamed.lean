import PuCli.Web.Blocks

namespace PuCli

def thinkingOf : List Piece → String
  | [] => ""
  | .content _ :: pieces => thinkingOf pieces
  | .reasoning text :: pieces => text ++ thinkingOf pieces

def TextFirst : List Piece → Prop
  | [] => True
  | .content _ :: pieces => TextFirst pieces
  | .reasoning text :: pieces => if text = "" then TextFirst pieces else contentOf pieces = ""

instance decidableTextFirst : (pieces : List Piece) → Decidable (TextFirst pieces)
  | [] => isTrue trivial
  | .content _ :: pieces => decidableTextFirst pieces
  | .reasoning text :: pieces =>
      have := decidableTextFirst pieces
      inferInstanceAs (Decidable (if text = "" then TextFirst pieces else contentOf pieces = ""))

def PageBlock.prose? (kind : Prose) : PageBlock → String
  | .prose k content => if k = kind then content else ""
  | .toolCall _ => ""

def proseOf (kind : Prose) (bs : List PageBlock) : String :=
  bs.foldr (fun b rest => b.prose? kind ++ rest) ""

def PageBlock.kind? : PageBlock → Option Prose
  | .prose kind _ => some kind
  | .toolCall _ => none

def kinds (bs : List PageBlock) : List Prose := bs.filterMap PageBlock.kind?

variable {bs : List PageBlock} {kind : Prose} {pieces : List Piece} {a b : String}

theorem proseOf_append (kind : Prose) (bs cs : List PageBlock) :
    proseOf kind (bs ++ cs) = proseOf kind bs ++ proseOf kind cs := by
  induction bs with
  | nil => simp [proseOf]
  | cons b bs ih =>
      simp only [proseOf,List.cons_append,List.foldr_cons] at ih ⊢
      rw [ih,String.append_assoc]

theorem proseOf_appendAtEnd (kind k : Prose) (text : String) (bs : List PageBlock) :
    proseOf kind (appendAtEnd k text bs) =
      proseOf kind bs ++ (PageBlock.prose k text).prose? kind := by
  rcases List.eq_nil_or_concat bs with rfl | ⟨init,last,rfl⟩
  · simp [appendAtEnd_nil,proseOf]
  · rw [List.concat_eq_append,appendAtEnd_concat,proseOf_append,proseOf_append,String.append_assoc]
    congr 1
    cases last with
    | toolCall call => simp [appendAtEnd,proseOf,PageBlock.prose?]
    | prose k' content =>
        simp only [appendAtEnd,List.getLast?_singleton]
        split
        · next he =>
            subst he
            simp only [proseOf,List.dropLast_singleton,List.nil_append,List.foldr_cons,
              List.foldr_nil,PageBlock.prose?,String.append_empty]
            split <;> simp
        · simp [proseOf]

theorem kinds_appendAtEnd (k : Prose) (text : String) (bs : List PageBlock) :
    (kinds bs).Sublist (kinds (appendAtEnd k text bs)) := by
  rcases List.eq_nil_or_concat bs with rfl | ⟨init,last,rfl⟩
  · exact List.nil_sublist _
  · rw [List.concat_eq_append,appendAtEnd_concat]
    simp only [kinds,List.filterMap_append]
    refine List.Sublist.append_left ?_ _
    cases last with
    | toolCall call => exact List.nil_sublist _
    | prose k' content =>
        simp only [appendAtEnd,List.getLast?_singleton]
        split
        · next he => simp [PageBlock.kind?,he]
        · exact List.sublist_append_left _ _

theorem proseOf_showPieces (pieces : List Piece) (bs : List PageBlock) :
    proseOf .text (pieces.foldl showPiece bs) = proseOf .text bs ++ contentOf pieces ∧
      proseOf .thinking (pieces.foldl showPiece bs) = proseOf .thinking bs ++ thinkingOf pieces := by
  induction pieces generalizing bs with
  | nil => simp [contentOf,thinkingOf]
  | cons piece pieces ih =>
      obtain ⟨htext,hthinking⟩ := ih (showPiece bs piece)
      rw [List.foldl_cons,htext,hthinking]
      cases piece with
      | content text =>
          simp only [showPiece,handleChunk,contentOf,thinkingOf]
          split
          · next he => simp [he]
          · simp [proseOf_appendAtEnd,PageBlock.prose?,String.append_assoc]
      | reasoning text =>
          simp only [showPiece,handleThinking,contentOf,thinkingOf]
          split
          · next he => simp [he]
          · simp [proseOf_appendAtEnd,PageBlock.prose?,String.append_assoc]

theorem kinds_showPieces (pieces : List Piece) (bs : List PageBlock) :
    (kinds bs).Sublist (kinds (pieces.foldl showPiece bs)) := by
  induction pieces generalizing bs with
  | nil => exact List.Sublist.refl _
  | cons piece pieces ih =>
      refine List.Sublist.trans ?_ (ih (showPiece bs piece))
      cases piece with
      | content text =>
          simp only [showPiece,handleChunk]
          split
          · exact List.Sublist.refl _
          · exact kinds_appendAtEnd _ _ _
      | reasoning text =>
          simp only [showPiece,handleThinking]
          split
          · exact List.Sublist.refl _
          · exact kinds_appendAtEnd _ _ _

theorem appendAtEnd_spoken (kind : Prose) (text said : String) (bs : List PageBlock)
    (h : said ≠ "") :
    appendAtEnd kind text (bs ++ spoken kind said) = bs ++ spoken kind (said ++ text) := by
  simp only [spoken,String.append_eq_empty_iff,h,false_and,if_false]
  rw [appendAtEnd_concat]
  simp [appendAtEnd]

theorem showPieces_thinking (h : a ≠ "") (hc : contentOf pieces = "") (bs : List PageBlock) :
    pieces.foldl showPiece (bs ++ spoken .thinking a) =
      bs ++ spoken .thinking (a ++ thinkingOf pieces) := by
  induction pieces generalizing a with
  | nil => simp [thinkingOf]
  | cons piece pieces ih =>
      cases piece with
      | content text =>
          obtain ⟨htext,hrest⟩ := String.append_eq_empty_iff.mp hc
          simp only [List.foldl_cons,showPiece,htext,if_true,thinkingOf]
          exact ih h hrest
      | reasoning text =>
          simp only [List.foldl_cons,showPiece,handleThinking,thinkingOf]
          split
          · next he =>
              rw [he,String.empty_append]
              exact ih h hc
          · rw [appendAtEnd_spoken _ _ _ _ h,← String.append_assoc]
            exact ih (by simp [String.append_eq_empty_iff,h]) hc

theorem showPieces_textFirst (h : TextFirst pieces) (a : String) :
    pieces.foldl showPiece (spoken .text a) =
      spoken .text (a ++ contentOf pieces) ++ spoken .thinking (thinkingOf pieces) := by
  induction pieces generalizing a with
  | nil => simp [contentOf,thinkingOf,spoken]
  | cons piece pieces ih =>
      cases piece with
      | content text =>
          have hone : showPiece (spoken .text a) (.content text) = spoken .text (a ++ text) := by
            simp only [showPiece,handleChunk]
            split
            · next he => simp [he]
            · next he =>
                by_cases ha : a = ""
                · simp [spoken,ha,he,appendAtEnd_nil]
                · exact appendAtEnd_spoken .text text a [] ha
          rw [List.foldl_cons,hone,ih h,contentOf,thinkingOf,String.append_assoc]
      | reasoning text =>
          simp only [TextFirst] at h
          simp only [List.foldl_cons,showPiece,handleThinking,contentOf,thinkingOf]
          split
          · next he =>
              rw [if_pos he] at h
              rw [he,String.empty_append]
              exact ih h a
          · next he =>
              rw [if_neg he] at h
              have hone : appendAtEnd .thinking text (spoken .text a) =
                  spoken .text a ++ spoken .thinking text := by
                by_cases ha : a = "" <;> simp [spoken,ha,he,appendAtEnd]
              rw [hone,showPieces_thinking he h,h,String.append_empty]

theorem mem_kinds_appendAtEnd (k : Prose) (text : String) (bs : List PageBlock) :
    ∃ ks, kinds (appendAtEnd k text bs) = ks ++ [k] ∧ ∀ k' ∈ kinds bs, k' ≠ k → k' ∈ ks := by
  rcases List.eq_nil_or_concat bs with rfl | ⟨init,last,rfl⟩
  · exact ⟨[],rfl,by simp [kinds]⟩
  rw [List.concat_eq_append,appendAtEnd_concat]
  simp only [kinds,List.filterMap_append]
  cases last with
  | toolCall call =>
      refine ⟨init.filterMap PageBlock.kind?,rfl,?_⟩
      intro k' hk' _
      simpa [PageBlock.kind?] using hk'
  | prose k₁ content =>
      by_cases he : k₁ = k
      · refine ⟨init.filterMap PageBlock.kind?,by simp [appendAtEnd,he,PageBlock.kind?],?_⟩
        intro k' hk' hne
        rcases List.mem_append.mp hk' with hk' | hk'
        · exact hk'
        · rw [List.mem_filterMap] at hk'
          simp [PageBlock.kind?,he] at hk'
          exact absurd hk'.symm hne
      · refine ⟨init.filterMap PageBlock.kind? ++ [k₁],by simp [appendAtEnd,he,PageBlock.kind?],?_⟩
        intro k' hk' _
        simpa [PageBlock.kind?] using hk'

theorem mixed_of_thinking (h : Prose.thinking ∈ kinds bs) (hc : contentOf pieces ≠ "") :
    [Prose.thinking, Prose.text].Sublist (kinds (pieces.foldl showPiece bs)) := by
  induction pieces generalizing bs with
  | nil => exact absurd rfl hc
  | cons piece pieces ih =>
      cases piece with
      | reasoning text =>
          have hkeep : Prose.thinking ∈ kinds (showPiece bs (.reasoning text)) :=
            (kinds_showPieces [.reasoning text] bs).subset h
          exact ih hkeep hc
      | content text =>
          rw [List.foldl_cons]
          by_cases ht : text = ""
          · rw [contentOf,ht,String.empty_append] at hc
            rw [ht]
            exact ih h hc
          · have hone : [Prose.thinking, Prose.text].Sublist
                (kinds (showPiece bs (.content text))) := by
              simp only [showPiece,if_neg ht,handleChunk]
              obtain ⟨ks,hks,hmem⟩ := mem_kinds_appendAtEnd .text text bs
              rw [hks]
              have hin := List.singleton_sublist.mpr (hmem .thinking h (by decide))
              exact hin.append (List.Sublist.refl [Prose.text])
            exact hone.trans (kinds_showPieces pieces _)

theorem textFirst_of_kinds (h : ¬ [Prose.thinking, Prose.text].Sublist
    (kinds (pieces.foldl showPiece bs))) : TextFirst pieces := by
  induction pieces generalizing bs with
  | nil => trivial
  | cons piece pieces ih =>
      cases piece with
      | content text => exact ih h
      | reasoning text =>
          simp only [TextFirst]
          split
          · exact ih h
          · next he =>
              rw [List.foldl_cons] at h
              by_contra hc
              have hthinking : Prose.thinking ∈ kinds (showPiece bs (.reasoning text)) := by
                obtain ⟨ks,hks,_⟩ := mem_kinds_appendAtEnd .thinking text bs
                simp only [showPiece,handleThinking,if_neg he,hks]
                exact List.mem_append_right _ (List.mem_singleton_self _)
              exact h (mixed_of_thinking hthinking hc)

theorem proseOf_spoken (kind k : Prose) (a : String) :
    proseOf kind (spoken k a) = if k = kind then a else "" := by
  unfold spoken
  split
  · next ha => simp [proseOf,ha]
  · simp [proseOf,PageBlock.prose?]

theorem proseOf_streamed (pieces : List Piece) :
    proseOf .text (streamed pieces) = contentOf pieces ∧
      proseOf .thinking (streamed pieces) = thinkingOf pieces := by
  simpa [proseOf,streamed] using proseOf_showPieces pieces []

theorem streamed_of_textFirst (h : TextFirst pieces) :
    streamed pieces = spoken .text (contentOf pieces) ++ spoken .thinking (thinkingOf pieces) := by
  simpa [spoken,streamed] using showPieces_textFirst h ""

theorem streamed_eq_iff (pieces : List Piece) (a b : String) :
    streamed pieces = spoken .text a ++ spoken .thinking b ↔
      contentOf pieces = a ∧ thinkingOf pieces = b ∧ TextFirst pieces := by
  constructor
  · intro heq
    obtain ⟨htext,hthinking⟩ := proseOf_streamed pieces
    rw [heq,proseOf_append,proseOf_spoken,proseOf_spoken] at htext hthinking
    refine ⟨by simpa using htext.symm,by simpa using hthinking.symm,?_⟩
    refine @textFirst_of_kinds [] pieces ?_
    change ¬ [Prose.thinking, Prose.text].Sublist (kinds (streamed pieces))
    rw [heq]
    have hkinds : (kinds (spoken .text a ++ spoken .thinking b)).Sublist
        [Prose.text, Prose.thinking] := by
      by_cases ha : a = "" <;> by_cases hb : b = "" <;>
        simp [spoken,ha,hb,kinds,PageBlock.kind?]
    intro hmixed
    exact absurd (hmixed.trans hkinds) (by decide)
  · rintro ⟨rfl,rfl,hfirst⟩
    exact streamed_of_textFirst hfirst

theorem textFirst_of_thinkingOf (h : thinkingOf pieces = "") : TextFirst pieces := by
  induction pieces with
  | nil => trivial
  | cons piece pieces ih =>
      cases piece with
      | content text => exact ih h
      | reasoning text =>
          obtain ⟨ht,hrest⟩ := String.append_eq_empty_iff.mp h
          simp only [TextFirst,ht,if_true]
          exact ih hrest

theorem streamed_text_eq_iff (pieces : List Piece) (a : String) :
    streamed pieces = spoken .text a ↔ contentOf pieces = a ∧ thinkingOf pieces = "" := by
  have hiff := streamed_eq_iff pieces a ""
  have hnone : spoken .thinking "" = [] := rfl
  rw [hnone,List.append_nil] at hiff
  rw [hiff]
  exact ⟨fun h => ⟨h.1,h.2.1⟩,fun h => ⟨h.1,h.2,textFirst_of_thinkingOf h.2⟩⟩

theorem streamed_texts_eq_iff (pieces : List Piece) (a b : String) :
    streamed pieces = spoken .text a ++ spoken .text b ↔
      contentOf pieces = a ++ b ∧ thinkingOf pieces = "" ∧ (a = "" ∨ b = "") := by
  by_cases ha : a = ""
  · have hnone : spoken .text a = [] := by simp [spoken,ha]
    rw [hnone,List.nil_append,streamed_text_eq_iff,ha,String.empty_append]
    simp
  by_cases hb : b = ""
  · have hnone : spoken .text b = [] := by simp [spoken,hb]
    rw [hnone,List.append_nil,streamed_text_eq_iff,hb,String.append_empty]
    simp
  refine ⟨fun heq => ?_,fun h => (h.2.2.elim ha hb).elim⟩
  obtain ⟨_,hthinking⟩ := proseOf_streamed pieces
  rw [heq,proseOf_append,proseOf_spoken,proseOf_spoken] at hthinking
  have hnone : thinkingOf pieces = "" := by simpa using hthinking.symm
  have hone := (streamed_text_eq_iff pieces (contentOf pieces)).mpr ⟨rfl,hnone⟩
  rw [heq] at hone
  have hlen := congrArg List.length hone
  simp only [spoken,ha,hb,if_false] at hlen
  split at hlen <;> simp at hlen

end PuCli
