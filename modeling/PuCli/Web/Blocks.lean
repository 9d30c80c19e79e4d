import PuCli.Web.Transcript

namespace PuCli

def PageBlock.call? : PageBlock → Option CallBlock
  | .prose _ _ => none
  | .toolCall call => some call

def callsOf (blocks : List PageBlock) : List CallBlock := blocks.filterMap PageBlock.call?

def settleCall (id output error : String) : List CallBlock → List CallBlock
  | [] => []
  | call :: calls =>
      if call.id = id then { call with output := output, error := error, status := .done } :: calls
      else call :: settleCall id output error calls

variable {bs cs : List PageBlock} {kind : Prose} {text id output error : String}

theorem callsOf_append (bs cs : List PageBlock) : callsOf (bs ++ cs) = callsOf bs ++ callsOf cs :=
  List.filterMap_append

theorem callsOf_settleFirst (id output error : String) (bs : List PageBlock) :
    callsOf (settleFirst id output error bs) = settleCall id output error (callsOf bs) := by
  induction bs with
  | nil => rfl
  | cons b bs ih =>
      cases b with
      | prose kind content => exact ih
      | toolCall call =>
          have hcons : callsOf (.toolCall call :: bs) = call :: callsOf bs := rfl
          rw [hcons,settleFirst,settleCall]
          split
          · rfl
          · rw [← ih]
            rfl

def Capped (bs : List PageBlock) : Prop := bs = [] ∨ ∃ init call, bs = init ++ [.toolCall call]

theorem appendAtEnd_nil (kind : Prose) (text : String) :
    appendAtEnd kind text [] = [.prose kind text] := rfl

theorem appendAtEnd_concat (kind : Prose) (text : String) (init : List PageBlock) (last : PageBlock) :
    appendAtEnd kind text (init ++ [last]) = init ++ appendAtEnd kind text [last] := by
  cases last with
  | prose k content =>
      simp only [appendAtEnd,List.getLast?_concat,List.getLast?_singleton,List.dropLast_concat]
      split <;> simp
  | toolCall call => simp [appendAtEnd]

theorem appendAtEnd_append (h : Capped bs) (kind : Prose) (text : String) (cs : List PageBlock) :
    appendAtEnd kind text (bs ++ cs) = bs ++ appendAtEnd kind text cs := by
  rcases List.eq_nil_or_concat cs with rfl | ⟨init,last,rfl⟩
  · rcases h with rfl | ⟨init,call,rfl⟩
    · rfl
    · rw [List.append_nil,appendAtEnd_concat]
      simp [appendAtEnd]
  · rw [List.concat_eq_append,← List.append_assoc,appendAtEnd_concat,appendAtEnd_concat,
      List.append_assoc]

theorem callsOf_appendAtEnd (kind : Prose) (text : String) (bs : List PageBlock) :
    callsOf (appendAtEnd kind text bs) = callsOf bs := by
  rcases List.eq_nil_or_concat bs with rfl | ⟨init,last,rfl⟩
  · rfl
  · rw [List.concat_eq_append,appendAtEnd_concat,callsOf_append,callsOf_append]
    congr 1
    cases last with
    | prose k content =>
        simp only [appendAtEnd,List.getLast?_singleton]
        split <;> rfl
    | toolCall call => rfl

theorem settleFirst_append_of_notMem (h : id ∉ (callsOf bs).map CallBlock.id) :
    settleFirst id output error (bs ++ cs) = bs ++ settleFirst id output error cs := by
  induction bs with
  | nil => rfl
  | cons b bs ih =>
      cases b with
      | prose kind content => exact congrArg (PageBlock.prose kind content :: ·) (ih h)
      | toolCall call =>
          have hcons : callsOf (.toolCall call :: bs) = call :: callsOf bs := rfl
          rw [hcons,List.map_cons,List.mem_cons,not_or] at h
          rw [List.cons_append,settleFirst,if_neg (fun he => h.1 he.symm),ih h.2,List.cons_append]

structure Shown where
  id : String
  name : String
  args : Json
  output : String
  error : String
  deriving DecidableEq

namespace Shown

def started (s : Shown) : CallBlock := ⟨s.id, s.name, s.args, "", "", .running⟩

def ended (s : Shown) : CallBlock := ⟨s.id, s.name, s.args, s.output, s.error, .done⟩

def play (bs : List PageBlock) (s : Shown) : List PageBlock :=
  settleFirst s.id s.output s.error (bs ++ [.toolCall s.started])

def playCall (calls : List CallBlock) (s : Shown) : List CallBlock :=
  settleCall s.id s.output s.error (calls ++ [s.started])

theorem callsOf_play (bs : List PageBlock) (s : Shown) :
    callsOf (s.play bs) = s.playCall (callsOf bs) := by
  rw [play,callsOf_settleFirst,callsOf_append]
  rfl

theorem callsOf_playAll (bs : List PageBlock) (ss : List Shown) :
    callsOf (ss.foldl play bs) = ss.foldl playCall (callsOf bs) := by
  induction ss generalizing bs with
  | nil => rfl
  | cons s ss ih => rw [List.foldl_cons,ih,callsOf_play,List.foldl_cons]

theorem play_of_notMem {s : Shown} (h : s.id ∉ (callsOf bs).map CallBlock.id) :
    s.play bs = bs ++ [.toolCall s.ended] := by
  rw [play,settleFirst_append_of_notMem h]
  simp [settleFirst,started,ended]

end Shown

def Stuck (calls : List CallBlock) : Prop :=
  ∃ before call after, calls = before ++ call :: after ∧ call.status = .running ∧
    call.id ∈ before.map CallBlock.id

def Quiescent (calls : List CallBlock) : Prop := ∀ call ∈ calls, call.status ≠ .running

variable {calls : List CallBlock}

theorem settleCall_of_notMem (h : id ∉ calls.map CallBlock.id) (rest : List CallBlock) :
    settleCall id output error (calls ++ rest) = calls ++ settleCall id output error rest := by
  induction calls with
  | nil => rfl
  | cons c calls ih =>
      rw [List.map_cons,List.mem_cons,not_or] at h
      rw [List.cons_append,settleCall,if_neg (fun he => h.1 he.symm),ih h.2,List.cons_append]

theorem settleCall_of_mem (h : id ∈ calls.map CallBlock.id) (rest : List CallBlock) :
    settleCall id output error (calls ++ rest) = settleCall id output error calls ++ rest := by
  induction calls with
  | nil => simp at h
  | cons c calls ih =>
      rw [List.cons_append,settleCall,settleCall]
      by_cases hc : c.id = id
      · rw [if_pos hc,if_pos hc,List.cons_append]
      · have hrest : id ∈ calls.map CallBlock.id := by
          rcases List.mem_cons.mp h with he | hm
          · exact absurd he.symm hc
          · exact hm
        rw [if_neg hc,if_neg hc,ih hrest,List.cons_append]

theorem map_id_settleCall (id output error : String) (calls : List CallBlock) :
    (settleCall id output error calls).map CallBlock.id = calls.map CallBlock.id := by
  induction calls with
  | nil => rfl
  | cons c calls ih =>
      rw [settleCall]
      split
      · rfl
      · rw [List.map_cons,List.map_cons,ih]

theorem Stuck.settleCall (h : Stuck calls) : Stuck (settleCall id output error calls) := by
  obtain ⟨before,call,after,rfl,hrun,hmem⟩ := h
  by_cases hid : id ∈ before.map CallBlock.id
  · rw [settleCall_of_mem hid]
    exact ⟨_,call,after,rfl,hrun,by rwa [map_id_settleCall]⟩
  · have hne : call.id ≠ id := by
      rintro rfl
      exact hid hmem
    rw [settleCall_of_notMem hid,PuCli.settleCall,if_neg hne]
    exact ⟨before,call,_,rfl,hrun,hmem⟩

theorem Stuck.playAll (h : Stuck calls) (ss : List Shown) : Stuck (ss.foldl Shown.playCall calls) := by
  induction ss generalizing calls with
  | nil => exact h
  | cons s ss ih =>
      refine ih (Stuck.settleCall ?_)
      obtain ⟨before,call,after,rfl,hrun,hmem⟩ := h
      exact ⟨before,call,after ++ [s.started],by simp,hrun,hmem⟩

theorem Stuck.not_quiescent (h : Stuck calls) : ¬ Quiescent calls := by
  obtain ⟨before,call,after,rfl,hrun,_⟩ := h
  exact fun hq => hq call (by simp) hrun

namespace Shown

theorem playCall_of_notMem {s : Shown} (h : s.id ∉ calls.map CallBlock.id) :
    s.playCall calls = calls ++ [s.ended] := by
  rw [playCall,settleCall_of_notMem h]
  simp [settleCall,started,ended]

theorem stuck_playCall_of_mem {s : Shown} (h : s.id ∈ calls.map CallBlock.id) :
    Stuck (s.playCall calls) := by
  rw [playCall,settleCall_of_mem h]
  exact ⟨_,s.started,[],rfl,rfl,by rwa [map_id_settleCall]⟩

def Fresh (calls : List CallBlock) (ss : List Shown) : Prop :=
  (calls.map CallBlock.id ++ ss.map Shown.id).Nodup

theorem fresh_cons {s : Shown} {ss : List Shown} (h : Fresh calls (s :: ss)) :
    s.id ∉ calls.map CallBlock.id ∧ Fresh (calls ++ [s.ended]) ss := by
  have hn : (calls.map CallBlock.id ++ s.id :: ss.map Shown.id).Nodup := h
  refine ⟨fun hm => ?_,?_⟩
  · exact (List.nodup_append.mp hn).2.2 _ hm _ (by simp) rfl
  · unfold Fresh
    rw [List.map_append,List.append_assoc]
    exact hn

theorem playAll_of_fresh {ss : List Shown} (h : Fresh (callsOf bs) ss) :
    ss.foldl play bs = bs ++ ss.map (fun s => .toolCall s.ended) := by
  induction ss generalizing bs with
  | nil => simp
  | cons s ss ih =>
      obtain ⟨hnot,hrest⟩ := fresh_cons h
      rw [List.foldl_cons,play_of_notMem hnot]
      have hcalls : callsOf (bs ++ [.toolCall s.ended]) = callsOf bs ++ [s.ended] :=
        callsOf_append bs _
      rw [ih (by rwa [hcalls])]
      simp

theorem quiescent_playAll_iff {ss : List Shown} (hq : Quiescent calls)
    (hd : (calls.map CallBlock.id).Nodup) :
    Quiescent (ss.foldl playCall calls) ↔ Fresh calls ss := by
  induction ss generalizing calls with
  | nil => simpa [Fresh,hd] using hq
  | cons s ss ih =>
      rw [List.foldl_cons]
      by_cases hmem : s.id ∈ calls.map CallBlock.id
      · refine ⟨fun hquiet => ?_,fun hf => absurd hmem (fresh_cons hf).1⟩
        exact absurd hquiet ((stuck_playCall_of_mem hmem).playAll ss).not_quiescent
      · have hnext : Quiescent (calls ++ [s.ended]) := by
          intro c hc
          rcases List.mem_append.mp hc with hc | hc
          · exact hq c hc
          · rw [List.mem_singleton.mp hc]
            simp [ended]
        have hids : ((calls ++ [s.ended]).map CallBlock.id).Nodup := by
          rw [List.map_append,List.nodup_append]
          refine ⟨hd,by simp,?_⟩
          rintro a ha b hb rfl
          rw [List.map_singleton,List.mem_singleton] at hb
          rw [hb] at ha
          exact hmem ha
        rw [playCall_of_notMem hmem,ih hnext hids]
        simp [Fresh,ended]

end Shown

def showPiece (bs : List PageBlock) : Piece → List PageBlock
  | .content text => if text = "" then bs else handleChunk text bs
  | .reasoning text => handleThinking text bs

def streamed (pieces : List Piece) : List PageBlock := pieces.foldl showPiece []

def spoken (kind : Prose) (text : String) : List PageBlock :=
  if text = "" then [] else [.prose kind text]

theorem showPieces_append (h : Capped bs) (pieces : List Piece) (cs : List PageBlock) :
    pieces.foldl showPiece (bs ++ cs) = bs ++ pieces.foldl showPiece cs := by
  induction pieces generalizing cs with
  | nil => rfl
  | cons piece pieces ih =>
      have hone : showPiece (bs ++ cs) piece = bs ++ showPiece cs piece := by
        cases piece with
        | content text =>
            simp only [showPiece,handleChunk]
            split
            · rfl
            · exact appendAtEnd_append h _ _ _
        | reasoning text =>
            simp only [showPiece,handleThinking]
            split
            · rfl
            · exact appendAtEnd_append h _ _ _
      rw [List.foldl_cons,hone,ih,List.foldl_cons]

theorem showPieces_capped (h : Capped bs) (pieces : List Piece) :
    pieces.foldl showPiece bs = bs ++ streamed pieces := by
  have hnil := showPieces_append h pieces []
  rwa [List.append_nil] at hnil

theorem callsOf_showPieces (pieces : List Piece) (bs : List PageBlock) :
    callsOf (pieces.foldl showPiece bs) = callsOf bs := by
  induction pieces generalizing bs with
  | nil => rfl
  | cons piece pieces ih =>
      rw [List.foldl_cons,ih]
      cases piece with
      | content text =>
          simp only [showPiece,handleChunk]
          split
          · rfl
          · exact callsOf_appendAtEnd _ _ _
      | reasoning text =>
          simp only [showPiece,handleThinking]
          split
          · rfl
          · exact callsOf_appendAtEnd _ _ _

theorem callsOf_spoken (kind : Prose) (text : String) : callsOf (spoken kind text) = [] := by
  unfold spoken
  split <;> rfl

theorem callsOf_toolCalls (calls : List CallBlock) : callsOf (calls.map .toolCall) = calls := by
  induction calls with
  | nil => rfl
  | cons c calls ih => exact congrArg (c :: ·) ih

theorem capped_toolCalls {calls : List CallBlock} (bs : List PageBlock) (h : calls ≠ []) :
    Capped (bs ++ calls.map .toolCall) := by
  obtain ⟨init,last,rfl⟩ := List.eq_nil_or_concat calls |>.resolve_left h
  refine .inr ⟨bs ++ init.map .toolCall,last,?_⟩
  simp

theorem append_toolCalls_inj {as as' rest rest' : List PageBlock} {calls calls' : List CallBlock}
    (ha : callsOf as = []) (ha' : callsOf as' = []) (hne : calls ≠ [])
    (hlen : calls.length = calls'.length) :
    as ++ (calls.map .toolCall ++ rest) = as' ++ (calls'.map .toolCall ++ rest') ↔
      as = as' ∧ calls = calls' ∧ rest = rest' := by
  constructor
  swap
  · rintro ⟨rfl,rfl,rfl⟩
    rfl
  induction as generalizing as' with
  | nil =>
      intro heq
      cases as' with
      | nil =>
          rw [List.nil_append,List.nil_append] at heq
          obtain ⟨hcalls,hrest⟩ := List.append_inj heq (by simp [hlen])
          refine ⟨rfl,?_,hrest⟩
          rw [← callsOf_toolCalls calls,hcalls,callsOf_toolCalls]
      | cons b as' =>
          obtain ⟨c,cs,rfl⟩ := List.exists_cons_of_ne_nil hne
          rw [List.nil_append,List.map_cons,List.cons_append,List.cons_append] at heq
          rw [← (List.cons.inj heq).1] at ha'
          cases ha'
  | cons a as ih =>
      intro heq
      cases as' with
      | nil =>
          have hne' : calls' ≠ [] := by
            rintro rfl
            exact hne (List.eq_nil_of_length_eq_zero hlen)
          obtain ⟨c,cs,rfl⟩ := List.exists_cons_of_ne_nil hne'
          rw [List.nil_append,List.map_cons,List.cons_append,List.cons_append] at heq
          rw [(List.cons.inj heq).1] at ha
          cases ha
      | cons b as' =>
          rw [List.cons_append,List.cons_append] at heq
          obtain ⟨rfl,htail⟩ := List.cons.inj heq
          cases a with
          | toolCall call => cases ha
          | prose kind content =>
              have hb : callsOf as = [] := ha
              have hb' : callsOf as' = [] := ha'
              obtain ⟨rfl,hcalls,hrest⟩ := ih hb hb' htail
              exact ⟨rfl,hcalls,hrest⟩

end PuCli
