import Mathlib.Data.List.Forall2
import PuCli.Web.Reading
import PuCli.Web.Streamed

namespace PuCli

structure Said where
  pieces : List Piece
  content : String
  reasoning : List ReasoningBlock
  calls : List ToolCall
  ran : Nat
  wrapUp : Bool
  note : String

structure Act where
  pieces : List Piece
  log : List ToolRun
  payloads : List MessagePayload

structure Finale where
  pieces : List Piece
  wrapUp : Bool
  content : String

def wrapUpPayloads (wrapUp : Bool) : List MessagePayload :=
  if wrapUp then [.user ⟨kWrapUp, ""⟩] else []

def notePayloads (note : String) : List MessagePayload :=
  if note = "" then [] else [.user ⟨"[user note during the turn] " ++ note, ""⟩]

def Finale.payloads (f : Finale) : List MessagePayload :=
  wrapUpPayloads f.wrapUp ++ if f.content = "" then [] else [.assistant ⟨f.content, [], []⟩]

def ToolRun.payload (text : JsonText) (run : ToolRun) : MessagePayload :=
  toPayload text run.message

structure Acted (text : JsonText) (said : Said) (act : Act) : Prop where
  pieces : act.pieces = said.pieces
  calls : said.calls ≠ []
  log : act.log.map ToolRun.call = said.calls.take said.ran
  ran : said.ran ≤ said.calls.length
  records : (act.payloads.flatMap MessagePayload.records).length = said.calls.length
  spoke : ∃ recs : List ToolCallRecord, recs.map ToolCallRecord.asked = said.calls ∧
    act.payloads.filterMap MessagePayload.assistant? = [⟨said.content, said.reasoning, recs⟩]
  whole : said.ran = said.calls.length → ∃ recs : List ToolCallRecord,
    recs.map ToolCallRecord.asked = said.calls ∧
      act.payloads = wrapUpPayloads said.wrapUp ++
        (.assistant ⟨said.content, said.reasoning, recs⟩ ::
          (act.log.map (ToolRun.payload text) ++ notePayloads said.note))

def ToolRun.shown (text : JsonText) (run : ToolRun) : Shown :=
  ⟨run.call.id, run.call.name, run.call.arguments, shownOutput text run.result,
    shownError text run.result⟩

def ToolRun.stored (page : Page) (text : JsonText) (run : ToolRun) : Shown :=
  ⟨run.call.id, orUnknown run.call.name, parseToolArguments page (some run.call.arguments),
    shownOutput text run.result, shownError text run.result⟩

def Act.shown (text : JsonText) (act : Act) : List Shown := act.log.map (ToolRun.shown text)

def Act.play (text : JsonText) (bs : List PageBlock) (act : Act) : List PageBlock :=
  (act.shown text).foldl Shown.play (act.pieces.foldl showPiece bs)

def played (text : JsonText) (acts : List Act) (last : List Piece) : List PageBlock :=
  last.foldl showPiece (acts.foldl (Act.play text) [])

def told (text : JsonText) : List Act → List Piece → List PageBlock
  | [], last => streamed last
  | act :: acts, last =>
      streamed act.pieces ++ ((act.shown text).map Shown.ended |>.map .toolCall) ++
        told text acts last

variable {text : JsonText} {page : Page} {bs : List PageBlock} {acts : List Act}
variable {saids : List Said} {last : List Piece}

theorem callsOf_playedFrom (acts : List Act) (bs : List PageBlock) :
    callsOf (acts.foldl (Act.play text) bs) =
      (acts.flatMap (Act.shown text)).foldl Shown.playCall (callsOf bs) := by
  induction acts generalizing bs with
  | nil => rfl
  | cons act acts ih =>
      rw [List.foldl_cons,ih,List.flatMap_cons,List.foldl_append,Act.play,Shown.callsOf_playAll,
        callsOf_showPieces]

theorem callsOf_played (acts : List Act) (last : List Piece) :
    callsOf (played text acts last) = (acts.flatMap (Act.shown text)).foldl Shown.playCall [] := by
  rw [played,callsOf_showPieces,callsOf_playedFrom]
  rfl

theorem length_playCalls (ss : List Shown) (calls : List CallBlock) :
    (ss.foldl Shown.playCall calls).length = calls.length + ss.length := by
  induction ss generalizing calls with
  | nil => rfl
  | cons s ss ih =>
      have hlen := congrArg List.length
        (map_id_settleCall s.id s.output s.error (calls ++ [s.started]))
      simp only [List.length_map,List.length_append,List.length_singleton] at hlen
      rw [List.foldl_cons,ih,Shown.playCall,hlen,List.length_cons]
      omega

theorem playedFrom_eq_told (hcap : Capped bs)
    (hf : Shown.Fresh (callsOf bs) (acts.flatMap (Act.shown text)))
    (hne : ∀ act ∈ acts, act.log ≠ []) :
    last.foldl showPiece (acts.foldl (Act.play text) bs) = bs ++ told text acts last := by
  induction acts generalizing bs with
  | nil => exact showPieces_capped hcap last
  | cons act acts ih =>
      have hact : act.log ≠ [] := hne act (by simp)
      have hcalls : callsOf (act.pieces.foldl showPiece bs) = callsOf bs := callsOf_showPieces _ _
      have hsplit : (callsOf bs).map CallBlock.id ++ ((act.shown text).map Shown.id ++
          (acts.flatMap (Act.shown text)).map Shown.id) =
            (callsOf bs).map CallBlock.id ++ ((act :: acts).flatMap (Act.shown text)).map Shown.id := by
        rw [List.flatMap_cons,List.map_append]
      have hfirst : Shown.Fresh (callsOf bs) (act.shown text) := by
        unfold Shown.Fresh at hf ⊢
        rw [← hsplit,← List.append_assoc] at hf
        exact (List.nodup_append.mp hf).1
      have hplay : Act.play text bs act = bs ++ streamed act.pieces ++
          ((act.shown text).map Shown.ended).map .toolCall := by
        rw [Act.play,Shown.playAll_of_fresh (by rwa [hcalls]),showPieces_capped hcap,List.map_map]
        rfl
      have hshown : ((act.shown text).map Shown.ended) ≠ [] := by
        simpa [Act.shown] using hact
      have hnext : Shown.Fresh (callsOf (Act.play text bs act)) (acts.flatMap (Act.shown text)) := by
        unfold Shown.Fresh at hf ⊢
        rw [hplay,callsOf_append,← showPieces_capped hcap,hcalls,callsOf_toolCalls,List.map_append,
          List.map_map,List.append_assoc]
        rw [← hsplit] at hf
        exact hf
      rw [List.foldl_cons,ih (by rw [hplay]; exact capped_toolCalls _ hshown) hnext
        (fun a ha => hne a (List.mem_cons_of_mem _ ha)),hplay,told]
      simp

theorem callsOf_readAssistant (page : Page) (p : AssistantPayload) (bs : List PageBlock) :
    callsOf (Scroll.readAssistant page p bs) = callsOf bs ++ p.toolCalls.map (storedCall page) := by
  have hthought : callsOf (if thought page p.reasoning = "" then bs
      else appendAtEnd .thinking (thought page p.reasoning) bs) = callsOf bs := by
    split
    · rfl
    · exact callsOf_appendAtEnd _ _ _
  unfold Scroll.readAssistant
  dsimp only
  split
  · rw [callsOf_append,callsOf_toolCalls,hthought]
  · rw [callsOf_appendAtEnd,callsOf_append,callsOf_toolCalls,hthought]

theorem blocks_close (s : Scroll) : s.close.blocks = s.blocks := by
  simp [Scroll.close,Scroll.blocks]

theorem storedCall_not_running (page : Page) (r : ToolCallRecord) :
    (storedCall page r).status ≠ .running := by
  change storedState r.status ≠ .running
  cases r.status <;> decide

theorem Quiescent.settleCall {calls : List CallBlock} (h : Quiescent calls)
    (id output error : String) : Quiescent (settleCall id output error calls) := by
  induction calls with
  | nil => exact h
  | cons c calls ih =>
      have hrest : Quiescent calls := fun x hx => h x (List.mem_cons_of_mem _ hx)
      rw [PuCli.settleCall]
      split
      · intro x hx
        rcases List.mem_cons.mp hx with rfl | hx
        · simp
        · exact hrest x hx
      · intro x hx
        rcases List.mem_cons.mp hx with rfl | hx
        · exact h x (by simp)
        · exact ih hrest x hx

theorem quiescent_append {as bs : List CallBlock} :
    Quiescent (as ++ bs) ↔ Quiescent as ∧ Quiescent bs := List.forall_mem_append

theorem read_quiescent (s : Scroll) (p : MessagePayload) (h : Quiescent (callsOf s.blocks)) :
    Quiescent (callsOf (s.read page text p).blocks) := by
  cases p with
  | user p => rwa [Scroll.read,blocks_close]
  | system p => rwa [Scroll.read,blocks_close]
  | assistant p =>
      rw [Scroll.blocks,callsOf_append,quiescent_append] at h
      simp only [Scroll.read,Scroll.blocks,Option.getD_some]
      rw [callsOf_append,callsOf_readAssistant,quiescent_append,quiescent_append]
      refine ⟨h.1,h.2,?_⟩
      intro c hc
      obtain ⟨r,_,rfl⟩ := List.mem_map.mp hc
      exact storedCall_not_running page r
  | tool p =>
      rw [Scroll.blocks,callsOf_append,quiescent_append] at h
      simp only [Scroll.read,Scroll.blocks,Option.getD_some]
      rw [callsOf_append,callsOf_settleFirst,quiescent_append]
      exact ⟨h.1,h.2.settleCall _ _ _⟩

theorem length_read (s : Scroll) (p : MessagePayload) :
    (callsOf (s.read page text p).blocks).length =
      (callsOf s.blocks).length + p.records.length := by
  cases p with
  | user p => rw [Scroll.read,blocks_close]; rfl
  | system p => rw [Scroll.read,blocks_close]; rfl
  | assistant p =>
      simp only [Scroll.read,Scroll.blocks,Option.getD_some]
      rw [callsOf_append,callsOf_readAssistant,callsOf_append,List.length_append,List.length_append,
        List.length_append,List.length_map,MessagePayload.records]
      omega
  | tool p =>
      have hlen := congrArg List.length (map_id_settleCall p.toolCallId
        (shownOutput text p.content) (shownError text p.content) (callsOf (s.current.getD [])))
      simp only [List.length_map] at hlen
      simp only [Scroll.read,Scroll.blocks,Option.getD_some]
      rw [callsOf_append,callsOf_settleFirst,callsOf_append,List.length_append,List.length_append,
        hlen]
      rfl

theorem readAll_calls (ps : List MessagePayload) (s : Scroll) :
    (Quiescent (callsOf s.blocks) → Quiescent (callsOf (s.readAll page text ps).blocks)) ∧
      (callsOf (s.readAll page text ps).blocks).length =
        (callsOf s.blocks).length + (ps.flatMap MessagePayload.records).length := by
  induction ps generalizing s with
  | nil => exact ⟨id,rfl⟩
  | cons p ps ih =>
      obtain ⟨hq,hlen⟩ := ih (s.read page text p)
      refine ⟨fun h => hq (read_quiescent s p h),?_⟩
      have hcons : s.readAll page text (p :: ps) = (s.read page text p).readAll page text ps := rfl
      rw [hcons,hlen,length_read,List.flatMap_cons,List.length_append]
      omega

def closing (split : Bool) (before content : String) : List PageBlock :=
  if split then spoken .text before ++ spoken .text content else spoken .text (before ++ content)

structure Reached (s : Scroll) (before : String) (split : Bool) (kept : List PageBlock) : Prop where
  blocks : s.blocks = kept ++ spoken .text before
  current : (split = true ∧ s.current = none) ∨
    (split = false ∧ ∃ open', s.current = some (open' ++ spoken .text before) ∧ Capped open' ∧
      s.closed ++ open' = kept)

theorem Reached.close {s : Scroll} {before : String} {split : Bool} {kept : List PageBlock}
    (h : Reached s before split kept) : Reached s.close before true kept :=
  ⟨by rw [blocks_close]; exact h.blocks,.inl ⟨rfl,rfl⟩⟩

theorem Reached.wrapUp {s : Scroll} {before : String} {split : Bool} {kept : List PageBlock}
    (h : Reached s before split kept) (wrapUp : Bool) :
    Reached (s.readAll page text (wrapUpPayloads wrapUp)) before (split || wrapUp) kept := by
  cases wrapUp with
  | false =>
      rw [Bool.or_false]
      exact h
  | true =>
      rw [Bool.or_true]
      exact h.close

theorem Reached.noted {s : Scroll} {before : String} {kept : List PageBlock}
    (h : Reached s before false kept) (note : String) :
    Reached (s.readAll page text (notePayloads note)) before (decide (note ≠ "")) kept := by
  unfold notePayloads
  by_cases hn : note = ""
  · rw [if_pos hn,decide_eq_false (not_not.mpr hn)]
    exact h
  · rw [if_neg hn,decide_eq_true hn]
    exact h.close

theorem appendAtEnd_thinking_spoken (h : Capped bs) (before thinking : String) :
    (if thinking = "" then bs ++ spoken .text before
      else appendAtEnd .thinking thinking (bs ++ spoken .text before)) =
        bs ++ spoken .text before ++ spoken .thinking thinking := by
  split
  · next ht => simp [spoken,ht]
  · next ht =>
      rw [appendAtEnd_append h]
      by_cases hb : before = "" <;> simp [spoken,hb,ht,appendAtEnd]

theorem appendAtEnd_text_capped (h : Capped bs) (content : String) :
    (if content = "" then bs else appendAtEnd .text content bs) = bs ++ spoken .text content := by
  split
  · next hc => simp [spoken,hc]
  · next hc =>
      have hnil := appendAtEnd_append h .text content []
      rw [List.append_nil,appendAtEnd_nil] at hnil
      simp [spoken,hc,hnil]

theorem readAssistant_calls (h : Capped bs) (before : String) {p : AssistantPayload}
    (hne : p.toolCalls ≠ []) :
    Scroll.readAssistant page p (bs ++ spoken .text before) =
      bs ++ spoken .text before ++ spoken .thinking (thought page p.reasoning) ++
        (p.toolCalls.map (storedCall page)).map .toolCall ++ spoken .text p.content := by
  unfold Scroll.readAssistant
  dsimp only
  rw [appendAtEnd_thinking_spoken h,appendAtEnd_text_capped (capped_toolCalls _ (by simpa using hne))]

theorem settleFirst_stored {run : ToolRun} {r : ToolCallRecord} (hr : r.asked = run.call)
    (hid : r.id ≠ "") (hf : run.call.id ∉ (callsOf bs).map CallBlock.id) (cs : List PageBlock) :
    settleFirst run.call.id (shownOutput text run.result) (shownError text run.result)
        (bs ++ .toolCall (storedCall page r) :: cs) =
      bs ++ .toolCall (run.stored page text).ended :: cs := by
  rw [settleFirst_append_of_notMem hf,settleFirst]
  have hcall : (storedCall page r).id = run.call.id := by
    rw [← hr]
    simp [storedCall,orUnknown,hid,ToolCallRecord.asked]
  rw [if_pos hcall]
  simp [storedCall,ToolRun.stored,Shown.ended,← hr,ToolCallRecord.asked,orUnknown,hid]

theorem settleAll_stored {log : List ToolRun} {recs : List ToolCallRecord}
    (hlog : recs.map ToolCallRecord.asked = log.map ToolRun.call) (hids : ∀ r ∈ recs, r.id ≠ "")
    (hf : ((callsOf bs).map CallBlock.id ++ log.map ToolRun.id).Nodup) (cs : List PageBlock) :
    log.foldl (fun blocks run => settleFirst run.call.id (shownOutput text run.result)
        (shownError text run.result) blocks)
          (bs ++ (recs.map (storedCall page)).map .toolCall ++ cs) =
      bs ++ (log.map (fun run => (run.stored page text).ended)).map .toolCall ++ cs := by
  induction log generalizing recs bs with
  | nil =>
      obtain rfl : recs = [] := List.map_eq_nil_iff.mp hlog
      rfl
  | cons run log ih =>
      cases recs with
      | nil => cases hlog
      | cons r recs =>
          obtain ⟨hr,hrest⟩ := List.cons.inj hlog
          have hnot : run.call.id ∉ (callsOf bs).map CallBlock.id := by
            intro hm
            exact (List.nodup_append.mp hf).2.2 _ hm run.call.id (by simp [ToolRun.id]) rfl
          have hnext : ((callsOf (bs ++ [.toolCall (run.stored page text).ended])).map CallBlock.id ++
              log.map ToolRun.id).Nodup := by
            rw [callsOf_append,List.map_append,List.append_assoc]
            exact hf
          have hstep := @settleFirst_stored text page bs run r hr (hids r (by simp)) hnot
            ((recs.map (storedCall page)).map .toolCall ++ cs)
          rw [List.foldl_cons]
          have hgoal := ih hrest (fun x hx => hids x (List.mem_cons_of_mem _ hx)) hnext
          simp only [List.map_cons,List.append_assoc,List.cons_append,List.nil_append] at hstep hgoal ⊢
          rw [hstep]
          exact hgoal

theorem readAll_append (s : Scroll) (ps qs : List MessagePayload) :
    s.readAll page text (ps ++ qs) = (s.readAll page text ps).readAll page text qs :=
  List.foldl_append

theorem readAll_receipts (log : List ToolRun) (closed bs : List PageBlock) :
    Scroll.readAll page text ⟨closed, some bs⟩ (log.map (ToolRun.payload text)) =
      ⟨closed, some (log.foldl (fun blocks run => settleFirst run.call.id
        (shownOutput text run.result) (shownError text run.result) blocks) bs)⟩ := by
  induction log generalizing bs with
  | nil => rfl
  | cons run log ih => exact ih _

theorem Reached.openBlocks {s : Scroll} {before : String} {split : Bool} {kept : List PageBlock}
    (h : Reached s before split kept) :
    ∃ open' said, s.current.getD [] = open' ++ spoken .text said ∧ Capped open' := by
  rcases h.current with ⟨_,hnone⟩ | ⟨_,open',hsome,hcap,_⟩
  · exact ⟨[],"",by rw [hnone]; rfl,.inl rfl⟩
  · exact ⟨open',before,by rw [hsome]; rfl,hcap⟩

theorem Reached.act {s : Scroll} {before : String} {split : Bool} {kept : List PageBlock}
    {said : Said} {act : Act} (h : Reached s before split kept) (ha : Acted text said act)
    (hran : said.ran = said.calls.length) (hids : ∀ call ∈ said.calls, call.id ≠ "")
    (hf : ((callsOf s.blocks).map CallBlock.id ++ said.calls.map ToolCall.id).Nodup) :
    Reached (s.readAll page text act.payloads) said.content (decide (said.note ≠ ""))
      (kept ++ spoken .text before ++ spoken .thinking (thought page said.reasoning) ++
        (act.log.map (fun run => (run.stored page text).ended)).map .toolCall) := by
  obtain ⟨recs,hrecs,hpayloads⟩ := ha.whole hran
  have hlog : recs.map ToolCallRecord.asked = act.log.map ToolRun.call := by
    rw [ha.log,hran,List.take_length,hrecs]
  have hrne : recs ≠ [] := by
    rintro rfl
    exact ha.calls hrecs.symm
  have hlne : act.log ≠ [] := by
    intro hnil
    rw [hnil] at hlog
    exact hrne (List.map_eq_nil_iff.mp hlog)
  have hrids : ∀ r ∈ recs, r.id ≠ "" := fun r hr =>
    hids r.asked (hrecs ▸ List.mem_map_of_mem hr)
  have hcalls : said.calls.map ToolCall.id = act.log.map ToolRun.id := by
    rw [← hrecs,hlog,List.map_map]
    rfl
  have h₁ := @Reached.wrapUp text page s before split kept h said.wrapUp
  set s₁ := s.readAll page text (wrapUpPayloads said.wrapUp) with hs₁
  have hsame : s₁.blocks = s.blocks := by rw [h₁.blocks,h.blocks]
  obtain ⟨open',spent,hopen,hcap⟩ := h₁.openBlocks
  have hread := @readAssistant_calls page open' hcap spent ⟨said.content, said.reasoning, recs⟩ hrne
  have hfresh : ((callsOf (open' ++ spoken .text spent ++
      spoken .thinking (thought page said.reasoning))).map CallBlock.id ++
        act.log.map ToolRun.id).Nodup := by
    rw [callsOf_append,callsOf_spoken,List.append_nil,← hopen,← hcalls]
    rw [← hsame,Scroll.blocks,callsOf_append,List.map_append,List.append_assoc] at hf
    exact (List.nodup_append.mp hf).2.1
  have hsettled := @settleAll_stored text page _ act.log recs hlog hrids hfresh
    (spoken .text said.content)
  have hstate : s.readAll page text act.payloads =
      (⟨s₁.closed, some (open' ++ spoken .text spent ++
        spoken .thinking (thought page said.reasoning) ++
        (act.log.map (fun run => (run.stored page text).ended)).map .toolCall ++
        spoken .text said.content)⟩ : Scroll).readAll page text (notePayloads said.note) := by
    rw [hpayloads,readAll_append,← hs₁,← List.cons_append,readAll_append]
    have hcons : s₁.readAll page text (.assistant ⟨said.content, said.reasoning, recs⟩ ::
        act.log.map (ToolRun.payload text)) =
          Scroll.readAll page text ⟨s₁.closed, some (Scroll.readAssistant page
            ⟨said.content, said.reasoning, recs⟩ (s₁.current.getD []))⟩
              (act.log.map (ToolRun.payload text)) := rfl
    rw [hcons,hopen,hread,readAll_receipts,hsettled]
  have hclosed : s₁.closed ++ (open' ++ spoken .text spent) = kept ++ spoken .text before := by
    rw [← hopen,← h₁.blocks]
    rfl
  have hreached : Reached (⟨s₁.closed, some (open' ++ spoken .text spent ++
        spoken .thinking (thought page said.reasoning) ++
        (act.log.map (fun run => (run.stored page text).ended)).map .toolCall ++
        spoken .text said.content)⟩ : Scroll) said.content false
      (kept ++ spoken .text before ++ spoken .thinking (thought page said.reasoning) ++
        (act.log.map (fun run => (run.stored page text).ended)).map .toolCall) := by
    rw [← hclosed]
    refine ⟨by simp [Scroll.blocks],.inr ⟨rfl,_,rfl,capped_toolCalls _ (by simpa using hlne),?_⟩⟩
    simp
  rw [hstate]
  exact hreached.noted said.note

def retold (page : Page) (text : JsonText) :
    String → Bool → List Said → List Act → Finale → List PageBlock
  | before, _, said :: saids, act :: acts, f =>
      spoken .text before ++ spoken .thinking (thought page said.reasoning) ++
        ((act.log.map (fun run => (run.stored page text).ended)).map .toolCall ++
          retold page text said.content (decide (said.note ≠ "")) saids acts f)
  | before, split, _, _, f => closing (split || f.wrapUp) before f.content

theorem thought_nil (page : Page) : thought page [] = "" := rfl

theorem Reached.finale {s : Scroll} {before : String} {split : Bool} {kept : List PageBlock}
    (h : Reached s before split kept) (f : Finale) :
    (s.readAll page text f.payloads).blocks =
      kept ++ closing (split || f.wrapUp) before f.content := by
  have h₁ := @Reached.wrapUp text page s before split kept h f.wrapUp
  rw [Finale.payloads,readAll_append]
  generalize s.readAll page text (wrapUpPayloads f.wrapUp) = s₁ at h₁
  by_cases hc : f.content = ""
  · rw [if_pos hc]
    change s₁.blocks = _
    rw [h₁.blocks,hc]
    unfold closing
    split <;> simp [spoken]
  · rw [if_neg hc]
    have hread : (s₁.readAll page text [.assistant ⟨f.content, [], []⟩]).blocks =
        s₁.closed ++ appendAtEnd .text f.content (s₁.current.getD []) := by
      change s₁.closed ++ Scroll.readAssistant page ⟨f.content, [], []⟩ (s₁.current.getD []) = _
      simp [Scroll.readAssistant,thought_nil,hc]
    rw [hread]
    rcases h₁.current with ⟨hsplit,hnone⟩ | ⟨hsplit,open',hsome,hcap,hkept⟩
    · have hblocks := h₁.blocks
      rw [Scroll.blocks,hnone] at hblocks
      rw [hnone,hsplit]
      simp only [Option.getD_none,List.append_nil] at hblocks ⊢
      rw [hblocks]
      simp [appendAtEnd_nil,closing,spoken,hc]
    · rw [hsome,hsplit,Option.getD_some,appendAtEnd_append hcap,← List.append_assoc,hkept]
      congr 1
      by_cases hb : before = ""
      · simp [spoken,hb,closing,hc,appendAtEnd]
      · simp [spoken,hb,closing,hc,appendAtEnd,String.append_eq_empty_iff]

def ids (saids : List Said) : List String := saids.flatMap (fun said => said.calls.map ToolCall.id)

theorem ids_cons (said : Said) (saids : List Said) :
    ids (said :: saids) = said.calls.map ToolCall.id ++ ids saids := List.flatMap_cons

theorem callsOf_kept {s : Scroll} {before : String} {split : Bool} {kept : List PageBlock}
    (h : Reached s before split kept) : callsOf s.blocks = callsOf kept := by
  rw [h.blocks,callsOf_append,callsOf_spoken,List.append_nil]

theorem readAll_eq_retold {s : Scroll} {before : String} {split : Bool} {kept : List PageBlock}
    (h : Reached s before split kept) (ha : List.Forall₂ (Acted text) saids acts)
    (hran : ∀ said ∈ saids, said.ran = said.calls.length)
    (hids : ∀ said ∈ saids, ∀ call ∈ said.calls, call.id ≠ "")
    (hf : ((callsOf s.blocks).map CallBlock.id ++ ids saids).Nodup) (f : Finale) :
    (s.readAll page text (acts.flatMap Act.payloads ++ f.payloads)).blocks =
      kept ++ retold page text before split saids acts f := by
  induction ha generalizing s before split kept with
  | nil => exact h.finale f
  | @cons said act saids acts hact _ ih =>
      have hsplit : (callsOf s.blocks).map CallBlock.id ++ ids (said :: saids) =
          ((callsOf s.blocks).map CallBlock.id ++ said.calls.map ToolCall.id) ++ ids saids := by
        rw [ids_cons,List.append_assoc]
      rw [hsplit] at hf
      have hone := @Reached.act text page s before split kept said act h hact (hran said (by simp))
        (hids said (by simp)) (List.nodup_append.mp hf).1
      have hlog : act.log.map ToolRun.id = said.calls.map ToolCall.id := by
        have hcalls := congrArg (List.map ToolCall.id) hact.log
        rw [hran said (by simp),List.take_length,List.map_map] at hcalls
        exact hcalls
      have hnext : ((callsOf (s.readAll page text act.payloads).blocks).map CallBlock.id ++
          ids saids).Nodup := by
        have hstored : (act.log.map (fun run => (run.stored page text).ended)).map CallBlock.id =
            act.log.map ToolRun.id := by
          rw [List.map_map]
          rfl
        rw [callsOf_kept hone,callsOf_append,callsOf_append,callsOf_append,callsOf_spoken,
          callsOf_spoken,callsOf_toolCalls,List.append_nil,List.append_nil,List.map_append,hstored,
          hlog,← callsOf_kept h]
        exact hf
      rw [List.flatMap_cons,List.append_assoc,readAll_append,
        ih hone (fun x hx => hran x (List.mem_cons_of_mem _ hx))
          (fun x hx => hids x (List.mem_cons_of_mem _ hx)) hnext,retold]
      simp

structure ToolCall.Plain (page : Page) (call : ToolCall) : Prop where
  named : call.name ≠ ""
  args : parseToolArguments page (some call.arguments) = call.arguments

def Retells (page : Page) : String → Bool → List Said → Finale → Prop
  | before, split, [], f =>
      contentOf f.pieces = before ++ f.content ∧ thinkingOf f.pieces = "" ∧
        ((split || f.wrapUp) = true → before = "" ∨ f.content = "")
  | before, _, said :: saids, f =>
      (contentOf said.pieces = before ∧ thinkingOf said.pieces = thought page said.reasoning ∧
          TextFirst said.pieces) ∧
        (∀ call ∈ said.calls, call.Plain page) ∧
        Retells page said.content (decide (said.note ≠ "")) saids f

theorem streamed_closing_iff (pieces : List Piece) (split : Bool) (before content : String) :
    streamed pieces = closing split before content ↔
      contentOf pieces = before ++ content ∧ thinkingOf pieces = "" ∧
        (split = true → before = "" ∨ content = "") := by
  unfold closing
  cases split with
  | false =>
      rw [if_neg (by simp),streamed_text_eq_iff]
      simp
  | true =>
      rw [if_pos rfl,streamed_texts_eq_iff]
      simp

theorem orUnknown_eq_iff (name : String) : name = orUnknown name ↔ name ≠ "" := by
  unfold orUnknown
  split
  · next h => simp [h]
  · next h => simp [h]

theorem shown_eq_stored_iff (log : List ToolRun) :
    (log.map (ToolRun.shown text)).map Shown.ended =
        log.map (fun run => (run.stored page text).ended) ↔
      ∀ call ∈ log.map ToolRun.call, call.Plain page := by
  rw [List.map_map,List.map_inj_left,List.forall_mem_map]
  refine forall₂_congr ?_
  intro run _
  simp only [Function.comp_apply,ToolRun.shown,ToolRun.stored,Shown.ended,CallBlock.mk.injEq,
    true_and,and_true,orUnknown_eq_iff]
  exact ⟨fun h => ⟨h.1,h.2.symm⟩,fun h => ⟨h.named,h.args.symm⟩⟩

theorem told_eq_retold_iff {before : String} {split : Bool} {f : Finale}
    (ha : List.Forall₂ (Acted text) saids acts)
    (hran : ∀ said ∈ saids, said.ran = said.calls.length) :
    told text acts f.pieces = retold page text before split saids acts f ↔
      Retells page before split saids f := by
  induction ha generalizing before split with
  | nil => exact streamed_closing_iff _ _ _ _
  | @cons said act saids acts hact _ ih =>
      have hcalls : act.log.map ToolRun.call = said.calls := by
        rw [hact.log,hran said (by simp),List.take_length]
      have hlne : act.log ≠ [] := by
        intro hnil
        rw [hnil] at hcalls
        exact hact.calls hcalls.symm
      have hspoken : callsOf (spoken .text before ++
          spoken .thinking (thought page said.reasoning)) = [] := by
        rw [callsOf_append,callsOf_spoken,callsOf_spoken,List.append_nil]
      have hstreamed : callsOf (streamed act.pieces) = [] := callsOf_showPieces act.pieces []
      rw [told,retold,List.append_assoc,Act.shown,
        append_toolCalls_inj hstreamed hspoken (by simpa using hlne) (by simp),
        shown_eq_stored_iff,hcalls,ih (fun x hx => hran x (List.mem_cons_of_mem _ hx)),hact.pieces,
        streamed_eq_iff]
      rfl

theorem length_shown_le (ha : List.Forall₂ (Acted text) saids acts) :
    (acts.flatMap (Act.shown text)).length ≤
        (acts.flatMap Act.payloads |>.flatMap MessagePayload.records).length ∧
      ((acts.flatMap (Act.shown text)).length =
          (acts.flatMap Act.payloads |>.flatMap MessagePayload.records).length ↔
        ∀ said ∈ saids, said.ran = said.calls.length) := by
  induction ha with
  | nil => simp
  | @cons said act saids acts hact _ ih =>
      obtain ⟨hle,hiff⟩ := ih
      have hshown : (act.shown text).length = said.ran := by
        have hlog := congrArg List.length hact.log
        rw [List.length_map,List.length_take,Nat.min_eq_left hact.ran] at hlog
        rw [Act.shown,List.length_map,hlog]
      have hran := hact.ran
      rw [List.flatMap_cons,List.flatMap_cons,List.flatMap_append,List.length_append,
        List.length_append,hshown,hact.records,List.forall_mem_cons,← hiff]
      omega

theorem ids_shown (ha : List.Forall₂ (Acted text) saids acts)
    (hran : ∀ said ∈ saids, said.ran = said.calls.length) :
    (acts.flatMap (Act.shown text)).map Shown.id = ids saids := by
  induction ha with
  | nil => rfl
  | @cons said act saids acts hact _ ih =>
      have hcalls := congrArg (List.map ToolCall.id) hact.log
      rw [hran said (by simp),List.take_length,List.map_map] at hcalls
      rw [List.flatMap_cons,List.map_append,ih (fun x hx => hran x (List.mem_cons_of_mem _ hx)),
        ids_cons,← hcalls,Act.shown,List.map_map]
      rfl

theorem records_finale (f : Finale) : f.payloads.flatMap MessagePayload.records = [] := by
  unfold Finale.payloads wrapUpPayloads
  split <;> split <;> rfl

theorem exists_said (ha : List.Forall₂ (Acted text) saids acts) {act : Act} (h : act ∈ acts) :
    ∃ said ∈ saids, Acted text said act := by
  induction ha with
  | nil => cases h
  | cons hact _ ih =>
      rcases List.mem_cons.mp h with rfl | h
      · exact ⟨_,by simp,hact⟩
      · obtain ⟨said,hsaid,hacted⟩ := ih h
        exact ⟨said,List.mem_cons_of_mem _ hsaid,hacted⟩

theorem played_eq_read_iff (ha : List.Forall₂ (Acted text) saids acts)
    (hids : ∀ said ∈ saids, ∀ call ∈ said.calls, call.id ≠ "") (f : Finale) :
    played text acts f.pieces =
        (Scroll.readAll page text {} (acts.flatMap Act.payloads ++ f.payloads)).blocks ↔
      (∀ said ∈ saids, said.ran = said.calls.length) ∧ (ids saids).Nodup ∧
        Retells page "" true saids f := by
  obtain ⟨hquiet,hlength⟩ := @readAll_calls text page
    (acts.flatMap Act.payloads ++ f.payloads) {}
  have hstart : callsOf ({} : Scroll).blocks = [] := rfl
  have hnone : Quiescent [] := by
    intro c hc
    cases hc
  rw [hstart] at hquiet hlength
  have hwhole : (∀ said ∈ saids, said.ran = said.calls.length) → (ids saids).Nodup →
      (played text acts f.pieces =
          (Scroll.readAll page text {} (acts.flatMap Act.payloads ++ f.payloads)).blocks ↔
        Retells page "" true saids f) := by
    intro hran hnodup
    have hfresh : Shown.Fresh (callsOf []) (acts.flatMap (Act.shown text)) := by
      unfold Shown.Fresh
      rw [ids_shown ha hran]
      exact hnodup
    have hlogs : ∀ act ∈ acts, act.log ≠ [] := by
      intro act hact hnil
      obtain ⟨said,hsaid,hacted⟩ := exists_said ha hact
      have hlog := hacted.log
      rw [hran said hsaid,List.take_length,hnil] at hlog
      exact hacted.calls hlog.symm
    have hreached : Reached {} "" true [] := ⟨rfl,.inl ⟨rfl,rfl⟩⟩
    rw [played,playedFrom_eq_told (.inl rfl) hfresh hlogs,
      readAll_eq_retold hreached ha hran hids hnodup f]
    exact told_eq_retold_iff ha hran
  constructor
  · intro heq
    have hcalls := congrArg callsOf heq
    rw [callsOf_played] at hcalls
    have hran : ∀ said ∈ saids, said.ran = said.calls.length := by
      refine (length_shown_le ha).2.mp ?_
      have hlen := congrArg List.length hcalls
      rw [length_playCalls,hlength,List.flatMap_append,records_finale,List.append_nil] at hlen
      simpa using hlen
    have hnodup : (ids saids).Nodup := by
      have hq := hquiet hnone
      rw [← hcalls,Shown.quiescent_playAll_iff hnone (by simp)] at hq
      unfold Shown.Fresh at hq
      rw [ids_shown ha hran] at hq
      exact hq
    exact ⟨hran,hnodup,(hwhole hran hnodup).mp heq⟩
  · rintro ⟨hran,hnodup,hretells⟩
    exact (hwhole hran hnodup).mpr hretells

end PuCli
