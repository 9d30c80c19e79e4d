import PuCli.Runtime.CancelSeals

namespace PuCli

variable {ρ : Type}

def chunkText : List Frame → String
  | [] => ""
  | .chunk text :: frames => text ++ chunkText frames
  | _ :: frames => chunkText frames

theorem chunkText_append (fs gs : List Frame) :
    chunkText (fs ++ gs) = chunkText fs ++ chunkText gs := by
  induction fs with
  | nil => simp [chunkText]
  | cons f fs ih => cases f <;> simp [chunkText,ih,String.append_assoc]

def calledRounds (token : Bool) (limit : Int) :
    List (Round ρ) → Budgeted → Bool → Nat → List (Round ρ)
  | [], _, _, _ => []
  | round :: rounds, budget, cancelled, count =>
      let reached := budget.reached || decide (limit ≤ count)
      if reached ∧ budget.wrapUpAsked then []
      else if round.calls.isEmpty then [round]
      else
        let out := round.ranOut token cancelled
        round :: calledRounds token limit rounds ⟨reached, budget.wrapUpAsked || reached⟩
          out.cancelled (count + out.ran)

structure Heard where
  content : String
  chunks : String

def Round.said (round : Round ρ) : String := contentOf round.reply.pieces

def Round.answer (round : Round ρ) : Option String :=
  match round.reply.chat with
  | .ok reply => if reply.toolCalls.isEmpty then some (answerOf reply) else none
  | .error _ => none

def Heard.next (heard : Heard) (round : Round ρ) : Heard :=
  ⟨round.answer.getD (heard.content ++ round.said), round.said⟩

theorem ExecutionResult.content_conclude {r : ExecutionResult} {budgetReached : Bool}
    (h : (r.conclude budgetReached).hasError = false) :
    (r.conclude budgetReached).content = r.content ∧ r.hasError = false := by
  unfold conclude at h ⊢
  split at h
  · simp at h
  · next hbudget =>
      rw [if_neg hbudget]
      split at h
      · dsimp only at h
        split at h
        · next herr => simp [herr] at h
        · simp at h
      · next hblocked =>
          rw [if_neg hblocked]
          split at h
          · simp at h
          · next hempty =>
              rw [if_neg hempty]
              exact ⟨rfl,h⟩

theorem content_noteReply (r : ExecutionResult) (reply : ChatResult) :
    (r.noteReply reply).content = r.content ∧ (r.noteReply reply).hasError = r.hasError := by
  obtain ⟨usage,notes,heq⟩ := Executing.noteReply_only r reply
  rw [heq]
  exact ⟨rfl,rfl⟩

namespace Executing

variable {host : Host} {turn : Turn ρ} {st st' : Executing ρ} {round : Round ρ}
variable {reply : ChatResult}

structure SameText (st st' : Executing ρ) : Prop where
  content : st'.result.content = st.result.content
  chunks : chunkText st'.frames = chunkText st.frames

theorem SameText.trans {st'' : Executing ρ} (h : SameText st st') (h' : SameText st' st'') :
    SameText st st'' := ⟨h'.content.trans h.content,h'.chunks.trans h.chunks⟩

theorem sameText_pass (turn : Turn ρ) (w : Window ρ) (st : Executing ρ) :
    SameText st (st.pass turn w) where
  content := by rw [result_pass]
  chunks := by rw [frames_pass]

theorem opened_text (host : Host) (turn : Turn ρ) (budget : Budgeted) (w : Window ρ)
    (st : Executing ρ) :
    ((st.pass turn w).askWrapUp host budget).openRound.result.content = st.result.content ∧
      ((st.pass turn w).askWrapUp host budget).openRound.frames = [] := by
  have hp := (sameText_pass turn w st).content
  unfold askWrapUp
  split <;> exact ⟨hp,rfl⟩

theorem receive_text (pieces : List Piece) (st : Executing ρ) :
    (pieces.foldl receive st).result.content = st.result.content ++ contentOf pieces ∧
      chunkText (pieces.foldl receive st).frames = chunkText st.frames ++ contentOf pieces := by
  induction pieces generalizing st with
  | nil => simp [contentOf]
  | cons piece pieces ih =>
      obtain ⟨hc,hf⟩ := ih (st.receive piece)
      rw [List.foldl_cons,hc,hf]
      cases piece with
      | content text =>
          simp only [receive]
          split
          · next he => simp [contentOf,he]
          · simp [contentOf,say,chunkText_append,chunkText,String.append_assoc]
      | reasoning text =>
          simp only [receive]
          split
          · simp [contentOf]
          · simp [contentOf,say,chunkText_append,chunkText]

theorem heard_text (turn : Turn ρ) (round : Round ρ) (st : Executing ρ) :
    (heard turn round st).result.content = st.result.content ++ round.said ∧
      chunkText (heard turn round st).frames = chunkText st.frames ++ round.said := by
  obtain ⟨hc,hf⟩ := receive_text round.reply.pieces st
  have hp := sameText_pass turn round.calling (round.reply.pieces.foldl receive st)
  exact ⟨hp.content.trans hc,hp.chunks.trans hf⟩

theorem callProvider_text {called : Called}
    (hc : callProvider host turn round st = .ok (called, st')) :
    st'.result.content = st.result.content ++ round.said ∧
      chunkText st'.frames = chunkText st.frames ++ round.said := by
  have hh := heard_text turn round st
  obtain ⟨reply,_,_,rfl⟩ | ⟨what,_,⟨_,_,rfl⟩ | ⟨_,_,_,rfl⟩ | ⟨_,_,_,rfl⟩⟩ := callProvider_cases hc
  · exact ⟨(content_noteReply _ reply).1.trans hh.1,hh.2⟩
  · exact hh
  · exact hh
  · exact hh

theorem chunkText_callFrames (step : CallStep ρ) (call : ToolCall) (raw : String) :
    chunkText (callFrames host step call raw) = "" := by
  have hasks : ∀ asks : List String, chunkText (asks.map Frame.approvalAsk) = "" := by
    intro asks
    induction asks with
    | nil => rfl
    | cons _ _ ih => exact ih
  have hend : chunkText [toolEndFrame call raw (parseToolResult host.text raw)] = "" := by
    unfold toolEndFrame
    split <;> rfl
  simp [callFrames,chunkText,chunkText_append,hasks,hend]

theorem sameText_runCalls (ctx : ToolContext) (steps : Nat → CallStep ρ) (calls : List ToolCall)
    (st : Executing ρ) : SameText st (runCalls host turn ctx steps calls st) := by
  induction calls generalizing steps st with
  | nil => exact ⟨rfl,rfl⟩
  | cons call calls ih =>
      have hp := sameText_pass turn (steps 0).before st
      simp only [runCalls]
      split
      · exact hp
      · refine hp.trans (SameText.trans ?_ (ih _ _))
        rw [runCall_eq]
        constructor
        · simp only [append,logRun,countBlocked]
          split <;> rfl
        · simp only [append,logRun]
          rw [chunkText_append,chunkText_callFrames,String.append_empty]

theorem sameText_runTools (round : Round ρ) (reply : ChatResult) (st : Executing ρ) :
    SameText st (runTools host turn round reply st) := by
  have hcalled : SameText st (called host reply st) := ⟨rfl,rfl⟩
  have hran : SameText st (ranCalls host turn round reply st) :=
    hcalled.trans (sameText_runCalls _ _ _ _)
  have hsame := @sameOutput_runTools ρ host turn round reply st
  exact hran.trans ⟨by rw [hsame.result],by rw [hsame.frames]⟩

theorem hasError_conclude_failed {budget : Budgeted}
    (hc : callProvider host turn round st = .ok (.failed, st')) :
    (conclude budget st').2.result.hasError = true := by
  rw [← Bool.not_eq_false]
  intro he
  obtain ⟨_,herr⟩ := ExecutionResult.content_conclude he
  obtain ⟨_,_,hcalled,_⟩ | ⟨what,_,⟨hcalled,_⟩ | ⟨hcalled,_⟩ | ⟨_,_,_,rfl⟩⟩ :=
    callProvider_cases hc
  · cases hcalled
  · cases hcalled
  · cases hcalled
  · simp [noteFailure] at herr

section Asked

variable {rounds : List (Round ρ)} {budget : Budgeted}

theorem calledRounds_over
    (hover : (checkBudget turn budget st).reached ∧ (checkBudget turn budget st).wrapUpAsked) :
    calledRounds turn.token turn.budget (round :: rounds) budget st.cancelled
      st.result.toolCallCount = [] := by
  rw [calledRounds]
  exact if_pos hover

theorem calledRounds_last
    (hover : ¬ ((checkBudget turn budget st).reached ∧ (checkBudget turn budget st).wrapUpAsked))
    (hempty : round.calls.isEmpty = true) :
    calledRounds turn.token turn.budget (round :: rounds) budget st.cancelled
      st.result.toolCallCount = [round] := by
  rw [calledRounds]
  exact (if_neg hover).trans (if_pos hempty)

theorem calledRounds_called
    (hover : ¬ ((checkBudget turn budget st).reached ∧ (checkBudget turn budget st).wrapUpAsked))
    (hc : callProvider host turn round (asking host turn budget round st) =
      .ok (.answered reply, st')) (hempty : ¬ reply.toolCalls.isEmpty = true) :
    calledRounds turn.token turn.budget (round :: rounds) budget st.cancelled
        st.result.toolCallCount =
      round :: calledRounds turn.token turn.budget rounds ⟨(checkBudget turn budget st).reached,
        budget.wrapUpAsked || (checkBudget turn budget st).reached⟩
        (runTools host turn round reply st').cancelled
        (runTools host turn round reply st').result.toolCallCount := by
  obtain ⟨hout,hran⟩ := ranOut_asked hc
  have hcalls := calls_asked hc hempty
  rw [hout,hran,calledRounds]
  exact (if_neg hover).trans (if_neg hcalls)

theorem text_asked {called : Called}
    (hc : callProvider host turn round (asking host turn budget round st) = .ok (called, st')) :
    st'.result.content = st.result.content ++ round.said ∧ chunkText st'.frames = round.said := by
  obtain ⟨hcontent,hchunks⟩ := callProvider_text hc
  obtain ⟨hoc,hof⟩ := opened_text host turn (checkBudget turn budget st) round.opening st
  rw [asking,hoc] at hcontent
  rw [asking,hof] at hchunks
  exact ⟨hcontent,hchunks.trans String.empty_append⟩

theorem answer_unanswered {called : Called} (hc : callProvider host turn round st = .ok (called, st'))
    (hf : ∀ reply, called ≠ .answered reply) : round.answer = none := by
  obtain ⟨reply,_,hcalled,_⟩ | ⟨what,hwhat,_⟩ := callProvider_cases hc
  · exact absurd hcalled (hf reply)
  · simp [Round.answer,hwhat]

end Asked

theorem heard_runToolLoop (rounds : List (Round ρ)) (budget : Budgeted)
    (hret : (runToolLoop host turn rounds budget st).1 = .returned)
    (he : (runToolLoop host turn rounds budget st).2.result.hasError = false) :
    (⟨(runToolLoop host turn rounds budget st).2.result.content,
        chunkText (runToolLoop host turn rounds budget st).2.frames⟩ : Heard) =
      (calledRounds turn.token turn.budget rounds budget st.cancelled
        st.result.toolCallCount).foldl Heard.next ⟨st.result.content, chunkText st.frames⟩ := by
  induction rounds generalizing budget st with
  | nil =>
      simp only [runToolLoop] at hret he ⊢
      split at hret
      · next hover =>
          rw [if_pos hover] at he ⊢
          simp only [conclude] at he ⊢
          rw [(ExecutionResult.content_conclude he).1]
          rfl
      · simp at hret
  | cons round rounds ih =>
      cases looped host turn round rounds budget st with
      | threw hover hc heq =>
          rw [heq] at hret
          cases hret
      | failed hover hc heq =>
          rw [heq,hasError_conclude_failed hc] at he
          cases he
      | spent hover heq =>
          rw [heq] at he ⊢
          simp only [conclude] at he ⊢
          rw [(ExecutionResult.content_conclude he).1,calledRounds_over hover]
          rfl
      | stopped hover hc heq =>
          obtain ⟨hcontent,hchunks⟩ := text_asked hc
          rw [heq,calledRounds_last hover (calls_of_failed hc (by simp))]
          simp only [sealCalls,List.foldl_cons,List.foldl_nil,Heard.next,
            answer_unanswered hc (by simp),hcontent,hchunks,Option.getD_none]
      | abandoned hover hc heq =>
          obtain ⟨hcontent,hchunks⟩ := text_asked hc
          rw [heq,calledRounds_last hover (calls_of_failed hc (by simp))]
          simp only [List.foldl_cons,List.foldl_nil,Heard.next,answer_unanswered hc (by simp),
            hcontent,hchunks,Option.getD_none]
      | @answered reply _ hover hc hempty heq =>
          obtain ⟨_,hchunks⟩ := text_asked hc
          have hreply := answered_reply hc
          have hans : round.answer = some (answerOf reply) := by
            simp only [Round.answer,hreply,hempty,if_true]
          rw [heq] at he ⊢
          simp only [conclude] at he ⊢
          rw [(ExecutionResult.content_conclude he).1,
            calledRounds_last hover (by rw [calls_eq hreply]; exact hempty)]
          simp only [List.foldl_cons,List.foldl_nil,Heard.next,hans,hchunks,
            ExecutionResult.answer,Option.getD_some]
      | @called reply _ hover hc hempty heq =>
          obtain ⟨hcontent,hchunks⟩ := text_asked hc
          have hans : round.answer = none := by
            simp only [Round.answer,answered_reply hc,if_neg hempty]
          have hran := @sameText_runTools ρ host turn round reply
          rw [heq] at hret he ⊢
          have hrest := ih _ hret he
          rw [(hran _).content,(hran _).chunks,hcontent,hchunks] at hrest
          rw [hrest,calledRounds_called hover hc hempty,List.foldl_cons]
          simp only [Heard.next,hans,Option.getD_none]

theorem content_of_called (rounds : List (Round ρ)) (budget : Budgeted)
    (hret : (runToolLoop host turn rounds budget st).1 = .returned)
    (he : (runToolLoop host turn rounds budget st).2.result.hasError = false)
    (hall : ∀ round ∈ calledRounds turn.token turn.budget rounds budget st.cancelled
      st.result.toolCallCount, ¬ round.calls.isEmpty = true) :
    (runToolLoop host turn rounds budget st).2.result.content ≠ "" := by
  have hspent : ∀ {b : Budgeted} {s : Executing ρ}, b.reached = true →
      (conclude b s).2.result.hasError = false → (conclude b s).2.result.content ≠ "" := by
    intro b s hb herr hnil
    simp only [conclude] at herr hnil
    rw [(ExecutionResult.content_conclude herr).1] at hnil
    simp [ExecutionResult.conclude,hb,hnil] at herr
  induction rounds generalizing budget st with
  | nil =>
      simp only [runToolLoop] at hret he ⊢
      split at hret
      · next hover =>
          rw [if_pos hover] at he ⊢
          exact hspent hover.1 he
      · simp at hret
  | cons round rounds ih =>
      -- a round without calls would be among those called
      have hcalls (hover : ¬ ((checkBudget turn budget st).reached ∧
          (checkBudget turn budget st).wrapUpAsked)) : ¬ round.calls.isEmpty = true := by
        intro hend
        rw [calledRounds_last hover hend] at hall
        exact hall round (by simp) hend
      cases looped host turn round rounds budget st with
      | threw hover hc heq =>
          rw [heq] at hret
          cases hret
      | failed hover hc heq =>
          rw [heq,hasError_conclude_failed hc] at he
          cases he
      | spent hover heq =>
          rw [heq] at he ⊢
          exact hspent hover.1 he
      | stopped hover hc heq => exact absurd (calls_of_failed hc (by simp)) (hcalls hover)
      | abandoned hover hc heq => exact absurd (calls_of_failed hc (by simp)) (hcalls hover)
      | answered hover hc hempty heq =>
          have hend : round.calls.isEmpty = true := by rw [calls_eq (answered_reply hc)]; exact hempty
          exact absurd hend (hcalls hover)
      | called hover hc hempty heq =>
          rw [calledRounds_called hover hc hempty] at hall
          rw [heq] at hret he ⊢
          exact ih _ hret he (fun r hr => hall r (List.mem_cons_of_mem _ hr))

end Executing

def Provided.Verbatim : Provided → Prop
  | .streamed events refusal _ =>
      refusal = "" ∧ ((Stream.read events).content ≠ "" ∨
        projectReasoningText (Stream.read events).reasoning = "")
  | .whole result => result.content = "" ∧ projectReasoningText result.reasoning = ""
  | .threw _ _ => True

instance (p : Provided) : Decidable p.Verbatim :=
  match p with
  | .streamed _ _ _ => inferInstanceAs (Decidable (_ ∧ _))
  | .whole _ => inferInstanceAs (Decidable (_ ∧ _))
  | .threw _ _ => isTrue trivial

def Silent (rounds : List (Round ρ)) : Prop := ∀ round ∈ rounds, round.said = ""

instance (rounds : List (Round ρ)) : Decidable (Silent rounds) :=
  inferInstanceAs (Decidable (∀ round ∈ rounds, round.said = ""))

def Told (called : List (Round ρ)) : Prop :=
  match called.getLast? with
  | none => True
  | some last => if last.answer.isSome then last.reply.Verbatim else Silent called.dropLast

instance (called : List (Round ρ)) : Decidable (Told called) :=
  match h : called.getLast? with
  | none => isTrue (by simp [Told,h])
  | some last =>
      if ha : last.answer.isSome then
        decidable_of_iff last.reply.Verbatim (by simp [Told,h,ha])
      else decidable_of_iff (Silent called.dropLast) (by simp [Told,h,ha])

theorem ne_finishContent {s : Stream} {refusal : String} (h : refusal ≠ "") :
    s.finishContent refusal ≠ "" ∧ s.content ≠ s.finishContent refusal := by
  have hlen : s.content.length < (s.finishContent refusal).length := by
    have hpos : 0 < refusal.length := by
      rw [Nat.pos_iff_ne_zero]
      exact fun hz => h (String.length_eq_zero_iff.mp hz)
    unfold Stream.finishContent
    rw [if_neg h,String.length_append]
    split
    · omega
    · rw [String.length_append]
      omega
  constructor
  · intro he
    rw [he] at hlen
    exact Nat.not_lt_zero _ hlen
  · intro he
    rw [← he] at hlen
    exact Nat.lt_irrefl _ hlen

theorem said_eq_answerOf_iff {round : Round ρ} {reply : ChatResult}
    (h : round.reply.chat = .ok reply) :
    round.said = answerOf reply ↔ round.reply.Verbatim := by
  unfold Round.said
  cases hr : round.reply with
  | streamed events refusal rest =>
      rw [hr] at h
      obtain rfl := Except.ok.inj h
      simp only [Provided.pieces,Provided.Verbatim,answerOf,← Stream.content_read]
      by_cases hrefusal : refusal = ""
      · simp only [hrefusal,Stream.finishContent,if_true,true_and]
        by_cases hc : (Stream.read events).content = "" <;>
          by_cases ht : projectReasoningText (Stream.read events).reasoning = "" <;>
            simp [hc,ht]
      · obtain ⟨hne,hdiff⟩ := @ne_finishContent (Stream.read events) refusal hrefusal
        simp [hrefusal,hne,hdiff]
  | whole result =>
      rw [hr] at h
      obtain rfl := Except.ok.inj h
      simp only [Provided.pieces,Provided.Verbatim,answerOf,contentOf]
      by_cases hc : result.content = "" <;>
        by_cases ht : projectReasoningText result.reasoning = "" <;> simp [hc,ht]
  | threw events what =>
      rw [hr] at h
      simp [Provided.chat] at h

theorem content_foldl_next {rounds : List (Round ρ)} (hn : ∀ round ∈ rounds, round.answer = none)
    (heard : Heard) :
    (rounds.foldl Heard.next heard).content = "" ↔ heard.content = "" ∧ Silent rounds := by
  induction rounds generalizing heard with
  | nil => simp [Silent]
  | cons round rounds ih =>
      rw [List.foldl_cons,ih (fun r hr => hn r (List.mem_cons_of_mem _ hr))]
      simp [Heard.next,hn round (by simp),Silent,String.append_eq_empty_iff,and_assoc]

def Round.Called (round : Round ρ) : Prop := round.calls ≠ []

instance (round : Round ρ) : Decidable round.Called := inferInstanceAs (Decidable (_ ≠ _))

theorem Round.answer_of_called {round : Round ρ} (h : round.Called) : round.answer = none := by
  unfold Called calls at h
  unfold answer
  split
  · next reply hreply =>
      rw [hreply] at h
      exact if_neg (by simpa using h)
  · rfl

theorem called_init_calledRounds {token : Bool} {limit : Int} {rounds init : List (Round ρ)}
    {last : Round ρ} {budget : Budgeted} {cancelled : Bool} {count : Nat}
    (h : calledRounds token limit rounds budget cancelled count = init ++ [last]) :
    ∀ round ∈ init, round.Called := by
  induction rounds generalizing budget cancelled count init with
  | nil => simp [calledRounds] at h
  | cons round rounds ih =>
      simp only [calledRounds] at h
      split at h
      · simp at h
      · split at h
        · have hone := congrArg List.length h
          simp only [List.length_append,List.length_singleton] at hone
          obtain rfl : init = [] := List.eq_nil_of_length_eq_zero (by omega)
          simp
        · next hcalls =>
            cases init with
            | nil => simp
            | cons first init =>
                rw [List.cons_append] at h
                obtain ⟨rfl,hrest⟩ := List.cons.inj h
                intro r hr
                rcases List.mem_cons.mp hr with rfl | hr
                · simpa [Round.Called] using hcalls
                · exact ih hrest r hr

theorem answer_init_calledRounds {token : Bool} {limit : Int} {rounds init : List (Round ρ)}
    {last : Round ρ} {budget : Budgeted} {cancelled : Bool} {count : Nat}
    (h : calledRounds token limit rounds budget cancelled count = init ++ [last]) :
    ∀ round ∈ init, round.answer = none :=
  fun round hr => Round.answer_of_called (called_init_calledRounds h round hr)

theorem told_iff {called : List (Round ρ)}
    (hinit : ∀ init last, called = init ++ [last] → ∀ round ∈ init, round.answer = none) :
    (called.foldl Heard.next ⟨"", ""⟩).chunks = (called.foldl Heard.next ⟨"", ""⟩).content ↔
      Told called := by
  rcases List.eq_nil_or_concat called with rfl | ⟨init,last,rfl⟩
  · simp [Told]
  · rw [List.concat_eq_append] at hinit ⊢
    have hnone := hinit init last rfl
    simp only [List.foldl_append,List.foldl_cons,List.foldl_nil,Told,List.getLast?_concat,
      List.dropLast_concat]
    generalize hc : (init.foldl Heard.next ⟨"", ""⟩ : Heard) = heard
    have hsilent := content_foldl_next hnone ⟨"", ""⟩
    rw [hc] at hsilent
    cases ha : last.answer with
    | none =>
        simp only [Heard.next,ha,Option.getD_none,Option.isSome_none,Bool.false_eq_true,if_false]
        rw [← (by simpa using hsilent : heard.content = "" ↔ Silent init)]
        constructor
        · intro he
          have hlen := congrArg String.length he
          rw [String.length_append] at hlen
          exact String.length_eq_zero_iff.mp (by omega)
        · intro he
          rw [he,String.empty_append]
    | some answer =>
        simp only [Heard.next,ha,Option.getD_some,Option.isSome_some,if_true]
        unfold Round.answer at ha
        split at ha
        · next reply hreply =>
            split at ha
            · obtain rfl := Option.some.inj ha
              exact said_eq_answerOf_iff hreply
            · cases ha
        · cases ha

end PuCli
