import PuCli.Web.ReplayedTurn

namespace PuCli

open MessageGraph

variable {ρ : Type}

namespace Round

def text (round : Round ρ) : String :=
  match round.reply.chat with
  | .ok reply => if reply.toolCalls.isEmpty then answerOf reply else reply.content
  | .error _ => round.said

def Threw (round : Round ρ) : Prop := ∃ what, round.reply.chat = .error what

variable {round : Round ρ}

theorem calls_of_threw (h : round.Threw) : round.calls = [] := by
  obtain ⟨what,hwhat⟩ := h
  simp [calls,hwhat]

theorem answer_of_threw (h : round.Threw) : round.answer = none := by
  obtain ⟨what,hwhat⟩ := h
  simp [answer,hwhat]

theorem text_of_threw (h : round.Threw) : round.text = round.said := by
  obtain ⟨what,hwhat⟩ := h
  simp [text,hwhat]

theorem cases_end (round : Round ρ) :
    round.Called ∨ round.Threw ∨ round.answer = some round.text ∧ round.calls = [] := by
  cases hr : round.reply.chat with
  | error what => exact .inr (.inl ⟨what,hr⟩)
  | ok reply =>
      by_cases hempty : reply.toolCalls.isEmpty = true
      · refine .inr (.inr ⟨by simp only [answer,text,hr,if_pos hempty],?_⟩)
        simpa [calls,hr] using hempty
      · refine .inl ?_
        simpa [Called,calls,hr] using hempty

end Round

theorem saids_outline (host : Host) (token : Bool) (limit : Int) (rounds : List (Round ρ))
    (budget : Budgeted) (cancelled : Bool) (count next : Nat) :
    (outline host token limit rounds budget cancelled count next).saids.map Said.content =
      ((calledRounds token limit rounds budget cancelled count).filter
        (fun round => round.Called)).map Round.text := by
  induction rounds generalizing budget cancelled count next with
  | nil => rfl
  | cons round rounds ih =>
      rw [outline,calledRounds]
      dsimp only
      split
      · rfl
      · cases hr : round.reply.chat with
        | error what =>
            have hcalls := Round.calls_of_threw ⟨what,hr⟩
            simp [hcalls,Round.Called]
        | ok reply =>
            have hsame := Executing.calls_eq hr
            by_cases hempty : reply.toolCalls.isEmpty = true
            · have hnil : round.calls = [] := by simpa [hsame] using hempty
              simp [hempty,hnil,Round.Called]
            · have hcalled : round.Called := by simpa [Round.Called,hsame] using hempty
              have hisEmpty : round.calls.isEmpty = false := by simpa [hsame] using hempty
              have htext : round.text = reply.content := by
                simp only [Round.text,hr,if_neg hempty]
              dsimp only
              rw [if_neg hempty,hisEmpty,if_neg (by simp),List.map_cons,ih,
                List.filter_cons_of_pos (by simpa using hcalled),List.map_cons,htext]
              rfl

theorem content_next (heard : Heard) (rounds : List (Round ρ)) {last : Round ρ}
    (hl : last.answer = none) :
    ((rounds ++ [last]).foldl Heard.next heard).content =
      (rounds.foldl Heard.next heard).content ++ last.said := by
  simp [Heard.next,hl]

theorem words_eq (n : MessageNode) : n.words = n.payload.words := by
  unfold MessageNode.words MessagePayload.words MessagePayload.assistant?
  cases n.payload <;> rfl

def Conversation.textsFrom (c : Conversation) (before : Nat) : List String :=
  (c.chain.drop before).filterMap MessageNode.words

theorem textsFrom_eq {c : Conversation} {before : Nat} {old new : List MessagePayload}
    (h : c.chain.map MessageNode.payload = old ++ new) (hlen : old.length = before) :
    c.textsFrom before = new.filterMap MessagePayload.words := by
  have hdrop : (c.chain.drop before).map MessageNode.payload = new := by
    rw [List.map_drop,h,← hlen,List.drop_left]
  rw [← hdrop,List.filterMap_map]
  exact List.filterMap_congr (fun n _ => words_eq n)

theorem words_eq_assistants (ps : List MessagePayload) :
    ps.filterMap MessagePayload.words =
      (ps.filterMap MessagePayload.assistant?).map AssistantPayload.content :=
  (List.map_filterMap ..).symm

theorem words_acted {text : JsonText} {saids : List Said} {acts : List Act}
    (h : List.Forall₂ (Acted text) saids acts) :
    (acts.flatMap Act.payloads).filterMap MessagePayload.words = saids.map Said.content := by
  induction h with
  | nil => rfl
  | cons ha _ ih =>
      obtain ⟨recs,_,hspoke⟩ := ha.spoke
      rw [List.flatMap_cons,List.filterMap_append,ih,words_eq_assistants,hspoke]
      rfl

theorem words_finale (f : Finale) :
    f.payloads.filterMap MessagePayload.words = if f.content = "" then [] else [f.content] := by
  rw [words_eq_assistants,Finale.payloads,List.filterMap_append,
    Executing.assistants_wrapUpPayloads]
  split <;> rfl

namespace Runtime

def called (rt : Runtime) (script : Script ρ) : List (Round ρ) :=
  calledRounds true rt.toolCallBudget.toInt script.rounds {} false 0

def keptTexts (rt : Runtime) (script : Script ρ) : List String :=
  if rt.keptText script = "" then [] else [rt.keptText script]

end Runtime

namespace SessionRunner

open Executing

variable {site : Site} {serve : Conversation → ρ → Conversation} {script : Script ρ}
variable {ending : Ending} {job : Job} {rt : Runtime}

structure Unfailed (p : Processed ρ) (job : Job) : Prop where
  asked : job.conn = true ∨ job.peerOrigin ≠ ""
  message : Runtime.isCommand job.text = false
  ended : p.ended = true
  unfailed : p.result.hasError = false

theorem stored_runJob (hbuilt : rt.current.conversation.graph.Built)
    (hids : rt.current.conversation.graph.FreshSupply (fun i => site.host.newId (rt.drawn + i)))
    (hquiet : ∀ e ∈ (Runtime.talking site serve script job.text job.peerOrigin rt).2.served,
      serve e.1 e.2 = e.1)
    (h : Unfailed (rt.processInput site true serve script job.text job.peerOrigin) job) :
    (∃ node, (runJob site serve script ending job rt).runtime.current.conversation.chain[
        rt.current.conversation.chain.length]? = some node ∧
          node.payload = .user ⟨job.text, job.peerOrigin⟩) ∧
      (runJob site serve script ending job rt).runtime.current.conversation.textsFrom
          rt.current.conversation.chain.length =
        ((rt.called script).filter (fun round => round.Called)).map Round.text ++
          rt.keptTexts script := by
  obtain ⟨hret,hresult,_,_,hconv⟩ := Runtime.processInput_talked h.message h.ended h.unfailed
  have he := h.unfailed
  rw [hresult] at he
  obtain ⟨acts,hacted,_,hchain⟩ := Runtime.played_talking hbuilt.sound hids hret hquiet
  rw [Runtime.kept_talking hret he,payloads,Executing.chain] at hchain
  rw [runJob_asked h.asked,runtime_report,hconv]
  refine ⟨?_,?_⟩
  · have hat := congrArg (fun ps => ps[rt.current.conversation.chain.length]?) hchain
    rw [List.getElem?_map,List.getElem?_append_right (by simp),List.length_map,Nat.sub_self] at hat
    exact Option.map_eq_some_iff.mp hat
  · rw [textsFrom_eq hchain (List.length_map _),List.filterMap_cons,List.filterMap_append,
      words_acted hacted,words_finale]
    exact congrArg (· ++ rt.keptTexts script) (saids_outline _ _ _ _ _ _ _ _)

def Holds (said text : String) : Prop := said ≠ "" ∧ said.toList <:+: text.toList

structure CutOff (p : Processed ρ) (job : Job) (ending : Ending) (called init : List (Round ρ))
    (last : Round ρ) : Prop extends Unfailed p job where
  called : called = init ++ [last]
  threw : last.Threw
  reason : last.shutdown = true ∨ ending.pageAsked = false

structure DropsPartial (c : Conversation) (before : Nat) (job : Job) (init : List (Round ρ))
    (last : Round ρ) : Prop where
  question : ∃ node, c.chain[before]? = some node ∧
    node.payload = .user ⟨job.text, job.peerOrigin⟩
  rounds : ∃ extra, c.textsFrom before = init.map Round.text ++ extra ∧
    ∀ text ∈ extra, ¬ Holds last.said text

theorem filter_called_init {token : Bool} {limit : Int} {rounds init : List (Round ρ)}
    {last : Round ρ} {budget : Budgeted} {cancelled : Bool} {count : Nat}
    (h : calledRounds token limit rounds budget cancelled count = init ++ [last]) :
    init.filter (fun round => round.Called) = init := by
  rw [List.filter_eq_self]
  intro round hr
  simpa using called_init_calledRounds h round hr

theorem keptText_unanswered {init : List (Round ρ)} {last : Round ρ}
    (h : rt.called script = init ++ [last]) (hl : last.answer = none) :
    rt.keptText script = (init.foldl Heard.next ⟨"", ""⟩).content ++ last.said := by
  rw [← content_next _ _ hl,← h]
  rfl

theorem cut_off_turn_drops_partial_iff {init : List (Round ρ)} {last : Round ρ}
    (hbuilt : rt.current.conversation.graph.Built)
    (hids : rt.current.conversation.graph.FreshSupply (fun i => site.host.newId (rt.drawn + i)))
    (hquiet : ∀ e ∈ (Runtime.talking site serve script job.text job.peerOrigin rt).2.served,
      serve e.1 e.2 = e.1)
    (hcut : CutOff (rt.processInput site true serve script job.text job.peerOrigin) job ending
      (rt.called script) init last) :
    DropsPartial (runJob site serve script ending job rt).runtime.current.conversation
        rt.current.conversation.chain.length job init last ↔
      last.said = "" := by
  obtain ⟨hquestion,htexts⟩ := @stored_runJob ρ site serve script ending job rt hbuilt hids hquiet
    hcut.toUnfailed
  have hlast : (decide last.Called) = false := by
    simp [Round.Called,Round.calls_of_threw hcut.threw]
  have hkept := keptText_unanswered hcut.called (Round.answer_of_threw hcut.threw)
  rw [hcut.called,List.filter_append,filter_called_init hcut.called,
    List.filter_cons_of_neg (by simp [hlast]),List.filter_nil,List.append_nil] at htexts
  constructor
  · rintro ⟨_,extra,heq,hfree⟩
    rw [htexts] at heq
    obtain rfl := List.append_cancel_left heq
    by_contra hne
    have hstored : rt.keptTexts script = [rt.keptText script] := by
      refine if_neg ?_
      rw [hkept,String.append_eq_empty_iff]
      exact fun h => hne h.2
    refine hfree (rt.keptText script) (by rw [hstored]; simp) ⟨hne,?_⟩
    rw [hkept,String.toList_append]
    exact (List.suffix_append _ _).isInfix
  · intro hsaid
    exact ⟨hquestion,_,htexts,fun _ _ h => h.1 hsaid⟩

def leavingRound (event : List StreamEvent) (shutdown cancels : Bool) : Round Empty where
  reply := .threw event "gone"
  calling := { cancels := cancels }
  shutdown := shutdown
  steps := fun _ => { answer := ⟨.ok "", ⟨.ok "", .ok ""⟩⟩ }

def leavingRun (event : List StreamEvent) (shutdown cancels : Bool) : JobRun :=
  runJob Runtime.boardSite (fun c _ => c) ⟨[leavingRound event shutdown cancels], {}⟩ {}
    (typed "hi") Runtime.servingC

theorem cutOff_leaving (event : List StreamEvent) {shutdown cancels : Bool}
    (h : Unfailed (Runtime.servingC.processInput Runtime.boardSite true (fun c _ => c)
      ⟨[leavingRound event shutdown cancels], {}⟩ "hi" "") (typed "hi")) :
    CutOff (Runtime.servingC.processInput Runtime.boardSite true (fun c _ => c)
      ⟨[leavingRound event shutdown cancels], {}⟩ "hi" "") (typed "hi") {}
      (Runtime.servingC.called ⟨[leavingRound event shutdown cancels], {}⟩) []
      (leavingRound event shutdown cancels) :=
  ⟨h,rfl,⟨"gone",rfl⟩,.inr rfl⟩

theorem cut_off_turn_drops_silent_partial :
    DropsPartial (leavingRun [] true false).runtime.current.conversation 0 (typed "hi") []
      (leavingRound [] true false) :=
  (@cut_off_turn_drops_partial_iff Empty Runtime.boardSite (fun c _ => c) _ {} (typed "hi")
    Runtime.servingC [] _ ⟨_,.empty,.refl⟩ (Runtime.tally_fresh_empty 0) (fun e _ => e.2.elim)
    (cutOff_leaving [] ⟨.inl rfl,by decide,by decide,by decide⟩)).mpr (by decide)

theorem cut_off_turn_stores_partial :
    CutOff (Runtime.servingC.processInput Runtime.boardSite true (fun c _ => c)
        ⟨[leavingRound [.content "par"] true false], {}⟩ "hi" "") (typed "hi") {}
        (Runtime.servingC.called ⟨[leavingRound [.content "par"] true false], {}⟩) []
        (leavingRound [.content "par"] true false) ∧
      ¬ DropsPartial (leavingRun [.content "par"] true false).runtime.current.conversation 0
        (typed "hi") [] (leavingRound [.content "par"] true false) ∧
      CutOff (Runtime.servingC.processInput Runtime.boardSite true (fun c _ => c)
        ⟨[leavingRound [.content "par"] false true], {}⟩ "hi" "") (typed "hi") {}
        (Runtime.servingC.called ⟨[leavingRound [.content "par"] false true], {}⟩) []
        (leavingRound [.content "par"] false true) ∧
      ¬ DropsPartial (leavingRun [.content "par"] false true).runtime.current.conversation 0
        (typed "hi") [] (leavingRound [.content "par"] false true) := by
  have hstored : ∀ {c : Conversation} {last : Round Empty}, c.textsFrom 0 = ["par"] →
      last.said = "par" → ¬ DropsPartial c 0 (typed "hi") [] last := by
    rintro c last htexts hsaid ⟨_,extra,heq,hfree⟩
    obtain rfl : extra = ["par"] := heq.symm.trans htexts
    exact hfree "par" (by simp) ⟨by rw [hsaid]; decide,by rw [hsaid]⟩
  refine ⟨cutOff_leaving _ ⟨.inl rfl,by decide,by decide,by decide⟩,hstored (by decide) (by decide),
    cutOff_leaving _ ⟨.inl rfl,by decide,by decide,by decide⟩,hstored (by decide) (by decide)⟩

def StoredOnce (texts : List String) (called : List (Round ρ)) : Prop :=
  ∃ kept, List.Sublist kept called ∧ texts = kept.map Round.text

def Spared (called : List (Round ρ)) : Prop :=
  match called.getLast? with
  | none => True
  | some last => last.answer.isSome = true ∨ last.calls = [] ∧ Silent called.dropLast

theorem not_storedOnce_of_more {called : List (Round ρ)} {texts : List String} (text : String)
    (h : texts = called.map Round.text ++ [text]) : ¬ StoredOnce texts called := by
  rintro ⟨kept,hsub,heq⟩
  have hlen := congrArg List.length (h.symm.trans heq)
  have hle := hsub.length_le
  simp only [List.length_append,List.length_map,List.length_cons,List.length_nil] at hlen
  omega

theorem storedOnce_answered (init : List (Round ρ)) (last : Round ρ) :
    StoredOnce (init.map Round.text ++ if last.text = "" then [] else [last.text])
      (init ++ [last]) := by
  by_cases hempty : last.text = ""
  · exact ⟨init,List.sublist_append_left _ _,by rw [if_pos hempty,List.append_nil]⟩
  · refine ⟨init ++ [last],List.Sublist.refl _,?_⟩
    rw [if_neg hempty,List.map_append]
    rfl

theorem storedOnce_threw_iff (init : List (Round ρ)) (before : String) (last : Round ρ)
    (h : last.text = last.said) :
    StoredOnce (init.map Round.text ++
        if before ++ last.said = "" then [] else [before ++ last.said]) (init ++ [last]) ↔
      before = "" := by
  constructor
  · rintro ⟨kept,hsub,heq⟩
    by_cases hempty : before ++ last.said = ""
    · exact (String.append_eq_empty_iff.mp hempty).1
    · rw [if_neg hempty] at heq
      have hlen := congrArg List.length heq
      simp only [List.length_append,List.length_map,List.length_singleton] at hlen
      obtain rfl := hsub.eq_of_length (by rw [← hlen]; simp)
      rw [List.map_append] at heq
      have hsame := List.append_cancel_left heq
      have htext : before ++ last.said = last.said := by simpa [h] using hsame
      have hlength := congrArg String.length htext
      rw [String.length_append] at hlength
      exact String.length_eq_zero_iff.mp (by omega)
  · rintro rfl
    rw [String.empty_append,← h]
    exact storedOnce_answered init last

theorem keptText_called (h : Unfailed (rt.processInput site true serve script job.text
      job.peerOrigin) job) (hall : ∀ round ∈ rt.called script, round.Called) :
    rt.keptText script ≠ "" := by
  obtain ⟨hret,hresult,_,_,_⟩ := Runtime.processInput_talked h.message h.ended h.unfailed
  have he := h.unfailed
  rw [hresult] at he
  obtain ⟨hloop,heq⟩ := execute_returned hret
  have hcontent := congrArg Heard.content (heard_execute hret he)
  have hkeep : ∀ s : Executing ρ, ((s.pass (rt.turn true serve) script.leaving).keepAnswer
      site.host).result = s.result := by
    intro s
    rw [(keepAnswer_keeps _).1,result_pass]
  have hfinal : (Runtime.talking site serve script job.text job.peerOrigin rt).2.result = _ :=
    (congrArg Executing.result heq).trans (hkeep _)
  rw [hfinal] at he
  have hne := content_of_called script.rounds {} hloop he
    (fun round hr => by simpa [Round.Called] using hall round hr)
  intro hnil
  refine hne ?_
  rw [← hfinal]
  exact hcontent.trans hnil

theorem stored_once_iff (hbuilt : rt.current.conversation.graph.Built)
    (hids : rt.current.conversation.graph.FreshSupply (fun i => site.host.newId (rt.drawn + i)))
    (hquiet : ∀ e ∈ (Runtime.talking site serve script job.text job.peerOrigin rt).2.served,
      serve e.1 e.2 = e.1)
    (hdone : Unfailed (rt.processInput site true serve script job.text job.peerOrigin) job) :
    StoredOnce ((runJob site serve script ending job rt).runtime.current.conversation.textsFrom
        rt.current.conversation.chain.length) (rt.called script) ↔
      Spared (rt.called script) := by
  obtain ⟨_,htexts⟩ := @stored_runJob ρ site serve script ending job rt hbuilt hids hquiet hdone
  rw [htexts]
  rcases List.eq_nil_or_concat (rt.called script) with hnil | ⟨init,last,hcalled⟩
  · have hkept : rt.keptTexts script = [] := by
      refine if_pos ?_
      change ((rt.called script).foldl Heard.next ⟨"", ""⟩).content = ""
      rw [hnil]
      rfl
    rw [hnil,hkept]
    exact ⟨fun _ => trivial,fun _ => ⟨[],.slnil,rfl⟩⟩
  rw [List.concat_eq_append] at hcalled
  have hinit := called_init_calledRounds hcalled
  rw [hcalled,List.filter_append,filter_called_init hcalled]
  simp only [Spared,List.getLast?_concat,List.dropLast_concat]
  rcases last.cases_end with hcall | hthrew | ⟨hans,hcalls⟩
  · have hall : ∀ round ∈ rt.called script, round.Called := by
      rw [hcalled]
      intro round hr
      rcases List.mem_append.mp hr with hr | hr
      · exact hinit round hr
      · rw [List.mem_singleton.mp hr]
        exact hcall
    have hkept : rt.keptTexts script = [rt.keptText script] := if_neg (keptText_called hdone hall)
    rw [List.filter_cons_of_pos (by simpa using hcall),hkept]
    refine ⟨fun hstored => absurd hstored (not_storedOnce_of_more _ rfl),?_⟩
    rintro (hsome | ⟨hno,_⟩)
    · rw [Round.answer_of_called hcall] at hsome
      cases hsome
    · exact absurd hno hcall
  · have hnone := fun round hr => Round.answer_of_called (hinit round hr)
    have hsilent := content_foldl_next hnone ⟨"", ""⟩
    have hcalls := Round.calls_of_threw hthrew
    rw [List.filter_cons_of_neg (by simp [Round.Called,hcalls]),List.filter_nil,List.append_nil,
      Runtime.keptTexts,keptText_unanswered hcalled (Round.answer_of_threw hthrew),
      storedOnce_threw_iff init _ last (Round.text_of_threw hthrew),hsilent]
    simp [Round.answer_of_threw hthrew,hcalls]
  · have hkept : rt.keptText script = last.text := by
      change ((rt.called script).foldl Heard.next ⟨"", ""⟩).content = last.text
      rw [hcalled,List.foldl_append]
      simp [Heard.next,hans]
    rw [List.filter_cons_of_neg (by simp [Round.Called,hcalls]),List.filter_nil,List.append_nil,
      Runtime.keptTexts,hkept]
    exact ⟨fun _ => .inl (by rw [hans]; rfl),fun _ => storedOnce_answered init last⟩

def lookThenStop : Script Empty where
  rounds :=
    [{ reply := .streamed [.content "looking", .toolCall (Runtime.bashCall "c1")] "" {}
       steps := fun _ => { answer := ⟨.ok "ran", ⟨.ok "", .ok ""⟩⟩ } },
     leavingRound [.content "it"] false true]

theorem stored_once_look_then_answer :
    (watchedRun (.content "looking")).runtime.current.conversation.textsFrom 0 =
        ["looking", "it is"] ∧
      StoredOnce ((watchedRun (.content "looking")).runtime.current.conversation.textsFrom 0)
        (Runtime.servingC.called (toolThenAnswer (.content "looking"))) :=
  ⟨by decide,(@stored_once_iff Empty Runtime.boardSite (fun c _ => c) _ {} (typed "go")
    Runtime.servingC ⟨_,.empty,.refl⟩ (Runtime.tally_fresh_empty 0) (fun e _ => e.2.elim)
    ⟨.inl rfl,by decide,by decide,by decide⟩).mpr (.inl (by decide))⟩

theorem stored_twice_look_then_stop :
    Unfailed (Runtime.servingC.processInput Runtime.boardSite true (fun c _ => c) lookThenStop
        "go" "") (typed "go") ∧
      (runJob Runtime.boardSite (fun c _ => c) lookThenStop ⟨true, true, true⟩ (typed "go")
        Runtime.servingC).runtime.current.conversation.textsFrom 0 = ["looking", "lookingit"] ∧
      ¬ StoredOnce ((runJob Runtime.boardSite (fun c _ => c) lookThenStop ⟨true, true, true⟩
        (typed "go") Runtime.servingC).runtime.current.conversation.textsFrom 0)
        (Runtime.servingC.called lookThenStop) := by
  have htexts : (runJob Runtime.boardSite (fun c _ => c) lookThenStop ⟨true, true, true⟩
      (typed "go") Runtime.servingC).runtime.current.conversation.textsFrom 0 =
        ["looking", "lookingit"] := by decide
  refine ⟨⟨.inl rfl,by decide,by decide,by decide⟩,htexts,?_⟩
  rw [htexts]
  rintro ⟨kept,hsub,heq⟩
  have hlen := congrArg List.length heq
  rw [List.length_map] at hlen
  obtain rfl := hsub.eq_of_length (hlen.symm.trans (by decide))
  exact absurd heq (by decide)

end SessionRunner

end PuCli
