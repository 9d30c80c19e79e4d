import PuCli.App.FiledPrice
import PuCli.App.TurnEnd
import PuCli.Runtime.Stored

namespace PuCli

open Json MessageGraph

variable {ρ : Type} {n : Nat}

structure SessionUsageTotal where
  turns : Int32 := 0
  rounds : Int32 := 0
  promptTokens : Int32 := 0
  completionTokens : Int32 := 0
  cachedTokens : Int32 := 0
  cost : Option Cost := none
  pricedTurns : Int32 := 0

namespace SessionUsageTotal

def costMember (total : SessionUsageTotal) : List (String × Json) :=
  match total.cost with
  | none => []
  | some cost => [("cost", .object [("amount", .double cost.amount), ("unit", .string cost.unit)])]

def toJson (total : SessionUsageTotal) : Json :=
  .object ([("turns", .int64 total.turns.toInt), ("rounds", .int64 total.rounds.toInt),
    ("prompt_tokens", .int64 total.promptTokens.toInt),
    ("completion_tokens", .int64 total.completionTokens.toInt),
    ("cached_tokens", .int64 total.cachedTokens.toInt),
    ("priced_turns", .int64 total.pricedTurns.toInt)] ++ total.costMember)

theorem depth_toJson_le (total : SessionUsageTotal) : total.toJson.depth ≤ n + 2 := by
  rw [toJson,depth_object_le,List.forall_mem_append]
  refine ⟨by simp,?_⟩
  unfold costMember
  split <;> simp

end SessionUsageTotal

theorem UsageLedger.depth_toJson_le (usage : TurnUsage) :
    (UsageLedger.toJson usage).depth ≤ n + 2 := by
  rw [UsageLedger.toJson,depth_object_le,List.forall_mem_append]
  refine ⟨by simp,?_⟩
  unfold UsageLedger.costMember
  split <;> simp

namespace Frame

def typed (kind : String) (payload : List (String × Json)) : Json :=
  .object [("type", .string kind), ("payload", .object payload)]

def toJson (total : SessionUsageTotal) : Frame → Json
  | .chunk text => typed "chunk" [("text", .string text)]
  | .thinking text => typed "thinking" [("text", .string text)]
  | .toolStart id name args =>
      typed "tool_start" [("id", .string id), ("name", .string name), ("args", args)]
  | .toolEnd id name args output failure =>
      typed "tool_end" [("id", .string id), ("name", .string name), ("args", args),
        ("output", .string output), ("error", .string failure)]
  | .approvalAsk command => typed "approval_ask" [("command", .string command)]
  | .notice text => typed "notice" [("text", .string text)]
  | .usage recorded =>
      typed "usage" ((recorded.map (fun usage => (UsageLedger.toJson usage).asObject)).getD [] ++
        [("total", total.toJson)])
  | .error text => typed "error" [("text", .string text)]
  | .done model =>
      if model = "" then .object [("type", .string "done")]
      else typed "done" [("model", .string model)]

def wire (text : JsonText) (total : SessionUsageTotal) (frame : Frame) : String :=
  text.serialize (frame.toJson total)

theorem depth_typed_le (kind : String) (payload : List (String × Json)) :
    (typed kind payload).depth ≤ n + 2 ↔ ∀ m ∈ payload, m.2.depth ≤ n := by
  simp [typed]

def Shallow (total : SessionUsageTotal) (frame : Frame) : Prop :=
  (frame.toJson total).depth ≤ kMaxDepth

variable {total : SessionUsageTotal}

theorem shallow_typed {kind : String} {payload : List (String × Json)}
    (h : ∀ m ∈ payload, m.2.depth ≤ 30) : (typed kind payload).depth ≤ kMaxDepth :=
  (@depth_typed_le 30 kind payload).mpr h

theorem frameLaw_shallow : FrameLaw (Shallow total) where
  chunk _ := shallow_typed (by simp)
  thinking _ := shallow_typed (by simp)
  approvalAsk _ := shallow_typed (by simp)

theorem lawful_shallow {call : ToolCall} (h : call.Within 30) : call.Lawful (Shallow total) := by
  have hargs : call.arguments.depth ≤ 30 := h.1
  exact ⟨fun _ => shallow_typed (by simp [hargs]),fun _ _ _ => shallow_typed (by simp [hargs])⟩

theorem shallow_notice (text : String) : Shallow total (.notice text) := shallow_typed (by simp)

theorem shallow_usage (recorded : Option TurnUsage) : Shallow total (.usage recorded) := by
  refine shallow_typed ?_
  rw [List.forall_mem_append]
  refine ⟨?_,by simpa using @SessionUsageTotal.depth_toJson_le 28 total⟩
  cases recorded with
  | none => simp
  | some usage => exact (depth_object_le _).mp (@UsageLedger.depth_toJson_le 29 usage)

theorem shallow_end (result : ExecutionResult) :
    Shallow total (SessionRunner.endFrame result) := by
  unfold SessionRunner.endFrame
  split
  · exact shallow_typed (by simp)
  · unfold Shallow toJson
    dsimp only
    split
    · exact (@depth_object_le 31 _).mpr (by simp)
    · exact shallow_typed (by simp)

theorem shallow_closing (rt : Runtime) (result : ExecutionResult) :
    ∀ f ∈ SessionRunner.closingFrames rt result, Shallow total f := by
  rw [SessionRunner.closingFrames,List.forall_mem_append,List.forall_mem_append]
  refine ⟨⟨?_,?_⟩,by simpa using shallow_end result⟩
  · unfold SessionRunner.noticeFrames
    split
    · simp
    · simpa using shallow_notice result.notice
  · unfold SessionRunner.usageFrames
    split
    · simp
    · simpa using shallow_usage _

end Frame

def Round.thoughts (round : Round ρ) : List Reasoning :=
  match round.reply.chat with
  | .ok reply => reply.reasoning
  | .error _ => []

structure Round.Within (n : Nat) (round : Round ρ) : Prop where
  thoughts : round.Called → ∀ r ∈ round.thoughts, r.Within n
  calls : ∀ call ∈ round.calls, call.Within n

structure Said.Within (n : Nat) (said : Said) : Prop where
  reasoning : ∀ r ∈ said.reasoning, r.Within n
  calls : ∀ call ∈ said.calls, call.Within n

theorem within_of_arguments {calls calls' : List ToolCall}
    (h : calls.map ToolCall.arguments = calls'.map ToolCall.arguments) :
    (∀ call ∈ calls, call.Within n) ↔ ∀ call ∈ calls', call.Within n := by
  have hmap : ∀ cs : List ToolCall, (∀ call ∈ cs, call.Within n) ↔
      ∀ args ∈ cs.map ToolCall.arguments, args.Readable n := by
    intro cs
    rw [List.forall_mem_map]
    rfl
  rw [hmap,hmap,h]

theorem within_saidAs {round : Round ρ} {reply : ChatResult} (hr : round.reply.chat = .ok reply)
    (hc : ¬ reply.toolCalls.isEmpty = true) (host : Host) (token cancelled wrapUp : Bool)
    (next : Nat) :
    (round.saidAs host token cancelled wrapUp next reply).Within n ↔ round.Within n := by
  have hcalls := Executing.calls_eq hr
  have hcalled : round.Called := by simpa [Round.Called,hcalls] using hc
  have hthoughts : round.thoughts = reply.reasoning := by simp [Round.thoughts,hr]
  have hargs := @within_of_arguments n _ _ (Executing.arguments_assignIds host next
    reply.toolCalls)
  rw [← hcalls] at hargs
  constructor
  · intro h
    refine ⟨fun _ => ?_,hargs.mp ?_⟩
    · rw [hthoughts]
      exact h.reasoning
    · rw [hcalls]
      exact h.calls
  · intro h
    refine ⟨?_,?_⟩
    · have hall := h.thoughts hcalled
      rw [hthoughts] at hall
      exact hall
    · have hall := hargs.mpr h.calls
      rw [hcalls] at hall
      exact hall

theorem within_outline_iff (host : Host) (token : Bool) (limit : Int) (rounds : List (Round ρ))
    (budget : Budgeted) (cancelled : Bool) (count next : Nat) :
    (∀ said ∈ (outline host token limit rounds budget cancelled count next).saids,
        said.Within n) ↔
      ∀ round ∈ calledRounds token limit rounds budget cancelled count, round.Within n := by
  have hlast : ∀ round : Round ρ, round.calls = [] → round.Within n := by
    intro round hnil
    refine ⟨fun hcalled => absurd hnil hcalled,?_⟩
    rw [hnil]
    simp
  induction rounds generalizing budget cancelled count next with
  | nil => simp [outline,calledRounds]
  | cons round rounds ih =>
      rw [outline,calledRounds]
      dsimp only
      split
      · simp
      · cases hr : round.reply.chat with
        | error what =>
            have hcalls := Round.calls_of_threw ⟨what,hr⟩
            simp [hcalls,hlast round hcalls]
        | ok reply =>
            have hsame := Executing.calls_eq hr
            by_cases hempty : reply.toolCalls.isEmpty = true
            · have hnil : round.calls = [] := by simpa [hsame] using hempty
              simp [hempty,hnil,hlast round hnil]
            · have hisEmpty : round.calls.isEmpty = false := by simpa [hsame] using hempty
              dsimp only
              rw [if_neg hempty,hisEmpty,if_neg (by simp),List.forall_mem_cons,
                List.forall_mem_cons]
              exact and_congr (within_saidAs hr hempty _ _ _ _ _) (ih _ _ _ _)

theorem within_assistants_iff (ps : List MessagePayload) :
    (∀ p ∈ ps, p.Within n) ↔ ∀ a ∈ ps.filterMap MessagePayload.assistant?, a.Within n := by
  induction ps with
  | nil => simp
  | cons p ps ih =>
      rw [List.forall_mem_cons,ih]
      cases p with
      | assistant a =>
          have hsome : (MessagePayload.assistant a).assistant? = some a := rfl
          rw [List.filterMap_cons_some hsome,List.forall_mem_cons]
          rfl
      | _ =>
          rw [List.filterMap_cons_none rfl]
          exact and_iff_right trivial

structure MessagePayload.Fits (n : Nat) (p : MessagePayload) : Prop where
  named : p.WellNamed
  within : p.Within n

theorem within_of_asked {rs rs' : List ToolCallRecord}
    (h : rs.map ToolCallRecord.asked = rs'.map ToolCallRecord.asked) :
    (∀ r ∈ rs, r.Within n) ↔ ∀ r ∈ rs', r.Within n := by
  have hmap : ∀ xs : List ToolCallRecord, (∀ r ∈ xs, r.Within n) ↔
      ∀ call ∈ xs.map ToolCallRecord.asked, call.Within n := by
    intro xs
    rw [List.forall_mem_map]
    rfl
  rw [hmap,hmap,h]

theorem payloadLaw_fits (text : JsonText) : PayloadLaw text (MessagePayload.Fits n) where
  relabel h hp := ⟨trivial,hp.within.reasoning,(within_of_asked h).mpr hp.within.toolCalls⟩
  cancelled c := ⟨settled_wellNamed.cancelled c,trivial⟩
  plain msg hrole := by
    refine ⟨toPayload_wellNamed text msg,?_⟩
    unfold toPayload
    split
    · next hr => exact absurd hr hrole
    · trivial
    · trivial
    · trivial
  answer content := ⟨trivial,by simp,by simp⟩

theorem Round.Within.stores {round : Round ρ} (h : round.Within n) :
    round.Stores (MessagePayload.Fits n) := by
  intro reply hr hne calls hargs
  have hcalls := Executing.calls_eq hr
  have hcalled : round.Called := by
    rw [Round.Called,hcalls]
    exact hne
  have hthoughts : round.thoughts = reply.reasoning := by simp [Round.thoughts,hr]
  have hwithin := (within_of_arguments hargs).mpr (hcalls ▸ h.calls)
  refine ⟨trivial,?_,?_⟩
  · rw [← hthoughts]
    exact h.thoughts hcalled
  · rw [List.forall_mem_map]
    exact hwithin

theorem within_acted_iff {text : JsonText} {said : Said} {act : Act} (h : Acted text said act) :
    (∀ p ∈ act.payloads, p.Within n) ↔ said.Within n := by
  obtain ⟨recs,hrecs,hspoke⟩ := h.spoke
  have hcalls : (∀ r ∈ recs, r.Within n) ↔ ∀ call ∈ said.calls, call.Within n := by
    rw [← hrecs,List.forall_mem_map]
    rfl
  rw [within_assistants_iff,hspoke,List.forall_mem_singleton]
  exact ⟨fun hw => ⟨hw.reasoning,hcalls.mp hw.toolCalls⟩,
    fun hw => ⟨hw.reasoning,hcalls.mpr hw.calls⟩⟩

theorem within_acts_iff {text : JsonText} {saids : List Said} {acts : List Act}
    (h : List.Forall₂ (Acted text) saids acts) :
    (∀ p ∈ acts.flatMap Act.payloads, p.Within n) ↔ ∀ said ∈ saids, said.Within n := by
  induction h with
  | nil => simp
  | cons ha _ ih =>
      rw [List.flatMap_cons,List.forall_mem_append,List.forall_mem_cons,ih,within_acted_iff ha]

namespace Runtime

variable {site : Site} {serve : Conversation → ρ → Conversation} {script : Script ρ}
variable {input origin : String} {rt : Runtime}

structure Saved (site : Site) (serve : Conversation → ρ → Conversation) (script : Script ρ)
    (input origin : String) (rt : Runtime) : Prop where
  message : isCommand input = false
  backend : ∃ backend, rt.readyBackend site.host = .ok backend
  returned : (talking site serve script input origin rt).1 = .returned

structure Readable (rt : Runtime) (script : Script ρ) : Prop where
  stored : ∀ node ∈ rt.current.conversation.chain, node.payload.Within kArgumentsDepth
  settings : rt.current.spec.Within kOverrideDepth
  replies : ∀ round ∈ rt.called script, round.Within kArgumentsDepth

theorem keyed_recordTurnUsage {s : Session} (h : UsageLedger.Keyed s.usage)
    (result : ExecutionResult) (backend : Backend) :
    UsageLedger.Keyed (recordTurnUsage s result backend).usage := by
  obtain hsame | ⟨usage,-,hrecorded⟩ := recordTurnUsage_cases s result backend
  · rw [hsame]
    exact h
  · rw [hrecorded]
    exact UsageLedger.keyed_record h _

theorem processInput_saved (h : Saved site serve script input origin rt) :
    (processInput site true serve script input origin rt).ended = true ∧
      (processInput site true serve script input origin rt).talk =
        some (talking site serve script input origin rt).2 ∧
      ∃ backend, (processInput site true serve script input origin rt).runtime.current =
        recordTurnUsage ⟨(talking site serve script input origin rt).2.conversation,
          rt.current.spec, rt.current.usage⟩ (talking site serve script input origin rt).2.result
          backend := by
  obtain ⟨backend,hb⟩ := h.backend
  have hready : (defaultSession { rt with peerOrigin := origin }).readyBackend site.host =
      .ok backend := by
    rw [← hb,readyBackend,readyBackend,currentBackend_defaultSession]
  have hx : Executing.execute site.host ((defaultSession { rt with peerOrigin := origin }).turn
      true serve) script input (defaultSession { rt with peerOrigin := origin }).executing =
        (.returned, (talking site serve script input origin rt).2) :=
    Prod.ext h.returned rfl
  simp only [processInput,h.message,Bool.false_eq_true,if_false,hready,runTurn,hx]
  exact ⟨trivial,trivial,backend,rfl⟩

theorem within_of_saved (hsound : rt.current.conversation.graph.Sound)
    (hids : rt.current.conversation.graph.FreshSupply (fun i => site.host.newId (rt.drawn + i)))
    (hkeeps : (rt.turn true serve).Keeps)
    (hret : (talking site serve script input origin rt).1 = .returned)
    (hquiet : ∀ e ∈ (talking site serve script input origin rt).2.served, serve e.1 e.2 = e.1)
    (h : (talking site serve script input origin rt).2.conversation.graph.Every
      (MessagePayload.Within n)) :
    (∀ node ∈ rt.current.conversation.chain, node.payload.Within n) ∧
      ∀ round ∈ rt.called script, round.Within n := by
  have hready := ready_talked script input origin hsound hids hkeeps
  have hchain : ∀ p ∈ (talking site serve script input origin rt).2.payloads, p.Within n := by
    rw [Executing.payloads,List.forall_mem_map]
    intro node hnode
    exact h _ _ (find_of_mem_chain hready.sound hnode)
  obtain ⟨acts,hacted,_,hpayloads⟩ := played_talking hsound hids hret hquiet
  have hrounds : (∀ said ∈ (rt.outlined site.host script).saids, said.Within n) ↔
      ∀ round ∈ rt.called script, round.Within n := within_outline_iff _ _ _ _ _ _ _ _
  rw [hpayloads,List.forall_mem_append,List.forall_mem_map,List.forall_mem_cons,
    List.forall_mem_append,within_acts_iff hacted,hrounds] at hchain
  exact ⟨hchain.1,hchain.2.2.1⟩

theorem stores_saved (input origin : String) (hsound : rt.current.Sound)
    (hids : rt.current.conversation.graph.FreshSupply (fun i => site.host.newId (rt.drawn + i)))
    (hkeeps : (rt.turn true serve).Keeps)
    (hstored : ∀ node ∈ rt.current.conversation.chain, node.payload.Within n)
    (hreplies : ∀ round ∈ rt.called script, round.Within n) :
    Executing.Stores site.host (MessagePayload.Fits n)
      (talking site serve script input origin rt).2 := by
  refine Executing.stores_execute hkeeps (payloadLaw_fits _) script input
    (ready_talking origin hsound.graph hids) ?_ (fun round hr => (hreplies round hr).stores)
  intro node hnode
  exact ⟨hsound.origins _ _ (find_of_mem_chain hsound.graph hnode),hstored node hnode⟩

end Runtime

namespace SessionRunner

variable {site : Site} {serve : Conversation → ρ → Conversation} {script : Script ρ}
variable {ending : Ending} {job : Job} {rt : Runtime} {chars : ToChars} {total : SessionUsageTotal}

structure TurnSaved (site : Site) (serve : Conversation → ρ → Conversation) (script : Script ρ)
    (job : Job) (rt : Runtime) : Prop extends
    Runtime.Saved site serve script job.text job.peerOrigin rt where
  asked : job.conn = true ∨ job.peerOrigin ≠ ""

structure ReadsBack (text : JsonText) (chars : ToChars) (total : SessionUsageTotal)
    (run : JobRun) : Prop where
  session : (Session.loadSession text (run.runtime.current.savedText text chars)).isSome = true
  frames : ∀ f ∈ run.record.frames, (text.parse (f.wire text total)).isSome = true

theorem shallow_frames (hsaved : TurnSaved site serve script job rt)
    (hrounds : ∀ round ∈ rt.called script, round.Within kArgumentsDepth) :
    ∀ f ∈ (runJob site serve script ending job rt).record.frames, f.Shallow total := by
  obtain ⟨hended,htalk,_⟩ := Runtime.processInput_saved hsaved.toSaved
  have hlawful : ∀ round ∈ rt.called script, round.Lawful (Frame.Shallow total) := by
    intro round hr call hcall
    exact Frame.lawful_shallow (((hrounds round hr).calls call hcall).mono (by decide))
  have hspoken : Executing.Says (Frame.Shallow total)
      (Runtime.talking site serve script job.text job.peerOrigin rt).2 :=
    Executing.says_execute Frame.frameLaw_shallow script job.text hlawful (fun _ hf => by cases hf)
  have hframes : talkFrames (rt.processInput site true serve script job.text job.peerOrigin) =
      ((Runtime.talking site serve script job.text job.peerOrigin rt).2.earlier,
        (Runtime.talking site serve script job.text job.peerOrigin rt).2.frames) := by
    rw [talkFrames,htalk]
  rw [runJob_asked hsaved.asked]
  by_cases hcut : CutShort job ending
      (rt.processInput site true serve script job.text job.peerOrigin)
  · rw [report_cut hended hcut,hframes,TurnRecord.frames,List.append_nil]
    exact hspoken
  · rw [report_whole hended hcut,hframes,TurnRecord.frames,List.forall_mem_append]
    exact ⟨hspoken,Frame.shallow_closing _ _⟩

section Saved

variable (hsound : rt.current.Sound) (hsaved : TurnSaved site serve script job rt)

include hsound hsaved

theorem saved_current : ∃ backend,
    (runJob site serve script ending job rt).runtime.current =
      recordTurnUsage ⟨(Runtime.talking site serve script job.text job.peerOrigin rt).2.conversation,
        rt.current.spec, rt.current.usage⟩
        (Runtime.talking site serve script job.text job.peerOrigin rt).2.result backend ∧
      (runJob site serve script ending job rt).runtime.current.conversation =
        (Runtime.talking site serve script job.text job.peerOrigin rt).2.conversation ∧
      (runJob site serve script ending job rt).runtime.current.spec = rt.current.spec ∧
      UsageLedger.Keyed (runJob site serve script ending job rt).runtime.current.usage := by
  obtain ⟨_,_,backend,hcurrent⟩ := Runtime.processInput_saved hsaved.toSaved
  obtain ⟨hconv,hspec⟩ := Runtime.recordTurnUsage_keeps
    ⟨(Runtime.talking site serve script job.text job.peerOrigin rt).2.conversation,
      rt.current.spec, rt.current.usage⟩
    (Runtime.talking site serve script job.text job.peerOrigin rt).2.result backend
  have hkeyed := @Runtime.keyed_recordTurnUsage
    ⟨(Runtime.talking site serve script job.text job.peerOrigin rt).2.conversation,
      rt.current.spec, rt.current.usage⟩ hsound.usage
    (Runtime.talking site serve script job.text job.peerOrigin rt).2.result backend
  refine ⟨backend,?_⟩
  rw [runJob_asked hsaved.asked,runtime_report,hcurrent]
  exact ⟨rfl,hconv,hspec,hkeyed⟩

theorem readable_saved_iff :
    (runJob site serve script ending job rt).runtime.current.serialize.Readable kMaxDepth ↔
      (Runtime.talking site serve script job.text job.peerOrigin rt).2.conversation.graph.Every
          (MessagePayload.Within kArgumentsDepth) ∧
        rt.current.spec.Within kOverrideDepth ∧
        (runJob site serve script ending job rt).runtime.current.PricesFinite := by
  obtain ⟨backend,-,hconv,hspec,hkeyed⟩ :=
    @saved_current ρ site serve script ending job rt hsound hsaved
  rw [Session.readable_serialize (hspec ▸ hsound.overrides) hkeyed,hconv,hspec]

theorem sound_saved (hstores : Executing.Stores site.host (MessagePayload.Fits n)
      (Runtime.talking site serve script job.text job.peerOrigin rt).2) :
    (runJob site serve script ending job rt).runtime.current.Sound := by
  obtain ⟨backend,-,hconv,hspec,hkeyed⟩ :=
    @saved_current ρ site serve script ending job rt hsound hsaved
  refine ⟨hconv ▸ hstores.sound,?_,hspec ▸ hsound.overrides,hkeyed⟩
  rw [hconv]
  exact fun id node hn => (hstores.every id node hn).named

section Prices

variable (hids : rt.current.conversation.graph.FreshSupply
    (fun i => site.host.newId (rt.drawn + i)))
  (hfree : ∀ i, site.host.newId (rt.drawn + i) ∉ rt.current.usage)
  (hkeeps : (rt.turn true serve).Keeps)

include hids hfree hkeeps

theorem pricesFinite_saved (hkept : rt.current.PricesFinite)
    (hspent : ∀ usage, rt.spent script = some usage → usage.Finite) :
    (runJob site serve script ending job rt).runtime.current.PricesFinite := by
  obtain ⟨backend,hcurrent,-⟩ := @saved_current ρ site serve script ending job rt hsound hsaved
  have hready := Runtime.ready_talked script job.text job.peerOrigin hsound.graph hids hkeeps
  rw [hcurrent,pricesFinite_recordTurnUsage hready.sound]
  refine ⟨?_,?_⟩
  · intro id hid _ usage hu
    exact hkept id (Runtime.live_talking hsound.graph hids hkeeps hfree hu hid) usage hu
  · intro _ usage hu
    rw [Runtime.usage_talking hsaved.returned] at hu
    exact hspent usage hu

theorem pricesFinite_quiet_iff
    (hquiet : ∀ e ∈ (Runtime.talking site serve script job.text job.peerOrigin rt).2.served,
      serve e.1 e.2 = e.1) :
    (runJob site serve script ending job rt).runtime.current.PricesFinite ↔
      rt.PricesFinite script := by
  obtain ⟨backend,hcurrent,-⟩ := @saved_current ρ site serve script ending job rt hsound hsaved
  have hready := Runtime.ready_talked script job.text job.peerOrigin hsound.graph hids hkeeps
  have hgrown := Runtime.live_quiet hsound.graph hids hkeeps hsaved.returned hquiet
  have hfiled := Runtime.filed_quiet hsound.graph hids hkeeps hsaved.returned hquiet
  rw [hcurrent,pricesFinite_recordTurnUsage hready.sound,Runtime.usage_talking hsaved.returned]
  -- the node that takes the usage is an older one exactly where the first reply is silent
  have htaken : ∀ id ∈ rt.current.live,
      (rt.spent script ≠ none → id ≠ lastAssistant
          (Runtime.talking site serve script job.text job.peerOrigin rt).2.chain) ↔
        (script.Silent → id ≠ lastAssistant rt.current.conversation.chain) := by
    intro id hid
    constructor
    · intro h hs
      rw [← (hfiled (Runtime.spent_of_silent hs)).1 hs]
      exact h (Runtime.spent_of_silent hs)
    · intro h hspent
      by_cases hs : script.Silent
      · rw [(hfiled hspent).1 hs]
        exact h hs
      · rintro rfl
        exact ((hfiled hspent).2 hs).2 hid
  have hnamed : rt.spent script ≠ none →
      (lastAssistant (Runtime.talking site serve script job.text job.peerOrigin rt).2.chain ≠ "" ↔
        (script.Silent → lastAssistant rt.current.conversation.chain ≠ "")) := by
    intro hspent
    by_cases hs : script.Silent
    · rw [(hfiled hspent).1 hs]
      exact ⟨fun h _ => h,fun h => h hs⟩
    · exact iff_of_true ((hfiled hspent).2 hs).1 (fun h => absurd h hs)
  constructor
  · rintro ⟨hkept,hown⟩
    refine ⟨?_,?_⟩
    · intro id hid hne usage hu
      exact hkept id (hgrown id hid) ((htaken id hid).mpr hne) usage hu
    · intro hne usage hu
      exact hown ((hnamed (by simp [hu])).mpr hne) usage hu
  · rintro ⟨hkept,hown⟩
    refine ⟨?_,?_⟩
    · intro id hid hne usage hu
      have hlive := Runtime.live_talking hsound.graph hids hkeeps hfree hu hid
      exact hkept id hlive ((htaken id hlive).mp hne) usage hu
    · intro hne usage hu
      exact hown ((hnamed (by simp [hu])).mp hne) usage hu

end Prices

theorem readsBack_of_readable (hids : rt.current.conversation.graph.FreshSupply
      (fun i => site.host.newId (rt.drawn + i)))
    (hkeeps : (rt.turn true serve).Keeps)
    (hfile : site.host.text.LimitsPretty chars
      (runJob site serve script ending job rt).runtime.current.serialize)
    (hwire : ∀ f ∈ (runJob site serve script ending job rt).record.frames,
      site.host.text.Limits (f.toJson total)) (h : rt.Readable script)
    (hprices : (runJob site serve script ending job rt).runtime.current.PricesFinite) :
    ReadsBack site.host.text chars total (runJob site serve script ending job rt) := by
  have hstores := Runtime.stores_saved job.text job.peerOrigin hsound hids hkeeps h.stored h.replies
  have hread := hfile.reads ((readable_saved_iff hsound hsaved).mpr
    ⟨fun id node hn => (hstores.every id node hn).within,h.settings,hprices⟩)
  constructor
  · rw [Session.loadSession_saved (sound_saved hsound hsaved hstores) hread]
    rfl
  · intro f hf
    exact (hwire f hf).reads (shallow_frames hsaved h.replies f hf)

end Saved

theorem written_reads_back_iff (hsound : rt.current.Sound)
    (hids : rt.current.conversation.graph.FreshSupply (fun i => site.host.newId (rt.drawn + i)))
    (hfree : ∀ i, site.host.newId (rt.drawn + i) ∉ rt.current.usage)
    (hkeeps : (rt.turn true serve).Keeps) (hsaved : TurnSaved site serve script job rt)
    (hfile : site.host.text.LimitsPretty chars
      (runJob site serve script ending job rt).runtime.current.serialize)
    (hwire : ∀ f ∈ (runJob site serve script ending job rt).record.frames,
      site.host.text.Limits (f.toJson total)) :
    (rt.Readable script → rt.current.PricesFinite →
        (∀ usage, rt.spent script = some usage → usage.Finite) →
          ReadsBack site.host.text chars total (runJob site serve script ending job rt)) ∧
      ((∀ e ∈ (Runtime.talking site serve script job.text job.peerOrigin rt).2.served,
          serve e.1 e.2 = e.1) →
        (ReadsBack site.host.text chars total (runJob site serve script ending job rt) ↔
          rt.Readable script ∧ rt.PricesFinite script)) := by
  constructor
  · intro hreadable hkept hspent
    exact readsBack_of_readable hsound hsaved hids hkeeps hfile hwire hreadable
      (pricesFinite_saved hsound hsaved hids hfree hkeeps hkept hspent)
  · intro hquiet
    have hprices := @pricesFinite_quiet_iff ρ site serve script ending job rt hsound hsaved hids
      hfree hkeeps hquiet
    constructor
    · intro hreads
      have hfits : (runJob site serve script ending job rt).runtime.current.serialize.Readable
          kMaxDepth := by
        by_contra hbad
        have hload := hreads.session
        rw [Session.loadSession,Session.savedText,hfile.refuses hbad] at hload
        cases hload
      obtain ⟨hevery,hsettings,hfinite⟩ := (readable_saved_iff hsound hsaved).mp hfits
      obtain ⟨hstored,hreplies⟩ := Runtime.within_of_saved hsound.graph hids hkeeps
        hsaved.returned hquiet hevery
      exact ⟨⟨hstored,hsettings,hreplies⟩,hprices.mp hfinite⟩
    · rintro ⟨hreadable,hfinite⟩
      exact readsBack_of_readable hsound hsaved hids hkeeps hfile hwire hreadable
        (hprices.mpr hfinite)

def plainChars : ToChars := ⟨.plain, fun q => toString q.num⟩

def replayText (doc : Json) (frames : List Json) : JsonText where
  parse s :=
    match s.toList with
    | '\x7b' :: '\n' :: _ =>
        if s = doc.prettyPrint printing plainChars ∧ doc.Readable kMaxDepth then
          some (doc.reread .plain)
        else none
    | '\x7b' :: '"' :: _ =>
        (frames.find? (fun j => s = compact j ∧ j.depth ≤ kMaxDepth)).map (Json.reread .plain)
    | _ => none
  serialize := compact
  parseError _ := "syntax error"
  kindError _ := "value is not an object"

def nested : Nat → Json
  | 0 => .null
  | n + 1 => .array [nested n]

def extraCall (extra : Json) : ToolCall :=
  ⟨"c1", "execute_bash", .object [("command", .string "ls"), ("extra", extra)]⟩

def extraScript (extra : Json) : Script Empty where
  rounds :=
    [{ reply := .streamed [.toolCall (extraCall extra)] "" {}
       steps := fun _ => { answer := ⟨.ok "ran", ⟨.ok "", .ok ""⟩⟩ } },
     { reply := .streamed [.content "done"] "" {}
       steps := fun _ => { answer := ⟨.ok "", ⟨.ok "", .ok ""⟩⟩ } }]

def siteReading (text : JsonText) : Site :=
  { Runtime.boardSite with host := { Runtime.boardSite.host with text := text } }

def extraRun (text : JsonText) (extra : Json) : JobRun :=
  runJob (siteReading text) (fun c _ => c) (extraScript extra) {} (typed "go") Runtime.servingC

def extraDoc (extra : Json) : Json := (extraRun printing extra).runtime.current.serialize

def extraFrames (extra : Json) : List Frame := (extraRun printing extra).record.frames

def extraText (extra : Json) : JsonText :=
  replayText (extraDoc extra) ((extraFrames extra).map (Frame.toJson {}))

theorem limitsPretty_replayText (m : String × Json) (ms : List (String × Json))
    (frames : List Json) :
    (replayText (.object (m :: ms)) frames).LimitsPretty plainChars (.object (m :: ms)) := by
  obtain ⟨rest,hrest⟩ := toList_prettyPrint_object printing plainChars m ms
  have hprint := @prettyPrint_congr (replayText (.object (m :: ms)) frames) printing rfl plainChars
    (.object (m :: ms))
  constructor
  · intro hread
    rw [JsonText.ReadsPretty,hprint]
    simp only [replayText,hrest,true_and,if_pos hread]
    rfl
  · intro hbad
    rw [hprint]
    simp only [replayText,hrest,true_and,if_neg hbad]

theorem limits_replayText {doc : Json} {frames : List Json} {k : String} {v : Json}
    {ms : List (String × Json)} (hmem : .object ((k, v) :: ms) ∈ frames)
    (hdepth : (Json.object ((k, v) :: ms)).depth ≤ kMaxDepth) :
    (replayText doc frames).Limits (.object ((k, v) :: ms)) := by
  obtain ⟨rest,hrest⟩ := toList_compact_object k v ms
  refine ⟨fun _ => ?_,fun hdeep => absurd hdepth (Nat.not_le_of_lt hdeep)⟩
  simp only [replayText,hrest,Option.isSome_map,List.find?_isSome]
  exact ⟨_,hmem,by simp [hdepth]⟩

theorem toJson_members (total : SessionUsageTotal) (f : Frame) :
    ∃ kind ms, f.toJson total = .object (("type", .string kind) :: ms) := by
  cases f with
  | done model =>
      simp only [Frame.toJson]
      split
      · exact ⟨_,_,rfl⟩
      · exact ⟨_,_,rfl⟩
  | _ => exact ⟨_,_,rfl⟩

section Extra

variable {extra : Json}

theorem limits_extra
    (hframes : (extraRun (extraText extra) extra).record.frames = extraFrames extra)
    (hdepth : ∀ f ∈ extraFrames extra, (f.toJson {}).depth ≤ kMaxDepth) :
    ∀ f ∈ (extraRun (extraText extra) extra).record.frames,
      (extraText extra).Limits (f.toJson {}) := by
  rw [hframes]
  intro f hf
  have hmem := List.mem_map_of_mem (f := Frame.toJson {}) hf
  have hfd := hdepth f hf
  obtain ⟨kind,ms,heq⟩ := toJson_members {} f
  rw [heq] at hmem hfd ⊢
  exact limits_replayText hmem hfd

theorem limitsPretty_extra
    (hdoc : (extraRun (extraText extra) extra).runtime.current.serialize = extraDoc extra) :
    (extraText extra).LimitsPretty plainChars
      (extraRun (extraText extra) extra).runtime.current.serialize := by
  rw [hdoc]
  exact limitsPretty_replayText _ _ _

theorem sound_servingC : Runtime.servingC.current.Sound :=
  ⟨MessageGraph.sound_empty,MessageGraph.every_empty,⟨by simp [Runtime.servingC,Runtime.current],
    by simp [Runtime.servingC,Runtime.current]⟩,UsageLedger.keyed_empty⟩

theorem turnSaved_extra (h : (Runtime.talking (siteReading (extraText extra)) (fun c _ => c)
      (extraScript extra) "go" "" Runtime.servingC).1 = .returned) :
    TurnSaved (siteReading (extraText extra)) (fun c _ => c) (extraScript extra) (typed "go")
      Runtime.servingC :=
  ⟨⟨by decide,⟨_,rfl⟩,h⟩,.inl rfl⟩

structure SetsAside (extra : Json) : Prop where
  saved : TurnSaved (siteReading (extraText extra)) (fun c _ => c) (extraScript extra) (typed "go")
    Runtime.servingC
  file : (extraText extra).LimitsPretty plainChars
    (extraRun (extraText extra) extra).runtime.current.serialize
  wire : ∀ f ∈ (extraRun (extraText extra) extra).record.frames,
    (extraText extra).Limits (f.toJson {})
  aside : Session.loadSession (extraText extra)
    ((extraRun (extraText extra) extra).runtime.current.savedText (extraText extra) plainChars) =
      none
  unread : ¬ ReadsBack (extraText extra) plainChars {} (extraRun (extraText extra) extra)

theorem setsAside_of_unreadable
    (hret : (Runtime.talking (siteReading (extraText extra)) (fun c _ => c) (extraScript extra) "go"
      "" Runtime.servingC).1 = .returned)
    (hdoc : (extraRun (extraText extra) extra).runtime.current.serialize = extraDoc extra)
    (hframes : (extraRun (extraText extra) extra).record.frames = extraFrames extra)
    (hdepth : ∀ f ∈ extraFrames extra, (f.toJson {}).depth ≤ kMaxDepth)
    (hbad : ¬ (extraDoc extra).Readable kMaxDepth) : SetsAside extra := by
  have hfile := limitsPretty_extra hdoc
  have hnone : Session.loadSession (extraText extra)
      ((extraRun (extraText extra) extra).runtime.current.savedText (extraText extra) plainChars) =
        none := by
    rw [Session.loadSession,Session.savedText,hfile.refuses (hdoc ▸ hbad)]
    rfl
  refine ⟨turnSaved_extra hret,hfile,limits_extra hframes hdepth,hnone,?_⟩
  intro hreads
  have hload := hreads.session
  rw [hnone] at hload
  cases hload

end Extra

theorem readable_nested_three : Runtime.servingC.Readable (extraScript (nested 3)) := by
  refine ⟨?_,?_,?_⟩
  · intro node hnode
    cases hnode
  · intro k v hv
    simp [Runtime.servingC,Runtime.current] at hv
  · have hcalled : Runtime.servingC.called (extraScript (nested 3)) =
        (extraScript (nested 3)).rounds := rfl
    rw [hcalled,extraScript]
    simp only [List.forall_mem_cons]
    refine ⟨⟨?_,?_⟩,⟨?_,?_⟩,by simp⟩
    · intro _ r hr
      cases hr
    · intro call hcall
      rw [List.mem_singleton.mp hcall]
      change (extraCall (nested 3)).arguments.Readable 25
      decide
    · intro _ r hr
      cases hr
    · intro call hcall
      cases hcall

theorem written_reads_back_nested_three :
    (extraCall (nested 3)).arguments.depth = 4 ∧
      ReadsBack (extraText (nested 3)) plainChars {}
        (extraRun (extraText (nested 3)) (nested 3)) := by
  refine ⟨by decide,?_⟩
  refine (@written_reads_back_iff Empty (siteReading (extraText (nested 3))) (fun c _ => c)
    (extraScript (nested 3)) {} (typed "go") Runtime.servingC plainChars {} sound_servingC
    (Runtime.tally_fresh_empty 0) (fun _ => by simp [Runtime.servingC,Runtime.current])
    ⟨fun _ _ h => h,fun _ _ => rfl⟩ (turnSaved_extra (by decide +kernel))
    (limitsPretty_extra (by decide +kernel))
    (limits_extra (by decide +kernel) (by decide +kernel))).1 readable_nested_three ?_ ?_
  · intro id hid
    cases hid
  · intro usage hu
    have hnone : Runtime.servingC.spent (extraScript (nested 3)) = none := by decide
    rw [hnone] at hu
    cases hu

theorem unreadable_arguments_set_session_aside :
    (extraCall (nested 27)).arguments.depth = 28 ∧ SetsAside (nested 27) ∧
      SetsAside (.double (.infinite false)) :=
  ⟨by decide,
    setsAside_of_unreadable (by decide +kernel) (by decide +kernel) (by decide +kernel)
      (by decide +kernel) (by decide +kernel),
    setsAside_of_unreadable (by decide +kernel) (by decide +kernel) (by decide +kernel)
      (by decide +kernel) (by decide +kernel)⟩

end SessionRunner

end PuCli
