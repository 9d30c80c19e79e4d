import PuCli.Llm.CallAssembly
import PuCli.Llm.ChatHistory
import PuCli.Llm.OllamaProvider

namespace PuCli

open Json Sse OpenAIProtocol StreamingProvider InPlace

namespace Dialects

inductive Delta where
  | content (text : String)
  | reasoning (text : String)
  | call (call : ToolCall)

-- A reply as a model gives it, before a provider puts it into its own words.
structure Told where
  deltas : List Delta
  promptTokens : Int32
  completionTokens : Int32
  cachedTokens : Int32
  finishReason : String
  model : String

def Delta.event : Delta → StreamEvent
  | .content text => .content text
  | .reasoning text => .reasoning text "" .null
  | .call c => .toolCall c

def Delta.calls : Delta → List ToolCall
  | .call c => [c]
  | _ => []

def streamOf (ds : List Delta) : Stream := Stream.read (ds.map Delta.event)

def Told.usage (t : Told) : TokenUsage where
  promptTokens := t.promptTokens
  completionTokens := t.completionTokens
  cachedTokens := t.cachedTokens

def Told.result (t : Told) : ChatResult where
  content := (streamOf t.deltas).content
  reasoning := (streamOf t.deltas).reasoning
  toolCalls := (streamOf t.deltas).toolCalls
  usage := some t.usage
  finishReason := t.finishReason
  model := t.model

-- A call both gateways can name: one drops a call without a name, one joins a call without an id.
structure Sendable (text : JsonText) (call : ToolCall) : Prop where
  id : call.id ≠ ""
  name : call.name ≠ ""
  object : call.arguments.isObject = true
  written : text.serialize call.arguments ≠ ""
  reread : text.parse (text.serialize call.arguments) = some call.arguments

def openAICall (text : JsonText) (call : ToolCall) : Json :=
  .object [("index", .int64 0), ("id", .string call.id), ("type", .string "function"),
    ("function", .object [("name", .string call.name),
      ("arguments", .string (text.serialize call.arguments))])]

def openAIDelta (text : JsonText) : Delta → List (String × Json)
  | .content content => [("content", .string content)]
  | .reasoning reasoning => [("reasoning_content", .string reasoning)]
  | .call call => [("tool_calls", .array [openAICall text call])]

def openAIChoice (delta : List (String × Json)) : List (String × Json) :=
  [("index", .int64 0), ("delta", .object delta)]

def openAIFrame (text : JsonText) (d : Delta) : Json :=
  .object [("choices", .array [.object (openAIChoice (openAIDelta text d))])]

def openAIUsage (t : Told) : List (String × Json) :=
  [("prompt_tokens", .int64 t.promptTokens.toInt),
    ("completion_tokens", .int64 t.completionTokens.toInt),
    ("prompt_tokens_details", .object [("cached_tokens", .int64 t.cachedTokens.toInt)])]

def openAILast (t : Told) : Json :=
  .object [("model", .string t.model),
    ("choices", .array [.object (openAIChoice [] ++ [("finish_reason", .string t.finishReason)])]),
    ("usage", .object (openAIUsage t))]

def openAIFrames (text : JsonText) (t : Told) : List Json :=
  t.deltas.map (openAIFrame text) ++ [openAILast t]

def ollamaMessage : Delta → List (String × Json)
  | .content content => [("content", .string content)]
  | .reasoning reasoning => [("thinking", .string reasoning)]
  | .call call => [("tool_calls", .array [.object [("id", .string call.id),
      ("function", .object [("name", .string call.name), ("arguments", call.arguments)])]])]

def ollamaLine (d : Delta) : Json :=
  .object [("message", .object (ollamaMessage d)), ("done", .bool false)]

def ollamaLast (t : Told) : Json :=
  .object [("model", .string t.model), ("done", .bool true),
    ("done_reason", .string t.finishReason),
    ("prompt_eval_count", .int64 t.promptTokens.toInt),
    ("eval_count", .int64 t.completionTokens.toInt),
    ("prompt_eval_cached_count", .int64 t.cachedTokens.toInt)]

def ollamaLines (t : Told) : List Json := t.deltas.map ollamaLine ++ [ollamaLast t]

variable {text : JsonText} {r : Reply} {d : Delta} {ds : List Delta} {t : Told}

theorem streamOf_concat (ds : List Delta) (d : Delta) :
    streamOf (ds ++ [d]) = (streamOf ds).handle d.event := by
  rw [streamOf,streamOf,Stream.read,Stream.read,List.map_append,List.foldl_append]
  rfl

-- A stream without its calls: what one provider holds back until the reply ends.
def spoken (s : Stream) : Stream := { s with toolCalls := [] }

theorem toolCalls_handle (s : Stream) (d : Delta) :
    (s.handle d.event).toolCalls = s.toolCalls ++ d.calls := by
  cases d with
  | content content =>
      refine Eq.trans ?_ (List.append_nil s.toolCalls).symm
      dsimp only [Delta.event,Stream.handle,Stream.appendContent]
      split <;> rfl
  | reasoning reasoning =>
      refine Eq.trans ?_ (List.append_nil s.toolCalls).symm
      dsimp only [Delta.event,Stream.handle,Stream.appendReasoning]
      split <;> rfl
  | call c => rfl

theorem toolCalls_streamOf (ds : List Delta) :
    (streamOf ds).toolCalls = ds.flatMap Delta.calls := by
  induction ds using List.reverseRecOn with
  | nil => rfl
  | append_singleton ds d ih =>
      rw [streamOf_concat,toolCalls_handle,ih,List.flatMap_append,List.flatMap_singleton]

theorem stream_noteUnread (r : Reply) (j : Json) (keys : List String) :
    (noteUnreadFields r j keys).stream = r.stream := by
  cases hframe : r.inspectedFrame <;> cases j <;> simp [noteUnreadFields,hframe]

theorem ran_line {j : Json} (h : j.get? "error" = none) (r : Reply) :
    ran (OllamaProvider.handleJsonToken text j) r =
      (.ok (),OllamaProvider.readLine text
        (noteUnreadFields r j OllamaProvider.kReadKeys) j) := by
  have hdetail : OllamaProvider.errorDetail j = "" := by
    simp [OllamaProvider.errorDetail,Json.hasKey,h]
  rw [OllamaProvider.handleJsonToken,ran_bind_modify,hdetail]
  rfl

theorem handleMessage_delta (hd : ∀ c ∈ d.calls, Sendable text c) (s : Stream) :
    OllamaProvider.handleMessage text s (.object (ollamaMessage d)) = s.handle d.event := by
  cases d with
  | content content => simp [OllamaProvider.handleMessage,OllamaProvider.stringOf,ollamaMessage,Delta.event,Stream.handle,asArray]
  | reasoning reasoning => simp [OllamaProvider.handleMessage,OllamaProvider.stringOf,ollamaMessage,Delta.event,Stream.handle,asArray]
  | call c =>
      have hc := hd c (List.mem_singleton_self c)
      have hread : OllamaProvider.readArguments text
          (.object [("name", .string c.name), ("arguments", c.arguments)]) = c.arguments := by
        have hobject := hc.object
        cases harguments : c.arguments with
        | object members => simp [OllamaProvider.readArguments]
        | _ => rw [harguments] at hobject; cases hobject
      have hcall : OllamaProvider.readCall text (.object [("id", .string c.id),
          ("function", .object [("name", .string c.name), ("arguments", c.arguments)])]) = some c := by
        simp [OllamaProvider.readCall,OllamaProvider.stringOf,valueOrDefault,hc.name,hread]
      simp [OllamaProvider.handleMessage,OllamaProvider.stringOf,ollamaMessage,Delta.event,Stream.handle,asArray,hcall]

theorem stream_line (hd : ∀ c ∈ d.calls, Sendable text c) (r : Reply) :
    (OllamaProvider.readLine text r (ollamaLine d)).stream = r.stream.handle d.event := by
  rw [← handleMessage_delta hd]
  simp [OllamaProvider.readLine,ollamaLine,OllamaProvider.carriesUsage,OllamaProvider.stringOf,hasKey]

theorem last_line (t : Told) (r : Reply) :
    OllamaProvider.readLine text r (ollamaLast t) =
      { r with
        usage := some t.usage
        rawUsage := ollamaLast t
        finishReason := t.finishReason
        responseModel := t.model } := by
  simp [OllamaProvider.readLine,ollamaLast,OllamaProvider.carriesUsage,OllamaProvider.stringOf,
    hasKey,OllamaProvider.countUsage,valueOrDefault,Told.usage]

def gathered (text : JsonText) (d : Delta) : List ToolCallAccumulator :=
  d.calls.map (fun c => ⟨c.id,c.name,text.serialize c.arguments⟩)

theorem spoken_handle (s : Stream) (d : Delta) :
    spoken ((spoken s).handle d.event) = spoken (s.handle d.event) := by
  cases d with
  | content content =>
      dsimp only [Delta.event,Stream.handle,Stream.appendContent,spoken]
      split <;> rfl
  | reasoning reasoning =>
      dsimp only [Delta.event,Stream.handle,Stream.appendReasoning,spoken]
      split <;> rfl
  | call c => rfl

theorem handlePiece_openAI (hd : ∀ c ∈ d.calls, Sendable text c) (r : Reply)
    (hr : r.stream.toolCalls = []) :
    handlePiece {} r (.object (openAIDelta text d)) =
      { r with
        stream := spoken (r.stream.handle d.event)
        pendingTools := r.pendingTools ++ gathered text d } := by
  have hspoken : spoken (r.stream.handle d.event) =
      { r.stream.handle d.event with toolCalls := [] } := rfl
  cases d with
  | content content =>
      have hsame : spoken (r.stream.handle (Delta.content content).event) =
          r.stream.appendContent content := by
        dsimp only [Delta.event,Stream.handle,Stream.appendContent,spoken]
        split <;> rw [← hr]
      rw [hsame]
      simp [handlePiece,openAIDelta,stringAt,valueOrDefault,gathered,Delta.calls,asArray]
  | reasoning reasoning =>
      have hsame : spoken (r.stream.handle (Delta.reasoning reasoning).event) =
          r.stream.appendReasoning reasoning "" .null := by
        dsimp only [Delta.event,Stream.handle,Stream.appendReasoning,spoken]
        split <;> rw [← hr]
      rw [hsame]
      simp [handlePiece,openAIDelta,stringAt,valueOrDefault,gathered,Delta.calls,asArray,
        Stream.appendContent]
  | call c =>
      have hc := hd c (List.mem_singleton_self c)
      have hsame : spoken (r.stream.handle (Delta.call c).event) = r.stream := by
        dsimp only [Delta.event,Stream.handle,Stream.appendToolCall,spoken]
        rw [← hr]
      have hadded : handleToolCall r.pendingTools (openAICall text c) =
          r.pendingTools ++ gathered text (.call c) := by
        simp [handleToolCall,openAICall,isObject,valueOrDefault,addFunction,changeLast_concat,
          gathered,Delta.calls,hc.id,hc.name]
      rw [hsame,← hadded]
      simp [handlePiece,openAIDelta,stringAt,valueOrDefault,asArray,Stream.appendContent]

-- What the deltas so far leave in a reply read from the frames of the other dialect.
structure Heard (text : JsonText) (ds : List Delta) (r : Reply) : Prop where
  stream : r.stream = spoken (streamOf ds)
  pending : r.pendingTools = ds.flatMap (gathered text)
  refusal : r.refusal = ""
  choice : r.replyChoiceIndex = -1 ∨ r.replyChoiceIndex = 0

theorem heard_noteFields (h : Heard text ds r) (j : Json) :
    Heard text ds (OpenAIProvider.noteFields r j) := by
  have hsame : (noteUnreadFields r j OpenAIProtocol.kReadKeys).stream = r.stream ∧
      (noteUnreadFields r j OpenAIProtocol.kReadKeys).pendingTools = r.pendingTools ∧
      (noteUnreadFields r j OpenAIProtocol.kReadKeys).refusal = r.refusal ∧
      (noteUnreadFields r j OpenAIProtocol.kReadKeys).replyChoiceIndex = r.replyChoiceIndex := by
    cases hframe : r.inspectedFrame <;> cases j <;> simp [noteUnreadFields,hframe]
  obtain ⟨hstream,hpending,hrefusal,hchoice⟩ := hsame
  exact ⟨hstream.trans h.stream,hpending.trans h.pending,hrefusal.trans h.refusal,
    hchoice.symm ▸ h.choice⟩

theorem claimReply_zero (h : r.replyChoiceIndex = -1 ∨ r.replyChoiceIndex = 0) :
    OpenAIProvider.claimReply 0 r = { r with replyChoiceIndex := 0 } := by
  rw [OpenAIProvider.claimReply]
  rcases h with h | h
  · rw [if_pos (by rw [h]; decide)]
  · rw [if_neg (by rw [h]; decide),← h]

theorem handleChoice_zero (delta more : List (String × Json))
    (h : r.replyChoiceIndex = -1 ∨ r.replyChoiceIndex = 0) :
    handleChoice {} r (.object (openAIChoice delta ++ more)) =
      OpenAIProvider.readChoice {} (.object (openAIChoice delta ++ more))
        { r with replyChoiceIndex := 0 } := by
  have hindex : (valueOrDefault (.object (openAIChoice delta ++ more)) "index" 0 : Int32) = 0 := by
    simp [valueOrDefault,openAIChoice,FromJson.valueTo,toInt,toNumber]
  have hobject : (Json.object (openAIChoice delta ++ more)).isObject = true := rfl
  rw [OpenAIProvider.handleChoice_eq,hindex,claimReply_zero h,if_neg (not_not_intro hobject),
    if_neg (not_not_intro rfl)]

theorem heard_frame (hd : ∀ c ∈ d.calls, Sendable text c) (h : Heard text ds r) :
    ∃ r', handleJsonToken text {} r (openAIFrame text d) = .ok r' ∧ Heard text (ds ++ [d]) r' := by
  have hnoted := heard_noteFields h (openAIFrame text d)
  have herror : (openAIFrame text d).get? "error" = none := by simp [openAIFrame]
  have hfinal : isFinal text (openAIFrame text d) = .ok false := by simp [isFinal,openAIFrame]
  rw [OpenAIProvider.handleJsonToken_eq,herror,hfinal]
  dsimp only
  rw [if_neg (by decide)]
  refine ⟨_,rfl,?_⟩
  generalize OpenAIProvider.noteFields r (openAIFrame text d) = noted at hnoted
  have hread : OpenAIProvider.readFrame {} noted (openAIFrame text d) =
      handleChoice {} noted (.object (openAIChoice (openAIDelta text d) ++ [])) := by
    simp [OpenAIProvider.readFrame,openAIFrame,asArray,handleUsage,handleModel]
  have hpiece : pieceOf (.object (openAIChoice (openAIDelta text d) ++ [])) =
      some (.object (openAIDelta text d)) := by
    simp [pieceOf,openAIChoice]
  have hreason : stringAt (.object (openAIChoice (openAIDelta text d) ++ []))
      ({} : ResponseShape).finishReasonField = none := by
    simp [stringAt,openAIChoice]
  have hcalls : noted.stream.toolCalls = [] := by
    rw [hnoted.stream]
    rfl
  rw [hread,handleChoice_zero _ _ hnoted.choice,OpenAIProvider.readChoice,hpiece,hreason]
  dsimp only
  rw [handlePiece_openAI hd { noted with replyChoiceIndex := 0 } hcalls]
  refine ⟨?_,?_,hnoted.refusal,.inr rfl⟩
  · dsimp only
    rw [hnoted.stream,spoken_handle,streamOf_concat]
  · dsimp only
    rw [hnoted.pending,List.flatMap_append,List.flatMap_singleton]

theorem heard_frames (hds : ∀ d ∈ ds, ∀ c ∈ d.calls, Sendable text c) :
    ∃ r, (ds.map (openAIFrame text)).foldlM (handleJsonToken text {}) {} = .ok r ∧
      Heard text ds r := by
  induction ds using List.reverseRecOn with
  | nil => exact ⟨{},rfl,rfl,rfl,rfl,.inl rfl⟩
  | append_singleton ds d ih =>
      obtain ⟨hfront,hlast⟩ := List.forall_mem_append.mp hds
      obtain ⟨r,hread,hheard⟩ := ih hfront
      obtain ⟨r',hstep,hheard'⟩ := heard_frame (hlast d (List.mem_singleton_self d)) hheard
      refine ⟨r',?_,hheard'⟩
      rw [List.map_append,List.foldlM_append,hread]
      exact hstep

theorem heard_last (t : Told) (h : Heard text ds r) :
    ∃ r', handleJsonToken text {} r (openAILast t) = .ok r' ∧ Heard text ds r' ∧
      r'.usage = some t.usage ∧ r'.finishReason = t.finishReason ∧ r'.responseModel = t.model := by
  have hnoted := heard_noteFields h (openAILast t)
  have herror : (openAILast t).get? "error" = none := by simp [openAILast]
  have hfinal : isFinal text (openAILast t) = .ok false := by simp [isFinal,openAILast]
  rw [OpenAIProvider.handleJsonToken_eq,herror,hfinal]
  dsimp only
  rw [if_neg (by decide)]
  refine ⟨_,rfl,?_⟩
  generalize OpenAIProvider.noteFields r (openAILast t) = noted at hnoted
  have hchoices : ((openAILast t).get? "choices").getD .null = .array
      [.object (openAIChoice [] ++ [("finish_reason", .string t.finishReason)])] := by
    simp [openAILast]
  have hchoice := handleChoice_zero [] [("finish_reason", .string t.finishReason)] hnoted.choice
  have hpiece : pieceOf (.object (openAIChoice [] ++ [("finish_reason", .string t.finishReason)])) =
      some (.object []) := by
    simp [pieceOf,openAIChoice]
  have hreason : stringAt (.object (openAIChoice [] ++ [("finish_reason", .string t.finishReason)]))
      ({} : ResponseShape).finishReasonField = some t.finishReason := by
    simp [stringAt,openAIChoice]
  have hempty (r : Reply) : handlePiece {} r (.object []) = r := by
    simp [handlePiece,stringAt,valueOrDefault,asArray,Stream.appendContent]
  have husage : countUsage {} (.object (openAIUsage t)) = t.usage := by
    simp [countUsage,openAIUsage,valueOrDefault,Told.usage]
    exact fun h => h.symm
  rw [OpenAIProvider.readFrame,hchoices,asArray,List.foldl_cons,List.foldl_nil,hchoice,
    OpenAIProvider.readChoice,hpiece,hreason]
  dsimp only
  rw [hempty]
  have hcounted (r : Reply) : handleModel (handleUsage {} r (openAILast t)) (openAILast t) =
      { r with
        usage := some t.usage
        rawUsage := .object (openAIUsage t)
        responseModel := t.model } := by
    simp [handleModel,handleUsage,openAILast,husage]
  rw [hcounted]
  exact ⟨⟨hnoted.stream,hnoted.pending,hnoted.refusal,.inr rfl⟩,rfl,rfl,rfl⟩

theorem settled_calls (finishReason : String) {calls : List ToolCall}
    (h : ∀ c ∈ calls, Sendable text c) :
    (calls.map (fun c => (⟨c.id,c.name,text.serialize c.arguments⟩ : ToolCallAccumulator))).mapM
      (settle text finishReason) = .ok calls := by
  induction calls with
  | nil => rfl
  | cons c calls ih =>
      obtain ⟨hc,hcalls⟩ := List.forall_mem_cons.mp h
      rw [List.map_cons,List.mapM_cons,ih hcalls,settle,if_neg hc.written]
      dsimp only
      rw [hc.reread]
      rfl

theorem gathered_calls (ds : List Delta) : ds.flatMap (gathered text) =
    (ds.flatMap Delta.calls).map (fun c => ⟨c.id,c.name,text.serialize c.arguments⟩) := by
  induction ds with
  | nil => rfl
  | cons d ds ih => rw [List.flatMap_cons,List.flatMap_cons,List.map_append,ih]; rfl

theorem appended (s : Stream) (calls : List ToolCall) :
    calls.foldl Stream.appendToolCall (spoken s) = { s with toolCalls := calls } := by
  have hrun : ∀ s : Stream, calls.foldl Stream.appendToolCall s =
      { s with toolCalls := s.toolCalls ++ calls } := by
    induction calls with
    | nil => exact fun s => by rw [List.append_nil]; rfl
    | cons c calls ih =>
        intro s
        rw [List.foldl_cons,ih,Stream.appendToolCall]
        dsimp only
        rw [List.append_assoc]
        rfl
  rw [hrun]
  rfl

-- What a provider is told of the shape aside, the two say the same.
def Same (a result : ChatResult) : Prop := { a with missingFields := [] } = result

theorem openAI_tells (h : ∀ d ∈ t.deltas, ∀ c ∈ d.calls, Sendable text c) (seen : List String) :
    ∃ a, OpenAIProtocol.chat text {} seen (openAIFrames text t) = .ok a ∧ Same a t.result := by
  obtain ⟨heard,hread,hheard⟩ := heard_frames h
  obtain ⟨last,hlast,hheard',husage,hreason,hmodel⟩ := heard_last t hheard
  have hall : (openAIFrames text t).foldlM (handleJsonToken text {}) {} = .ok last := by
    rw [openAIFrames,List.foldlM_append,hread]
    exact hlast
  have hcalls : ∀ c ∈ t.deltas.flatMap Delta.calls, Sendable text c := by
    intro c hc
    obtain ⟨d,hd,hmem⟩ := List.mem_flatMap.mp hc
    exact h d hd c hmem
  have hflush : flushPendingToolCalls text last = .ok
      { last with stream := streamOf t.deltas, pendingTools := [] } := by
    rw [OpenAIProvider.flushPendingToolCalls_eq,hheard'.pending,gathered_calls,
      settled_calls _ hcalls]
    dsimp only
    rw [hheard'.stream,appended,← toolCalls_streamOf]
  have hseen : ({ seenFields := seen } : Reply) = OpenAIProvider.withSeen {} seen := rfl
  rw [OpenAIProtocol.chat,readFrames,hseen,OpenAIProvider.foldlM_withSeen,hall]
  dsimp only [Except.map,bind,Except.bind]
  rw [finishStream,OpenAIProvider.flushPending_withSeen,hflush]
  refine ⟨_,rfl,?_⟩
  rw [Same,Told.result]
  dsimp only [OpenAIProvider.withSeen]
  rw [hheard'.refusal,husage,hreason,hmodel]
  rfl

theorem ran_lines (h : ∀ d ∈ ds, ∀ c ∈ d.calls, Sendable text c) :
    ∃ r, ran (readDocuments (OllamaProvider.handleJsonToken text) (ds.map ollamaLine)) {} =
      (.ok (),r) ∧ r.stream = streamOf ds := by
  have hrun : ∀ r : Reply,
      ∃ r', ran (readDocuments (OllamaProvider.handleJsonToken text) (ds.map ollamaLine)) r =
        (.ok (),r') ∧ r'.stream = (ds.map Delta.event).foldl Stream.handle r.stream := by
    induction ds with
    | nil => exact fun r => ⟨r,rfl,rfl⟩
    | cons d ds ih =>
        intro r
        obtain ⟨hd,hds⟩ := List.forall_mem_cons.mp h
        have herror : (ollamaLine d).get? "error" = none := by simp [ollamaLine]
        have hstep := @ran_line text _ herror r
        obtain ⟨r',hread,hstream⟩ := ih hds _
        refine ⟨r',?_,?_⟩
        · rw [List.map_cons,readDocuments,ran_bind_ok hstep]
          exact hread
        · rw [hstream,stream_line hd,stream_noteUnread]
          rfl
  exact hrun {}

theorem readDocuments_append (handle : Json → InPlace String Reply Unit) (js js' : List Json)
    (r : Reply) : ran (readDocuments handle (js ++ js')) r =
      ran (readDocuments handle js >>= fun _ => readDocuments handle js') r := by
  induction js generalizing r with
  | nil => rfl
  | cons j js ih =>
      rw [List.cons_append,readDocuments,readDocuments,bind_assoc]
      exact ran_bind_congr (handle j) (fun _ s => ih s) r

theorem ollama_tells (h : ∀ d ∈ t.deltas, ∀ c ∈ d.calls, Sendable text c) :
    ∃ a, OllamaProvider.chatLines text (ollamaLines t) = .ok a ∧ Same a.toChatResult t.result := by
  obtain ⟨r,hread,hstream⟩ := ran_lines h
  have herror : (ollamaLast t).get? "error" = none := by simp [ollamaLast]
  have hlast := @ran_line text _ herror r
  rw [last_line] at hlast
  have hall : ran (readDocuments (OllamaProvider.handleJsonToken text) (ollamaLines t)) {} =
      ran (OllamaProvider.handleJsonToken text (ollamaLast t)) r := by
    rw [ollamaLines,readDocuments_append,ran_bind_ok hread,readDocuments,ran_bind_ok hlast,hlast]
    rfl
  rw [hlast] at hall
  rw [OllamaProvider.chatLines,ran_bind_ok hall]
  refine ⟨_,rfl,?_⟩
  rw [Same,Told.result,← hstream,← stream_noteUnread r (ollamaLast t) OllamaProvider.kReadKeys]
  rfl

theorem dialects_agree (text : JsonText) (t : Told)
    (h : ∀ d ∈ t.deltas, ∀ c ∈ d.calls, Sendable text c) (seen : List String) :
    ∃ a b, OllamaProvider.chatLines text (ollamaLines t) = .ok a ∧
      OpenAIProtocol.chat text {} seen (openAIFrames text t) = .ok b ∧
      Same a.toChatResult t.result ∧ Same b t.result := by
  obtain ⟨a,ha,hsame⟩ := ollama_tells h
  obtain ⟨b,hb,hsame'⟩ := openAI_tells h seen
  exact ⟨a,b,ha,hb,hsame,hsame'⟩

-- One call without arguments, and a text that reads and writes its empty object.
def lsCall : ToolCall := ⟨"c","ls",.object []⟩

def lsTold : Told := ⟨[.content "on it",.call lsCall],1,2,0,"stop","m"⟩

def lsText : JsonText where
  parse s := if s = "\x7b\x7d" then some (.object []) else none
  serialize _ := "\x7b\x7d"
  parseError _ := ""
  kindError _ := ""

theorem lsCall_sendable : Sendable lsText lsCall := by
  refine ⟨?_,?_,?_,?_,?_⟩ <;> decide

theorem dialects_agree_ls : ∃ a b, OllamaProvider.chatLines lsText (ollamaLines lsTold) = .ok a ∧
    OpenAIProtocol.chat lsText {} [] (openAIFrames lsText lsTold) = .ok b ∧
    Same a.toChatResult lsTold.result ∧ Same b lsTold.result := by
  refine dialects_agree lsText lsTold ?_ []
  intro d hd c hc
  rcases List.mem_pair.mp hd with rfl | rfl
  · cases hc
  · obtain rfl := List.mem_singleton.mp hc
    exact lsCall_sendable

end Dialects

end PuCli
