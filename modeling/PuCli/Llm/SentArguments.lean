import PuCli.Core.Depth
import PuCli.Llm.OpenAIProtocol
import PuCli.Llm.Projection
import PuCli.Runtime.ExecutorRound
import PuCli.Session.PageReceipts

namespace PuCli

open Json

namespace Projection

open OpenAIProtocol

-- The arguments a call is given when its streamed text was `raw`.
def Streamed (text : JsonText) (raw : String) (arguments : Json) : Prop :=
  ∃ finishReason acc call, acc.arguments = raw ∧ settle text finishReason acc = .ok call ∧
    call.arguments = arguments

def Spoken (j : Json) : Prop := j.isString = true ∨ j.isObject = true ∨ j.isArray = true

-- The text is not empty, and it is no JSON for null, a boolean or a number.
def Textual (text : JsonText) (raw : String) : Prop :=
  raw ≠ "" ∧ ∀ v, text.parse raw = some v → Spoken v

def sentArguments (text : JsonText) (capabilities : ProviderCapabilities) (msgs : List ChatMessage)
    (i k : Nat) : Option Json := do
  let message ← (projectMessages text msgs capabilities)[i]?
  let call ← ((message.get? "tool_calls").getD .null).asArray[k]?
  let function ← call.get? "function"
  function.get? "arguments"

def SentAsText (text : JsonText) (capabilities : ProviderCapabilities) (msgs : List ChatMessage)
    (i k : Nat) (stored : Json) : Prop :=
  ∃ out, sentArguments text capabilities msgs i k = some (.string out) ∧
    (stored.isObject = true ∨ stored.isArray = true → text.parse out = some stored)

variable {text : JsonText} {chars : ToChars} {d : Doubles} {capabilities : ProviderCapabilities}
  {s loaded : Session} {before later : List MessageNode} {node : MessageNode}
  {p : AssistantPayload} {record : ToolCallRecord} {raw : String} {k : Nat} {stored : Json}
  {inputs : RequestInputs} {msgs : List ChatMessage}

theorem streamed_spoken (h : Streamed text raw stored) : Spoken stored ↔ Textual text raw := by
  obtain ⟨finishReason,acc,call,rfl,hs,rfl⟩ := h
  rw [settle] at hs
  split at hs
  · next hempty =>
      obtain rfl := Except.ok.inj hs
      exact iff_of_false (by simp [Spoken,isString,isObject,isArray]) (fun h => h.1 hempty)
  · next hne =>
      split at hs
      · next v hv =>
          obtain rfl := Except.ok.inj hs
          constructor
          · intro h
            refine ⟨hne,?_⟩
            intro w hw
            obtain rfl := Option.some.inj (hv.symm.trans hw)
            exact h
          · exact fun h => h.2 v hv
      · next hnone =>
          split at hs
          · cases hs
          · obtain rfl := Except.ok.inj hs
            refine iff_of_true (.inl rfl) ⟨hne,?_⟩
            intro v hv
            rw [hnone] at hv
            cases hv

theorem spoken_reread (d : Doubles) (j : Json) : Spoken (j.reread d) ↔ Spoken j := by
  have hnumber : ∀ {v : Json}, Number v → ¬ Spoken v := by
    intro v hv
    cases hv <;> simp [Spoken,isString,isObject,isArray]
  cases j with
  | uint64 n => exact iff_of_false (hnumber (Number.reread (.uint64 n))) (hnumber (.uint64 n))
  | double q => exact iff_of_false (hnumber (Number.reread (.double q))) (hnumber (.double q))
  | array xs => exact iff_of_true (.inr (.inr (by simp [isArray]))) (.inr (.inr rfl))
  | object ms => exact iff_of_true (.inr (.inl (by simp [isObject]))) (.inr (.inl rfl))
  | _ => rfl

theorem mapM_settle_getElem? {finishReason : String} {accs : List ToolCallAccumulator}
    {calls : List ToolCall} {acc : ToolCallAccumulator}
    (h : accs.mapM (settle text finishReason) = .ok calls) (hk : accs[k]? = some acc) :
    ∃ call, settle text finishReason acc = .ok call ∧ calls[k]? = some call := by
  induction accs generalizing calls k with
  | nil => simp at hk
  | cons first accs ih =>
      rw [List.mapM_cons] at h
      obtain ⟨call,hcall,h⟩ := bind_eq_ok h
      obtain ⟨rest,hrest,h⟩ := bind_eq_ok h
      obtain rfl := Except.ok.inj h
      cases k with
      | zero =>
          obtain rfl := Option.some.inj hk
          exact ⟨call,hcall,rfl⟩
      | succ k =>
          obtain ⟨call,hcall,hget⟩ := ih hrest hk
          exact ⟨call,hcall,hget⟩

theorem assignIds_getElem? (host : Host) (next : Nat) {calls : List ToolCall} {call : ToolCall}
    (hk : calls[k]? = some call) :
    ∃ named, (Executing.assignIds host next calls).1[k]? = some named ∧
      named.arguments = call.arguments := by
  induction calls generalizing next k with
  | nil => simp at hk
  | cons first calls ih =>
      cases k with
      | zero =>
          obtain rfl := Option.some.inj hk
          rw [Executing.assignIds]
          split <;> exact ⟨_,rfl,rfl⟩
      | succ k =>
          rw [Executing.assignIds]
          split
          · exact ih (next + 1) hk
          · exact ih next hk

-- What the reply parser gave a call is what the turn of the assistant stores for it.
theorem streamed_stored {finishReason : String} {accs : List ToolCallAccumulator}
    {acc : ToolCallAccumulator} (host : Host) (next : Nat) {reply : ChatResult}
    (h : accs.mapM (settle text finishReason) = .ok reply.toolCalls) (hk : accs[k]? = some acc) :
    let turn := Executing.assistantTurn reply (Executing.assignIds host next reply.toolCalls).1
    ∃ p record, toPayload text turn = .assistant p ∧ p.toolCalls[k]? = some record ∧
      Streamed text acc.arguments record.arguments := by
  intro turn
  obtain ⟨call,hcall,hget⟩ := mapM_settle_getElem? h hk
  obtain ⟨named,hnamed,harguments⟩ := assignIds_getElem? host next hget
  refine ⟨_,named.record,Executing.toPayload_assistantTurn text reply _,?_,?_⟩
  · rw [List.getElem?_map,hnamed,Option.map_some]
  · exact ⟨finishReason,acc,call,rfl,hcall,harguments.symm⟩

theorem projectMessages_call {message : ChatMessage} {records : List ToolCallRecord} {i : Nat}
    (hi : msgs[i]? = some message) (hm : message.toolCalls = .array (records.map toolCallToJson))
    (hk : records[k]? = some record) :
    sentArguments text capabilities msgs i k =
      some (projectArguments text record.arguments capabilities.toolArguments) := by
  have hcalls : message.hasToolCalls = true := by
    obtain ⟨hlt,-⟩ := List.getElem?_eq_some_iff.mp hk
    have hne : records ≠ [] := List.ne_nil_of_length_pos (Nat.zero_lt_of_lt hlt)
    simpa [ChatMessage.hasToolCalls,hm] using hne
  have hsent : (projectMessages text msgs capabilities)[i]? =
      some (projectMessage text capabilities message) := by
    rw [projectMessages,List.getElem?_map,hi,Option.map_some]
  have hcall : (projectToolCalls text message.toolCalls capabilities).asArray[k]? =
      some (projectToolCall text capabilities (toolCallToJson record)) := by
    rw [projectToolCalls,hm]
    simp only [asArray,List.getElem?_map,hk,Option.map_some]
  simp only [sentArguments,hsent,Option.bind_eq_bind,Option.bind_some,projectMessage_toolCalls hcalls,
    Option.getD_some,hcall,projectToolCall_record]
  simp

theorem renderMessage_toolCalls (hnode : node.payload = .assistant p)
    (hrecord : p.toolCalls[k]? = some record) (position : Int) :
    (renderMessage node position).toolCalls = .array (p.toolCalls.map toolCallToJson) := by
  have hne : p.toolCalls.isEmpty = false := by
    obtain ⟨hlt,-⟩ := List.getElem?_eq_some_iff.mp hrecord
    exact List.isEmpty_eq_false_iff.mpr (List.ne_nil_of_length_pos (Nat.zero_lt_of_lt hlt))
  simp [renderMessage,hnode,hne]

-- A call keeps its place from the session that was saved to the request its reload is asked for.
theorem sentArguments_reloaded (hk : Session.Kept text chars s)
    (hl : text.LimitsPretty chars s.serialize)
    (hload : Session.loadSession text (s.savedText text chars) = some loaded)
    (hchain : s.conversation.chain = before ++ node :: later)
    (hnode : node.payload = .assistant p) (hrecord : p.toolCalls[k]? = some record)
    (inputs : RequestInputs) :
    ∃ msgs, buildRequestPath text loaded.conversation.graph inputs = .ok msgs ∧
      sentArguments text capabilities msgs ((systemMessages inputs).length + before.length) k =
        some (projectArguments text (record.arguments.reread chars.toDoubles)
          capabilities.toolArguments) := by
  have hread : text.ReadsPretty chars s.serialize := by
    refine hl.reads ?_
    by_contra hdeep
    rw [Session.loadSession,Session.savedText,hl.refuses hdeep] at hload
    cases hload
  have hkept := Session.Kept.reload hk hread hload
  rw [Session.loadSession_saved (Session.kept_sound hk) hread] at hload
  obtain rfl := Option.some.inj hload
  obtain ⟨msgs,hmsgs⟩ := buildRequestPath_total (Session.kept_sound hkept).graph
    (Session.kept_readable hkept) inputs
  refine ⟨msgs,hmsgs,?_⟩
  obtain ⟨turns,rfl,-,hat⟩ := projected_of_ok hmsgs
  have hchain' : (s.conversation.graph.reread chars.toDoubles).chain =
      before.map (MessageNode.reread chars.toDoubles) ++ node.reread chars.toDoubles ::
        later.map (MessageNode.reread chars.toDoubles) := by
    rw [MessageGraph.chain_reread,show s.conversation.graph.chain = _ from hchain,List.map_append,
      List.map_cons]
  obtain ⟨msg,hget,hprojected⟩ := hat _ _ _ hchain'
  rw [List.length_map] at hget
  have hrecord' : (p.toolCalls.map (ToolCallRecord.reread chars.toDoubles))[k]? =
      some (record.reread chars.toDoubles) := by
    rw [List.getElem?_map,hrecord,Option.map_some]
  have hcalls : msg.toolCalls =
      .array ((p.toolCalls.map (ToolCallRecord.reread chars.toDoubles)).map toolCallToJson) := by
    rw [hprojected.rendered]
    have hpayload : (node.reread chars.toDoubles).payload =
        (MessagePayload.assistant p).reread chars.toDoubles := by
      rw [← hnode]
      rfl
    exact renderMessage_toolCalls hpayload hrecord' _
  refine projectMessages_call ?_ hcalls hrecord'
  rw [List.getElem?_append_right (Nat.le_add_right _ _),Nat.add_sub_cancel_left,hget]

theorem sentAsText_iff (hsent : sentArguments text capabilities msgs i k =
      some (projectArguments text stored capabilities.toolArguments))
    (hcap : capabilities.toolArguments = .kJsonString)
    (hreads : text.parse (text.serialize stored) = some stored) :
    SentAsText text capabilities msgs i k stored ↔ Spoken stored := by
  rw [hcap] at hsent
  rw [Spoken,← projectArguments_string text]
  constructor
  · rintro ⟨out,hout,-⟩
    rw [hout] at hsent
    rw [← Option.some.inj hsent]
    rfl
  · intro h
    cases hv : projectArguments text stored .kJsonString with
    | string out =>
        refine ⟨out,by rw [hsent,hv],?_⟩
        intro hc
        rw [projectArguments_serialized hc] at hv
        obtain rfl := Json.string.inj hv
        exact hreads
    | _ => rw [hv] at h; cases h

theorem sent_arguments_iff (hk : Session.Kept text chars s)
    (hl : text.LimitsPretty chars s.serialize)
    (hload : Session.loadSession text (s.savedText text chars) = some loaded)
    (hchain : s.conversation.chain = before ++ node :: later)
    (hnode : node.payload = .assistant p) (hrecord : p.toolCalls[k]? = some record)
    (hstreamed : Streamed text raw record.arguments)
    (hreads : text.Reads (record.arguments.reread chars.toDoubles))
    (hcap : capabilities.toolArguments = .kJsonString) (inputs : RequestInputs) :
    ∃ msgs, buildRequestPath text loaded.conversation.graph inputs = .ok msgs ∧
      (SentAsText text capabilities msgs ((systemMessages inputs).length + before.length) k
          (record.arguments.reread chars.toDoubles) ↔ Textual text raw) := by
  obtain ⟨msgs,hmsgs,hsent⟩ := sentArguments_reloaded hk hl hload hchain hnode hrecord inputs
  refine ⟨msgs,hmsgs,?_⟩
  have hback : text.parse (text.serialize (record.arguments.reread chars.toDoubles)) =
      some (record.arguments.reread chars.toDoubles) := by
    rw [hreads.reread,reread_plain]
  rw [sentAsText_iff hsent hcap hback,spoken_reread,streamed_spoken hstreamed]

-- A session whose one turn asks for one call.
def calledWith (text : JsonText) (arguments : Json) : Session :=
  { conversation := Conversation.new.append text "n1"
      (Executing.assistantTurn {} [⟨"call_1", "ls", arguments⟩]) }

theorem calledWith_kept (text : JsonText) (chars : ToChars) (arguments : Json) :
    Session.Kept text chars (calledWith text arguments) :=
  .step .new (.append _ ⟨by decide,by decide⟩)

def bareCall (arguments : Json) : AssistantPayload :=
  ⟨"", [], [⟨"call_1", "ls", arguments, .pending⟩]⟩

theorem calledWith_chain (text : JsonText) (arguments : Json) :
    (calledWith text arguments).conversation.chain =
      [] ++ ⟨"n1", "", .assistant (bareCall arguments), ""⟩ :: [] := by
  have hc := MessageGraph.chain_appendAfterLeaf MessageGraph.sound_empty
    (show MessageGraph.empty.Fresh "n1" from ⟨by decide,by decide⟩)
    (.assistant (bareCall arguments)) ""
  exact hc

def bareChars : ToChars := ⟨.plain, fun q => toString q.num⟩

def emptyObject : String := "\x7b\x7d"

-- A parser that has been given one session file to read.
def docText (doc : Json) : JsonText where
  parse raw :=
    if raw = emptyObject then some (.object [])
    else if raw = "null" then some .null
    else some (doc.reread .plain)
  serialize j := if j = .object [] then emptyObject else "null"
  parseError _ := "syntax error"
  kindError _ := "value is not an object"

theorem docText_parse (doc : Json) (raw : String) : (docText doc).parse raw =
    if raw = emptyObject then some (.object [])
    else if raw = "null" then some .null
    else some (doc.reread .plain) := rfl

theorem docText_reads (doc : Json) : (docText doc).Reads (.object []) := by
  have hs : (docText doc).serialize (.object []) = emptyObject := by simp [docText]
  constructor
  · rw [hs,docText_parse,if_pos rfl]
    rfl
  · intro _
    rw [hs]
    rfl

theorem docText_limits {m : String × Json} {ms : List (String × Json)}
    (h : (Json.object (m :: ms)).Readable kMaxDepth) :
    (docText (.object (m :: ms))).LimitsPretty bareChars (.object (m :: ms)) := by
  refine ⟨fun _ => ?_,fun hdeep => absurd h hdeep⟩
  obtain ⟨rest,hrest⟩ := toList_prettyPrint_object (docText (.object (m :: ms))) bareChars m ms
  have hobject : (Json.object (m :: ms)).prettyPrint (docText (.object (m :: ms))) bareChars ≠
      emptyObject := by
    intro heq
    rw [heq] at hrest
    cases hrest
  have hnull : (Json.object (m :: ms)).prettyPrint (docText (.object (m :: ms))) bareChars ≠
      "null" := by
    intro heq
    rw [heq] at hrest
    cases hrest
  rw [JsonText.ReadsPretty,docText_parse,if_neg hobject,if_neg hnull]
  rfl

def calledDoc (arguments : Json) : Json := (calledWith (docText .null) arguments).serialize

theorem calledWith_limits {arguments : Json} (h : (calledDoc arguments).Readable kMaxDepth) :
    (docText (calledDoc arguments)).LimitsPretty bareChars
      (calledWith (docText (calledDoc arguments)) arguments).serialize :=
  docText_limits h

theorem calledWith_loaded {arguments : Json} (h : (calledDoc arguments).Readable kMaxDepth) :
    Session.loadSession (docText (calledDoc arguments))
        ((calledWith (docText (calledDoc arguments)) arguments).savedText
          (docText (calledDoc arguments)) bareChars) =
      some ((calledWith (docText (calledDoc arguments)) arguments).reread bareChars.toDoubles) :=
  Session.loadSession_saved (Session.kept_sound (calledWith_kept _ bareChars _))
    ((calledWith_limits h).reads h)

theorem sent_arguments_object :
    let text := docText (calledDoc (.object []))
    ∃ msgs, buildRequestPath text
        ((calledWith text (.object [])).reread bareChars.toDoubles).conversation.graph ⟨"", ""⟩ =
          .ok msgs ∧
      (SentAsText text kCapabilities msgs 0 0 (.object []) ↔ Textual text emptyObject) := by
  intro text
  have hdepth : (calledDoc (.object [])).Readable kMaxDepth := by decide
  exact sent_arguments_iff (calledWith_kept text bareChars (.object []))
    (calledWith_limits hdepth) (calledWith_loaded hdepth) (calledWith_chain text (.object [])) rfl
    (show (bareCall (.object [])).toolCalls[0]? = some _ from rfl)
    ⟨"", ⟨"call_1", "ls", emptyObject⟩,⟨"call_1", "ls", .object []⟩,rfl,rfl,rfl⟩ (docText_reads _)
    (show kCapabilities.toolArguments = .kJsonString from rfl) ⟨"", ""⟩

-- A call streamed without a word of arguments goes out with null ones.
theorem empty_arguments_sent_null :
    ¬ ∀ (text : JsonText) (chars : ToChars) (s loaded : Session) (before later : List MessageNode)
        (node : MessageNode) (p : AssistantPayload) (record : ToolCallRecord) (raw : String) (k : Nat)
        (capabilities : ProviderCapabilities) (inputs : RequestInputs),
      Session.Kept text chars s → text.LimitsPretty chars s.serialize →
      Session.loadSession text (s.savedText text chars) = some loaded →
      s.conversation.chain = before ++ node :: later → node.payload = .assistant p →
      p.toolCalls[k]? = some record → Streamed text raw record.arguments →
      text.Reads (record.arguments.reread chars.toDoubles) →
      capabilities.toolArguments = .kJsonString →
      ∃ msgs, buildRequestPath text loaded.conversation.graph inputs = .ok msgs ∧
        SentAsText text capabilities msgs ((systemMessages inputs).length + before.length) k
          (record.arguments.reread chars.toDoubles) := by
  intro h
  have hdepth : (calledDoc .null).Readable kMaxDepth := by decide
  have hkept := calledWith_kept (docText (calledDoc .null)) bareChars .null
  have hchain := calledWith_chain (docText (calledDoc .null)) .null
  obtain ⟨msgs,hmsgs,out,hout,-⟩ := h _ bareChars _ _ [] [] _ (bareCall .null) _ "" 0 kCapabilities
    ⟨"", ""⟩ hkept (calledWith_limits hdepth) (calledWith_loaded hdepth) hchain rfl rfl
    ⟨"", ⟨"call_1", "ls", ""⟩,⟨"call_1", "ls", .null⟩,rfl,rfl,rfl⟩ ⟨rfl,fun h => nomatch h⟩ rfl
  obtain ⟨msgs',hmsgs',hsent⟩ := @sentArguments_reloaded _ bareChars kCapabilities _ _ _ _ _
    (bareCall .null) _ 0 hkept (calledWith_limits hdepth) (calledWith_loaded hdepth) hchain rfl rfl
    ⟨"", ""⟩
  obtain rfl := Except.ok.inj (hmsgs.symm.trans hmsgs')
  cases hout.symm.trans hsent

end Projection

end PuCli
