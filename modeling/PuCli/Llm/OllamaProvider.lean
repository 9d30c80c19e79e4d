import PuCli.Llm.StreamingProvider

namespace PuCli

open Json Sse OpenAIProtocol StreamingProvider InPlace

namespace OllamaProvider

def kReadKeys : List String :=
  ["error", "message", "done", "done_reason", "model", "prompt_eval_count", "eval_count",
    "prompt_eval_cached_count"]

-- `seen_fields_` and `missing_fields_` are left as they are.
def resetAccumulators (r : Reply) : Reply :=
  { missingFields := r.missingFields, seenFields := r.seenFields }

def stringOf (j : Json) (key : String) : Option String :=
  match j.get? key with
  | some (.string s) => some s
  | _ => none

def readArguments (text : JsonText) (function : Json) : Json :=
  match function.get? "arguments" with
  | some (.string s) => (text.parse s).getD (.string s)
  | some (.object members) => .object members
  | some (.array xs) => .array xs
  | _ => .null

def readCall (text : JsonText) (tc : Json) : Option ToolCall :=
  match tc.get? "function" with
  | none => none
  | some function =>
      let name : String := valueOrDefault function "name" ""
      if name = "" then none
      else some ⟨(stringOf tc "id").getD "",name,readArguments text function⟩

def handleMessage (text : JsonText) (s : Stream) (msg : Json) : Stream :=
  let s := match stringOf msg "content" with
    | some content => s.appendContent content
    | none => s
  let s := match stringOf msg "thinking" with
    | some thinking => s.appendReasoning thinking "" .null
    | none => s
  ((((msg.get? "tool_calls").getD .null).asArray).filterMap (readCall text)).foldl
    Stream.appendToolCall s

def carriesUsage (j : Json) : Bool := j.hasKey "prompt_eval_count" || j.hasKey "eval_count"

def countUsage (j : Json) : TokenUsage where
  promptTokens := valueOrDefault j "prompt_eval_count" 0
  completionTokens := valueOrDefault j "eval_count" 0
  cachedTokens := valueOrDefault j "prompt_eval_cached_count" 0

def readLine (text : JsonText) (r : Reply) (j : Json) : Reply :=
  let r := match j.get? "message" with
    | some msg => { r with stream := handleMessage text r.stream msg }
    | none => r
  let r := if carriesUsage j then { r with usage := some (countUsage j), rawUsage := j } else r
  let r := match stringOf j "done_reason" with
    | some reason => { r with finishReason := reason }
    | none => r
  match stringOf j "model" with
  | some model => { r with responseModel := model }
  | none => r

def errorDetail (j : Json) : String := if j.hasKey "error" then errorMessage j else ""

def handleJsonToken (text : JsonText) (j : Json) : InPlace String Reply Unit := do
  modify (noteUnreadFields · j kReadKeys)
  if errorDetail j ≠ "" then throw ("provider error: " ++ errorDetail j)
  else modify (readLine text · j)

def isBlank (byte : UInt8) : Bool := byte = 0x20 ∨ byte = 0x09 ∨ byte = 0x0D ∨ byte = 0x0A

def parseData (text : JsonText) (data : List UInt8) : InPlace String Reply Unit :=
  if data.all isBlank then pure ()
  else match parseBytes text data with
    | some j => handleJsonToken text j
    | none => pure ()

def provider (text : JsonText) : Provider where
  framesBareLines := true
  resetAccumulators := resetAccumulators
  parseData := parseData text
  finishStream := pure ()

def readPayload (text : JsonText) (data : List UInt8) : Option Json :=
  if data.all isBlank then none else parseBytes text data

def framesOf (text : JsonText) (x : Exchange) : List Json :=
  documents (readPayload text) (reportsOf text (provider text) x)

-- A reply read from its documents, by a provider that has none yet.
def chatLines (text : JsonText) (js : List Json) : Except String Answer :=
  (ran (readDocuments (handleJsonToken text) js >>= fun _ => takeResult) {}).1

def answerTo (text : JsonText) (r : Reply) (x : Exchange) : Except String Answer :=
  (ran (StreamingProvider.chat text (provider text) x) r).1

variable {text : JsonText} {r : Reply}

theorem provider_reads (text : JsonText) :
    Reads (provider text) (readPayload text) (handleJsonToken text) := by
  intro data _
  dsimp only [provider,parseData,readPayload]
  split <;> rfl

-- What no line of a reply writes.
structure Untouched (r r' : Reply) : Prop where
  seenFields : r'.seenFields = r.seenFields
  missingFields : r'.missingFields = r.missingFields

theorem Untouched.trans {r r' r'' : Reply} (h : Untouched r r') (h' : Untouched r' r'') :
    Untouched r r'' :=
  ⟨h'.seenFields.trans h.seenFields,h'.missingFields.trans h.missingFields⟩

theorem readLine_untouched (r : Reply) (j : Json) : Untouched r (readLine text r j) := by
  rw [readLine]
  cases j.get? "message" <;> cases carriesUsage j <;> cases stringOf j "done_reason" <;>
    cases stringOf j "model" <;> exact ⟨rfl,rfl⟩

theorem noteUnread_untouched (r : Reply) (j : Json) :
    Untouched r (noteUnreadFields r j kReadKeys) := by
  cases hframe : r.inspectedFrame <;> cases j <;> simp only [noteUnreadFields,hframe] <;>
    exact ⟨rfl,rfl⟩

theorem handleJsonToken_untouched (j : Json) (r : Reply) :
    Untouched r (ran (handleJsonToken text j) r).2 := by
  rw [handleJsonToken,ran_bind_modify]
  split
  · exact noteUnread_untouched r j
  · exact (noteUnread_untouched r j).trans (readLine_untouched _ j)

theorem onEvent_untouched (report : Report) (r : Reply) :
    Untouched r (ran (onEvent (provider text) report) r).2 := by
  cases report with
  | retry milliseconds => exact ⟨rfl,rfl⟩
  | event e =>
      dsimp only [onEvent,provider,parseData]
      split
      · split
        · exact ⟨rfl,rfl⟩
        · cases parseBytes text e.data with
          | none => exact ⟨rfl,rfl⟩
          | some j => exact handleJsonToken_untouched j r
      · exact ⟨rfl,rfl⟩

theorem onEvents_untouched (reports : List Report) (r : Reply) :
    Untouched r (ran (onEvents (provider text) reports) r).2 := by
  induction reports generalizing r with
  | nil => exact ⟨rfl,rfl⟩
  | cons report reports ih =>
      rw [onEvents]
      exact ran_bind_inv (onEvent_untouched report r) (fun _ r' h => h.trans (ih r'))

def Clean (r : Reply) : Prop := r.seenFields = [] ∧ r.missingFields = []

theorem Clean.untouched {r r' : Reply} (h : Clean r) (hu : Untouched r r') : Clean r' :=
  ⟨hu.seenFields.trans h.1,hu.missingFields.trans h.2⟩

theorem clean_chat (x : Exchange) (h : Clean r) :
    Clean (ran (StreamingProvider.chat text (provider text) x) r).2 := by
  have hreset : Clean ((provider text).resetAccumulators r) := h
  rw [StreamingProvider.chat,ran_bind_modify]
  refine ran_bind_inv (hreset.untouched (onEvents_untouched _ _)) ?_
  intro _ r' hfed
  cases x.failure with
  | some what => exact hfed
  | none => exact ran_bind_inv (hfed.untouched (onEvents_untouched _ _)) (fun _ _ _ => ⟨rfl,rfl⟩)

theorem clean_after (xs : List Exchange) : Clean (after text (provider text) xs) := by
  have hrun : ∀ r, Clean r →
      Clean (xs.foldl (fun r x => (ran (StreamingProvider.chat text (provider text) x) r).2) r) := by
    induction xs with
    | nil => exact fun r h => h
    | cons x xs ih => exact fun r h => ih _ (clean_chat x h)
  exact hrun {} ⟨rfl,rfl⟩

theorem resetAccumulators_clean (h : Clean r) : resetAccumulators r = {} := by
  rw [resetAccumulators,h.1,h.2]

theorem answerTo_clean (x : Exchange) (h : Clean r) : answerTo text r x =
    (ran (readDocuments (handleJsonToken text) (framesOf text x) >>= fun _ =>
      ending (provider text) x) {}).1 := by
  have hreset : (provider text).resetAccumulators r = {} := resetAccumulators_clean h
  rw [answerTo,ran_chat (provider_reads text),hreset]
  rfl

theorem chat_forgets (text : JsonText) (xs : List Exchange) (x : Exchange) :
    answerTo text (after text (provider text) xs) x =
      (match x.failure with
      | some what => chatLines text (framesOf text x) >>= fun _ => .error what
      | none => chatLines text (framesOf text x)) := by
  rw [answerTo_clean x (clean_after xs),ending,chatLines]
  cases x.failure with
  | none => rfl
  | some what =>
      rw [ran_bind,ran_bind]
      obtain ⟨result,r⟩ := ran (readDocuments (handleJsonToken text) (framesOf text x)) {}
      cases result <;> rfl

end OllamaProvider

end PuCli
