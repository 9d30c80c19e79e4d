import PuCli.Mcp.Client
import PuCli.Tools.ToolResult

namespace PuCli

open Json

namespace Mcp

-- How a call of `SendRequest` ends: without a client to ask, past its deadline, or with the future.
inductive Answer where
  | noClient
  | timedOut
  | completed (outcome : Outcome)

def sendRequest : Answer → Except String Json
  | .noClient => .error "MCP client not connected"
  | .timedOut => .error "MCP request timeout"
  | .completed (.value j) => .ok j
  | .completed (.exception what) => .error what

def resultContent (resp : Json) : Option Json := (resp.get? "result").bind (fun result => result.get? "content")

def itemText (item : Json) : Option String :=
  if item.get? "type" = some (.string "text") then some (valueOrDefault item "text" "") else none

def contentTexts (items : List Json) : List String := items.filterMap itemText

def contentOutput (items : List Json) : String :=
  (contentTexts items).foldl (fun output text => output ++ text ++ "\n") ""

def readResponse (text : JsonText) (resp : Json) : Except String String :=
  match resp.get? "result" with
  | none => .ok (text.serialize resp)
  | some result =>
      match result.get? "content" with
      | none => .ok (text.serialize resp)
      | some (.array items) =>
          if contentOutput items = "" then .ok (text.serialize result) else .ok (contentOutput items)
      | some content => .error (text.kindError content)

-- A call of the tool: whether the client is connected where `Execute` asks and again where
-- `CallTool` does, and the answer to its request.
structure Call where
  connected : Bool
  stillConnected : Bool
  answer : Answer

namespace Call

def callTool (text : JsonText) (call : Call) : String :=
  if call.stillConnected then
    match (sendRequest call.answer).bind (readResponse text) with
    | .ok output => output
    | .error what => "MCP call error: " ++ what
  else "Error: MCP client not connected"

end Call

def kFailureMarks : List String := ["Error:","MCP error:","MCP call error:"]

def marksFailure (raw : String) : Bool :=
  kFailureMarks.any (fun mark => mark.toList.isPrefixOf raw.toList)

def wrapResult (raw : String) : List (String × Json) :=
  let isError := marksFailure raw
  Tools.toolResultMembers (!isError) (Utf8.bytesOf raw) (Utf8.bytesOf (if isError then raw else ""))
    (if isError then 1 else 0) false .none []

namespace Call

def resultMembers (text : JsonText) (call : Call) : List (String × Json) :=
  if call.connected then wrapResult (call.callTool text)
  else Tools.toolResultMembers false [] (Utf8.bytesOf "MCP client is not connected") (-1) false .none []

def execute (text : JsonText) (call : Call) : String :=
  text.serialize (.object (call.resultMembers text))

def ReportsFailure (text : JsonText) (call : Call) : Prop :=
  find (call.resultMembers text) "success" = some (.bool false)

def response? (call : Call) : Option Json :=
  match call.answer with
  | .completed (.value j) => if call.connected ∧ call.stillConnected then some j else none
  | _ => none

-- A call succeeds where its response holds a list of content.
def content? (call : Call) : Option (List Json) :=
  match call.response?.bind resultContent with
  | some (.array items) => some items
  | _ => none

def Failed (call : Call) : Prop := call.content? = none

def WithoutContent (call : Call) : Prop := ∃ resp, call.response? = some resp ∧ resultContent resp = none

end Call

structure OpensAsJson (text : JsonText) : Prop where
  opens : ∀ j, ∃ c rest, (text.serialize j).toList = c :: rest ∧ c ∈ "\x7b[\"-0123456789tfn".toList

variable {text : JsonText} {call : Call} {resp : Json} {items : List Json} {raw : String}

theorem find_success (success : Bool) (output error : List UInt8) (exitCode : Int32) :
    find (Tools.toolResultMembers success output error exitCode false .none []) "success" =
      some (.bool success) := rfl

theorem reportsFailure_iff : call.ReportsFailure text ↔
    call.connected = false ∨ marksFailure (call.callTool text) = true := by
  unfold Call.ReportsFailure Call.resultMembers
  cases call.connected with
  | false => simp [find_success]
  | true => simp [wrapResult,find_success]

theorem isPrefixOf_ended {mark front : List Char} (h : '\n' ∉ mark) (back : List Char) :
    mark.isPrefixOf (front ++ '\n' :: back) = mark.isPrefixOf front := by
  induction mark generalizing front with
  | nil => simp
  | cons c mark ih =>
      obtain ⟨hc,hmark⟩ := List.ne_and_not_mem_of_not_mem_cons h
      cases front with
      | nil => simp [List.isPrefixOf,hc.symm]
      | cons d front =>
          rw [List.cons_append,List.isPrefixOf_cons_cons,List.isPrefixOf_cons_cons,ih hmark]

theorem toList_foldl_lines (texts : List String) (start : String) :
    (texts.foldl (fun output text => output ++ text ++ "\n") start).toList =
      start.toList ++ texts.flatMap (fun text => text.toList ++ ['\n']) := by
  induction texts generalizing start with
  | nil => simp
  | cons text texts ih => simp [ih]

theorem toList_contentOutput (items : List Json) : (contentOutput items).toList =
    (contentTexts items).flatMap (fun text => text.toList ++ ['\n']) := by
  rw [contentOutput,toList_foldl_lines]
  rfl

theorem contentOutput_nil (h : contentTexts items = []) : contentOutput items = "" := by
  rw [contentOutput,h]
  rfl

-- A mark holds no newline, so what the output starts with its first text starts with.
theorem marksFailure_output {first : String} {later : List String}
    (h : contentTexts items = first :: later) :
    marksFailure (contentOutput items) = marksFailure first := by
  rw [marksFailure,toList_contentOutput,h,List.flatMap_cons,List.append_assoc,List.singleton_append]
  have hplain : ∀ mark ∈ kFailureMarks, '\n' ∉ mark.toList := by decide
  rw [marksFailure,Bool.eq_iff_iff,List.any_eq_true,List.any_eq_true]
  constructor
  · rintro ⟨mark,hmem,hp⟩
    exact ⟨mark,hmem,by rwa [isPrefixOf_ended (hplain mark hmem)] at hp⟩
  · rintro ⟨mark,hmem,hp⟩
    exact ⟨mark,hmem,by rwa [isPrefixOf_ended (hplain mark hmem)]⟩

theorem contentOutput_ne_empty {first : String} {later : List String}
    (h : contentTexts items = first :: later) : contentOutput items ≠ "" := by
  intro hempty
  have hlist := toList_contentOutput items
  rw [hempty,h,List.flatMap_cons] at hlist
  simp at hlist

theorem marksFailure_json (ho : OpensAsJson text) (j : Json) :
    marksFailure (text.serialize j) = false := by
  obtain ⟨c,rest,hlist,hc⟩ := ho.opens j
  rw [marksFailure,hlist]
  simp only [kFailureMarks,List.any_cons,List.any_nil,Bool.or_false,Bool.or_eq_false_iff]
  have hne : "\x7b[\"-0123456789tfn".toList.all (fun d => d ≠ 'E' ∧ d ≠ 'M') = true := by decide
  obtain ⟨hE,hM⟩ := of_decide_eq_true (List.all_eq_true.mp hne c hc)
  refine ⟨?_,?_,?_⟩ <;> simp [List.isPrefixOf,Ne.symm hE,Ne.symm hM]

theorem marksFailure_callError (what : String) : marksFailure ("MCP call error: " ++ what) = true := by
  rw [marksFailure,String.toList_append]
  simp [kFailureMarks]

theorem reports_of_no_response (h : call.response? = none) : call.ReportsFailure text := by
  rw [reportsFailure_iff]
  obtain ⟨connected,stillConnected,answer⟩ := call
  cases connected with
  | false => exact .inl rfl
  | true =>
      refine .inr ?_
      cases stillConnected with
      | false =>
          have hcall : (Call.mk true false answer).callTool text = "Error: MCP client not connected" := rfl
          rw [hcall]
          decide
      | true =>
          match answer with
          | .noClient => exact marksFailure_callError _
          | .timedOut => exact marksFailure_callError _
          | .completed (.exception what) => exact marksFailure_callError what
          | .completed (.value j) => simp [Call.response?] at h

theorem reports_of_response (h : call.response? = some resp) : call.ReportsFailure text ↔
    marksFailure (match readResponse text resp with
      | .ok output => output
      | .error what => "MCP call error: " ++ what) = true := by
  rw [reportsFailure_iff]
  obtain ⟨connected,stillConnected,answer⟩ := call
  match answer with
  | .noClient => cases h
  | .timedOut => cases h
  | .completed (.exception what) => cases h
  | .completed (.value j) =>
      unfold Call.response? at h
      dsimp only at h
      split at h
      · next hconnected =>
          obtain ⟨rfl,rfl⟩ := hconnected
          obtain rfl := Option.some.inj h
          simp only [Bool.true_eq_false,false_or]
          rfl
      · cases h

theorem readResponse_without (h : resultContent resp = none) :
    readResponse text resp = .ok (text.serialize resp) := by
  unfold readResponse
  unfold resultContent at h
  cases hresult : resp.get? "result" with
  | none => rfl
  | some result =>
      rw [hresult,Option.bind_some] at h
      dsimp only
      rw [h]

theorem readResponse_array (h : resultContent resp = some (.array items)) : ∃ result,
    readResponse text resp =
      if contentOutput items = "" then .ok (text.serialize result) else .ok (contentOutput items) := by
  obtain ⟨result,hresult,hcontent⟩ := Option.bind_eq_some_iff.mp h
  refine ⟨result,?_⟩
  unfold readResponse
  rw [hresult]
  dsimp only
  rw [hcontent]

theorem readResponse_other {content : Json} (h : resultContent resp = some content)
    (hother : ∀ items, content ≠ .array items) :
    readResponse text resp = .error (text.kindError content) := by
  obtain ⟨result,hresult,hcontent⟩ := Option.bind_eq_some_iff.mp h
  unfold readResponse
  rw [hresult]
  dsimp only
  rw [hcontent]
  split
  · next hnone => cases hnone
  · next items harray => exact absurd (Option.some.inj harray) (hother items)
  · next found _ hfound => rw [Option.some.inj hfound]

theorem reports_of_content (ho : OpensAsJson text) (h : call.content? = some items) :
    call.ReportsFailure text ↔ ∃ first, (contentTexts items).head? = some first ∧ marksFailure first = true := by
  have hresp : ∃ resp, call.response? = some resp ∧ resultContent resp = some (.array items) := by
    unfold Call.content? at h
    split at h
    · next found hfound =>
        obtain rfl := Option.some.inj h
        exact Option.bind_eq_some_iff.mp hfound
    · cases h
  obtain ⟨resp,hresp,hcontent⟩ := hresp
  have harray : ∃ result, readResponse text resp =
      if contentOutput items = "" then .ok (text.serialize result) else .ok (contentOutput items) :=
    readResponse_array hcontent
  obtain ⟨result,hread⟩ := harray
  rw [reports_of_response hresp,hread]
  cases htexts : contentTexts items with
  | nil =>
      rw [if_pos (contentOutput_nil htexts)]
      simp [marksFailure_json ho]
  | cons first later =>
      rw [if_neg (contentOutput_ne_empty htexts)]
      simp [marksFailure_output htexts]

theorem verdict_right_iff (ho : OpensAsJson text) (call : Call) :
    (call.ReportsFailure text ↔ call.Failed) ↔
      ¬ call.WithoutContent ∧ ∀ items first, call.content? = some items →
        (contentTexts items).head? = some first → marksFailure first = false := by
  cases hcontent : call.content? with
  | some items =>
      have hsucceeded : ¬ call.Failed := by simp [Call.Failed,hcontent]
      have hwith : ¬ call.WithoutContent := by
        rintro ⟨resp,hresp,hnone⟩
        simp [Call.content?,hresp,hnone] at hcontent
      rw [reports_of_content ho hcontent]
      simp only [hsucceeded,hwith,iff_false,not_false_eq_true,true_and,not_exists,not_and,
        Bool.not_eq_true,Option.some.injEq]
      constructor
      · rintro h _ first rfl
        exact h first
      · intro h first
        exact h items first rfl
  | none =>
      have hfailed : call.Failed := hcontent
      have hreports : call.ReportsFailure text ↔ ¬ call.WithoutContent := by
        cases hresp : call.response? with
        | none =>
            have hwithout : ¬ call.WithoutContent := by simp [Call.WithoutContent,hresp]
            exact iff_of_true (reports_of_no_response hresp) hwithout
        | some resp =>
            rw [reports_of_response hresp]
            cases hfound : resultContent resp with
            | none =>
                have hwithout : call.WithoutContent := ⟨resp,hresp,hfound⟩
                rw [readResponse_without hfound]
                simp [marksFailure_json ho,hwithout]
            | some content =>
                have hwithout : ¬ call.WithoutContent := by simp [Call.WithoutContent,hresp,hfound]
                have hother : ∀ items, content ≠ .array items := by
                  rintro items rfl
                  simp [Call.content?,hresp,hfound] at hcontent
                rw [readResponse_other hfound hother]
                exact iff_of_true (marksFailure_callError _) hwithout
      simp [hfailed,hreports]

-- A JSON-RPC error reaches the tool as an exception, whatever it says.
theorem onMessage_error_reported {s : JsonRpcClient} {line : String} {j error : Json} {id : Int}
    (hj : text.parse line = some j) (hid : messageId j = some id) (hp : id ∈ s.pending)
    (he : j.get? "error" = some error) : ∃ c ∈ (s.onMessage text line).completed, c.id = id ∧
      ∀ connected stillConnected, (Call.mk connected stillConnected (.completed c.outcome)).ReportsFailure text := by
  refine ⟨⟨id,.message j,.exception (text.serialize error)⟩,?_,rfl,?_⟩
  · rw [JsonRpcClient.onMessage,hj]
    dsimp only
    rw [hid]
    dsimp only
    rw [if_pos hp,he]
    exact List.mem_append_right _ (List.mem_singleton_self _)
  · intro connected stillConnected
    exact reports_of_no_response rfl

def emptyContent : Json := .object [("content", .array [])]

def replyWith (result : Json) : Json := .object [("id", .int64 1), ("result", result)]

def answered (result : Json) : Call := ⟨true,true,.completed (.value (replyWith result))⟩

def constantText (serialized : String) : JsonText := ⟨fun _ => none, fun _ => serialized, id, fun _ => ""⟩

theorem opens_constantText {serialized : String} {c : Char} {rest : List Char}
    (h : serialized.toList = c :: rest) (hc : c ∈ "\x7b[\"-0123456789tfn".toList) :
    OpensAsJson (constantText serialized) := ⟨fun _ => ⟨c,rest,h,hc⟩⟩

theorem verdict_right_empty_content :
    (answered emptyContent).ReportsFailure (constantText "\x7b\"content\":[]\x7d") ↔
      (answered emptyContent).Failed :=
  (verdict_right_iff (opens_constantText
      (show "\x7b\"content\":[]\x7d".toList = '\x7b' :: "\"content\":[]\x7d".toList by decide) (by decide)) _).mpr
    ⟨by simp [Call.WithoutContent,Call.response?,answered,replyWith,emptyContent,resultContent,get?,find],by
      intro items first hitems hfirst
      have hnone : (answered emptyContent).content? = some [] := by decide
      rw [hnone] at hitems
      obtain rfl := Option.some.inj hitems
      cases hfirst⟩

def foundNothing : Json :=
  .object [("content", .array [.object [("type", .string "text"), ("text", .string "Error: none found")]])]

theorem verdict_wrong_on_wording_and_without_content :
    ((answered foundNothing).ReportsFailure (constantText "") ∧ ¬ (answered foundNothing).Failed) ∧
      ¬ (answered (.object [])).ReportsFailure (constantText "\x7b\"id\":1,\"result\":\x7b\x7d\x7d") ∧
      (answered (.object [])).Failed := by
  unfold Call.ReportsFailure Call.Failed
  decide

end Mcp

end PuCli
