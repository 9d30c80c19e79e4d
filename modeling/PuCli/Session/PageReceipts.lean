import PuCli.Session.Reload
import PuCli.Session.Supersede
import PuCli.Tools.ToolResult

namespace PuCli

open Json

structure RawReasoning where
  text : List UInt8
  signature : String
  raw : Json

structure RawMessage where
  timestamp : String
  role : Role
  content : List UInt8
  toolName : List UInt8
  toolCalls : Json
  reasoning : List RawReasoning
  toolCallId : List UInt8
  fromPeer : String

def normalized (msg : RawMessage) : ChatMessage :=
  { timestamp := msg.timestamp
    role := msg.role
    content := Utf8.sanitizeUtf8 msg.content
    toolName := Utf8.sanitizeUtf8 msg.toolName
    toolCalls := msg.toolCalls
    reasoning := msg.reasoning.map
      (fun block => ⟨Utf8.sanitizeUtf8 block.text, block.signature, block.raw⟩)
    toolCallId := Utf8.sanitizeUtf8 msg.toolCallId
    fromPeer := msg.fromPeer }

theorem MessagePayload.Readable.reread {text : JsonText} {d : Doubles} {p : MessagePayload}
    (h : p.Readable text) : (p.reread d).Readable text := by
  cases p with
  | tool p => exact h
  | _ => trivial

namespace Session

variable {text : JsonText} {chars : ToChars} {d : Doubles} {s s' : Session}

theorem kept_readable (h : Kept text chars s) :
    s.conversation.graph.Every (MessagePayload.Readable text) :=
  kept_every (settled_readable text) (toPayload_readable text) (fun _ hp => hp.reread) h

end Session

namespace Paging

def Stored (buffer : Buffer) : Prop :=
  ∃ (pager : Pager) (captured : Exec.Captured) (verdict : Exec.Verdict) (sourceKey : String),
    (pager.store captured verdict sourceKey).1 = buffer

theorem Stored.id_ne {buffer : Buffer} (h : Stored buffer) : buffer.id ≠ "" := by
  obtain ⟨pager,captured,verdict,key,rfl⟩ := h
  exact Pager.store_buffer_id_ne pager captured verdict key

end Paging

open Paging Tools

variable {text : JsonText} {chars : ToChars} {buffer : Buffer} {page : Page} {success blocked : Bool}
  {output error : List UInt8} {exitCode : Int32} {refusal : Refusal}

theorem originOf_pageMembers (hb : Stored buffer) (hs : buffer.source ≠ "")
    (hr : text.Reads (.object
      (pageMembers buffer page success output error exitCode blocked refusal))) :
    Origin.originOf text (Tools.makeToolResultJson text success output error exitCode blocked refusal
      (envelope buffer page)) = some buffer.origin := by
  have hparse := hr.reread
  rw [reread_object] at hparse
  have hbuffer := @find_reread .plain
    (pageMembers buffer page success output error exitCode blocked refusal) "buffer"
  rw [find_pageMembers,Option.map_some,reread_object] at hbuffer
  refine Origin.originOf_of_members (hr.brace rfl) hparse hbuffer ?_ ?_ ⟨hs,hb.id_ne⟩ ?_
  · simp [Buffer.origin]
  · simp [Buffer.origin]
  · rw [← reread_object,Origin.rankIn_reread (by simp)]
    simp [Origin.rankIn,Buffer.origin]

def supersededMembers (members : List (String × Json)) (supersededBy : String) :
    List (String × Json) :=
  assign (assign members "output" (.string "")) "superseded_by" (.string supersededBy)

theorem find_assign_of_ne {members : List (String × Json)} {key other : String} (v : Json)
    (h : key ≠ other) : find (assign members key v) other = find members other := by
  unfold assign
  split
  · clear * - h
    induction members with
    | nil => rfl
    | cons m members ih =>
        by_cases hm : m.1 = key
        · have : m.1 ≠ other := fun hc => h (hm.symm.trans hc)
          simp only [List.map_cons,find_cons,hm,if_true,if_neg h,ih]
        · simp only [List.map_cons,find_cons,if_neg hm,ih]
  · simp [h]

structure Superseded (text : JsonText) (members : List (String × Json)) (supersededBy : String)
    (o : Origin) (receipt : String) : Prop where
  origin : Origin.originOf text receipt = some o
  kept : ∃ kept, text.parse receipt = some (.object kept) ∧
    find kept "output" = some (.string "") ∧
    find kept "superseded_by" = some (.string supersededBy) ∧
    ∀ key, key ≠ "output" → key ≠ "superseded_by" → find kept key = find members key

theorem superseded_of_reads {receipt supersededBy : String} {o : Origin}
    {members : List (String × Json)} (ho : Origin.originOf text receipt = some o)
    (hp : text.parse receipt = some (.object members))
    (hsame : (Json.object members).reread .plain = .object members)
    (hr : text.Reads (.object (supersededMembers members supersededBy))) :
    ∃ shown, Origin.supersededReceipt text receipt supersededBy = .ok shown ∧
      Superseded text members supersededBy o shown := by
  refine ⟨text.serialize (.object (supersededMembers members supersededBy)),?_,?_⟩
  · simp only [Origin.supersededReceipt,hp]
    rfl
  · have hparse := hr.reread
    rw [reread_object] at hparse
    have hkept : ∀ key, key ≠ "output" → key ≠ "superseded_by" →
        find ((supersededMembers members supersededBy).map (fun m => (m.1, m.2.reread .plain))) key =
          find members key := by
      intro key hout hby
      rw [reread_object] at hsame
      rw [find_reread,supersededMembers,find_assign_of_ne _ hby.symm,
        find_assign_of_ne _ hout.symm,← find_reread,Json.object.inj hsame]
    obtain ⟨members',fields,hm,hb,hsource,hid,hrank⟩ := Origin.originOf_fields ho
    obtain rfl : members = members' := by
      rw [hp] at hm
      simpa using hm
    refine ⟨?_,_,hparse,?_,?_,hkept⟩
    · have hbuffer := hkept "buffer" (by decide) (by decide)
      rw [hb] at hbuffer
      exact Origin.originOf_of_members (hr.brace rfl) hparse hbuffer hsource hid
        (Origin.originOf_named ho) hrank
    · rw [find_reread,supersededMembers,find_assign_of_ne _ (by decide),find_assign_self]
      rfl
    · rw [find_reread,supersededMembers,find_assign_self]
      rfl

theorem chain_append_receipt {s : Session} (hs : s.Sound) {id : MessageId}
    (hf : s.conversation.graph.Fresh id) {msg : ChatMessage} :
    (s.conversation.append text id msg).chain.getLast? =
      some (s.conversation.graph.node id (toPayload text msg) msg.timestamp) := by
  change (s.conversation.graph.appendAfterLeaf id _ _).chain.getLast? = _
  rw [MessageGraph.chain_appendAfterLeaf hs.graph hf,List.getLast?_append]
  rfl

theorem page_receipts_stay_readable (hb : Stored buffer) (hs : buffer.source ≠ "")
    (hr : text.Reads (.object
      (pageMembers buffer page success output error exitCode blocked refusal))) :
    let members := pageMembers buffer page success output error exitCode blocked refusal
    let receipt := Tools.makeToolResultJson text success output error exitCode blocked refusal
      (envelope buffer page)
    Origin.originOf text receipt = some buffer.origin ∧
      (∀ s id msg, Session.Kept text chars s → s.conversation.graph.Fresh id → msg.role = .tool →
        msg.content = Utf8.bytesOf receipt →
        let stored := { s with conversation := s.conversation.append text id (normalized msg) }
        text.ReadsPretty chars stored.serialize → ∃ loaded node p,
          Session.loadSession text (stored.savedText text chars) = some loaded ∧
          loaded.conversation.chain.getLast? = some node ∧ node.payload = .tool p ∧
          p.content = receipt ∧ p.origin = some buffer.origin) ∧
      (∀ supersededBy,
        let seen := members.map (fun m => (m.1, m.2.reread .plain))
        text.Reads (.object (supersededMembers seen supersededBy)) →
        text.parse receipt = some (.object seen) ∧
        ∃ shown, Origin.supersededReceipt text receipt supersededBy = .ok shown ∧
          Superseded text seen supersededBy buffer.origin shown) ∧
      ∀ s, Session.Kept text chars s → ∀ inputs, ∃ msgs,
        buildRequestPath text s.conversation.graph inputs = .ok msgs := by
  intro members receipt
  have horigin : Origin.originOf text receipt = some buffer.origin :=
    originOf_pageMembers hb hs hr
  have hparse : text.parse receipt = some (.object (members.map (fun m => (m.1, m.2.reread .plain)))) := by
    rw [← reread_object]
    exact hr.reread
  refine ⟨horigin,?_,?_,?_⟩
  · intro s id msg hk hf hrole hcontent stored hread
    have hsound : stored.Sound := Session.step_sound (Session.kept_sound hk) (.append _ hf)
    have hlast := @chain_append_receipt text s (Session.kept_sound hk) id hf (normalized msg)
    have hpayload : toPayload text (normalized msg) = .tool ⟨Utf8.sanitizeUtf8 msg.toolCallId,
        Utf8.sanitizeUtf8 msg.toolName, receipt, some buffer.origin⟩ := by
      simp only [toPayload,normalized,hrole,hcontent,Utf8.sanitizeUtf8_bytesOf,horigin]
    refine ⟨_,(s.conversation.graph.node id (toPayload text (normalized msg))
      (normalized msg).timestamp).reread chars.toDoubles,⟨Utf8.sanitizeUtf8 msg.toolCallId,
        Utf8.sanitizeUtf8 msg.toolName, receipt, some buffer.origin⟩,
      Session.loadSession_saved hsound hread,?_,?_,rfl,rfl⟩
    · change (stored.conversation.graph.reread chars.toDoubles).chain.getLast? = _
      rw [MessageGraph.chain_reread,List.getLast?_map]
      exact congrArg (Option.map (MessageNode.reread chars.toDoubles)) hlast
    · change (toPayload text (normalized msg)).reread chars.toDoubles = _
      rw [hpayload]
      rfl
  · intro supersededBy seen hread
    have hsame : (Json.object seen).reread .plain = .object seen := by
      have := @reread_reread .plain (.object members)
      rwa [reread_object] at this
    exact ⟨hparse,superseded_of_reads horigin hparse hsame hread⟩
  · intro s hk inputs
    exact buildRequestPath_total (Session.kept_sound hk).graph (Session.kept_readable hk) inputs

def makeCaptured : Exec.Captured :=
  ⟨Utf8.bytesOf "ok\n", { lines := 1, bytes := 3, retained := 1 }⟩

def makeVerdict : Exec.Verdict := { command := "make", ok := true }

def makeKey : String := BashTool.sourceKey "make" "/tmp"

def makeRun : Buffer :=
  (Pager.store { generation := "ab12" } makeCaptured makeVerdict makeKey).1

theorem makeRun_source_ne : makeRun.source ≠ "" :=
  Pager.store_buffer_source_ne _ makeCaptured makeVerdict (by decide)

def makePage : Page := Paging.read makeRun .head 120

def makeMembers : List (String × Json) :=
  pageMembers makeRun makePage true makePage.text [] 0 false .none

def makeReceipt : String :=
  "\x7b" ++ "\"success\":true,\"blocked\":false,\"output\":\"ok\\n\",\"error\":\"\"," ++
    "\"exit_code\":0,\"page\":\x7b\"first\":1,\"last\":1,\"earlier\":null,\"later\":null\x7d," ++
    "\"buffer\":\x7b\"id\":\"oab12-1\",\"source\":\"s4ce48a2c\",\"rank\":1\x7d," ++
    "\"extent\":\x7b\"lines\":1,\"retained\":1,\"truncated\":false\x7d\x7d"

def makeText : JsonText where
  parse receipt :=
    if receipt = makeReceipt then some ((Json.object makeMembers).reread .plain) else none
  serialize j := if j = .object makeMembers then makeReceipt else "null"
  parseError _ := "syntax error"
  kindError _ := "value is not an object"

theorem makeText_serialize : makeText.serialize (.object makeMembers) = makeReceipt := by
  simp [makeText]

theorem makeText_reads : makeText.Reads (.object makeMembers) := by
  constructor
  · rw [makeText_serialize]
    simp [makeText]
  · intro _
    rw [makeText_serialize,makeReceipt]
    simp only [String.toList_append]
    rfl

theorem page_receipts_stay_readable_make :
    BashTool.pageResult makeText makeRun .head 120 = makeReceipt ∧
      Origin.originOf makeText (BashTool.pageResult makeText makeRun .head 120) =
        some ⟨"s4ce48a2c", "oab12-1", 1⟩ := by
  have hstored : Stored makeRun := ⟨_,_,_,_,rfl⟩
  refine ⟨makeText_serialize,?_⟩
  exact (@page_receipts_stay_readable makeText ⟨.plain, fun _ => ""⟩ _ _ _ _ _ _ _ _ hstored
    makeRun_source_ne makeText_reads).1

end PuCli
