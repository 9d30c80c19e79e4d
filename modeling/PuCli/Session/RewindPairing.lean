import PuCli.Session.GraphRuns
import PuCli.Session.Conversation

namespace PuCli

open Json

structure Talk where
  calls : List String
  receipt : Option String
  deriving DecidableEq

def MessageNode.talk (n : MessageNode) : Talk :=
  match n.payload with
  | .assistant p => ⟨p.toolCalls.map ToolCallRecord.id, none⟩
  | .tool p => ⟨[], some p.toolCallId⟩
  | _ => ⟨[], none⟩

def ChatMessage.talk (m : ChatMessage) : Talk :=
  match m.role with
  | .assistant => ⟨m.toolCalls.asArray.map (fun call => valueOrDefault call "id" ""), none⟩
  | .tool => ⟨[], some m.toolCallId⟩
  | _ => ⟨[], none⟩

def Answered : List Talk → Prop
  | [] => True
  | t :: ts => (∀ id ∈ t.calls, ∃ u ∈ ts, u.receipt = some id) ∧ Answered ts

def Answering (seen : List String) : List Talk → Prop
  | [] => True
  | t :: ts => (∀ id, t.receipt = some id → id ∈ seen) ∧ Answering (seen ++ t.calls) ts

instance decidableAnswered : (ts : List Talk) → Decidable (Answered ts)
  | [] => isTrue trivial
  | t :: ts =>
      haveI := decidableAnswered ts
      inferInstanceAs (Decidable ((∀ id ∈ t.calls, ∃ u ∈ ts, u.receipt = some id) ∧ Answered ts))

def CutsRound (ts : List Talk) (kept : Nat) : Prop :=
  ∃ before t after, ts = before ++ t :: after ∧ before.length < kept ∧
    ∃ id ∈ t.calls, ∀ u ∈ after.take (kept - before.length - 1), u.receipt ≠ some id

def Talk.silent : Talk := ⟨[], none⟩

theorem answered_take_iff (ts : List Talk) (kept : Nat) :
    Answered (ts.take kept) ↔ ¬ CutsRound ts kept := by
  induction ts generalizing kept with
  | nil =>
      simp only [List.take_nil,Answered,true_iff]
      rintro ⟨before,t,after,h,_⟩
      simp at h
  | cons t ts ih =>
      cases kept with
      | zero =>
          simp only [List.take_zero,Answered,true_iff]
          rintro ⟨before,_,_,_,hl,_⟩
          omega
      | succ kept =>
          rw [List.take_succ_cons,Answered,ih]
          constructor
          · rintro ⟨hhead,hrest⟩ ⟨before,s,after,hsplit,hl,id,hid,hno⟩
            cases before with
            | nil =>
                obtain ⟨rfl,rfl⟩ := List.cons.inj hsplit
                obtain ⟨u,hu,hr⟩ := hhead id hid
                exact hno u (by simpa using hu) hr
            | cons b before =>
                obtain ⟨_,rfl⟩ := List.cons.inj hsplit
                refine hrest ⟨before,s,after,rfl,?_,id,hid,?_⟩
                · simp only [List.length_cons] at hl
                  omega
                · intro u hu
                  refine hno u ?_
                  simpa [Nat.add_sub_add_right] using hu
          · intro hcut
            constructor
            · intro id hid
              by_contra hno
              refine hcut ⟨[],t,ts,rfl,by simp,id,hid,?_⟩
              intro u hu hr
              exact hno ⟨u,by simpa using hu,hr⟩
            · rintro ⟨before,s,after,rfl,hl,id,hid,hno⟩
              refine hcut ⟨t :: before,s,after,rfl,?_,id,hid,?_⟩
              · simp only [List.length_cons]
                omega
              · simpa [Nat.add_sub_add_right] using hno

theorem answered_concat_silent (ts : List Talk) :
    Answered (ts ++ [Talk.silent]) ↔ Answered ts := by
  induction ts with
  | nil => simp [Answered,Talk.silent]
  | cons t ts ih =>
      rw [List.cons_append,Answered,Answered,ih]
      simp [Talk.silent]

theorem answered_replicate_silent (k : Nat) (ts : List Talk) :
    Answered (List.replicate k Talk.silent ++ ts) ↔ Answered ts := by
  induction k with
  | zero => simp
  | succ k ih =>
      rw [List.replicate_succ,List.cons_append,Answered,ih]
      simp [Talk.silent]

theorem answering_take (seen : List String) (ts : List Talk) (kept : Nat)
    (h : Answering seen ts) : Answering seen (ts.take kept) := by
  induction ts generalizing seen kept with
  | nil => simpa using h
  | cons t ts ih =>
      cases kept with
      | zero => simp [Answering]
      | succ kept => exact ⟨h.1,ih _ _ h.2⟩

theorem answering_concat_silent (seen : List String) (ts : List Talk) (h : Answering seen ts) :
    Answering seen (ts ++ [Talk.silent]) := by
  induction ts generalizing seen with
  | nil => simp [Answering,Talk.silent]
  | cons t ts ih => exact ⟨h.1,ih _ h.2⟩

theorem answering_replicate_silent (k : Nat) (ts : List Talk) (h : Answering [] ts) :
    Answering [] (List.replicate k Talk.silent ++ ts) := by
  induction k with
  | zero => simpa using h
  | succ k ih =>
      rw [List.replicate_succ,List.cons_append]
      exact ⟨by simp [Talk.silent],by simpa [Talk.silent] using ih⟩

theorem talk_renderMessage (n : MessageNode) (position : Int) (content : String) :
    ({ renderMessage n position with content := content } : ChatMessage).talk = n.talk := by
  cases hp : n.payload with
  | assistant p =>
      cases hc : p.toolCalls with
      | nil => simp [renderMessage,ChatMessage.talk,MessageNode.talk,hp,hc,asArray]
      | cons r rs =>
          simp [renderMessage,ChatMessage.talk,MessageNode.talk,hp,hc,asArray,toolCallToJson,
            valueOrDefault]
  | _ => simp [renderMessage,ChatMessage.talk,MessageNode.talk,hp]

theorem talk_renderPath {text : JsonText} {position : Int}
    {es : List (MessageNode × Option String)} {path : List ChatMessage}
    (h : renderPath text position es = .ok path) :
    path.map ChatMessage.talk = es.map (fun e => e.1.talk) := by
  induction es generalizing position path with
  | nil =>
      simp only [renderPath,Except.ok.injEq] at h
      subst h
      rfl
  | cons e es ih =>
      obtain ⟨n,replaced⟩ := e
      unfold renderPath at h
      obtain ⟨content,_,h⟩ := bind_eq_ok h
      obtain ⟨later,hl,h⟩ := bind_eq_ok h
      simp only [Except.ok.injEq] at h
      subst h
      rw [List.map_cons,List.map_cons,talk_renderMessage,ih hl]

theorem length_supersededFrom (newer : String → Newer) (ns : List MessageNode) :
    (supersededFrom newer ns).length = ns.length := by
  induction ns generalizing newer with
  | nil => rfl
  | cons n ns ih =>
      unfold supersededFrom
      split <;> simp [ih]

theorem talk_buildRequestPath {text : JsonText} {g : MessageGraph} {inputs : RequestInputs}
    {path : List ChatMessage} (h : buildRequestPath text g inputs = .ok path) :
    ∃ k, path.map ChatMessage.talk = List.replicate k Talk.silent ++ g.chain.map MessageNode.talk := by
  unfold buildRequestPath at h
  obtain ⟨turns,ht,h⟩ := bind_eq_ok h
  simp only [Except.ok.injEq] at h
  subst h
  have hlen : (supersededPages g.chain).length = g.chain.length := by
    simp [supersededPages,length_supersededFrom]
  have hzip : (g.chain.zip (supersededPages g.chain)).map (fun e => e.1.talk) =
      g.chain.map MessageNode.talk := by
    rw [← Function.comp_def MessageNode.talk Prod.fst,← List.map_map,List.map_fst_zip hlen.ge]
  refine ⟨(systemMessages inputs).length,?_⟩
  rw [List.map_append,talk_renderPath ht,hzip]
  congr 1
  unfold systemMessages
  split <;> rfl

namespace Conversation

variable {text : JsonText} {c c' : Conversation} {turn : Nat} {id : MessageId} {msg : ChatMessage}
variable {inputs : RequestInputs} {path : List ChatMessage}

theorem chain_append_user (h : c.graph.Sound) (hf : c.graph.Fresh id) (hm : msg.role = .user) :
    (c.append text id msg).chain =
      c.chain ++ [⟨id, msg.timestamp, .user ⟨msg.content, msg.fromPeer⟩, c.graph.leaf⟩] := by
  have hp : toPayload text msg = .user ⟨msg.content, msg.fromPeer⟩ := by simp [toPayload,hm]
  have hc := MessageGraph.chain_appendAfterLeaf h hf (toPayload text msg) msg.timestamp
  rw [hp] at hc
  simpa [append,chain,hp,MessageGraph.answerIn,MessageGraph.node] using hc

theorem rewind_keeps_pairing_iff_cuts_no_round (hb : c.graph.Built)
    (hr : c.rewindBefore turn = .ok (true, c')) (hf : c'.graph.Fresh id) (hm : msg.role = .user)
    (hp : buildRequestPath text (c'.append text id msg).graph inputs = .ok path) :
    (Answered (path.map ChatMessage.talk) ∧
      (Answering [] (c.chain.map MessageNode.talk) → Answering [] (path.map ChatMessage.talk))) ↔
      ¬ CutsRound (c.chain.map MessageNode.talk) (turn - 1) := by
  obtain ⟨_,_,_,_,hs,_,hch⟩ := rewindBefore_ok hb.sound hr
  obtain ⟨k,hk⟩ := talk_buildRequestPath hp
  have hchain : (c'.append text id msg).graph.chain.map MessageNode.talk =
      (c.chain.map MessageNode.talk).take (turn - 1) ++ [Talk.silent] := by
    change (c'.append text id msg).chain.map MessageNode.talk = _
    rw [chain_append_user hs hf hm,hch,List.map_append,List.map_take]
    rfl
  rw [hk,hchain,answered_replicate_silent,answered_concat_silent,answered_take_iff]
  constructor
  · exact And.left
  · intro hcut
    refine ⟨hcut,?_⟩
    intro hans
    exact answering_replicate_silent k _
      (answering_concat_silent [] _ (answering_take [] _ (turn - 1) hans))

def silentText : JsonText := ⟨fun _ => none, fun _ => "", fun s => s, fun _ => ""⟩

def asked (id : MessageId) (content : String) (c : Conversation) : Conversation :=
  c.append silentText id { role := .user, content := content }

def called (id : MessageId) (calls : List String) (c : Conversation) : Conversation :=
  c.append silentText id { role := .assistant, toolCalls := .array (calls.map (fun call =>
    toolCallToJson ⟨call, "bash", .object [], .pending⟩)) }

def returned (id : MessageId) (call : String) (c : Conversation) : Conversation :=
  c.append silentText id
    { role := .tool, content := "done", toolName := "bash", toolCallId := call }

def twoCallRound : Conversation :=
  returned "n4" "b" (returned "n3" "a" (called "n2" ["a", "b"] (asked "n1" "go" new)))

theorem twoCallRound_built : twoCallRound.graph.Built := by
  have h₁ : (asked "n1" "go" new).graph.Built := .append .empty ⟨by decide,by decide⟩ _ _
  have h₂ : (called "n2" ["a", "b"] (asked "n1" "go" new)).graph.Built :=
    h₁.append ⟨by decide,by decide⟩ _ _
  have h₃ : (returned "n3" "a" (called "n2" ["a", "b"] (asked "n1" "go" new))).graph.Built :=
    h₂.append ⟨by decide,by decide⟩ _ _
  exact h₃.append ⟨by decide,by decide⟩ _ _

def cutAt (leaf : MessageId) : Conversation := ⟨{ twoCallRound.graph with leaf := leaf }⟩

theorem rewind_keeps_pairing_whole_round :
    twoCallRound.rewindBefore 1 = .ok (true, cutAt "") ∧
      ∃ path, buildRequestPath silentText (asked "n5" "again" (cutAt "")).graph ⟨"", ""⟩ = .ok path ∧
        Answered (path.map ChatMessage.talk) := by
  have hr : twoCallRound.rewindBefore 1 = .ok (true, cutAt "") := rfl
  have hcut : ¬ CutsRound (twoCallRound.chain.map MessageNode.talk) (1 - 1) := by
    rintro ⟨_,_,_,_,hl,_⟩
    omega
  have hf : (cutAt "").graph.Fresh "n5" := ⟨by decide,by decide⟩
  obtain ⟨path,hp⟩ : ∃ path, buildRequestPath silentText (asked "n5" "again" (cutAt "")).graph
      ⟨"", ""⟩ = .ok path := ⟨_,rfl⟩
  refine ⟨hr,path,hp,?_⟩
  exact ((rewind_keeps_pairing_iff_cuts_no_round twoCallRound_built hr hf rfl hp).mpr hcut).1

theorem rewind_splits_two_call_round :
    Answered (twoCallRound.chain.map MessageNode.talk) ∧
      twoCallRound.rewindBefore 4 = .ok (true, cutAt "n3") ∧
      ∃ path, buildRequestPath silentText (asked "n5" "again" (cutAt "n3")).graph ⟨"", ""⟩ =
        .ok path ∧ ¬ Answered (path.map ChatMessage.talk) := by
  refine ⟨by decide,rfl,_,rfl,?_⟩
  decide

end Conversation

end PuCli
