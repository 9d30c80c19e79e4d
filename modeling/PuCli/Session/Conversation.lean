import PuCli.Session.Request

namespace PuCli

open Json

structure Conversation where
  graph : MessageGraph

namespace Conversation

def new : Conversation := ⟨.empty⟩

def chain (c : Conversation) : List MessageNode := c.graph.chain

def append (text : JsonText) (c : Conversation) (id : MessageId) (msg : ChatMessage) :
    Conversation := ⟨c.graph.appendAfterLeaf id (toPayload text msg) msg.timestamp⟩

def answersCall (rendered earlier : ChatMessage) : Bool :=
  earlier.hasToolCalls && earlier.toolCalls.asArray.any (fun call =>
    (valueOrDefault call "id" "" : String) = rendered.toolCallId)

def historyFrom (history : List ChatMessage) : List MessageNode → List ChatMessage
  | [] => history
  | node :: rest =>
      let rendered := renderMessage node (history.length + 1)
      if rendered.role = .tool ∧ rendered.toolCallId ≠ "" ∧
          ¬ history.any (answersCall rendered) then historyFrom history rest
      else historyFrom (history ++ [rendered]) rest

def history (c : Conversation) : List ChatMessage := historyFrom [] c.chain

def turnCameFromPeer (c : Conversation) (turn : Nat) : Bool :=
  if turn < 1 then false
  else match c.chain[turn - 1]? with
    | some node =>
        match node.payload with
        | .user p => p.fromPeer ≠ ""
        | _ => false
    | none => false

def hasPendingToolCalls (c : Conversation) : Bool := c.graph.leafHasUnfinishedToolCalls

def kPeerTurnRefusal : String :=
  "This turn arrived from a peer, so it is not yours to rewind. Only a turn you asked " ++
  "can be taken back"

def kPendingRewindRefusal : String :=
  "Cannot rewind while tool calls are pending. " ++
  "Please let the current tool finish or /clear."

def rewindTarget (c : Conversation) (turn : Nat) : MessageId :=
  if turn = 1 then ""
  else match c.chain[turn - 2]? with
    | some node => node.id
    | none => ""

def rewindBefore (c : Conversation) (turn : Nat) : Except String (Bool × Conversation) :=
  if c.turnCameFromPeer turn then .error kPeerTurnRefusal
  else if c.hasPendingToolCalls then .error kPendingRewindRefusal
  else if turn < 1 ∨ c.chain.length < turn then .ok (false, c)
  else match c.graph.rewindTo (c.rewindTarget turn) with
    | none => .ok (false, c)
    | some graph => .ok (true, ⟨graph⟩)

def sealInterruptedToolCalls (c : Conversation) (newId : Nat → MessageId) : Conversation :=
  ⟨c.graph.sealInterruptedToolCalls newId⟩

def clearHistory (_ : Conversation) : Conversation := ⟨.empty⟩

def serialize (c : Conversation) : Json := .object [("history", c.graph.serialize)]

def deserialize (j : Json) : Option Conversation :=
  match j.get? "history" with
  | none => some new
  | some history => (MessageGraph.deserialize history).map Conversation.mk

variable {c c' : Conversation} {turn : Nat}

theorem deserialize_serialize (h : c.graph.Sound) (hw : c.graph.WellNamed) :
    deserialize c.serialize = some c := by
  simp [deserialize,serialize,MessageGraph.deserialize_serialize h hw]

theorem rewindBefore_ok (h : c.graph.Sound) (hr : c.rewindBefore turn = .ok (true, c')) :
    1 ≤ turn ∧ turn ≤ c.chain.length ∧ c.hasPendingToolCalls = false ∧
      c.turnCameFromPeer turn = false ∧ c'.graph.Sound ∧ c'.graph.nodes = c.graph.nodes ∧
      c'.chain = c.chain.take (turn - 1) := by
  unfold rewindBefore at hr
  split at hr
  · simp at hr
  · next hpeer =>
      split at hr
      · simp at hr
      · next hpend =>
          split at hr
          · simp at hr
          · next hrange =>
              obtain ⟨hlow,hhigh⟩ := not_or.mp hrange
              split at hr
              · simp at hr
              · next graph hg =>
                  obtain rfl : Conversation.mk graph = c' := by simpa using hr
                  obtain ⟨_,hgraph⟩ := MessageGraph.rewindTo_eq hg
                  refine ⟨by omega,by omega,by simpa using hpend,by simpa using hpeer,
                    MessageGraph.sound_rewindTo h hg,by rw [hgraph],?_⟩
                  change graph.chain = _
                  by_cases hone : turn = 1
                  · have hs := MessageGraph.sound_rewindTo h hg
                    have hleaf : graph.leaf = "" := by rw [hgraph]; simp [rewindTarget,hone]
                    rw [MessageGraph.chain_of_leaf_eq_empty hs hleaf]
                    simp [hone]
                  · have hlt : turn - 2 < c.chain.length := by omega
                    have hsplit : c.graph.chain = c.chain.take (turn - 2) ++
                        c.chain[turn - 2] :: c.chain.drop (turn - 2 + 1) := by
                      rw [← List.drop_eq_getElem_cons hlt,List.take_append_drop]
                      rfl
                    have htarget : c.rewindTarget turn = c.chain[turn - 2].id := by
                      simp [rewindTarget,hone,List.getElem?_eq_getElem hlt]
                    rw [hgraph,htarget,MessageGraph.chain_rewindTo_mem h hsplit]
                    have hsucc : turn - 1 = turn - 2 + 1 := by omega
                    rw [hsucc,List.take_succ_eq_append_getElem hlt]

theorem rewindBefore_unmoved (hr : c.rewindBefore turn = .ok (false, c')) : c = c' := by
  unfold rewindBefore at hr
  split at hr
  · simp at hr
  · split at hr
    · simp at hr
    · split at hr
      · simpa using hr
      · split at hr
        · simpa using hr
        · simp at hr

end Conversation

end PuCli
