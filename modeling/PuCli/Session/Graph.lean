import Std.Data.ExtTreeMap
import Std.Data.ExtTreeMap.Lemmas
import PuCli.Session.Message

namespace PuCli

abbrev NodeMap := Std.ExtTreeMap MessageId MessageNode compare

structure MessageGraph where
  nodes : NodeMap
  leaf : MessageId

namespace MessageGraph

def empty : MessageGraph := ⟨∅, ""⟩

def size (g : MessageGraph) : Nat := g.nodes.size

def find (g : MessageGraph) (id : MessageId) : Option MessageNode := g.nodes[id]?

def climb (g : MessageGraph) : Nat → Option MessageNode → List MessageNode
  | 0, _ => []
  | _ + 1, none => []
  | n + 1, some node =>
      node :: g.climb n (if node.parent = "" then none else g.find node.parent)

def chain (g : MessageGraph) : List MessageNode := (g.climb g.size (g.find g.leaf)).reverse

def completeRecord (callId : String) : List ToolCallRecord → List ToolCallRecord
  | [] => []
  | r :: rs =>
      if r.id = callId then
        (if r.status = .pending then { r with status := .completed } else r) :: rs
      else r :: completeRecord callId rs

def completeRecordOf (callId : String) (node : MessageNode) : MessageNode :=
  match node.payload with
  | .assistant p =>
      { node with payload := .assistant { p with toolCalls := completeRecord callId p.toolCalls } }
  | _ => node

def hasRecord (callId : String) (node : MessageNode) : Bool :=
  node.payload.records.any (fun r => r.id = callId)

def completeFrom (g : MessageGraph) (callId : String) : Nat → MessageId → NodeMap
  | 0, _ => g.nodes
  | n + 1, id =>
      if id = "" then g.nodes
      else match g.find id with
        | none => g.nodes
        | some node =>
            if hasRecord callId node then g.nodes.insert id (completeRecordOf callId node)
            else g.completeFrom callId n node.parent

def completeFor (g : MessageGraph) (callId : String) : MessageGraph :=
  if callId = "" then g else { g with nodes := g.completeFrom callId g.size g.leaf }

def completeAnsweredRecord (g : MessageGraph) : MessagePayload → MessageGraph
  | .tool receipt => g.completeFor receipt.toolCallId
  | _ => g

def add (g : MessageGraph) (node : MessageNode) : MessageGraph :=
  completeAnsweredRecord { g with nodes := g.nodes.insertIfNew node.id node } node.payload

def dropUnreachable (g : MessageGraph) : MessageGraph :=
  let reachable := g.chain.map MessageNode.id
  let keep := fun (nodes : NodeMap) id => if id ∈ reachable then nodes else nodes.erase id
  { g with nodes := g.nodes.keys.foldl keep g.nodes }

def appendAfterLeaf (g : MessageGraph) (id : MessageId) (payload : MessagePayload)
    (timestamp : String) : MessageGraph :=
  dropUnreachable { nodes := (g.add ⟨id, timestamp, payload, g.leaf⟩).nodes, leaf := id }

def rewindTo (g : MessageGraph) (id : MessageId) : Option MessageGraph :=
  if id ≠ "" ∧ g.find id = none then none else some { g with leaf := id }

def leafHasUnfinishedToolCalls (g : MessageGraph) : Bool :=
  match g.find g.leaf with
  | none => false
  | some node => hasUnfinishedToolCalls node

def interrupt (r : ToolCallRecord) : ToolCallRecord :=
  if r.status = .pending then { r with status := .interrupted } else r

def unrun (calls : List ToolCallRecord) : List ToolCallRecord :=
  (calls.filter (fun r => r.status = .pending)).map interrupt

def cancelledReceipt (call : ToolCallRecord) : MessagePayload :=
  .tool ⟨call.id, call.name, kCancelledReceipt, none⟩

def appendReceipts (g : MessageGraph) (newId : Nat → MessageId) :
    List ToolCallRecord → MessageGraph
  | [] => g
  | call :: calls =>
      appendReceipts (g.appendAfterLeaf (newId 0) (cancelledReceipt call) "")
        (fun n => newId (n + 1)) calls

def sealInterruptedToolCalls (g : MessageGraph) (newId : Nat → MessageId) : MessageGraph :=
  match g.find g.leaf with
  | none => g
  | some node =>
      match node.payload with
      | .assistant p =>
          let sealed :=
            { node with payload := .assistant { p with toolCalls := p.toolCalls.map interrupt } }
          appendReceipts { g with nodes := g.nodes.insert g.leaf sealed } newId
            (unrun p.toolCalls)
      | _ => g

inductive Mark where
  | unvisited
  | onPath
  | sound
  deriving DecidableEq

def climbMarks (g : MessageGraph) : Nat → (MessageId → Mark) → List MessageId → MessageId →
    Option ((MessageId → Mark) × List MessageId)
  | 0, _, _, _ => none
  | n + 1, marks, path, current =>
      if current = "" then some (marks, path)
      else match g.find current with
        | none => none
        | some node =>
            match marks current with
            | .sound => some (marks, path)
            | .onPath => none
            | .unvisited =>
                g.climbMarks n (Function.update marks current .onPath) (path ++ [current])
                  node.parent

def settleEntry (g : MessageGraph) (marks : MessageId → Mark) (id : MessageId) :
    Option (MessageId → Mark) :=
  (g.climbMarks (g.size + 1) marks [] id).map (fun found =>
    found.2.foldl (fun marks id => Function.update marks id .sound) found.1)

def linksResolve (g : MessageGraph) : Bool :=
  (g.nodes.keys.foldlM g.settleEntry (fun _ => .unvisited)).isSome

end MessageGraph

end PuCli
