import PuCli.Session.Message
import PuCli.Session.Usage

namespace PuCli

structure ChatResult where
  content : String := ""
  reasoning : List ReasoningBlock := []
  toolCalls : List ToolCall := []
  usage : Option TokenUsage := none
  missingFields : List String := []
  finishReason : String := ""
  model : String := ""
  deriving DecidableEq

def joinReasoning (text : String) (block : ReasoningBlock) : String :=
  (if text ≠ "" ∧ block.text ≠ "" then text ++ "\n" else text) ++ block.text

def projectReasoningText (blocks : List ReasoningBlock) : String := blocks.foldl joinReasoning ""

inductive StreamEvent where
  | content (text : String)
  | reasoning (text signature : String) (raw : Json)
  | toolCall (call : ToolCall)
  deriving DecidableEq

inductive Piece where
  | content (text : String)
  | reasoning (text : String)
  deriving DecidableEq

structure Stream where
  content : String := ""
  reasoning : List ReasoningBlock := []
  toolCalls : List ToolCall := []
  pieces : List Piece := []

namespace Stream

def appendContent (s : Stream) (text : String) : Stream :=
  if text = "" then s
  else { s with content := s.content ++ text, pieces := s.pieces ++ [.content text] }

def extendLast (text : String) : List ReasoningBlock → List ReasoningBlock
  | [] => []
  | [block] => [{ block with text := block.text ++ text }]
  | block :: blocks => block :: extendLast text blocks

def appendReasoning (s : Stream) (text signature : String) (raw : Json) : Stream :=
  if text = "" then s
  else
    let startsBlock := signature ≠ "" ∨ raw ≠ .null
    let blocks :=
      if s.reasoning.isEmpty ∨ startsBlock then s.reasoning ++ [⟨"", signature, raw⟩]
      else s.reasoning
    { s with reasoning := extendLast text blocks, pieces := s.pieces ++ [.reasoning text] }

def appendToolCall (s : Stream) (call : ToolCall) : Stream :=
  { s with toolCalls := s.toolCalls ++ [call] }

def handle (s : Stream) : StreamEvent → Stream
  | .content text => s.appendContent text
  | .reasoning text signature raw => s.appendReasoning text signature raw
  | .toolCall call => s.appendToolCall call

def read (events : List StreamEvent) : Stream := events.foldl handle {}

def finishContent (s : Stream) (refusal : String) : String :=
  if refusal = "" then s.content
  else (if s.content = "" then s.content else s.content ++ "\n") ++ refusal

end Stream

inductive Provided where
  | streamed (events : List StreamEvent) (refusal : String) (rest : ChatResult)
  | whole (result : ChatResult)
  | threw (events : List StreamEvent) (what : String)

namespace Provided

def pieces : Provided → List Piece
  | .streamed events _ _ => (Stream.read events).pieces
  | .whole _ => []
  | .threw events _ => (Stream.read events).pieces

def chat : Provided → Except String ChatResult
  | .streamed events refusal rest =>
      let s := Stream.read events
      .ok { rest with
        content := s.finishContent refusal, reasoning := s.reasoning, toolCalls := s.toolCalls }
  | .whole result => .ok result
  | .threw _ what => .error what

end Provided

def contentOf : List Piece → String
  | [] => ""
  | .content text :: pieces => text ++ contentOf pieces
  | .reasoning _ :: pieces => contentOf pieces

theorem contentOf_append (ps qs : List Piece) : contentOf (ps ++ qs) = contentOf ps ++ contentOf qs := by
  induction ps with
  | nil => simp [contentOf]
  | cons p ps ih => cases p <;> simp [contentOf,ih,String.append_assoc]

theorem Stream.content_handle (s : Stream) (e : StreamEvent) (h : s.content = contentOf s.pieces) :
    (s.handle e).content = contentOf (s.handle e).pieces := by
  cases e with
  | content text =>
      simp only [handle,appendContent]
      split
      · exact h
      · simp [contentOf_append,contentOf,h]
  | reasoning text signature raw =>
      simp only [handle,appendReasoning]
      split
      · exact h
      · simp [contentOf_append,contentOf,h]
  | toolCall call => exact h

theorem Stream.content_read (events : List StreamEvent) :
    (Stream.read events).content = contentOf (Stream.read events).pieces := by
  have run : ∀ s : Stream, s.content = contentOf s.pieces →
      (events.foldl handle s).content = contentOf (events.foldl handle s).pieces := by
    induction events with
    | nil => exact fun _ h => h
    | cons e events ih => exact fun s h => ih _ (content_handle s e h)
  exact run {} rfl

end PuCli
