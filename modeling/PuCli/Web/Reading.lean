import PuCli.Web.Blocks

namespace PuCli

structure Scroll where
  closed : List PageBlock := []
  current : Option (List PageBlock) := none

def orUnknown (word : String) : String := if word = "" then "unknown" else word

def storedState (status : ToolCallStatus) : CallState := callStatus (some (viewStatus status))

def storedCall (page : Page) (r : ToolCallRecord) : CallBlock :=
  ⟨orUnknown r.id, orUnknown r.name, parseToolArguments page (some r.arguments), "", "",
    storedState r.status⟩

def thought (page : Page) (reasoning : List ReasoningBlock) : String :=
  String.join ((projectReasoning reasoning).map (textMember page))

def shownOutput (text : JsonText) (raw : String) : String :=
  if (parseToolResult text raw).valid then (parseToolResult text raw).output else raw

def shownError (text : JsonText) (raw : String) : String := (parseToolResult text raw).error

namespace Scroll

def blocks (s : Scroll) : List PageBlock := s.closed ++ s.current.getD []

def close (s : Scroll) : Scroll := ⟨s.blocks, none⟩

def readAssistant (page : Page) (p : AssistantPayload) (bs : List PageBlock) : List PageBlock :=
  let bs := if thought page p.reasoning = "" then bs
    else appendAtEnd .thinking (thought page p.reasoning) bs
  let bs := bs ++ (p.toolCalls.map (storedCall page)).map .toolCall
  if p.content = "" then bs else appendAtEnd .text p.content bs

def read (page : Page) (text : JsonText) (s : Scroll) : MessagePayload → Scroll
  | .assistant p => ⟨s.closed, some (readAssistant page p (s.current.getD []))⟩
  | .tool p => ⟨s.closed, some (settleFirst p.toolCallId (shownOutput text p.content)
      (shownError text p.content) (s.current.getD []))⟩
  | .user _ => s.close
  | .system _ => s.close

end Scroll

def Grouping.scroll (g : Grouping) : Scroll :=
  ⟨g.turns.flatMap Entry.blocks, g.reply.map Bubble.blocks⟩

variable {page : Page} {text : JsonText} {node : MessageNode} {position : Int}
variable {usage : Option TurnUsage}

theorem toolCallBlock_toolCallToJson (page : Page) (r : ToolCallRecord) (status : CallState) :
    toolCallBlock page (toolCallToJson r) status =
      .toolCall ⟨orUnknown r.id, orUnknown r.name, parseToolArguments page (some r.arguments), "",
        "", status⟩ := by
  simp [toolCallBlock,toolCallToJson,wordOr,orUnknown]

theorem toolCallBlocks_records (page : Page) (rs : List ToolCallRecord) :
    toolCallBlocks page (rs.map toolCallToJson) (rs.map (fun r => viewStatus r.status)) =
      (rs.map (storedCall page)).map .toolCall := by
  induction rs with
  | nil => rfl
  | cons r rs ih =>
      simp only [List.map_cons,toolCallBlocks,List.head?_cons,List.tail_cons,ih,
        toolCallBlock_toolCallToJson]
      rfl

theorem historyItem_calls {p : AssistantPayload} (hp : node.payload = .assistant p) :
    toolCallBlocks page (historyItem text usage node position).toolCalls
        (historyItem text usage node position).toolCallStatus =
      (p.toolCalls.map (storedCall page)).map .toolCall := by
  rw [← toolCallBlocks_records]
  by_cases hnil : p.toolCalls = []
  · simp [historyItem,renderMessage,hp,hnil,ChatMessage.hasToolCalls]
  · simp [historyItem,renderMessage,hp,hnil,ChatMessage.hasToolCalls,MessagePayload.records,
      Json.asArray]

theorem blocks_closeReply (g : Grouping) :
    g.closeReply.turns.flatMap Entry.blocks = g.scroll.blocks := by
  unfold Grouping.closeReply
  split
  · next h => simp [Grouping.scroll,Scroll.blocks,h]
  · next h => simp [Grouping.scroll,Scroll.blocks,h,Entry.blocks]

theorem current_scroll (g : Grouping) : g.scroll.current.getD [] = g.currentReply.blocks := by
  unfold Grouping.scroll Grouping.currentReply
  cases g.reply <;> rfl

theorem scroll_fold (g : Grouping) :
    (g.fold page (historyItem text usage node position)).scroll =
      g.scroll.read page text node.payload := by
  cases hp : node.payload with
  | user p =>
      have hrole : (historyItem text usage node position).role = .user := by
        simp [historyItem,renderMessage,hp]
      simp only [Grouping.fold,hrole,Scroll.read,Scroll.close,← blocks_closeReply]
      simp [Grouping.scroll,Entry.blocks]
  | system p =>
      have hrole : (historyItem text usage node position).role = .system := by
        simp [historyItem,renderMessage,hp]
      simp only [Grouping.fold,hrole,Scroll.read,Scroll.close,← blocks_closeReply]
      simp [Grouping.scroll,Entry.blocks]
  | tool p =>
      have hitem : (historyItem text usage node position).role = .tool ∧
          (historyItem text usage node position).toolCallId = p.toolCallId ∧
          (historyItem text usage node position).output = shownOutput text p.content ∧
          (historyItem text usage node position).error = shownError text p.content := by
        simp [historyItem,renderMessage,hp,shownOutput,shownError]
      simp only [Grouping.fold,hitem,Scroll.read,current_scroll]
      simp only [Grouping.scroll,Grouping.foldTool,hitem,Option.map_some]
  | assistant p =>
      have hitem : (historyItem text usage node position).role = .assistant ∧
          (historyItem text usage node position).content = p.content ∧
          thinkingText page (historyItem text usage node position) = thought page p.reasoning := by
        simp [historyItem,renderMessage,hp,thinkingText,thought]
      simp only [Grouping.fold,hitem,Scroll.read,current_scroll]
      simp only [Grouping.scroll,Grouping.foldAssistant,hitem,Scroll.readAssistant,
        historyItem_calls hp,Option.map_some]

def Scroll.readAll (page : Page) (text : JsonText) (s : Scroll) (payloads : List MessagePayload) :
    Scroll := payloads.foldl (Scroll.read page text) s

theorem scroll_foldl (s : Session) (before : Nat) (nodes : List MessageNode) (g : Grouping) :
    ((historyFromNode text s before nodes).foldl (Grouping.fold page) g).scroll =
      g.scroll.readAll page text (nodes.map MessageNode.payload) := by
  induction nodes generalizing before g with
  | nil => rfl
  | cons node nodes ih =>
      rw [historyFromNode,List.foldl_cons,ih,scroll_fold]
      rfl

theorem historyFromNode_append (s : Session) (before : Nat) (ns ms : List MessageNode) :
    historyFromNode text s before (ns ++ ms) =
      historyFromNode text s before ns ++ historyFromNode text s (before + ns.length) ms := by
  induction ns generalizing before with
  | nil => rfl
  | cons n ns ih =>
      have hsum : before + 1 + ns.length = before + (n :: ns).length := by
        rw [List.length_cons]
        omega
      rw [List.cons_append,historyFromNode,historyFromNode,ih,hsum,List.cons_append]

theorem fold_after (page : Page) (items : List HistoryItem) (earlier turns : List Entry)
    (reply : Option Bubble) :
    (items.foldl (Grouping.fold page) ⟨earlier ++ turns, reply⟩).closeReply.turns =
      earlier ++ (items.foldl (Grouping.fold page) ⟨turns, reply⟩).closeReply.turns := by
  induction items generalizing turns reply with
  | nil => cases reply <;> simp [Grouping.closeReply]
  | cons item items ih =>
      rw [List.foldl_cons,List.foldl_cons]
      have hclose : ∀ ts : List Entry, (Grouping.mk (earlier ++ ts) reply).closeReply.turns =
          earlier ++ (Grouping.mk ts reply).closeReply.turns := by
        intro ts
        cases reply <;> simp [Grouping.closeReply]
      cases hr : item.role with
      | system => simp only [Grouping.fold,hr,hclose,List.append_assoc,ih]
      | user => simp only [Grouping.fold,hr,hclose,List.append_assoc,ih]
      | tool =>
          simp only [Grouping.fold,hr]
          exact ih turns _
      | assistant =>
          simp only [Grouping.fold,hr]
          exact ih turns _

theorem asks_fold {turn : Int} {g : Grouping} {item : HistoryItem} (hne : item.id ≠ turn)
    (h : ∀ e ∈ g.closeReply.turns, e.asks turn = false) :
    ∀ e ∈ (g.fold page item).closeReply.turns, e.asks turn = false := by
  have hturns : ∀ e ∈ g.turns, e.asks turn = false := by
    intro e he
    refine h e ?_
    unfold Grouping.closeReply
    split
    · exact he
    · exact List.mem_append_left _ he
  intro e he
  unfold Grouping.fold at he
  split at he
  · rcases List.mem_append.mp he with he | he
    · exact h e he
    · rw [List.mem_singleton.mp he]
      rfl
  · rcases List.mem_append.mp he with he | he
    · exact h e he
    · rw [List.mem_singleton.mp he]
      simpa [Entry.asks] using hne
  · rcases List.mem_append.mp he with he | he
    · exact hturns e he
    · rw [List.mem_singleton.mp he]
      rfl
  · rcases List.mem_append.mp he with he | he
    · exact hturns e he
    · rw [List.mem_singleton.mp he]
      rfl

theorem asks_history {turn : Int} (s : Session) (before : Nat) (nodes : List MessageNode)
    {g : Grouping} (hlt : (before : Int) + nodes.length < turn)
    (h : ∀ e ∈ g.closeReply.turns, e.asks turn = false) :
    ∀ e ∈ ((historyFromNode text s before nodes).foldl (Grouping.fold page) g).closeReply.turns,
      e.asks turn = false := by
  induction nodes generalizing before g with
  | nil => exact h
  | cons node nodes ih =>
      rw [List.length_cons] at hlt
      rw [historyFromNode,List.foldl_cons]
      refine ih (before + 1) (by omega) (asks_fold ?_ h)
      have hid : (historyItem text s.usage[node.id]? node (before + 1)).id = before + 1 := by
        unfold historyItem renderMessage
        split <;> rfl
      rw [hid]
      omega

theorem blocksOfTurn_groupHistory {s : Session} {old new : List MessageNode} {asked : MessageNode}
    {p : UserPayload} (hp : asked.payload = .user p)
    (hc : s.conversation.chain = old ++ asked :: new) :
    blocksOfTurn (old.length + 1) (groupHistory page (handleApiHistory text s)) =
      (Scroll.readAll page text {} (new.map MessageNode.payload)).blocks := by
  have hitems : handleApiHistory text s = historyFromNode text s 0 old ++
      historyItem text s.usage[asked.id]? asked (old.length + 1) ::
        historyFromNode text s (old.length + 1) new := by
    rw [handleApiHistory,hc,historyFromNode_append,Nat.zero_add,historyFromNode]
  have hasked : ∀ g : Grouping,
      g.fold page (historyItem text s.usage[asked.id]? asked (old.length + 1)) =
        ⟨g.closeReply.turns ++ [.user p.content (old.length + 1) p.fromPeer], none⟩ := by
    intro g
    simp [Grouping.fold,historyItem,renderMessage,hp]
  set g := (historyFromNode text s 0 old).foldl (Grouping.fold page) {} with hg
  have hold : ∀ e ∈ g.closeReply.turns, e.asks (old.length + 1) = false := by
    refine asks_history s 0 old ?_ ?_
    · omega
    · simp [Grouping.closeReply]
  have hgroup : groupHistory page (handleApiHistory text s) = g.closeReply.turns ++
      .user p.content (old.length + 1) p.fromPeer ::
        ((historyFromNode text s (old.length + 1) new).foldl (Grouping.fold page)
          {}).closeReply.turns := by
    rw [groupHistory,hitems,List.foldl_append,← hg,List.foldl_cons,hasked,fold_after]
    exact congrArg (g.closeReply.turns ++ ·)
      (fold_after page (historyFromNode text s (old.length + 1) new)
        [.user p.content (old.length + 1) p.fromPeer] [] none)
  rw [blocksOfTurn,hgroup,List.dropWhile_append_of_pos (by simpa using hold)]
  rw [List.dropWhile_cons_of_neg (by simp [Entry.asks]),List.flatMap_cons,blocks_closeReply,
    scroll_foldl]
  rfl

end PuCli
