import PuCli.Library.Run
import PuCli.Runtime.ProcessInput
import PuCli.Session.PageReceipts

namespace PuCli

open Json

-- The turns are counted without a bound here; an int holds as many as fit one.
structure UsageTotal where
  turns : Nat := 0
  rounds : Int32 := 0
  promptTokens : Int32 := 0
  completionTokens : Int32 := 0
  cachedTokens : Int32 := 0
  cost : Option Cost := none
  pricedTurns : Nat := 0
  deriving DecidableEq

structure Totalling where
  total : UsageTotal := {}
  anyCostSeen : Bool := false
  anyCostMissing : Bool := false

def Totalling.add (s : Totalling) (usage : TurnUsage) : Totalling :=
  let total :=
    { s.total with
      turns := s.total.turns + 1
      rounds := s.total.rounds + usage.rounds
      promptTokens := s.total.promptTokens + usage.promptTokens
      completionTokens := s.total.completionTokens + usage.completionTokens
      cachedTokens := s.total.cachedTokens + usage.cachedTokens }
  match usage.cost with
  | none => { s with total := total, anyCostMissing := true }
  | some cost =>
      let total := { total with pricedTurns := total.pricedTurns + 1 }
      if s.anyCostSeen then
        match total.cost with
        | some sum =>
            if sum.unit = cost.unit then
              { s with total := { total with cost := some ⟨sum.amount + cost.amount, sum.unit⟩ } }
            else { s with total := { total with cost := none }, anyCostMissing := true }
        -- Two units have met already: whatever is read here, no cost is left at the end.
        | none => { s with total := total, anyCostMissing := true }
      else { s with total := { total with cost := some cost }, anyCostSeen := true }

theorem Totalling.counts_add (s : Totalling) (usage : TurnUsage) :
    (s.add usage).total.turns = s.total.turns + 1 ∧
      (s.add usage).total.rounds = s.total.rounds + usage.rounds ∧
      (s.add usage).total.promptTokens = s.total.promptTokens + usage.promptTokens ∧
      (s.add usage).total.completionTokens = s.total.completionTokens + usage.completionTokens ∧
      (s.add usage).total.cachedTokens = s.total.cachedTokens + usage.cachedTokens := by
  unfold Totalling.add
  cases usage.cost with
  | none => exact ⟨rfl,rfl,rfl,rfl,rfl⟩
  | some price =>
      dsimp only
      split
      · split
        · split <;> exact ⟨rfl,rfl,rfl,rfl,rfl⟩
        · exact ⟨rfl,rfl,rfl,rfl,rfl⟩
      · exact ⟨rfl,rfl,rfl,rfl,rfl⟩

namespace UsageLedger

variable {ledger : UsageLedger} {live : List String}

def total (ledger : UsageLedger) : UsageTotal :=
  let s := (ledger.toList.map Prod.snd).foldl Totalling.add {}
  if s.anyCostMissing then { s.total with cost := none } else s.total

theorem turns_foldl (usages : List TurnUsage) (s : Totalling) :
    (usages.foldl Totalling.add s).total.turns = s.total.turns + usages.length := by
  induction usages generalizing s with
  | nil => rfl
  | cons usage usages ih =>
      rw [List.foldl_cons,ih,(s.counts_add usage).1,List.length_cons]
      omega

theorem turns_total (ledger : UsageLedger) : ledger.total.turns = ledger.size := by
  have hs := turns_foldl (ledger.toList.map Prod.snd) {}
  rw [List.length_map,Std.ExtTreeMap.length_toList] at hs
  unfold total
  simp only
  split
  · exact hs.trans (Nat.zero_add _)
  · exact hs.trans (Nat.zero_add _)

-- An entry off the chain is counted as a turn, so the totals agree only if there is none.
theorem total_keepOnly_iff :
    ledger.total = (ledger.keepOnly live).total ↔ ∀ k ∈ ledger, k ∈ live := by
  have hself : ledger.keepOnly live = ledger ↔ ∀ k ∈ ledger, k ∈ live := by
    unfold keepOnly
    rw [Std.ExtTreeMap.filter_eq_self_iff]
    simp
  rw [← hself]
  constructor
  · intro h
    have hsize : (ledger.keepOnly live).size = ledger.size := by
      rw [← turns_total,← turns_total,h]
    exact Std.ExtTreeMap.filter_eq_self_iff.mpr (Std.ExtTreeMap.size_filter_eq_size_iff.mp hsize)
  · intro h
    rw [h]

end UsageLedger

inductive Spending where
  | append (id : MessageId) (msg : ChatMessage)
  | sealCalls (newId : Nat → MessageId)
  | finish (result : ExecutionResult) (backend : Backend)
  | rewind (turn : Nat)
  | clear
  | reload

namespace Session

variable {text : JsonText} {chars : ToChars} {s : Session}

def spend (text : JsonText) (chars : ToChars) (s : Session) : Spending → Session
  | .append id msg => { s with conversation := s.conversation.append text id msg }
  | .sealCalls newId => { s with conversation := s.conversation.sealInterruptedToolCalls newId }
  | .finish result backend => recordTurnUsage s result backend
  | .rewind turn =>
      match s.conversation.rewindBefore turn with
      | .ok (_, c) => { s with conversation := c }
      | .error _ => s
  | .clear => { s with conversation := s.conversation.clearHistory }
  | .reload => (loadSession text (s.savedText text chars)).getD s

def Spendable (text : JsonText) (chars : ToChars) (s : Session) : Spending → Prop
  | .append id _ => s.conversation.graph.Fresh id
  | .sealCalls newId => s.conversation.graph.FreshSupply newId
  | .reload => text.ReadsPretty chars s.serialize
  | _ => True

structure TotalExact (text : JsonText) (chars : ToChars) (s : Session) : Prop where
  onChain : s.usage.total = (s.usage.keepOnly s.live).total
  reloaded : text.ReadsPretty chars s.serialize →
    ∃ loaded, loadSession text (s.savedText text chars) = some loaded ∧
      loaded.usage.total = s.usage.total

def KeepsTotal (s : Session) : Spending → Prop
  | .rewind turn => ∀ c, s.conversation.rewindBefore turn = .ok (true, c) →
      ∀ node ∈ s.conversation.chain.drop (turn - 1), node.id ∉ s.usage
  | .clear => s.usage = ∅
  | _ => True

theorem totalExact_iff (h : s.Sound) :
    s.TotalExact text chars ↔ ∀ k ∈ s.usage, k ∈ s.live := by
  rw [← UsageLedger.total_keepOnly_iff]
  constructor
  · intro ht
    exact ht.onChain
  · intro ht
    exact ⟨ht,fun hr => ⟨_,loadSession_saved h hr,ht.symm⟩⟩

theorem kept_spend (h : Kept text chars s) {o : Spending} (hf : s.Spendable text chars o) :
    Kept text chars (s.spend text chars o) := by
  cases o with
  | append id msg => exact .step h (.append msg hf)
  | sealCalls newId => exact .step h (.sealCalls hf)
  | clear => exact .step h .clear
  | finish result backend =>
      rw [spend]
      obtain hs | ⟨usage,-,hs⟩ := recordTurnUsage_cases s result backend
      · rwa [hs]
      · rw [hs]
        exact .step h (.recordUsage usage)
  | rewind turn =>
      rw [spend]
      cases hr : s.conversation.rewindBefore turn with
      | error what => exact h
      | ok moved =>
          obtain ⟨moved,c⟩ := moved
          cases moved with
          | true => exact .step h (.rewind hr)
          | false =>
              obtain rfl := Conversation.rewindBefore_unmoved hr
              exact h
  | reload =>
      have hl := loadSession_saved (kept_sound h) hf
      rw [spend,hl,Option.getD_some]
      exact .reload h hf hl

theorem live_append (h : s.Sound) {id : MessageId} (hf : s.conversation.graph.Fresh id)
    (msg : ChatMessage) :
    (s.spend text chars (.append id msg)).live = s.live ++ [id] := by
  have hids := (MessageGraph.completesOne_answerIn (toPayload text msg) s.conversation.chain).ids
  change (s.conversation.graph.appendAfterLeaf id (toPayload text msg) msg.timestamp).chain.map
    MessageNode.id = _
  rw [MessageGraph.chain_appendAfterLeaf h.graph hf,List.map_append]
  exact congrArg (· ++ [id]) hids

theorem live_seal (h : s.Sound) {newId : Nat → MessageId}
    (hf : s.conversation.graph.FreshSupply newId) {k : MessageId} (hk : k ∈ s.live) :
    k ∈ (s.spend text chars (.sealCalls newId)).live := by
  change k ∈ (s.conversation.graph.sealInterruptedToolCalls newId).chain.map MessageNode.id
  cases hl : s.conversation.graph.find s.conversation.graph.leaf with
  | none => rwa [MessageGraph.sealInterruptedToolCalls_of_find_eq_none hl]
  | some n =>
      obtain ⟨ns,hns⟩ := MessageGraph.chain_eq_concat h.graph hl
      rw [(MessageGraph.seal_spec h.graph hf hns).2]
      have hk : k ∈ (ns ++ [n]).map MessageNode.id := hns ▸ hk
      rw [List.map_append,List.mem_append] at hk ⊢
      refine hk.imp id ?_
      intro hn
      rw [List.map_cons,List.mem_cons,(MessageGraph.alike_interruptNode n).id]
      exact .inl (by simpa using hn)

theorem live_reread (d : Doubles) (s : Session) : (s.reread d).live = s.live := by
  change (s.conversation.graph.reread d).chain.map MessageNode.id = s.live
  rw [MessageGraph.chain_reread,List.map_map]
  rfl

theorem mem_record {ledger : UsageLedger} {usage : TurnUsage} {k : String}
    (h : k ∈ ledger.record usage) : k = usage.nodeId ∨ k ∈ ledger := by
  unfold UsageLedger.record at h
  split at h
  · exact .inr h
  · rw [Std.ExtTreeMap.mem_insert] at h
    exact h.imp (fun hk => (compare_eq_iff_eq.mp hk).symm) id

theorem live_rewind (h : s.Sound) {turn : Nat} {c : Conversation}
    (hr : s.conversation.rewindBefore turn = .ok (true, c)) :
    ({ s with conversation := c } : Session).live = s.live.take (turn - 1) := by
  obtain ⟨-,-,-,-,-,-,hc⟩ := Conversation.rewindBefore_ok h.graph hr
  change c.chain.map MessageNode.id = _
  rw [hc,List.map_take]
  rfl

-- A rewind keeps the ledger to the chain when nothing it cuts off was recorded.
theorem rewind_keeps_iff (h : s.Sound) {turn : Nat} (hg : ∀ k ∈ s.usage, k ∈ s.live) :
    (∀ k ∈ s.usage, k ∈ s.live.take (turn - 1)) ↔
      ∀ node ∈ s.conversation.chain.drop (turn - 1), node.id ∉ s.usage := by
  have hsplit : s.live.take (turn - 1) ++ s.live.drop (turn - 1) = s.live := List.take_append_drop ..
  have hnodup : (s.live.take (turn - 1) ++ s.live.drop (turn - 1)).Nodup :=
    hsplit.symm ▸ MessageGraph.chain_ids_nodup h.graph
  have hdrop : s.live.drop (turn - 1) =
      (s.conversation.chain.drop (turn - 1)).map MessageNode.id := List.map_drop.symm
  constructor
  · intro hk node hn hu
    have hcut : node.id ∈ s.live.drop (turn - 1) := hdrop ▸ List.mem_map_of_mem hn
    exact (List.nodup_append.mp hnodup).2.2 node.id (hk node.id hu) node.id hcut rfl
  · intro hcut k hu
    have hk := hg k hu
    rw [← hsplit,List.mem_append] at hk
    refine hk.resolve_right ?_
    intro hd
    rw [hdrop] at hd
    obtain ⟨node,hn,rfl⟩ := List.mem_map.mp hd
    exact hcut node hn hu

theorem usage_spend_iff (h : Kept text chars s) {o : Spending} (hf : s.Spendable text chars o)
    (hg : ∀ k ∈ s.usage, k ∈ s.live) :
    (∀ k ∈ (s.spend text chars o).usage, k ∈ (s.spend text chars o).live) ↔ s.KeepsTotal o := by
  have hs := kept_sound h
  cases o with
  | append id msg =>
      refine iff_of_true (fun k hk => ?_) trivial
      rw [live_append hs hf]
      exact List.mem_append_left _ (hg k hk)
  | sealCalls newId => exact iff_of_true (fun k hk => live_seal hs hf (hg k hk)) trivial
  | finish result backend =>
      refine iff_of_true ?_ trivial
      rw [spend]
      obtain hsame | ⟨usage,hid,hsame⟩ := recordTurnUsage_cases s result backend
      · rwa [hsame]
      · rw [hsame]
        intro k hk
        obtain rfl | hk := mem_record hk
        · exact hid
        · exact hg k hk
  | rewind turn =>
      rw [spend]
      cases hr : s.conversation.rewindBefore turn with
      | error what => exact iff_of_true hg (fun c hc => by rw [hr] at hc; cases hc)
      | ok moved =>
          obtain ⟨moved,c⟩ := moved
          cases moved with
          | false =>
              obtain rfl := Conversation.rewindBefore_unmoved hr
              exact iff_of_true hg (fun c hc => by rw [hr] at hc; cases hc)
          | true =>
              change (∀ k ∈ s.usage, k ∈ ({ s with conversation := c } : Session).live) ↔ _
              rw [live_rewind hs hr,rewind_keeps_iff hs hg]
              exact ⟨fun hcut _ _ => hcut,fun hcut => hcut c hr⟩
  | clear =>
      have hnone : (s.spend text chars .clear).live = [] := rfl
      rw [hnone]
      change (∀ k ∈ s.usage, k ∈ []) ↔ s.usage = ∅
      rw [Std.ExtTreeMap.eq_empty_iff_forall_not_mem]
      simp
  | reload =>
      refine iff_of_true ?_ trivial
      rw [spend,loadSession_saved hs hf,Option.getD_some,live_reread]
      intro k hk
      change k ∈ s.usage.keepOnly s.live at hk
      exact hg k (Std.ExtTreeMap.mem_of_mem_filter hk)

theorem total_covers_chain_iff {ops : List Spending}
    (hf : Run.Along (spend text chars) (Spendable text chars) {} ops) :
    (∀ s ∈ Run.visited (spend text chars) {} ops, s.TotalExact text chars) ↔
      Run.Along (spend text chars) KeepsTotal {} ops := by
  have hgood : ∀ (s : Session) (o : Spending), Kept text chars s → s.Spendable text chars o →
      s.TotalExact text chars →
        ((s.spend text chars o).TotalExact text chars ↔ s.KeepsTotal o) := by
    intro s o hk ho hg
    rw [totalExact_iff (kept_sound (kept_spend hk ho))]
    exact usage_spend_iff hk ho ((totalExact_iff (kept_sound hk)).mp hg)
  have hstart : TotalExact text chars {} := by
    rw [totalExact_iff sound_new]
    intro k hk
    simp at hk
  have hinv : ∀ (s : Session) (o : Spending), Kept text chars s → s.Spendable text chars o →
      Kept text chars (s.spend text chars o) := fun _ _ hk ho => kept_spend hk ho
  exact Run.visited_good_iff hinv hgood .new hstart hf

def silentText : JsonText := ⟨fun _ => none, fun _ => "", id, fun _ => ""⟩

def silentChars : ToChars := ⟨.plain, fun _ => ""⟩

def answered : ExecutionResult := { rounds := 1, usage := some { promptTokens := 7 } }

def oneTurn : List Spending :=
  [.append "u" { role := .user, content := "hi" },
    .append "a" { role := .assistant, content := "hello" }, .finish answered {}]

theorem fits_oneTurn :
    Run.Along (spend silentText silentChars) (Spendable silentText silentChars) {} oneTurn := by
  have hu : Spendable silentText silentChars {} (.append "u" { role := .user, content := "hi" }) :=
    ⟨by decide,by decide⟩
  have ha : Spendable silentText silentChars
      (spend silentText silentChars {} (.append "u" { role := .user, content := "hi" }))
      (.append "a" { role := .assistant, content := "hello" }) := ⟨by decide,by decide⟩
  exact ⟨hu,ha,trivial,trivial⟩

theorem total_covers_chain_one_turn :
    (oneTurn.foldl (spend silentText silentChars) {}).usage.total.turns = 1 ∧
      ∀ s ∈ Run.visited (spend silentText silentChars) {} oneTurn,
        s.TotalExact silentText silentChars :=
  ⟨by decide,(total_covers_chain_iff fits_oneTurn).mpr ⟨trivial,trivial,trivial,trivial⟩⟩

theorem cleared_conversation_keeps_total :
    let s := (oneTurn ++ [Spending.clear]).foldl (spend silentText silentChars) {}
    s.conversation.chain = [] ∧ s.usage.total.turns = 1 ∧
      (s.usage.keepOnly s.live).total.turns = 0 ∧ ¬ s.TotalExact silentText silentChars := by
  intro s
  have hlast : lastAssistant (([.append "u" { role := .user, content := "hi" },
      .append "a" { role := .assistant, content := "hello" }] : List Spending).foldl
        (spend silentText silentChars) {}).conversation.chain = "a" := by decide
  have husage : s.usage = (∅ : UsageLedger).insert "a"
      (turnUsage "a" answered { promptTokens := 7 } {}) := by
    change (recordTurnUsage (([.append "u" { role := .user, content := "hi" },
      .append "a" { role := .assistant, content := "hello" }] : List Spending).foldl
        (spend silentText silentChars) {}) answered {}).usage = _
    simp only [recordTurnUsage,answered,hlast]
    rfl
  have hturns : s.usage.total.turns = 1 := by
    rw [UsageLedger.turns_total,husage,Std.ExtTreeMap.size_insert]
    simp
  have hkept : (s.usage.keepOnly s.live).total.turns = 0 := by
    have hempty : s.usage.keepOnly s.live = ∅ := by
      ext1 k
      rw [UsageLedger.getElem?_keepOnly]
      simp [show s.live = [] from rfl]
    rw [hempty,UsageLedger.turns_total]
    simp
  refine ⟨rfl,hturns,hkept,?_⟩
  intro h
  rw [h.onChain,hkept] at hturns
  cases hturns

end Session

end PuCli
