import PuCli.Session.GraphRuns
import PuCli.Session.Session

namespace PuCli

namespace MessageGraph

variable {g g' : MessageGraph} {id : MessageId} {newId : Nat → MessageId}

def Every (P : MessagePayload → Prop) (g : MessageGraph) : Prop :=
  ∀ id n, g.find id = some n → P n.payload

structure Settled (P : MessagePayload → Prop) : Prop where
  relabel : ∀ {p : AssistantPayload} {rs : List ToolCallRecord},
    rs.map ToolCallRecord.asked = p.toolCalls.map ToolCallRecord.asked → P (.assistant p) →
      P (.assistant { p with toolCalls := rs })
  cancelled : ∀ c, P (cancelledReceipt c)

theorem asked_interrupt (rs : List ToolCallRecord) :
    (rs.map interrupt).map ToolCallRecord.asked = rs.map ToolCallRecord.asked := by
  rw [List.map_map]
  refine List.map_congr_left ?_
  intro r _
  unfold Function.comp interrupt
  split <;> rfl

variable {P : MessagePayload → Prop}

theorem settled_wellNamed : Settled MessagePayload.WellNamed := by
  refine ⟨fun _ _ => trivial,?_⟩
  intro c o ho
  simp at ho

theorem CompletesOne.every (hP : Settled P) {old new : List MessageNode}
    (hc : CompletesOne old new) (h : ∀ n ∈ old, P n.payload) : ∀ n ∈ new, P n.payload := by
  cases hc with
  | none => exact h
  | @one old p r rs rs' before after hp hrs _ =>
      intro n hn
      rcases List.mem_append.mp hn with hn | hn
      · exact h n (List.mem_append_left _ hn)
      · rcases List.mem_cons.mp hn with rfl | hn
        · have hold := h old (by simp)
          rw [hp] at hold
          exact hP.relabel (by rw [hrs]; simp [ToolCallRecord.asked]) hold
        · exact h n (List.mem_append_right _ (List.mem_cons_of_mem _ hn))

theorem every_append_of_chain (hP : Settled P) (h : g.Sound) (hw : ∀ n ∈ g.chain, P n.payload)
    (hf : g.Fresh id) {p : MessagePayload} (hp : P p) (timestamp : String) :
    (g.appendAfterLeaf id p timestamp).Every P := by
  intro k n hn
  obtain ⟨hmem,_⟩ := (find_appendAfterLeaf h hf p timestamp k).mp hn
  rw [chain_appendAfterLeaf h hf] at hmem
  rcases List.mem_append.mp hmem with hm | hm
  · exact (completesOne_answerIn p g.chain).every hP hw n hm
  · rw [List.mem_singleton.mp hm]
    exact hp

theorem every_appendAfterLeaf (hP : Settled P) (h : g.Sound) (hw : g.Every P) (hf : g.Fresh id)
    {p : MessagePayload} (hp : P p) (timestamp : String) :
    (g.appendAfterLeaf id p timestamp).Every P :=
  every_append_of_chain hP h (fun _ hm => hw _ _ (find_of_mem_chain h hm)) hf hp timestamp

theorem every_appendReceipts (hP : Settled P) (h : g.Sound) (hw : g.Every P)
    (hs : FreshSupply g newId) (calls : List ToolCallRecord) :
    (g.appendReceipts newId calls).Every P := by
  induction calls generalizing g newId with
  | nil => exact hw
  | cons c calls ih =>
      exact ih (sound_appendAfterLeaf h (hs.fresh 0) _ _)
        (every_appendAfterLeaf hP h hw (hs.fresh 0) (hP.cancelled c) "") (hs.tail h _ _)

theorem every_seal (hP : Settled P) (h : g.Sound) (hw : g.Every P) (hs : FreshSupply g newId) :
    (g.sealInterruptedToolCalls newId).Every P := by
  cases hl : g.find g.leaf with
  | none => rwa [sealInterruptedToolCalls_of_find_eq_none hl]
  | some n =>
      have ha := alike_interruptNode n
      have hwr : (g.replace g.leaf (interruptNode n)).Every P := by
        intro k m hm
        rw [find_replace] at hm
        split at hm
        · obtain rfl := Option.some.inj hm
          have hold := hw _ _ hl
          unfold interruptNode
          split
          · next p hp =>
              rw [hp] at hold
              exact hP.relabel (asked_interrupt p.toolCalls) hold
          · exact hold
        · exact hw _ _ hm
      rw [sealInterruptedToolCalls_eq hl]
      exact every_appendReceipts hP (sound_replace h hl ha) hwr (hs.replace hl _) _

theorem every_of_nodes_eq {g' : MessageGraph} (hw : g.Every P) (hn : g'.nodes = g.nodes) :
    g'.Every P := by
  intro k n hk
  unfold find at hk
  rw [hn] at hk
  exact hw _ _ hk

theorem every_empty : MessageGraph.empty.Every P := by
  intro k n hn
  simp [MessageGraph.empty,find] at hn

theorem wellNamed_appendAfterLeaf (h : g.Sound) (hw : g.WellNamed) (hf : g.Fresh id)
    {p : MessagePayload} (hp : p.WellNamed) (timestamp : String) :
    (g.appendAfterLeaf id p timestamp).WellNamed :=
  every_appendAfterLeaf settled_wellNamed h hw hf hp timestamp

theorem wellNamed_seal (h : g.Sound) (hw : g.WellNamed) (hs : FreshSupply g newId) :
    (g.sealInterruptedToolCalls newId).WellNamed :=
  every_seal settled_wellNamed h hw hs

end MessageGraph

theorem toPayload_wellNamed (text : JsonText) (msg : ChatMessage) :
    (toPayload text msg).WellNamed := by
  cases hr : msg.role with
  | tool =>
      simp only [toPayload,hr]
      intro o ho
      exact Origin.originOf_named ho
  | _ => simp [toPayload,hr,MessagePayload.WellNamed]

namespace Session

variable {text : JsonText} {s s' : Session}

inductive Step (text : JsonText) : Session → Session → Prop
  | append {s : Session} {id : MessageId} (msg : ChatMessage) :
      s.conversation.graph.Fresh id →
      Step text s { s with conversation := s.conversation.append text id msg }
  | sealCalls {s : Session} {newId : Nat → MessageId} :
      s.conversation.graph.FreshSupply newId →
      Step text s { s with conversation := s.conversation.sealInterruptedToolCalls newId }
  | rewind {s : Session} {turn : Nat} {c : Conversation} :
      s.conversation.rewindBefore turn = .ok (true, c) → Step text s { s with conversation := c }
  | clear {s : Session} : Step text s { s with conversation := s.conversation.clearHistory }
  | setAgent {s s' : Session} {name : String} : s.setAgent name = .ok s' → Step text s s'
  | nameAgent {s : Session} (name : String) :
      Step text s { s with spec := { s.spec with agentName := name } }
  | setSetting {s : Session} {name : String} {raw value : Json} :
      parseSetting name raw = .ok value → Step text s (s.storeSetting name value)
  | clearSettings {s : Session} : Step text s s.clearOverrides
  | recordUsage {s : Session} (usage : TurnUsage) :
      Step text s { s with usage := s.usage.record usage }
  | reload {s s' : Session} : deserialize s.serialize = some s' → Step text s s'

inductive Reachable (text : JsonText) : Session → Prop
  | new : Reachable text {}
  | step {s s' : Session} : Reachable text s → Step text s s' → Reachable text s'

theorem sound_new : Sound {} :=
  ⟨MessageGraph.sound_empty,MessageGraph.every_empty,⟨by simp,by simp⟩,UsageLedger.keyed_empty⟩

theorem clean_storeSetting (h : SessionSpec.Clean s.spec.overrides) {name : String} {value : Json}
    (hn : name ≠ "") : SessionSpec.Clean (s.storeSetting name value).spec.overrides := by
  unfold storeSetting
  dsimp only
  split
  · constructor <;> intro k v hv <;> rw [Std.ExtTreeMap.getElem?_erase] at hv <;> split at hv
    · simp at hv
    · exact h.named hv
    · simp at hv
    · exact h.valued hv
  · next hnull =>
      constructor <;> intro k v hv <;> rw [Std.ExtTreeMap.getElem?_insert] at hv <;> split at hv
      · next hk => exact compare_eq_iff_eq.mp hk ▸ hn
      · exact h.named hv
      · obtain rfl := Option.some.inj hv
        simpa using hnull
      · exact h.valued hv

theorem parseSetting_named {name : String} {raw value : Json}
    (h : parseSetting name raw = .ok value) : name ≠ "" := by
  unfold parseSetting at h
  split at h
  · simp at h
  · next setting hs =>
      rw [← findSetting_eq_some hs]
      exact text_ne_empty setting

theorem step_sound (h : s.Sound) (hs : Step text s s') : s'.Sound := by
  cases hs with
  | append msg hf =>
      exact ⟨MessageGraph.sound_appendAfterLeaf h.graph hf _ _,
        MessageGraph.wellNamed_appendAfterLeaf h.graph h.origins hf (toPayload_wellNamed text msg) _,
        h.overrides,h.usage⟩
  | sealCalls hf =>
      exact ⟨MessageGraph.sound_seal h.graph hf,MessageGraph.wellNamed_seal h.graph h.origins hf,
        h.overrides,h.usage⟩
  | rewind hr =>
      obtain ⟨_,_,_,_,hg,hn,_⟩ := Conversation.rewindBefore_ok h.graph hr
      exact ⟨hg,MessageGraph.every_of_nodes_eq h.origins hn,h.overrides,h.usage⟩
  | clear => exact ⟨sound_new.graph,sound_new.origins,h.overrides,h.usage⟩
  | setAgent ha =>
      unfold setAgent at ha
      split at ha
      · simp at ha
      · simp only [Except.ok.injEq] at ha
        subst ha
        exact ⟨h.graph,h.origins,h.overrides,h.usage⟩
  | nameAgent name => exact ⟨h.graph,h.origins,h.overrides,h.usage⟩
  | setSetting hp =>
      exact ⟨h.graph,h.origins,clean_storeSetting h.overrides (parseSetting_named hp),h.usage⟩
  | clearSettings => exact ⟨h.graph,h.origins,sound_new.overrides,h.usage⟩
  | recordUsage usage => exact ⟨h.graph,h.origins,h.overrides,UsageLedger.keyed_record h.usage usage⟩
  | reload hr =>
      rw [deserialize_serialize h] at hr
      obtain rfl := Option.some.inj hr
      exact ⟨h.graph,h.origins,h.overrides,UsageLedger.keyed_keepOnly h.usage s.live⟩

theorem step_every {P : MessagePayload → Prop} (hP : MessageGraph.Settled P)
    (happend : ∀ msg, P (toPayload text msg)) (h : s.Sound)
    (hw : s.conversation.graph.Every P) (hs : Step text s s') :
    s'.conversation.graph.Every P := by
  cases hs with
  | append msg hf => exact MessageGraph.every_appendAfterLeaf hP h.graph hw hf (happend msg) _
  | sealCalls hf => exact MessageGraph.every_seal hP h.graph hw hf
  | rewind hr =>
      obtain ⟨_,_,_,_,_,hn,_⟩ := Conversation.rewindBefore_ok h.graph hr
      exact MessageGraph.every_of_nodes_eq hw hn
  | clear => exact MessageGraph.every_empty
  | setAgent ha =>
      unfold setAgent at ha
      split at ha
      · simp at ha
      · obtain rfl := Except.ok.inj ha
        exact hw
  | nameAgent name => exact hw
  | setSetting hp => exact hw
  | clearSettings => exact hw
  | recordUsage usage => exact hw
  | reload hr =>
      rw [deserialize_serialize h] at hr
      obtain rfl := Option.some.inj hr
      exact hw

theorem reachable_sound (h : Reachable text s) : s.Sound := by
  induction h with
  | new => exact sound_new
  | step _ hs ih => exact step_sound ih hs

theorem reachable_every {P : MessagePayload → Prop} (hP : MessageGraph.Settled P)
    (happend : ∀ msg, P (toPayload text msg)) (h : Reachable text s) :
    s.conversation.graph.Every P := by
  induction h with
  | new => exact MessageGraph.every_empty
  | step hr hs ih => exact step_every hP happend (reachable_sound hr) ih hs

end Session

end PuCli
