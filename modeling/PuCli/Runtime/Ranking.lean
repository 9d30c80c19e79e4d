import Mathlib.Logic.Relation
import PuCli.Session.PageReceipts

namespace PuCli

open Json Paging Tools

def raiseTo (highest : Nat) (node : MessageNode) : Nat :=
  match pageOrigin node with
  | none => highest
  | some page => max highest page.rank

def highestRankIn (s : Session) : Nat := s.conversation.chain.foldl raiseTo 0

theorem foldl_raiseTo_le (chain : List MessageNode) (highest : Nat) :
    highest ≤ chain.foldl raiseTo highest := by
  induction chain generalizing highest with
  | nil => exact le_rfl
  | cons node chain ih =>
      refine le_trans ?_ (ih _)
      unfold raiseTo
      split
      · exact le_rfl
      · exact le_max_left _ _

theorem rank_le_foldl_raiseTo {chain : List MessageNode} {page : Origin}
    (h : PageAmong chain page) (highest : Nat) : page.rank ≤ chain.foldl raiseTo highest := by
  induction chain generalizing highest with
  | nil =>
      obtain ⟨node,hn,_⟩ := h
      simp at hn
  | cons node chain ih =>
      rcases pageAmong_cons_iff.mp h with ho | ho
      · refine le_trans ?_ (foldl_raiseTo_le chain _)
        simp [raiseTo,ho]
      · exact ih ho _

theorem foldl_raiseTo_lt {chain : List MessageNode} {limit highest : Nat}
    (h : ∀ page, PageAmong chain page → page.rank < limit) (hh : highest < limit) :
    chain.foldl raiseTo highest < limit := by
  induction chain generalizing highest with
  | nil => exact hh
  | cons node chain ih =>
      refine ih (fun page hp => h page hp.cons) ?_
      cases ho : pageOrigin node with
      | none => simpa [raiseTo,ho] using hh
      | some page =>
          have := h page (pageAmong_cons_iff.mpr (.inl ho))
          simpa [raiseTo,ho] using ⟨hh,this⟩

structure Process where
  pager : Pager
  session : Session
  issued : List Buffer
  saved : Option Session
  newest : String → Option Origin

def initialized (text : JsonText) (chars : ToChars) (generation : String)
    (saved : Option Session) (newest : String → Option Origin) : Process :=
  match saved.bind (fun s => Session.loadSession text (s.savedText text chars)) with
  | some session =>
      ⟨Pager.continueRankingFrom { generation := generation } (highestRankIn session), session, [],
        saved, newest⟩
  | none => ⟨{ generation := generation }, {}, [], none, newest⟩

namespace Process

def store (p : Process) (captured : Exec.Captured) (verdict : Exec.Verdict) (sourceKey : String) :
    Process :=
  let kept := p.pager.store captured verdict sourceKey
  { p with
    pager := kept.2
    issued := p.issued ++ [kept.1]
    newest := Function.update p.newest kept.1.source (some kept.1.origin) }

def converse (p : Process) (c : Conversation) : Process :=
  { p with session := { p.session with conversation := c } }

inductive Step (text : JsonText) (chars : ToChars) : Process → Process → Prop
  | store {p : Process} (captured : Exec.Captured) (verdict : Exec.Verdict) (sourceKey : String) :
      p.pager.nextRank < Pager.kSizeLimit - 1 →
      Step text chars p (p.store captured verdict sourceKey)
  | appendPage {p : Process} {id : MessageId} {buffer : Buffer} (page : Page)
      (success : Bool) (output error : List UInt8) (exitCode : Int32) (blocked : Bool)
      (refusal : Refusal) (msg : ChatMessage) :
      buffer ∈ p.issued → p.session.conversation.graph.Fresh id →
      text.Reads (.object
        (pageMembers buffer page success output error exitCode blocked refusal)) →
      msg.content = Tools.makeToolResultJson text success output error exitCode blocked refusal
        (envelope buffer page) →
      Step text chars p (p.converse (p.session.conversation.append text id msg))
  | appendOther {p : Process} {id : MessageId} (msg : ChatMessage) :
      p.session.conversation.graph.Fresh id →
      (msg.role = .tool → Origin.originOf text msg.content = none) →
      Step text chars p (p.converse (p.session.conversation.append text id msg))
  | sealCalls {p : Process} {newId : Nat → MessageId} :
      p.session.conversation.graph.FreshSupply newId →
      Step text chars p (p.converse (p.session.conversation.sealInterruptedToolCalls newId))
  | rewind {p : Process} {turn : Nat} {c : Conversation} :
      p.session.conversation.rewindBefore turn = .ok (true, c) →
      Step text chars p (p.converse c)
  | clear {p : Process} : Step text chars p (p.converse p.session.conversation.clearHistory)
  | configure {p : Process} {s : Session} : Session.Step text p.session s →
      s.conversation = p.session.conversation → Step text chars p { p with session := s }
  | setBudget {p : Process} (budget : Budget) :
      Step text chars p { p with pager := p.pager.setBudget budget }
  | save {p : Process} : text.ReadsPretty chars p.session.serialize →
      Step text chars p { p with saved := some p.session }
  | restart {p : Process} (generation : String) :
      Step text chars p (initialized text chars generation p.saved p.newest)

def Carried (p : Process) (page : Origin) : Prop :=
  PageAmong p.session.conversation.chain page ∨ (∃ buffer ∈ p.issued, buffer.origin = page) ∨
    ∃ s, p.saved = some s ∧ PageAmong s.conversation.chain page

structure Ranked (text : JsonText) (chars : ToChars) (p : Process) : Prop where
  sound : p.session.Sound
  readable : p.session.conversation.graph.Every (MessagePayload.Readable text)
  file : ∀ s, p.saved = some s → s.Sound ∧ text.ReadsPretty chars s.serialize ∧
    s.conversation.graph.Every (MessagePayload.Readable text)
  bounded : p.pager.nextRank < Pager.kSizeLimit
  below : ∀ page, p.Carried page → page.rank < p.pager.nextRank
  newest : ∀ source run page, p.newest source = some run → p.Carried page →
    page.source = source → page.rank ≤ run.rank

variable {text : JsonText} {chars : ToChars} {p p' : Process}

def OriginsIn (Q : Origin → Prop) : MessagePayload → Prop
  | .tool receipt => ∀ page, receipt.origin = some page → Q page
  | _ => True

theorem settled_originsIn (Q : Origin → Prop) : MessageGraph.Settled (OriginsIn Q) := by
  refine ⟨fun _ _ => trivial,?_⟩
  intro call page hp
  simp at hp

theorem pageAmong_iff {Q : Origin → Prop} {chain : List MessageNode} :
    (∀ page, PageAmong chain page → Q page) ↔ ∀ n ∈ chain, OriginsIn Q n.payload := by
  constructor
  · intro h n hn
    cases hp : n.payload with
    | tool receipt =>
        intro page ho
        exact h page ⟨n,hn,by simpa [pageOrigin,hp] using ho⟩
    | _ => trivial
  · rintro h page ⟨n,hn,ho⟩
    obtain ⟨receipt,hp,ho⟩ := pageOrigin_eq_some ho
    have := h n hn
    rw [hp] at this
    exact this page ho

theorem pageOrigin_node (g : MessageGraph) (id : MessageId) (text : JsonText) {msg : ChatMessage}
    (h : msg.role = .tool) (timestamp : String) :
    pageOrigin (g.node id (toPayload text msg) timestamp) = Origin.originOf text msg.content := by
  simp [pageOrigin,MessageGraph.node,toPayload,h]

theorem pageAmong_append {s : Session} (hs : s.Sound) {id : MessageId}
    (hf : s.conversation.graph.Fresh id) {msg : ChatMessage} {page : Origin}
    (h : PageAmong (s.conversation.append text id msg).chain page) :
    PageAmong s.conversation.chain page ∨
      msg.role = .tool ∧ Origin.originOf text msg.content = some page := by
  have hchain : (s.conversation.append text id msg).chain =
      MessageGraph.answerIn (toPayload text msg) s.conversation.chain ++
        [s.conversation.graph.node id (toPayload text msg) msg.timestamp] :=
    MessageGraph.chain_appendAfterLeaf hs.graph hf _ _
  rw [hchain] at h
  obtain ⟨n,hn,ho⟩ := h
  rcases List.mem_append.mp hn with hn | hn
  · have hold := (MessageGraph.completesOne_answerIn (toPayload text msg)
      s.conversation.chain).every (settled_originsIn (PageAmong s.conversation.chain))
        (pageAmong_iff.mp fun page hp => hp)
    exact .inl (pageAmong_iff.mpr hold page ⟨n,hn,ho⟩)
  · rw [List.mem_singleton.mp hn] at ho
    cases hr : msg.role with
    | tool =>
        rw [pageOrigin_node _ _ _ hr] at ho
        exact .inr ⟨rfl,ho⟩
    | _ => simp [pageOrigin,MessageGraph.node,toPayload,hr] at ho

theorem pageOrigin_interruptNode (n : MessageNode) :
    pageOrigin (MessageGraph.interruptNode n) = pageOrigin n := by
  unfold MessageGraph.interruptNode
  split
  · next hp => simp [pageOrigin,hp]
  · rfl

theorem not_pageAmong_receiptNodes {parent : MessageId} {newId : Nat → MessageId}
    {calls : List ToolCallRecord} {page : Origin} :
    ¬ PageAmong (MessageGraph.receiptNodes parent newId calls) page := by
  induction calls generalizing parent newId with
  | nil => simp [PageAmong,MessageGraph.receiptNodes]
  | cons call calls ih =>
      simp only [MessageGraph.receiptNodes,pageAmong_cons_iff,not_or]
      exact ⟨by simp [pageOrigin,MessageGraph.cancelledReceipt],ih⟩

theorem pageAmong_seal {g : MessageGraph} (h : g.Sound) {newId : Nat → MessageId}
    (hs : g.FreshSupply newId) {page : Origin}
    (hp : PageAmong (g.sealInterruptedToolCalls newId).chain page) : PageAmong g.chain page := by
  cases hl : g.find g.leaf with
  | none => rwa [MessageGraph.sealInterruptedToolCalls_of_find_eq_none hl] at hp
  | some n =>
      obtain ⟨ns,hns⟩ := MessageGraph.chain_eq_concat h hl
      rw [(MessageGraph.seal_spec h hs hns).2] at hp
      obtain ⟨m,hm,ho⟩ := hp
      rw [hns]
      rcases List.mem_append.mp hm with hm | hm
      · exact ⟨m,List.mem_append_left _ hm,ho⟩
      · rcases List.mem_cons.mp hm with rfl | hm
        · exact ⟨n,by simp,by rwa [pageOrigin_interruptNode] at ho⟩
        · exact absurd ⟨m,hm,ho⟩ not_pageAmong_receiptNodes

theorem pageAmong_reread {d : Doubles} {g : MessageGraph} {page : Origin} :
    PageAmong (g.reread d).chain page ↔ PageAmong g.chain page := by
  have hsame : ∀ n : MessageNode, pageOrigin (n.reread d) = pageOrigin n := by
    intro n
    obtain ⟨id,timestamp,payload,parent⟩ := n
    cases payload <;> rfl
  rw [MessageGraph.chain_reread]
  simp [PageAmong,hsame]

theorem originOf_page {buffer : Buffer} {page : Page} {success blocked : Bool}
    {output error : List UInt8} {exitCode : Int32} {refusal : Refusal} {o : Origin}
    (hr : text.Reads (.object
      (pageMembers buffer page success output error exitCode blocked refusal)))
    (ho : Origin.originOf text (Tools.makeToolResultJson text success output error exitCode
      blocked refusal (envelope buffer page)) = some o) : o = buffer.origin := by
  have hparse := hr.reread
  obtain ⟨members,fields,hm,hb,hsource,hid,hrank⟩ := Origin.originOf_fields ho
  have hmembers : (pageMembers buffer page success output error exitCode blocked refusal).map
      (fun m => (m.1, m.2.reread .plain)) = members := by
    rw [reread_object] at hparse
    exact Json.object.inj (Option.some.inj (hparse.symm.trans hm))
  rw [← hmembers,find_reread,find_pageMembers,Option.map_some] at hb
  have hfields : (Json.object [("id", .string buffer.id), ("source", .string buffer.source),
      ("rank", .uint64 buffer.rank)]).reread .plain = .object fields := Option.some.inj hb
  rw [← hfields,Origin.rankIn_reread (by simp)] at hrank
  rw [reread_object] at hfields
  rw [← Json.object.inj hfields] at hsource hid
  obtain ⟨source,id,rank⟩ := o
  simp [Origin.rankIn] at hsource hid hrank
  simp [Buffer.origin,hsource,hid,hrank]

theorem Ranked.narrow (h : Ranked text chars p) (hs : p'.session.Sound)
    (hr : p'.session.conversation.graph.Every (MessagePayload.Readable text))
    (hfile : ∀ s, p'.saved = some s → s.Sound ∧ text.ReadsPretty chars s.serialize ∧
      s.conversation.graph.Every (MessagePayload.Readable text))
    (hnext : p'.pager.nextRank = p.pager.nextRank) (hnewest : p'.newest = p.newest)
    (hcarried : ∀ page, p'.Carried page → p.Carried page) : Ranked text chars p' := by
  refine ⟨hs,hr,hfile,by rw [hnext]; exact h.bounded,?_,?_⟩
  · intro page hc
    rw [hnext]
    exact h.below page (hcarried page hc)
  · intro source run page hn hc
    rw [hnewest] at hn
    exact h.newest source run page hn (hcarried page hc)

theorem Ranked.converse (h : Ranked text chars p) {c : Conversation}
    (hs : Session.Sound { p.session with conversation := c })
    (hr : c.graph.Every (MessagePayload.Readable text))
    (hp : ∀ page, PageAmong c.chain page → p.Carried page) :
    Ranked text chars (p.converse c) := by
  refine h.narrow hs hr h.file rfl rfl ?_
  rintro page (hc | hc)
  · exact hp page hc
  · exact .inr hc

theorem Ranked.store (h : Ranked text chars p) (captured : Exec.Captured)
    (verdict : Exec.Verdict) (sourceKey : String)
    (hroom : p.pager.nextRank < Pager.kSizeLimit - 1) :
    Ranked text chars (p.store captured verdict sourceKey) := by
  have hnext : (p.store captured verdict sourceKey).pager.nextRank = p.pager.nextRank + 1 := by
    have hlt : p.pager.nextRank + 1 < Pager.kSizeLimit := by omega
    exact Nat.mod_eq_of_lt hlt
  have hcarried : ∀ page, (p.store captured verdict sourceKey).Carried page →
      p.Carried page ∨ (p.pager.store captured verdict sourceKey).1.origin = page := by
    rintro page (hc | ⟨buffer,hb,rfl⟩ | hc)
    · exact .inl (.inl hc)
    · rcases List.mem_append.mp hb with hb | hb
      · exact .inl (.inr (.inl ⟨buffer,hb,rfl⟩))
      · rw [List.mem_singleton.mp hb]
        exact .inr rfl
    · exact .inl (.inr (.inr hc))
  have hrank : (p.pager.store captured verdict sourceKey).1.origin.rank = p.pager.nextRank := rfl
  refine ⟨h.sound,h.readable,h.file,by omega,?_,?_⟩
  · intro page hc
    rw [hnext]
    rcases hcarried page hc with hc | rfl
    · exact Nat.lt_succ_of_lt (h.below page hc)
    · omega
  · intro source run page hn hc hsource
    simp only [Process.store,Function.update_apply] at hn
    split at hn
    · obtain rfl := Option.some.inj hn
      rcases hcarried page hc with hc | rfl
      · have := h.below page hc
        omega
      · exact le_rfl
    · next hne =>
        rcases hcarried page hc with hc | rfl
        · exact h.newest source run page hn hc hsource
        · exact absurd hsource.symm hne

theorem ranked_unsaved (text : JsonText) (chars : ToChars) (generation : String)
    (newest : String → Option Origin) :
    Ranked text chars (initialized text chars generation none newest) := by
  have hnone : ∀ page, ¬ (initialized text chars generation none newest).Carried page := by
    rintro page (hc | ⟨buffer,hb,_⟩ | ⟨s,hs,_⟩)
    · exact absurd hc (by simp [initialized,PageAmong,Conversation.chain,Conversation.new,
        MessageGraph.chain_of_leaf_eq_empty MessageGraph.sound_empty rfl])
    · simp [initialized] at hb
    · simp [initialized] at hs
  refine ⟨Session.sound_new,MessageGraph.every_empty,?_,?_,?_,?_⟩
  · intro s hs
    simp [initialized] at hs
  · simp [initialized,Pager.kSizeLimit]
  · intro page hc
    exact absurd hc (hnone page)
  · intro _ _ page _ hc
    exact absurd hc (hnone page)

theorem initialized_saved {generation : String} {s : Session} {newest : String → Option Origin}
    (hs : s.Sound) (hread : text.ReadsPretty chars s.serialize) :
    initialized text chars generation (some s) newest =
      ⟨Pager.continueRankingFrom { generation := generation }
        (highestRankIn (s.reread chars.toDoubles)), s.reread chars.toDoubles, [], some s,
        newest⟩ := by
  simp only [initialized,Option.bind_some,Session.loadSession_saved hs hread]

theorem highestRankIn_reread_lt {s : Session} {d : Doubles} {limit : Nat} (hl : 0 < limit)
    (h : ∀ page, PageAmong s.conversation.chain page → page.rank < limit) :
    highestRankIn (s.reread d) < limit := by
  refine foldl_raiseTo_lt ?_ hl
  intro page hp
  exact h page (pageAmong_reread.mp hp)

theorem ranked_initialized {generation : String} {saved : Option Session}
    {newest : String → Option Origin}
    (hfile : ∀ s, saved = some s → s.Sound ∧ text.ReadsPretty chars s.serialize ∧
      s.conversation.graph.Every (MessagePayload.Readable text))
    (hrank : ∀ s, saved = some s → ∀ page, PageAmong s.conversation.chain page →
      page.rank < Pager.kSizeLimit - 1)
    (hnewest : ∀ source run page s, newest source = some run → saved = some s →
      PageAmong s.conversation.chain page → page.source = source → page.rank ≤ run.rank) :
    Ranked text chars (initialized text chars generation saved newest) := by
  cases saved with
  | none => exact ranked_unsaved text chars generation newest
  | some s =>
      obtain ⟨hs,hread,hr⟩ := hfile s rfl
      have hhigh : highestRankIn (s.reread chars.toDoubles) < Pager.kSizeLimit - 1 :=
        highestRankIn_reread_lt (by simp [Pager.kSizeLimit]) (hrank s rfl)
      have hnext : (Pager.continueRankingFrom { generation := generation }
          (highestRankIn (s.reread chars.toDoubles))).nextRank =
            max 1 (highestRankIn (s.reread chars.toDoubles) + 1) := by
        simp only [Pager.continueRankingFrom]
        rw [Nat.mod_eq_of_lt (by omega)]
      rw [initialized_saved hs hread]
      have hcarried : ∀ page, Carried ⟨Pager.continueRankingFrom { generation := generation }
          (highestRankIn (s.reread chars.toDoubles)), s.reread chars.toDoubles, [], some s,
          newest⟩ page → PageAmong s.conversation.chain page := by
        rintro page (hc | ⟨buffer,hb,_⟩ | ⟨s',hs',hc⟩)
        · exact pageAmong_reread.mp hc
        · simp at hb
        · obtain rfl := Option.some.inj hs'
          exact hc
      refine ⟨hs.reread,MessageGraph.every_reread (fun _ hp => hp.reread) hr,hfile,?_,?_,?_⟩
      · rw [hnext]
        omega
      · intro page hc
        have hle : page.rank ≤ highestRankIn (s.reread chars.toDoubles) :=
          rank_le_foldl_raiseTo (pageAmong_reread.mpr (hcarried page hc)) 0
        rw [hnext]
        omega
      · intro source run page hn hc
        exact hnewest source run page s hn rfl (hcarried page hc)

theorem Ranked.append (h : Ranked text chars p) {id : MessageId}
    (hf : p.session.conversation.graph.Fresh id) (msg : ChatMessage)
    (hpage : msg.role = .tool → ∀ page, Origin.originOf text msg.content = some page →
      p.Carried page) :
    Ranked text chars (p.converse (p.session.conversation.append text id msg)) := by
  have hstep : Session.Step text p.session _ := .append msg hf
  refine h.converse (Session.step_sound h.sound hstep)
    (Session.step_every (settled_readable text) (toPayload_readable text) h.sound h.readable
      hstep) ?_
  intro page hp
  rcases pageAmong_append h.sound hf hp with hp | ⟨hrole,ho⟩
  · exact .inl hp
  · exact hpage hrole page ho

theorem step_ranked (h : Ranked text chars p) (hs : Step text chars p p') :
    Ranked text chars p' := by
  have hkeep : ∀ {s : Session}, Session.Step text p.session s →
      s.Sound ∧ s.conversation.graph.Every (MessagePayload.Readable text) := by
    intro s hs
    exact ⟨Session.step_sound h.sound hs,Session.step_every (settled_readable text)
      (toPayload_readable text) h.sound h.readable hs⟩
  cases hs with
  | store captured verdict sourceKey hroom => exact h.store captured verdict sourceKey hroom
  | @appendPage id buffer page success output error exitCode blocked refusal msg hb hf hr hcontent =>
      refine h.append hf msg ?_
      intro _ o ho
      rw [hcontent] at ho
      exact .inr (.inl ⟨buffer,hb,(originOf_page hr ho).symm⟩)
  | appendOther msg hf hnone =>
      refine h.append hf msg ?_
      intro hrole page ho
      rw [hnone hrole] at ho
      simp at ho
  | sealCalls hf =>
      obtain ⟨hsound,hread⟩ := hkeep (.sealCalls hf)
      exact h.converse hsound hread (fun page hp => .inl (pageAmong_seal h.sound.graph hf hp))
  | rewind hr =>
      obtain ⟨hsound,hread⟩ := hkeep (.rewind hr)
      obtain ⟨_,_,_,_,_,_,hchain⟩ := Conversation.rewindBefore_ok h.sound.graph hr
      refine h.converse hsound hread ?_
      rw [hchain]
      rintro page ⟨n,hn,ho⟩
      exact .inl ⟨n,List.mem_of_mem_take hn,ho⟩
  | clear =>
      obtain ⟨hsound,hread⟩ := hkeep .clear
      refine h.converse hsound hread ?_
      rintro page ⟨n,hn,_⟩
      have hnil : p.session.conversation.clearHistory.chain = [] :=
        MessageGraph.chain_of_leaf_eq_empty MessageGraph.sound_empty rfl
      rw [hnil] at hn
      simp at hn
  | @configure s hs hc =>
      obtain ⟨hsound,hread⟩ := hkeep hs
      refine h.narrow hsound hread h.file rfl rfl ?_
      intro page hp
      unfold Carried at hp ⊢
      rwa [← hc]
  | setBudget budget => exact h.narrow h.sound h.readable h.file rfl rfl (fun _ hp => hp)
  | save hr =>
      refine h.narrow h.sound h.readable ?_ rfl rfl ?_
      · intro s hs
        obtain rfl := Option.some.inj hs
        exact ⟨h.sound,hr,h.readable⟩
      · rintro page (hp | hp | ⟨s,hs,hp⟩)
        · exact .inl hp
        · exact .inr (.inl hp)
        · obtain rfl := Option.some.inj hs
          exact .inl hp
  | restart generation =>
      refine ranked_initialized h.file ?_ ?_
      · intro s hs page hp
        have := h.below page (.inr (.inr ⟨s,hs,hp⟩))
        have := h.bounded
        omega
      · intro source run page s hn hs hp
        exact h.newest source run page hn (.inr (.inr ⟨s,hs,hp⟩))

structure Start (text : JsonText) (chars : ToChars) (p : Process) : Prop where
  file : ∀ s, p.saved = some s → Session.Kept text chars s ∧ text.ReadsPretty chars s.serialize ∧
    ∀ page, PageAmong s.conversation.chain page → page.rank < Pager.kSizeLimit - 1
  opened : ∃ generation, p = initialized text chars generation p.saved (fun _ => none)

theorem start_ranked (h : Start text chars p) : Ranked text chars p := by
  obtain ⟨generation,hp⟩ := h.opened
  rw [hp]
  refine ranked_initialized ?_ ?_ ?_
  · intro s hs
    obtain ⟨hk,hr,_⟩ := h.file s hs
    exact ⟨Session.kept_sound hk,hr,Session.kept_readable hk⟩
  · intro s hs
    exact (h.file s hs).2.2
  · intro source run page s hn
    simp at hn

theorem run_ranked {p₀ : Process} (h : Start text chars p₀)
    (hr : Relation.ReflTransGen (Step text chars) p₀ p) : Ranked text chars p := by
  induction hr with
  | refl => exact start_ranked h
  | tail _ hs ih => exact step_ranked ih hs

theorem rank_continuity {p₀ : Process} (h : Start text chars p₀)
    (hr : Relation.ReflTransGen (Step text chars) p₀ p) :
    (∀ captured verdict sourceKey page, PageAmong p.session.conversation.chain page →
      page.rank < (p.pager.store captured verdict sourceKey).1.rank) ∧
    ∀ before node later page inputs, p.session.conversation.chain = before ++ node :: later →
      pageOrigin node = some page → p.newest page.source = some page →
      ShownVerbatim text p.session.conversation.graph inputs before node := by
  have hranked := run_ranked h hr
  refine ⟨?_,?_⟩
  · intro captured verdict sourceKey page hp
    exact hranked.below page (.inl hp)
  · intro before node later page inputs hsplit ho hn
    rw [shownVerbatim_iff hranked.sound.graph hranked.readable inputs hsplit,
      replacedBy_newest ho ?_]
    · rfl
    · rintro other ⟨n,hmem,hother⟩ hs
      refine hranked.newest page.source page other hn (.inl ⟨n,?_,hother⟩) hs
      rw [hsplit]
      exact List.mem_append_right _ (List.mem_cons_of_mem _ hmem)

def plainChars : ToChars := ⟨.plain, fun _ => ""⟩

-- One command made, its page kept, the session saved, and the same made again after a restart.
def opened (text : JsonText) : Process := initialized text plainChars "ab12" none (fun _ => none)

def madePayload : MessagePayload :=
  .tool ⟨"", "", compact (.object makeMembers), some makeRun.origin⟩

def madeNode : MessageNode := ⟨"n1", "", madePayload, ""⟩

def madeSession : Session :=
  { conversation := ⟨MessageGraph.empty.appendAfterLeaf "n1" madePayload ""⟩ }

def remadeRun : Buffer :=
  (Pager.store { generation := "cd34", nextRank := 2 } makeCaptured makeVerdict makeKey).1

def remadePage : Page := Paging.read remadeRun .head 120

def remadeMembers : List (String × Json) :=
  pageMembers remadeRun remadePage true remadePage.text [] 0 false .none

def remadeText : JsonText :=
  reading plainChars madeSession.serialize [makeMembers, remadeMembers]

def receiptMessage (members : List (String × Json)) : ChatMessage :=
  { role := .tool, content := compact (.object members) }

def madeOnce : Process :=
  ((opened remadeText).store makeCaptured makeVerdict makeKey).converse
    ((opened remadeText).session.conversation.append remadeText "n1" (receiptMessage makeMembers))

def restarted : Process := initialized remadeText plainChars "cd34" (some madeOnce.session)
  madeOnce.newest

def remadeStored : Process := restarted.store makeCaptured makeVerdict makeKey

def remadeOnce : Process := remadeStored.converse
  (remadeStored.session.conversation.append remadeText "n2" (receiptMessage remadeMembers))

def remadeNode : MessageNode :=
  ⟨"n2", "", .tool ⟨"", "", compact (.object remadeMembers), some remadeRun.origin⟩, "n1"⟩

theorem remadeText_reads_make : remadeText.Reads (.object makeMembers) :=
  reads_reading (List.cons_ne_nil _ _) (List.find?_cons_of_pos (by simp))

theorem remadeText_reads_remake : remadeText.Reads (.object remadeMembers) := by
  have hother : compact (.object remadeMembers) ≠ compact (.object makeMembers) := by decide +kernel
  refine reads_reading (List.cons_ne_nil _ _) ?_
  rw [List.find?_cons_of_neg (by simpa using hother)]
  exact List.find?_cons_of_pos (by simp)

theorem serialize_receipt (members : List (String × Json)) :
    remadeText.serialize (.object members) = compact (.object members) := rfl

theorem originOf_made :
    Origin.originOf remadeText (compact (.object makeMembers)) = some makeRun.origin := by
  have hstored : Stored makeRun := ⟨_,_,_,_,rfl⟩
  have h := originOf_pageMembers hstored makeRun_source_ne remadeText_reads_make
  rwa [Tools.makeToolResultJson,← pageMembers,← makeMembers,serialize_receipt] at h

theorem originOf_remade :
    Origin.originOf remadeText (compact (.object remadeMembers)) = some remadeRun.origin := by
  have hstored : Stored remadeRun := ⟨_,_,_,_,rfl⟩
  have hsource : remadeRun.source ≠ "" :=
    Pager.store_buffer_source_ne _ makeCaptured makeVerdict (by decide)
  have h := originOf_pageMembers hstored hsource remadeText_reads_remake
  rwa [Tools.makeToolResultJson,← pageMembers,← remadeMembers,serialize_receipt] at h

theorem toPayload_made :
    toPayload remadeText (receiptMessage makeMembers) = madePayload := by
  simp only [toPayload,receiptMessage,originOf_made,madePayload]

theorem madeOnce_session : madeOnce.session = madeSession := by
  rw [madeOnce,converse,Conversation.append,toPayload_made]
  rfl

theorem sound_madeSession : madeSession.Sound := by
  rw [← madeOnce_session]
  exact Session.step_sound Session.sound_new
    (.append (receiptMessage makeMembers) ⟨by decide,by decide⟩)

theorem chain_madeSession : madeSession.conversation.chain = [madeNode] := by
  rfl

theorem readsPretty_madeSession : remadeText.ReadsPretty plainChars madeSession.serialize :=
  readsPretty_reading _ _

theorem restarted_eq : restarted = ⟨{ generation := "cd34", nextRank := 2 }, madeSession, [],
    some madeSession, madeOnce.newest⟩ := by
  have hsame : madeSession.reread plainChars.toDoubles = madeSession := by
    rfl
  have hrank : highestRankIn madeSession = 1 := by
    rw [highestRankIn,chain_madeSession]
    rfl
  rw [restarted,madeOnce_session,initialized_saved sound_madeSession readsPretty_madeSession,
    hsame,hrank]
  rfl

theorem remadeStored_session : remadeStored.session = madeSession := by
  rw [remadeStored,restarted_eq]
  rfl

theorem remadeStored_issued : remadeStored.issued = [remadeRun] := by
  rw [remadeStored,restarted_eq]
  rfl

theorem remadeStored_newest : remadeStored.newest remadeRun.source = some remadeRun.origin := by
  have hstored : remadeStored.newest =
      Function.update restarted.newest remadeRun.source (some remadeRun.origin) := by
    rw [remadeStored,restarted_eq]
    rfl
  rw [hstored,Function.update_self]

theorem remadeOnce_reached :
    Relation.ReflTransGen (Step remadeText plainChars) (opened remadeText) remadeOnce := by
  have hmade : makeRun ∈ ((opened remadeText).store makeCaptured makeVerdict makeKey).issued :=
    List.mem_singleton.mpr rfl
  have hremade : remadeRun ∈ remadeStored.issued := by
    rw [remadeStored_issued]
    exact List.mem_singleton_self _
  have hfresh : remadeStored.session.conversation.graph.Fresh "n2" := by
    rw [remadeStored_session]
    exact ⟨by decide,by decide⟩
  have happend : Step remadeText plainChars
      ((opened remadeText).store makeCaptured makeVerdict makeKey) madeOnce :=
    .appendPage makePage true makePage.text [] 0 false .none _ hmade ⟨by decide,by decide⟩
      remadeText_reads_make rfl
  have hsave : Step remadeText plainChars madeOnce
      { madeOnce with saved := some madeOnce.session } := by
    refine .save ?_
    rw [madeOnce_session]
    exact readsPretty_madeSession
  have hrestart : Step remadeText plainChars { madeOnce with saved := some madeOnce.session }
      restarted := .restart "cd34"
  have hstore : Step remadeText plainChars restarted remadeStored := by
    refine .store makeCaptured makeVerdict makeKey ?_
    rw [restarted_eq]
    decide
  have hremake : Step remadeText plainChars remadeStored remadeOnce :=
    .appendPage remadePage true remadePage.text [] 0 false .none (receiptMessage remadeMembers)
      hremade hfresh remadeText_reads_remake rfl
  exact (((((Relation.ReflTransGen.single
    (.store makeCaptured makeVerdict makeKey (by decide))).tail happend).tail hsave).tail
      hrestart).tail hstore).tail hremake

theorem chain_remadeOnce : remadeOnce.session.conversation.chain = [madeNode, remadeNode] := by
  have hpayload : toPayload remadeText (receiptMessage remadeMembers) = remadeNode.payload := by
    simp only [toPayload,receiptMessage,originOf_remade,remadeNode]
  rw [remadeOnce,converse,Conversation.append,hpayload,remadeStored_session]
  rfl

theorem rank_continuity_remade_once :
    remadeOnce.session.conversation.chain = [madeNode, remadeNode] ∧
      (∀ page, PageAmong remadeOnce.session.conversation.chain page →
        page.rank < (remadeOnce.pager.store makeCaptured makeVerdict makeKey).1.rank) ∧
      ∀ inputs, ShownVerbatim remadeText remadeOnce.session.conversation.graph inputs [madeNode]
        remadeNode := by
  have hstart : Start remadeText plainChars (opened remadeText) := by
    refine ⟨?_,"ab12",rfl⟩
    intro s hs
    simp [opened,initialized] at hs
  have hall := rank_continuity hstart remadeOnce_reached
  refine ⟨chain_remadeOnce,hall.1 makeCaptured makeVerdict makeKey,?_⟩
  intro inputs
  exact hall.2 [madeNode] remadeNode [] remadeRun.origin inputs chain_remadeOnce rfl
    remadeStored_newest

end Process

end PuCli
