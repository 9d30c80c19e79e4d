import PuCli.Session.SessionRuns

namespace PuCli

open Json

def replacedBy (newerBehind : String → Newer) (node : MessageNode) : Option String :=
  match pageOrigin node with
  | none => none
  | some page =>
      if page.rank < (newerBehind page.source).rank then some (newerBehind page.source).buffer
      else none

def noteNewer (newerBehind : String → Newer) (node : MessageNode) : String → Newer :=
  match pageOrigin node with
  | none => newerBehind
  | some page =>
      Function.update newerBehind page.source
        (if (newerBehind page.source).rank < page.rank then ⟨page.rank, page.buffer⟩
          else newerBehind page.source)

def newestBehind : List MessageNode → String → Newer
  | [] => fun _ => ⟨0, ""⟩
  | node :: later => noteNewer (newestBehind later) node

theorem supersededFrom_cons (newerBehind : String → Newer) (node : MessageNode)
    (earlier : List MessageNode) :
    supersededFrom newerBehind (node :: earlier) =
      replacedBy newerBehind node :: supersededFrom (noteNewer newerBehind node) earlier := by
  cases ho : pageOrigin node with
  | none => simp [supersededFrom,replacedBy,noteNewer,ho]
  | some page => simp [supersededFrom,replacedBy,noteNewer,ho]

theorem supersededFrom_append (newerBehind : String → Newer) (xs ys : List MessageNode) :
    supersededFrom newerBehind (xs ++ ys) =
      supersededFrom newerBehind xs ++ supersededFrom (xs.foldl noteNewer newerBehind) ys := by
  induction xs generalizing newerBehind with
  | nil => rfl
  | cons x xs ih =>
      rw [List.cons_append,supersededFrom_cons,supersededFrom_cons,ih]
      rfl

theorem foldl_noteNewer_reverse (later : List MessageNode) :
    later.reverse.foldl noteNewer (fun _ => ⟨0, ""⟩) = newestBehind later := by
  induction later with
  | nil => rfl
  | cons node later ih =>
      rw [List.reverse_cons,List.foldl_append,ih]
      rfl

theorem supersededPages_cons (node : MessageNode) (later : List MessageNode) :
    supersededPages (node :: later) =
      replacedBy (newestBehind later) node :: supersededPages later := by
  unfold supersededPages
  rw [List.reverse_cons,supersededFrom_append,foldl_noteNewer_reverse,supersededFrom_cons]
  simp [supersededFrom]

def PageAmong (nodes : List MessageNode) (page : Origin) : Prop :=
  ∃ node ∈ nodes, pageOrigin node = some page

structure NewestRun (source : String) (later : List MessageNode) (newest : Origin) : Prop where
  among : PageAmong later newest
  sourced : newest.source = source
  maximal : ∀ other, PageAmong later other → other.source = source → other.rank ≤ newest.rank

structure LatestRun (source : String) (later : List MessageNode) (newest : Origin) : Prop
    extends NewestRun source later newest where
  latest : ∃ between node behind, later = between ++ node :: behind ∧
    pageOrigin node = some newest ∧
    ∀ other, PageAmong behind other → other.source = source → other.rank < newest.rank

variable {later : List MessageNode} {node : MessageNode} {page newest other : Origin}

theorem PageAmong.cons (h : PageAmong later page) : PageAmong (node :: later) page := by
  obtain ⟨n,hn,ho⟩ := h
  exact ⟨n,List.mem_cons_of_mem _ hn,ho⟩

theorem pageAmong_cons_iff :
    PageAmong (node :: later) page ↔ pageOrigin node = some page ∨ PageAmong later page := by
  simp [PageAmong]

theorem rank_le_newestBehind (h : PageAmong later page) :
    page.rank ≤ (newestBehind later page.source).rank := by
  induction later with
  | nil =>
      obtain ⟨n,hn,_⟩ := h
      simp at hn
  | cons node later ih =>
      cases ho : pageOrigin node with
      | none =>
          have hl : PageAmong later page := by simpa [pageAmong_cons_iff,ho] using h
          simpa [newestBehind,noteNewer,ho] using ih hl
      | some read =>
          simp only [newestBehind,noteNewer,ho]
          by_cases hs : page.source = read.source
          · rw [hs,Function.update_self]
            rcases pageAmong_cons_iff.mp h with hp | hp
            · obtain rfl := Option.some.inj (ho.symm.trans hp)
              split
              · exact le_rfl
              · next hnot => exact Nat.le_of_not_lt hnot
            · have hle := ih hp
              rw [hs] at hle
              split
              · next hlt => exact Nat.le_of_lt (Nat.lt_of_le_of_lt hle hlt)
              · exact hle
          · rw [Function.update_of_ne hs]
            rcases pageAmong_cons_iff.mp h with hp | hp
            · exact absurd (congrArg Origin.source (Option.some.inj (ho.symm.trans hp))).symm hs
            · exact ih hp

theorem LatestRun.cons {source : String} (h : LatestRun source later newest)
    (hn : ∀ other, pageOrigin node = some other → other.source = source →
      other.rank ≤ newest.rank) : LatestRun source (node :: later) newest := by
  obtain ⟨between,read,behind,hsplit,hread,hbehind⟩ := h.latest
  refine ⟨⟨h.among.cons,h.sourced,?_⟩,node :: between,read,behind,by rw [hsplit]; rfl,hread,hbehind⟩
  intro other ho hs
  rcases pageAmong_cons_iff.mp ho with ho | ho
  · exact hn other ho hs
  · exact h.maximal other ho hs

theorem latestRun_head (ho : pageOrigin node = some page)
    (h : (newestBehind later page.source).rank < page.rank) :
    LatestRun page.source (node :: later) page := by
  have hbehind : ∀ other, PageAmong later other → other.source = page.source →
      other.rank < page.rank := by
    intro other hother hs
    have hle := rank_le_newestBehind hother
    rw [hs] at hle
    exact Nat.lt_of_le_of_lt hle h
  refine ⟨⟨pageAmong_cons_iff.mpr (.inl ho),rfl,?_⟩,[],node,later,rfl,ho,hbehind⟩
  intro other hother hs
  rcases pageAmong_cons_iff.mp hother with hp | hp
  · obtain rfl := Option.some.inj (ho.symm.trans hp)
    exact le_rfl
  · exact Nat.le_of_lt (hbehind other hp hs)

theorem newestBehind_latest {source : String} (h : 0 < (newestBehind later source).rank) :
    ∃ newest, LatestRun source later newest ∧
      newestBehind later source = ⟨newest.rank,newest.buffer⟩ := by
  induction later with
  | nil => simp [newestBehind] at h
  | cons node later ih =>
      cases ho : pageOrigin node with
      | none =>
          simp only [newestBehind,noteNewer,ho] at h ⊢
          obtain ⟨newest,hn,heq⟩ := ih h
          refine ⟨newest,hn.cons ?_,heq⟩
          intro other hother
          simp [ho] at hother
      | some read =>
          simp only [newestBehind,noteNewer,ho] at h ⊢
          by_cases hs : source = read.source
          · subst hs
            rw [Function.update_self] at h ⊢
            split at h
            · next hlt =>
                rw [if_pos hlt]
                exact ⟨read,latestRun_head ho hlt,rfl⟩
            · next hle =>
                rw [if_neg hle]
                obtain ⟨newest,hn,heq⟩ := ih h
                refine ⟨newest,hn.cons ?_,heq⟩
                intro other hother _
                obtain rfl := Option.some.inj (ho.symm.trans hother)
                rw [heq] at hle
                exact Nat.le_of_not_lt hle
          · rw [Function.update_of_ne hs] at h ⊢
            obtain ⟨newest,hn,heq⟩ := ih h
            refine ⟨newest,hn.cons ?_,heq⟩
            intro other hother hsource
            obtain rfl := Option.some.inj (ho.symm.trans hother)
            exact absurd hsource.symm hs

theorem LatestRun.unique {source : String} (h : LatestRun source later newest)
    (h' : LatestRun source later other) : newest = other := by
  have hrank : newest.rank = other.rank :=
    Nat.le_antisymm (h'.maximal newest h.among h.sourced) (h.maximal other h'.among h'.sourced)
  obtain ⟨between,node,behind,hsplit,hnode,hbehind⟩ := h.latest
  obtain ⟨between',node',behind',hsplit',hnode',hbehind'⟩ := h'.latest
  rcases List.append_eq_append_iff.mp (hsplit.symm.trans hsplit') with ⟨mid,_,hm⟩ | ⟨mid,_,hm⟩
  · cases mid with
    | nil =>
        obtain ⟨rfl,_⟩ := List.cons.inj hm
        exact Option.some.inj (hnode.symm.trans hnode')
    | cons x mid =>
        obtain ⟨rfl,hb⟩ := List.cons.inj hm
        have hlt := hbehind other ⟨node',by simp [hb],hnode'⟩ h'.sourced
        omega
  · cases mid with
    | nil =>
        obtain ⟨rfl,_⟩ := List.cons.inj hm
        exact Option.some.inj (hnode.symm.trans hnode')
    | cons x mid =>
        obtain ⟨rfl,hb⟩ := List.cons.inj hm
        have hlt := hbehind' newest ⟨node,by simp [hb],hnode⟩ h.sourced
        omega

theorem replacedBy_of_no_origin (newerBehind : String → Newer) (h : pageOrigin node = none) :
    replacedBy newerBehind node = none := by
  simp [replacedBy,h]

theorem replacedBy_newer (h : pageOrigin node = some page) (hn : PageAmong later other)
    (hs : other.source = page.source) (hr : page.rank < other.rank) :
    ∃ newest, LatestRun page.source later newest ∧
      replacedBy (newestBehind later) node = some newest.buffer := by
  have hle := rank_le_newestBehind hn
  rw [hs] at hle
  have hpos : 0 < (newestBehind later page.source).rank := by omega
  obtain ⟨newest,hnewest,heq⟩ := newestBehind_latest hpos
  refine ⟨newest,hnewest,?_⟩
  simp only [replacedBy,h]
  rw [if_pos (Nat.lt_of_lt_of_le hr hle),heq]

theorem replacedBy_newest (h : pageOrigin node = some page)
    (hn : ∀ other, PageAmong later other → other.source = page.source → other.rank ≤ page.rank) :
    replacedBy (newestBehind later) node = none := by
  simp only [replacedBy,h]
  refine if_neg ?_
  intro hlt
  obtain ⟨newest,hnewest,heq⟩ := newestBehind_latest (Nat.zero_lt_of_lt hlt)
  rw [heq] at hlt
  exact absurd (hn newest hnewest.among hnewest.sourced) (Nat.not_le_of_lt hlt)

variable {text : JsonText}

theorem renderPath_ok {position : Int} {replaced : Option String}
    {rest : List (MessageNode × Option String)} {msgs : List ChatMessage}
    (h : renderPath text position ((node, replaced) :: rest) = .ok msgs) :
    ∃ content turns,
      shownContent text (renderMessage node position).content replaced = .ok content ∧
      renderPath text (position + 1) rest = .ok turns ∧
      msgs = { renderMessage node position with content := content } :: turns := by
  obtain ⟨content,hc,h⟩ := bind_eq_ok h
  obtain ⟨turns,ht,h⟩ := bind_eq_ok h
  exact ⟨content,turns,hc,ht,(Except.ok.inj h).symm⟩

theorem renderPath_at {chain : List MessageNode} {position : Int} {turns : List ChatMessage}
    (h : renderPath text position (chain.zip (supersededPages chain)) = .ok turns) :
    turns.length = chain.length ∧
      ∀ before node later, chain = before ++ node :: later → ∃ content,
        shownContent text (renderMessage node (position + before.length)).content
          (replacedBy (newestBehind later) node) = .ok content ∧
        turns[before.length]? =
          some { renderMessage node (position + before.length) with content := content } := by
  induction chain generalizing position turns with
  | nil =>
      obtain rfl : [] = turns := Except.ok.inj h
      exact ⟨rfl,by simp⟩
  | cons first chain ih =>
      rw [supersededPages_cons,List.zip_cons_cons] at h
      obtain ⟨content,rest,hc,hr,rfl⟩ := renderPath_ok h
      obtain ⟨hlen,hat⟩ := ih hr
      refine ⟨by simp [hlen],?_⟩
      intro before node later hsplit
      cases before with
      | nil =>
          obtain ⟨rfl,rfl⟩ := List.cons.inj hsplit
          exact ⟨content,by simpa using hc,by simp⟩
      | cons b before =>
          obtain ⟨_,hsplit⟩ := List.cons.inj hsplit
          obtain ⟨shown,hs,hget⟩ := hat before node later hsplit
          have hpos : position + ((b :: before).length : Int) = position + 1 + before.length := by
            simp only [List.length_cons]
            omega
          rw [hpos]
          exact ⟨shown,hs,by simpa using hget⟩

theorem renderPath_total {chain : List MessageNode} {position : Int}
    (h : ∀ before node later, chain = before ++ node :: later →
      ∀ page, pageOrigin node = some page → ∀ p, ∃ members,
        text.parse (renderMessage node p).content = some (.object members)) :
    ∃ turns, renderPath text position (chain.zip (supersededPages chain)) = .ok turns := by
  induction chain generalizing position with
  | nil => exact ⟨[],rfl⟩
  | cons first chain ih =>
      obtain ⟨turns,ht⟩ := @ih (position + 1)
        (fun before node later hs => h (first :: before) node later (by rw [hs]; rfl))
      rw [supersededPages_cons,List.zip_cons_cons]
      have hshown : ∃ content, shownContent text (renderMessage first position).content
          (replacedBy (newestBehind chain) first) = .ok content := by
        cases ho : pageOrigin first with
        | none =>
            rw [replacedBy_of_no_origin _ ho]
            exact ⟨_,rfl⟩
        | some page =>
            obtain ⟨members,hm⟩ := h [] first chain rfl page ho position
            cases replacedBy (newestBehind chain) first with
            | none => exact ⟨_,rfl⟩
            | some buffer => exact ⟨_,by simp [shownContent,Origin.supersededReceipt,hm]; rfl⟩
      obtain ⟨content,hc⟩ := hshown
      refine ⟨{ renderMessage first position with content := content } :: turns,?_⟩
      simp only [renderPath,hc,ht]
      rfl

def MessagePayload.Readable (text : JsonText) : MessagePayload → Prop
  | .tool p => ∀ o, p.origin = some o → Origin.originOf text p.content = some o
  | _ => True

theorem settled_readable (text : JsonText) :
    MessageGraph.Settled (MessagePayload.Readable text) := by
  refine ⟨fun _ _ => trivial,?_⟩
  intro c o ho
  simp at ho

theorem toPayload_readable (text : JsonText) (msg : ChatMessage) :
    (toPayload text msg).Readable text := by
  cases hr : msg.role with
  | tool =>
      simp only [toPayload,hr]
      intro o ho
      exact ho
  | _ => simp [toPayload,hr,MessagePayload.Readable]

theorem Session.reachable_readable {s : Session} (h : Session.Reachable text s) :
    s.conversation.graph.Every (MessagePayload.Readable text) :=
  Session.reachable_every (settled_readable text) (toPayload_readable text) h

theorem pageOrigin_eq_some (h : pageOrigin node = some page) :
    ∃ p, node.payload = .tool p ∧ p.origin = some page := by
  unfold pageOrigin at h
  split at h
  · next p hp => exact ⟨p,hp,h⟩
  · simp at h

theorem buildRequestPath_ok {graph : MessageGraph} {inputs : RequestInputs}
    {msgs : List ChatMessage} (h : buildRequestPath text graph inputs = .ok msgs) :
    ∃ turns, msgs = systemMessages inputs ++ turns ∧
      renderPath text ((systemMessages inputs).length + 1)
        (graph.chain.zip (supersededPages graph.chain)) = .ok turns := by
  obtain ⟨turns,ht,h⟩ := bind_eq_ok h
  exact ⟨turns,(Except.ok.inj h).symm,ht⟩

theorem buildRequestPath_total {graph : MessageGraph} (h : graph.Sound)
    (hr : graph.Every (MessagePayload.Readable text)) (inputs : RequestInputs) :
    ∃ msgs, buildRequestPath text graph inputs = .ok msgs := by
  have hrender := @renderPath_total text graph.chain
    ((systemMessages inputs).length + 1) ?_
  · obtain ⟨turns,ht⟩ := hrender
    refine ⟨systemMessages inputs ++ turns,?_⟩
    simp only [buildRequestPath,ht]
    rfl
  · intro before node later hsplit page hpage position
    have hmem : node ∈ graph.chain := by simp [hsplit]
    have hread := hr _ _ (MessageGraph.find_of_mem_chain h hmem)
    obtain ⟨p,hp,ho⟩ := pageOrigin_eq_some hpage
    rw [hp] at hread
    obtain ⟨members,_,hm,_⟩ := Origin.originOf_fields (hread page ho)
    exact ⟨members,by simpa [renderMessage,hp] using hm⟩

theorem Session.reachable_request {s : Session} (h : Session.Reachable text s)
    (inputs : RequestInputs) :
    ∃ msgs, buildRequestPath text s.conversation.graph inputs = .ok msgs :=
  buildRequestPath_total (Session.reachable_sound h).graph (Session.reachable_readable h) inputs

def Outrun (page : Origin) (later : List MessageNode) : Prop :=
  ∃ other, PageAmong later other ∧ other.source = page.source ∧ page.rank < other.rank

structure ProjectedMessage (text : JsonText) (position : Int) (node : MessageNode)
    (later : List MessageNode) (msg : ChatMessage) : Prop where
  rendered : msg = { renderMessage node position with content := msg.content }
  verbatim : pageOrigin node = none → msg.content = (renderMessage node position).content
  replaced : ∀ page, pageOrigin node = some page → 0 < page.rank → Outrun page later →
    ∃ newest, NewestRun page.source later newest ∧
      Origin.supersededReceipt text (renderMessage node position).content newest.buffer =
        .ok msg.content
  kept : ∀ page, pageOrigin node = some page → 0 < page.rank → ¬ Outrun page later →
    msg.content = (renderMessage node position).content

def Projected (text : JsonText) (chain : List MessageNode) (inputs : RequestInputs)
    (msgs : List ChatMessage) : Prop :=
  ∃ turns, msgs = systemMessages inputs ++ turns ∧ turns.length = chain.length ∧
    ∀ before node later, chain = before ++ node :: later → ∃ msg,
      turns[before.length]? = some msg ∧
      ProjectedMessage text ((systemMessages inputs).length + 1 + before.length) node later msg

theorem not_outrun (h : ¬ Outrun page later) :
    ∀ other, PageAmong later other → other.source = page.source → other.rank ≤ page.rank := by
  intro other ho hs
  by_contra hlt
  exact h ⟨other,ho,hs,Nat.lt_of_not_le hlt⟩

theorem projected_of_ok {graph : MessageGraph} {inputs : RequestInputs}
    {msgs : List ChatMessage} (h : buildRequestPath text graph inputs = .ok msgs) :
    Projected text graph.chain inputs msgs := by
  obtain ⟨turns,rfl,hr⟩ := buildRequestPath_ok h
  obtain ⟨hlen,hat⟩ := renderPath_at hr
  refine ⟨turns,rfl,hlen,?_⟩
  intro before node later hsplit
  obtain ⟨content,hc,hget⟩ := hat before node later hsplit
  refine ⟨_,hget,rfl,?_,?_,?_⟩
  · intro ho
    rw [replacedBy_of_no_origin _ ho] at hc
    exact (Except.ok.inj hc).symm
  · intro page ho _ hout
    obtain ⟨other,hother,hs,hlt⟩ := hout
    obtain ⟨newest,hnewest,hrep⟩ := replacedBy_newer ho hother hs hlt
    rw [hrep] at hc
    exact ⟨newest,hnewest.toNewestRun,hc⟩
  · intro page ho _ hout
    rw [replacedBy_newest ho (not_outrun hout)] at hc
    exact (Except.ok.inj hc).symm

def pageJson (output buffer : String) (rank : List (String × Json)) : List (String × Json) :=
  [("success", .bool true), ("output", .string output),
    ("buffer", .object ([("id", .string buffer), ("source", .string "s1")] ++ rank))]

def unrankedPage : String :=
  "\x7b\"success\":true,\"output\":\"old\"," ++
    "\"buffer\":\x7b\"id\":\"o1\",\"source\":\"s1\"\x7d\x7d"

def firstPage : String :=
  "\x7b\"success\":true,\"output\":\"old\"," ++
    "\"buffer\":\x7b\"id\":\"o1\",\"source\":\"s1\",\"rank\":1\x7d\x7d"

def secondPage : String :=
  "\x7b\"success\":true,\"output\":\"new\"," ++
    "\"buffer\":\x7b\"id\":\"o2\",\"source\":\"s1\",\"rank\":2\x7d\x7d"

def pagesText : JsonText where
  parse receipt :=
    if receipt = unrankedPage then some (.object (pageJson "old" "o1" []))
    else if receipt = firstPage then some (.object (pageJson "old" "o1" [("rank", .int64 1)]))
    else if receipt = secondPage then some (.object (pageJson "new" "o2" [("rank", .int64 2)]))
    else none
  serialize j :=
    if j = .object (pageJson "" "o1" [] ++ [("superseded_by", .string "o2")]) then
      "\x7b\"success\":true,\"output\":\"\"," ++
        "\"buffer\":\x7b\"id\":\"o1\",\"source\":\"s1\"\x7d,\"superseded_by\":\"o2\"\x7d"
    else
      "\x7b\"success\":true,\"output\":\"\"," ++
        "\"buffer\":\x7b\"id\":\"o1\",\"source\":\"s1\",\"rank\":1\x7d,\"superseded_by\":\"o2\"\x7d"
  parseError _ := "syntax error"
  kindError _ := "value is not an object"

def callOf (id : String) : Json :=
  .array [toolCallToJson ⟨id, "execute_bash", .object [("command", .string "make")], .pending⟩]

def ranOnce (receipt : String) : Session :=
  let c := Conversation.new
  let c := c.append pagesText "n1" { role := .user, content := "build" }
  let c := c.append pagesText "n2" { role := .assistant, toolCalls := callOf "c1" }
  let c := c.append pagesText "n3" { role := .tool, content := receipt, toolCallId := "c1" }
  { conversation := c }

def ranTwice (receipt : String) : Session :=
  let c := (ranOnce receipt).conversation
  let c := c.append pagesText "n4" { role := .assistant, toolCalls := callOf "c2" }
  let c := c.append pagesText "n5" { role := .tool, content := secondPage, toolCallId := "c2" }
  { conversation := c }

theorem ranOnce_reachable {receipt : String} (h : receipt = unrankedPage ∨ receipt = firstPage) :
    Session.Reachable pagesText (ranOnce receipt) := by
  rcases h with rfl | rfl <;>
    exact .step (.step (.step .new (.append _ ⟨by decide,by decide⟩))
      (.append _ ⟨by decide,by decide⟩)) (.append _ ⟨by decide,by decide⟩)

theorem ranTwice_reachable {receipt : String} (h : receipt = unrankedPage ∨ receipt = firstPage) :
    Session.Reachable pagesText (ranTwice receipt) := by
  have hone := ranOnce_reachable h
  rcases h with rfl | rfl <;>
    exact .step (.step hone (.append _ ⟨by decide,by decide⟩)) (.append _ ⟨by decide,by decide⟩)

def ShownVerbatim (text : JsonText) (graph : MessageGraph) (inputs : RequestInputs)
    (before : List MessageNode) (node : MessageNode) : Prop :=
  ∃ msgs, buildRequestPath text graph inputs = .ok msgs ∧
    msgs[(systemMessages inputs).length + before.length]? =
      some (renderMessage node ((systemMessages inputs).length + 1 + before.length))

theorem shownVerbatim_iff {graph : MessageGraph} (h : graph.Sound)
    (hread : graph.Every (MessagePayload.Readable text)) (inputs : RequestInputs)
    {before later : List MessageNode} (hsplit : graph.chain = before ++ node :: later) :
    ShownVerbatim text graph inputs before node ↔
      shownContent text (renderMessage node 0).content (replacedBy (newestBehind later) node) =
        .ok (renderMessage node 0).content := by
  obtain ⟨msgs,hm⟩ := buildRequestPath_total h hread inputs
  obtain ⟨turns,hmsgs,hr⟩ := buildRequestPath_ok hm
  obtain ⟨_,hat⟩ := renderPath_at hr
  obtain ⟨content,hc,hget⟩ := hat before node later hsplit
  have hsame : ∀ position, (renderMessage node position).content =
      (renderMessage node 0).content := by
    intro position
    unfold renderMessage
    split <;> rfl
  rw [hsame] at hc
  rw [hc]
  constructor
  · rintro ⟨msgs',hm',hmsg⟩
    obtain rfl := Except.ok.inj (hm.symm.trans hm')
    rw [hmsgs,List.getElem?_append_right (by omega),Nat.add_sub_cancel_left,hget] at hmsg
    have := congrArg ChatMessage.content (Option.some.inj hmsg)
    rw [hsame] at this
    exact congrArg Except.ok this
  · intro hv
    obtain rfl := Except.ok.inj hv
    refine ⟨msgs,hm,?_⟩
    rw [hmsgs,List.getElem?_append_right (by omega),Nat.add_sub_cancel_left,hget]
    rw [← hsame ((systemMessages inputs).length + 1 + before.length)]

theorem unranked_page_verbatim_iff {s : Session} (h : Session.Reachable text s)
    (inputs : RequestInputs) {before later : List MessageNode}
    (hsplit : s.conversation.chain = before ++ node :: later)
    (ho : pageOrigin node = some page) (hr : page.rank = 0) :
    ShownVerbatim text s.conversation.graph inputs before node ↔
      (∀ other, PageAmong later other → other.source = page.source → other.rank = 0) ∨
      ∃ newest, LatestRun page.source later newest ∧
        Origin.supersededReceipt text (renderMessage node 0).content newest.buffer =
          .ok (renderMessage node 0).content := by
  rw [shownVerbatim_iff (Session.reachable_sound h).graph (Session.reachable_readable h) inputs
    hsplit]
  by_cases hnone : ∀ other, PageAmong later other → other.source = page.source → other.rank = 0
  · have hkept : replacedBy (newestBehind later) node = none := by
      refine replacedBy_newest ho ?_
      intro other hother hs
      rw [hnone other hother hs]
      exact Nat.zero_le _
    rw [hkept]
    exact ⟨fun _ => .inl hnone,fun _ => rfl⟩
  · push Not at hnone
    obtain ⟨other,hother,hs,hne⟩ := hnone
    obtain ⟨newest,hnewest,hrep⟩ := replacedBy_newer ho hother hs (by omega)
    rw [hrep]
    constructor
    · intro hv
      exact .inr ⟨newest,hnewest,hv⟩
    · rintro (hall | ⟨latest,hlatest,hv⟩)
      · exact absurd (hall other hother hs) hne
      · rw [hnewest.unique hlatest]
        exact hv

def unrankedNode : MessageNode :=
  ⟨"n3", "", .tool ⟨"c1", "", unrankedPage, some ⟨"s1", "o1", 0⟩⟩, "n2"⟩

theorem unranked_page_verbatim_ran_once :
    (pageOrigin unrankedNode).map Origin.rank = some 0 ∧
      ShownVerbatim pagesText (ranOnce unrankedPage).conversation.graph ⟨"", ""⟩
        ((ranOnce unrankedPage).conversation.chain.take 2) unrankedNode := by
  have hsplit : (ranOnce unrankedPage).conversation.chain =
      (ranOnce unrankedPage).conversation.chain.take 2 ++ unrankedNode :: [] := by decide
  refine ⟨rfl,?_⟩
  refine (unranked_page_verbatim_iff (ranOnce_reachable (.inl rfl)) ⟨"", ""⟩ hsplit
    rfl rfl).mpr (.inl ?_)
  rintro other ⟨node,hn,_⟩
  simp at hn

theorem unranked_page_superseded :
    Session.Reachable pagesText (ranTwice unrankedPage) ∧
      (pageOrigin unrankedNode).map Origin.rank = some 0 ∧
      ¬ ShownVerbatim pagesText (ranTwice unrankedPage).conversation.graph ⟨"", ""⟩
        ((ranTwice unrankedPage).conversation.chain.take 2) unrankedNode := by
  have hreach := ranTwice_reachable (.inl rfl)
  have hsplit : (ranTwice unrankedPage).conversation.chain =
      (ranTwice unrankedPage).conversation.chain.take 2 ++
        unrankedNode :: (ranTwice unrankedPage).conversation.chain.drop 3 := by decide
  refine ⟨hreach,rfl,?_⟩
  rw [shownVerbatim_iff (Session.reachable_sound hreach).graph
    (Session.reachable_readable hreach) _ hsplit]
  decide

end PuCli
