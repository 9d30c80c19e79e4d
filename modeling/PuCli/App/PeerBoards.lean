import PuCli.App.PeerNetwork
import PuCli.Serve.Digest

namespace PuCli

open Json Http
open Serve (Board Clock)

-- What one pull answered; an error is told instead of an empty board.
structure PeerSnapshot where
  peer : String
  board : Json := .null
  error : String := ""

-- std::int64_t: a number that is a whole one in range.
instance : FromJson Int :=
  ⟨fun j =>
    match toNumber j with
    | some (.finite q) =>
        if q.den = 1 ∧ -9223372036854775808 ≤ q.num ∧ q.num < 9223372036854775808 then some q.num
        else none
    | _ => none⟩

namespace BoardReader

def request (cfg : PeerConfig) : Request :=
  { method := .get, target := PeerTool.kJobsPath, authorization := PeerTool.headers cfg }

def pullOne (text : JsonText) (peer : PeerEntry) : Except String String → PeerSnapshot
  | .error what => { peer := peer.name, error := what }
  | .ok body =>
      match text.parse body with
      | some board => { peer := peer.name, board := board }
      | none => { peer := peer.name, error := text.parseError body }

def pullAll (text : JsonText) (client : Option (PeerEntry → Except String String))
    (peers : List PeerEntry) : List PeerSnapshot :=
  match client with
  | none => []
  | some get => peers.map (fun peer => pullOne text peer (get peer))

def flag (job : Json) (key said : String) : String :=
  match (optionalOrDefault job key : Option Bool) with
  | some true => said
  | _ => ""

def told (job : Json) (key said : String) : String :=
  Serve.spoken said (optionalOrDefault job key)

def appendJob (self : String) (job : Json) : String :=
  let holder := valueOrDefault job "to" ""
  let sender := valueOrDefault job "from" ""
  "  - " ++ valueOrDefault job "id" "" ++ " " ++
    (if holder = self then "you hold" else "held by " ++ holder) ++ ", " ++
    (if sender = self then "you posted" else "posted by " ++ Serve.byOr sender "a person") ++ ": " ++
    valueOrDefault job "intent" "" ++ " [" ++ valueOrDefault job "state" "" ++
    flag job "overdue" ", overdue" ++ told job "question" ", asking: " ++
    told job "result" ", result: " ++ "]\n"

def seen (board : Json) : String :=
  match board.get? "self" with
  | some presence =>
      if presence.hasKey "seen_seconds" then
        toString (valueOrDefault presence "seen_seconds" (0 : Int))
      else ""
  | none => ""

def describeOne (self : String) (snapshot : PeerSnapshot) : Option String :=
  if snapshot.error ≠ "" then
    some ("  - " ++ snapshot.peer ++ " could not be read: " ++ snapshot.error ++ "\n")
  else if snapshot.board.isObject then
    let lastRead := seen snapshot.board
    some ("  - " ++ snapshot.peer ++ ":" ++
      (if lastRead = "" then "" else " your board was last read by it " ++ lastRead ++ "s ago;") ++
      "\n" ++ String.join (match snapshot.board.get? "jobs" with
        | some (.array jobs) => (jobs.filter isObject).map (appendJob self)
        | _ => []))
  else none

def describe (self : String) (snapshots : List PeerSnapshot) : String :=
  let sections := snapshots.filterMap (describeOne self)
  if sections = [] then "" else "=== Peer boards ===\n" ++ String.join sections

-- The line a job of a board comes to, drawn from the job itself.
def jobLine (clock : Clock) (self : String) (job : Serve.Job) : String :=
  "  - " ++ job.id ++ " " ++
    (if job.holder = self then "you hold" else "held by " ++ job.holder) ++ ", " ++
    (if job.sender = self then "you posted"
      else "posted by " ++ Serve.byOr job.sender "a person") ++ ": " ++
    job.intent ++ " [" ++ Serve.jobStateName job.state ++
    (if !job.closed && Serve.overdue clock job then ", overdue" else "") ++
    Serve.spoken ", asking: " job.question ++ Serve.spoken ", result: " job.result ++ "]\n"

theorem optionalOrDefault_reread {α : Type} [FromJson α] [Steady α] (d : Doubles) (j : Json)
    (key : String) :
    (optionalOrDefault (j.reread d) key : Option α) = optionalOrDefault j key := by
  unfold optionalOrDefault
  rw [get?_reread]
  cases j.get? key with
  | none => rfl
  | some v => exact Steady.valueTo_reread d v

theorem valueTo_bool_number {j : Json} (h : Number j) :
    (FromJson.valueTo j : Option Bool) = none := by
  cases h <;> rfl

instance : Steady Bool := ⟨by
  intro d j
  cases j with
  | object ms => simp [FromJson.valueTo]
  | array xs => simp [FromJson.valueTo]
  | uint64 n =>
      rw [valueTo_bool_number (Number.reread (.uint64 n)),valueTo_bool_number (.uint64 n)]
  | double q =>
      rw [valueTo_bool_number (Number.reread (.double q)),valueTo_bool_number (.double q)]
  | _ => rfl⟩

theorem appendJob_reread (self : String) (d : Doubles) (j : Json) :
    appendJob self (j.reread d) = appendJob self j := by
  unfold appendJob told flag
  simp only [valueOrDefault_reread,optionalOrDefault_reread]

theorem find_told (key other : String) (text : Option String) :
    find (Serve.told key text) other =
      if key = other then text.map Json.string else none := by
  cases text <;> simp [Serve.told]

theorem find_counted (key other : String) (n : UInt32) :
    find (Serve.counted key n) other =
      if key = other ∧ 0 < n then some (.uint64 n.toNat) else none := by
  unfold Serve.counted
  split
  · next hpos => simp [hpos]
  · next hpos => simp [hpos]

theorem get_overdue (clock : Clock) (job : Serve.Job) :
    (Serve.render clock job).get? "overdue" =
      some (.bool (!job.closed && Serve.overdue clock job)) := by
  cases hdue : job.dueAt <;> simp [Serve.render,Serve.overdue,find_told,hdue]

theorem get_question (clock : Clock) (job : Serve.Job) :
    (Serve.render clock job).get? "question" = job.question.map Json.string := by
  by_cases hnote : job.note = "" <;> simp [Serve.render,find_told,find_counted,hnote]

theorem get_result (clock : Clock) (job : Serve.Job) :
    (Serve.render clock job).get? "result" = job.result.map Json.string := by
  by_cases hnote : job.note = "" <;> simp [Serve.render,find_told,find_counted,hnote]

theorem told_get {j : Json} {key : String} {text : Option String} (said : String)
    (h : j.get? key = text.map Json.string) : told j key said = Serve.spoken said text := by
  rw [told,optionalOrDefault,h]
  cases text <;> rfl

theorem flag_get {j : Json} {key : String} {b : Bool} (said : String)
    (h : j.get? key = some (.bool b)) : flag j key said = if b then said else "" := by
  rw [flag,optionalOrDefault,h]
  cases b <;> rfl

theorem valueOrDefault_get {j : Json} {key value : String} (h : j.get? key = some (.string value)) :
    valueOrDefault j key "" = value := by
  rw [valueOrDefault,h]
  rfl

theorem appendJob_render (clock : Clock) (self : String) (job : Serve.Job) :
    appendJob self (Serve.render clock job) = jobLine clock self job := by
  have hid : (Serve.render clock job).get? "id" = some (.string job.id) := by simp [Serve.render]
  have hto : (Serve.render clock job).get? "to" = some (.string job.holder) := by
    simp [Serve.render]
  have hfrom : (Serve.render clock job).get? "from" = some (.string job.sender) := by
    simp [Serve.render]
  have hintent : (Serve.render clock job).get? "intent" = some (.string job.intent) := by
    simp [Serve.render]
  have hstate : (Serve.render clock job).get? "state" =
      some (.string (Serve.jobStateName job.state)) := by
    simp [Serve.render]
  unfold appendJob jobLine
  rw [flag_get _ (get_overdue clock job),told_get _ (get_question clock job),
    told_get _ (get_result clock job),valueOrDefault_get hid,valueOrDefault_get hto,
    valueOrDefault_get hfrom,valueOrDefault_get hintent,valueOrDefault_get hstate]

def boardsRoute : Route :=
  { target := "/api/jobs", method := .get, handler := handleApiJobsGet, audience := .kPeerToken
    needsBoard := true }

section Answers

variable {site : Site} {views : Views} {pages : List String} {s : Server} {q : Received}
  {cfg : PeerConfig}

theorem routeFor_boards (hq : q.request = request cfg) :
    routeFor site views q.request = some boardsRoute := by
  rw [hq]
  simp [routeFor,request,PeerTool.kJobsPath,routes,boardsRoute]

theorem wrap_snapshot (clock : Clock) (b : Board) :
    wrap "" (b.snapshot clock Serve.kOfflineAfter) = b.snapshot clock Serve.kOfflineAfter := by
  simp [wrap,Board.snapshot,asObject,assign]

theorem sendRefusal_none {target : String} {admission : Admission}
    (h : sendRefusal target admission = none) : admission = .kAllowed := by
  cases admission with
  | kAllowed => rfl
  | _ => cases h

-- A board is given to a request the token admits; having read it the peer has been heard.
theorem dispatch_boards (hq : q.request = request cfg) :
    (∃ r, dispatch site views pages q s = (r, s) ∧ 400 ≤ r.status ∧
      (¬ Admitted q s ∨ s.board = none)) ∨
    ∃ heard b b', Admitted q s ∧ s.board = some b ∧ b' = b.touchPeer q.tick heard "" ∧
      dispatch site views pages q s =
        (.json 200 (b'.snapshot q.clock Serve.kOfflineAfter) false, { s with board := some b' }) := by
  have hpage : isPageFile pages q.request.target = false := by
    rw [hq]
    exact isPageFile_path pages (.job "" "")
  unfold dispatch
  rw [if_neg (by simp [hpage]),routeFor_boards hq]
  dsimp only
  unfold answer
  by_cases ha : Admitted q s
  · have hadmits : admits boardsRoute.audience q.address (bearerToken q.request.authorization)
        s.runtime.peers = .kAllowed := ha
    rw [hadmits]
    dsimp only [sendRefusal]
    cases hb : s.board with
    | none =>
        rw [if_pos ⟨rfl,rfl⟩]
        exact .inl ⟨_,rfl,by decide,.inr rfl⟩
    | some b =>
        obtain ⟨heard,-,hpeer⟩ := ha.config
        rw [if_neg (by simp),touched_board rfl rfl hpeer hb]
        refine .inr ⟨heard.selfName,b,_,ha,rfl,rfl,?_⟩
        rw [← wrap_snapshot]
        rfl
  · cases hsent : sendRefusal boardsRoute.target (admits boardsRoute.audience q.address
        (bearerToken q.request.authorization) s.runtime.peers) with
    | none => exact absurd (sendRefusal_none hsent) ha
    | some r => exact .inl ⟨r,rfl,sendRefusal_status hsent,.inl ha⟩

end Answers

-- What a reader is told of one peer: that it could not be read, or every job of its board.
inductive Told (self : String) (q : Received) (s : Server) (peer : PeerEntry) : String → Prop
  | unread {what : String} (hwhat : what ≠ "") (h : ¬ Admitted q s ∨ s.board = none) :
      Told self q s peer ("  - " ++ peer.name ++ " could not be read: " ++ what ++ "\n")
  | board {b : Board} (h : Admitted q s) (hb : s.board = some b) :
      Told self q s peer ("  - " ++ peer.name ++ ":\n" ++
        String.join (b.jobs.map (jobLine q.clock self)))

theorem describeOne_error (self : String) (peer : PeerEntry) {what : String} (h : what ≠ "") :
    describeOne self { peer := peer.name, error := what } =
      some ("  - " ++ peer.name ++ " could not be read: " ++ what ++ "\n") := if_pos h

theorem describeOne_board (self : String) (peer : PeerEntry) (clock : Clock) (b : Board)
    (d : Doubles) :
    describeOne self
      { peer := peer.name, board := (b.snapshot clock Serve.kOfflineAfter).reread d } =
      some ("  - " ++ peer.name ++ ":\n" ++ String.join (b.jobs.map (jobLine clock self))) := by
  have hjobs : ((b.snapshot clock Serve.kOfflineAfter).reread d).get? "jobs" =
      some (.array ((b.jobs.map (Serve.render clock)).map (Json.reread d))) := by
    rw [get?_reread]
    simp [Board.snapshot]
  have hself : ((b.snapshot clock Serve.kOfflineAfter).reread d).get? "self" = none := by
    rw [get?_reread]
    simp [Board.snapshot]
  have hlines : (((b.jobs.map (Serve.render clock)).map (Json.reread d)).filter isObject).map
      (appendJob self) = b.jobs.map (jobLine clock self) := by
    rw [List.filter_eq_self.mpr]
    · rw [List.map_map,List.map_map]
      refine List.map_congr_left ?_
      intro job _
      exact (appendJob_reread self d _).trans (appendJob_render clock self job)
    · intro j hj
      obtain ⟨j',hj',rfl⟩ := List.mem_map.mp hj
      obtain ⟨job,-,rfl⟩ := List.mem_map.mp hj'
      rw [isObject_reread]
      rfl
  rw [describeOne,if_neg (by simp),if_pos (by rw [isObject_reread]; rfl)]
  dsimp only
  rw [seen,hself,hjobs]
  dsimp only
  have hcolon : "  - " ++ peer.name ++ ":" ++ "\n" = "  - " ++ peer.name ++ ":\n" := by
    rw [String.append_assoc,String.append_assoc,String.append_assoc]
    rfl
  rw [hlines,if_pos rfl,String.append_empty,hcolon]

section Read

variable {text : JsonText} {errorText : Nat → String → String} {cfg : PeerConfig}

theorem describeOne_pulled {site : Site} {views : Views} {pages : List String} {s : Server}
    {q : Received} (self : String) (peer : PeerEntry) (herror : ∀ status body, errorText status body ≠ "")
    (hq : q.request = request cfg)
    (hreads : ∀ status body authenticate, status < 400 →
      (dispatch site views pages q s).1 = .json status body authenticate → text.Reads body) :
    ∃ said, Told self q s peer said ∧ describeOne self (pullOne text peer
      (PeerTool.heard text errorText (dispatch site views pages q s).1)) = some said := by
  rcases @dispatch_boards site views pages s q cfg hq with
    ⟨r,hr,hstatus,hwhy⟩ | ⟨heard,b,b',ha,hb,hb',hdispatch⟩
  · rw [hr]
    have hwhat : ∃ what, what ≠ "" ∧ PeerTool.heard text errorText r = .error what := by
      cases r with
      | file target => exact absurd hstatus (by simp [Response.status])
      | json status body authenticate => exact ⟨_,herror _ _,if_pos hstatus⟩
      | notFound => exact ⟨_,herror _ _,rfl⟩
    obtain ⟨what,hne,hheard⟩ := hwhat
    rw [hheard]
    exact ⟨_,.unread hne hwhy,describeOne_error self peer hne⟩
  · have hread := hreads 200 _ false (by decide) (congrArg Prod.fst hdispatch)
    rw [hdispatch,PeerTool.heard,if_neg (by decide),pullOne,hread.reread]
    refine ⟨_,.board ha hb,?_⟩
    have hjobs : b'.jobs = b.jobs := by
      rw [hb']
      exact (Board.touchPeer_same q.tick b heard "").1
    rw [← hjobs]
    exact describeOne_board self peer q.clock b' .plain

theorem every_peer_told {site : PeerEntry → Site} {views : PeerEntry → Views}
    {pages : PeerEntry → List String} {s : PeerEntry → Server} {q : PeerEntry → Received}
    (herror : ∀ status body, errorText status body ≠ "")
    (hq : ∀ peer, (q peer).request = request cfg)
    (hreads : ∀ peer status body authenticate, status < 400 →
      (dispatch (site peer) (views peer) (pages peer) (q peer) (s peer)).1 =
        .json status body authenticate → text.Reads body) :
    ∃ sections, List.Forall₂ (fun peer said => Told cfg.selfName (q peer) (s peer) peer said)
        cfg.peers sections ∧
      describe cfg.selfName (pullAll text (some fun peer => PeerTool.heard text errorText
        (dispatch (site peer) (views peer) (pages peer) (q peer) (s peer)).1) cfg.peers) =
      if cfg.peers = [] then "" else "=== Peer boards ===\n" ++ String.join sections := by
  choose said htold hdescribed using fun peer =>
    describeOne_pulled cfg.selfName peer herror (hq peer) (hreads peer)
  refine ⟨cfg.peers.map said,?_,?_⟩
  · rw [List.forall₂_map_right_iff]
    exact List.forall₂_same.mpr (fun peer _ => htold peer)
  · rw [describe,pullAll,List.filterMap_map]
    have hsome : (describeOne cfg.selfName ∘ fun peer => pullOne text peer (PeerTool.heard text
        errorText (dispatch (site peer) (views peer) (pages peer) (q peer) (s peer)).1)) =
        fun peer => some (said peer) := funext hdescribed
    rw [hsome,List.filterMap_eq_map']
    simp only [List.map_eq_nil_iff]

def summing : Board :=
  { jobs := [{ id := "j1", sender := "A", holder := "C", intent := "sum", createdAt := "1"
               updatedAt := "1" }] }

def keeperC : Server := { runtime := Runtime.servingC, board := some summing }

def pulledByA : Received :=
  { request := request PeerNetwork.callerA, address := "10.0.0.1", tick := Board.tickAt "2" ""
    clock := PeerNetwork.stillClock }

def summingDoc : Json :=
  (summing.touchPeer (Board.tickAt "2" "") "C" "").snapshot PeerNetwork.stillClock
    Serve.kOfflineAfter

def summingText : JsonText where
  parse _ := some (summingDoc.reread .plain)
  serialize _ := "\x7b"
  parseError s := s
  kindError _ := ""

def answeredToA (_ : PeerEntry) : Response :=
  (dispatch PeerNetwork.callSite noViews [] pulledByA keeperC).1

theorem answeredToA_reads (peer : PeerEntry) {status : Nat} {body : Json} {authenticate : Bool}
    (h : answeredToA peer = .json status body authenticate) : summingText.Reads body := by
  have hbody : body = summingDoc := by
    injection h with _ hj _
    exact hj.symm
  rw [hbody]
  exact ⟨rfl,fun _ => rfl⟩

theorem every_peer_told_sum :
    describe "A" (pullAll summingText (some fun peer => PeerTool.heard summingText
        (fun _ _ => "refused") (answeredToA peer)) [PeerNetwork.peerC]) =
      "=== Peer boards ===\n  - C:\n  - j1 held by C, you posted: sum [open]\n" ∧
    ∃ sections, List.Forall₂ (fun peer said => Told "A" pulledByA keeperC peer said)
        [PeerNetwork.peerC] sections ∧
      describe "A" (pullAll summingText (some fun peer => PeerTool.heard summingText
        (fun _ _ => "refused") (answeredToA peer)) [PeerNetwork.peerC]) =
      if [PeerNetwork.peerC] = [] then "" else "=== Peer boards ===\n" ++ String.join sections :=
  ⟨by decide +kernel,every_peer_told (by simp)
    (fun _ => show pulledByA.request = request PeerNetwork.callerA from rfl)
    (fun peer _ _ _ _ h => answeredToA_reads peer h)⟩

end Read

end BoardReader

end PuCli
