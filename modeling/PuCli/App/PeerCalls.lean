import PuCli.App.HttpRuns
import PuCli.Core.Reread

namespace PuCli

open Json InPlace
open Serve (Board JobRequest Tick Verb)

namespace PeerTool

-- The two requests of one send_to_peer call.
inductive Errand where
  | job (intent due : String)
  | message (said : String) (posted : PostedJob)

namespace Errand

def path : Errand → String
  | .job _ _ => kJobsPath
  | .message _ _ => kPeerPath

def doc (cfg : PeerConfig) (peer : PeerEntry) : Errand → Json
  | .job intent due => .object
      ([("from", .string cfg.selfName), ("to", .string peer.name), ("intent", .string intent)] ++
        if due = "" then [] else [("due", .string due)])
  | .message said posted => .object [("from", .string cfg.selfName), ("message", .string said),
      ("job", .string posted.id), ("hop", .int64 1)]

def post (text : JsonText) (cfg : PeerConfig) (peer : PeerEntry) : Errand → Post
  | .job intent due => jobPost text cfg peer intent due
  | .message said posted => messagePost text cfg peer said posted

theorem post_eq (text : JsonText) (cfg : PeerConfig) (peer : PeerEntry) (errand : Errand) :
    errand.post text cfg peer = ⟨peer.url ++ errand.path,text.serialize (errand.doc cfg peer)⟩ := by
  cases errand <;> rfl

end Errand

def headers (cfg : PeerConfig) : List UInt8 :=
  if cfg.token = "" then [] else Utf8.bytesOf ("Bearer " ++ cfg.token)

def request (text : JsonText) (cfg : PeerConfig) (peer : PeerEntry) (errand : Errand) :
    Http.Request :=
  { method := .post, target := errand.path, authorization := headers cfg
    body := (errand.post text cfg peer).body }

-- The client throws at a status from 400 on; neither path is a page's, so a file is never read.
def heard (text : JsonText) (errorText : Nat → String → String) :
    Http.Response → Except String String
  | .json status body _ =>
      if 400 ≤ status then .error (errorText status (text.serialize body))
      else .ok (text.serialize body)
  | .notFound => .error (errorText 404 "")
  | .file _ => .ok ""

end PeerTool

namespace Http

open PeerTool (Errand)

section Calls

variable {site : Site} {views : Views} {pages : List String} {s : Server} {q : Received}
  {sender : PeerConfig} {peer : PeerEntry}

theorem isPageFile_path (pages : List String) (errand : Errand) :
    isPageFile pages errand.path = false := by
  cases errand with
  | job _ _ =>
      have hslash : '/' ∈ PeerTool.kJobsPath.toList.tail := by decide
      simp [isPageFile,Errand.path,hslash,show PeerTool.kJobsPath ≠ "/" by decide]
  | message _ _ =>
      have hslash : '/' ∈ PeerTool.kPeerPath.toList.tail := by decide
      simp [isPageFile,Errand.path,hslash,show PeerTool.kPeerPath ≠ "/" by decide]

theorem body_ne_empty {text : JsonText} {j : Json} (h : text.Reads j) (hobject : j.isObject = true) :
    text.serialize j ≠ "" := by
  intro he
  have hbrace := h.brace hobject
  rw [he] at hbrace
  simp at hbrace

theorem parseBody_doc {text : JsonText} {errand : Errand} (h : text.Reads (errand.doc sender peer)) :
    parseBody text (text.serialize (errand.doc sender peer)) = .ok (errand.doc sender peer) := by
  have hobject : (errand.doc sender peer).isObject = true := by cases errand <;> rfl
  have hsame : (errand.doc sender peer).reread .plain = errand.doc sender peer := by
    cases errand with
    | job intent due =>
        simp only [Errand.doc]
        split <;> simp
    | message _ _ => simp [Errand.doc]
  unfold parseBody
  rw [if_neg (body_ne_empty h hobject),h.reread,hsame]

theorem sendRefusal_status {target : String} {admission : Admission} {r : Response}
    (h : sendRefusal target admission = some r) : 400 ≤ r.status := by
  cases admission with
  | kAllowed => cases h
  | _ =>
      cases h
      simp [sendError,Response.status]

theorem dispatch_token {route : Route} (hpage : isPageFile pages q.request.target = false)
    (hfor : routeFor site views q.request = some route) (haudience : route.audience = .kPeerToken) :
    (∃ r, dispatch site views pages q s = (r, s) ∧ 400 ≤ r.status) ∨
      Admitted q s ∧ (route.needsBoard = true → s.board ≠ none) ∧
      dispatch site views pages q s = settled route
        (ran (handled site route (callOf q s) q.request.body) (touched (callOf q s) route s)) := by
  unfold dispatch
  rw [if_neg (by simp [hpage]),hfor]
  dsimp only
  unfold answer
  rw [haudience]
  split
  · next r hrefused => exact .inl ⟨r,rfl,sendRefusal_status hrefused⟩
  · next hadmits =>
      have ha : Admitted q s := by
        unfold Admitted
        generalize admits _ _ _ _ = admission at hadmits
        cases admission with
        | kAllowed => rfl
        | _ => cases hadmits
      split
      · exact .inl ⟨_,rfl,by decide⟩
      · next hboard => exact .inr ⟨ha,fun hneeds hnone => hboard ⟨hneeds,hnone⟩,rfl⟩

def jobsRoute : Route :=
  { target := "/api/jobs", method := .post, handler := handleApiJobsPost, audience := .kPeerToken
    hasBody := true, needsBoard := true }

theorem routeFor_jobs (views : Views) (htarget : q.request.target = "/api/jobs")
    (hmethod : q.request.method = .post) : routeFor site views q.request = some jobsRoute := by
  unfold routeFor
  rw [htarget,hmethod]
  simp [routes,jobsRoute]

theorem handled_jobs (site : Site) (c : Call) (body : String) :
    handled site jobsRoute c body = match parseBody site.host.text body with
      | .ok j => handleApiJobsPost c j
      | .error e => throw e := rfl

theorem jobFrom_doc (sender : PeerConfig) (peer : PeerEntry) (intent due : String) :
    jobFrom ((Errand.job intent due).doc sender peer) false =
      { sender := some sender.selfName, holder := some peer.name, intent := some intent
        due := if due = "" then none else some due } := by
  by_cases hdue : due = ""
  · simp only [Errand.doc,if_pos hdue]
    rfl
  · simp only [Errand.doc,if_neg hdue]
    rfl

-- What a job that another server posts comes to: a refusal, or a job of the id drawn for it.
theorem posted_job {intent due : String}
    (hq : q.request = PeerTool.request site.host.text sender peer (.job intent due))
    (hreads : site.host.text.Reads ((Errand.job intent due).doc sender peer)) :
    400 ≤ (dispatch site views pages q s).1.status ∨
    ∃ cfg b r b', Admitted q s ∧ s.runtime.peers = some cfg ∧ s.board = some b ∧
      (b.touchPeer q.tick cfg.selfName "").post q.tick
        (jobFrom ((Errand.job intent due).doc sender peer) false) = .ok (r, b') ∧
      dispatch site views pages q s = (.json 200 (wrap "" (Serve.renderResult q.clock r)) false,
        { s with board := some b' }) := by
  have hpage : isPageFile pages q.request.target = false := by
    rw [hq]
    exact isPageFile_path pages (.job intent due)
  have hfor : routeFor site views q.request = some jobsRoute :=
    routeFor_jobs views (by rw [hq]; rfl) (by rw [hq]; rfl)
  rcases @dispatch_token site views pages s q jobsRoute hpage hfor rfl with ⟨r,hr,hstatus⟩ |
    ⟨ha,hboard,heq⟩
  · rw [hr]
    exact .inl hstatus
  · obtain ⟨cfg,hpeers,hpeer⟩ := ha.config
    obtain ⟨b,hb⟩ := Option.ne_none_iff_exists'.mp (hboard rfl)
    have hbody : parseBody site.host.text q.request.body =
        .ok ((Errand.job intent due).doc sender peer) := by
      rw [hq,PeerTool.request,Errand.post_eq]
      exact parseBody_doc hreads
    rw [heq,touched_board rfl rfl hpeer hb,handled_jobs,hbody]
    dsimp only
    unfold handleApiJobsPost onBoard
    cases hpost : (b.touchPeer q.tick cfg.selfName "").post q.tick
        (jobFrom ((Errand.job intent due).doc sender peer) false) with
    | error refusal =>
        rw [ran_bind_error (ran_moveBoard_error rfl hpost)]
        exact .inl (errorStatus_ge _)
    | ok done =>
        rw [ran_bind_ok (ran_moveBoard_ok rfl hpost)]
        exact .inr ⟨cfg,b,done.1,done.2,ha,hpeers,hb,hpost,rfl⟩

theorem get_job_answer (clock : Serve.Clock) (r : Serve.ActionResult) :
    (wrap "" (Serve.renderResult clock r)).get? "job" = some (Serve.render clock r.job) := by
  unfold wrap Serve.renderResult
  cases r.outcome <;> rfl

-- The caller learns the id that was drawn for its job, and no other.
theorem postJob_posted {text : JsonText} {clock : Serve.Clock} {r : Serve.ActionResult}
    {posted : PostedJob} (hreads : text.Reads (wrap "" (Serve.renderResult clock r)))
    (h : PeerTool.postJob text (.ok (text.serialize (wrap "" (Serve.renderResult clock r)))) =
      .ok posted) : posted.id = r.job.id ∧ r.job.id ≠ "" := by
  have hid : valueOrDefault ((Serve.render clock r.job).reread .plain) "id" "" = r.job.id := by
    unfold valueOrDefault
    rw [get?_reread]
    rfl
  unfold PeerTool.postJob at h
  simp only [bind,Except.bind,hreads.reread,get?_reread,get_job_answer,Option.map_some,hid] at h
  split at h
  · cases h
  · next hne =>
      cases h
      exact ⟨rfl,hne⟩

theorem arrivalOf_doc (sender : PeerConfig) (peer : PeerEntry) (said : String) (posted : PostedJob) :
    arrivalOf ((Errand.message said posted).doc sender peer) =
      ⟨sender.selfName,said,posted.id⟩ := rfl

theorem message_queued {said : String} {posted : PostedJob}
    (hq : q.request = PeerTool.request site.host.text sender peer (.message said posted))
    (hreads : site.host.text.Reads ((Errand.message said posted).doc sender peer)) :
    (400 ≤ (dispatch site views pages q s).1.status ∧ (dispatch site views pages q s).2 = s) ∨
    ∃ cfg jobs board, s.runtime.peers = some cfg ∧ s.jobs = some jobs ∧
      SessionRunner.received q.tick cfg s.board ⟨sender.selfName,said,posted.id⟩ = .ok board ∧
      (dispatch site views pages q s).2 =
        queued site.host s jobs board ⟨sender.selfName,said,posted.id⟩ := by
  have hpage : isPageFile pages q.request.target = false := by
    rw [hq]
    exact isPageFile_path pages (.message said posted)
  have htarget : q.request.target = "/api/peer/message" := by
    rw [hq]
    rfl
  have hmethod : q.request.method = .post := by
    rw [hq]
    rfl
  rcases @dispatch_token site views pages s q (messageRoute site) hpage
    (routeFor_message views htarget hmethod) rfl with ⟨r,hr,hstatus⟩ | ⟨ha,-,heq⟩
  · rw [hr]
    exact .inl ⟨hstatus,rfl⟩
  · obtain ⟨cfg,hpeers,-⟩ := ha.config
    have hbody : parseBody site.host.text q.request.body =
        .ok ((Errand.message said posted).doc sender peer) := by
      rw [hq,PeerTool.request,Errand.post_eq]
      exact parseBody_doc hreads
    have hhears := @hears_peerMessage site (callOf q s) s cfg hpeers
      ((Errand.message said posted).doc sender peer)
    rw [heq,touched,if_neg (by simp [messageRoute]),handled_message,hbody]
    rw [arrivalOf_doc] at hhears
    dsimp only
    generalize ran (handlePeerMessage site (callOf q s)
      ((Errand.message said posted).doc sender peer)) s = p at hhears
    cases hhears with
    | refused e _ => exact .inl ⟨errorStatus_ge e,rfl⟩
    | queued r hjobs hreceived _ =>
        refine .inr ⟨cfg,_,_,hpeers,hjobs,hreceived,?_⟩
        cases r <;> rfl

end Calls

end Http

end PuCli
