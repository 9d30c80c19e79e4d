import PuCli.App.PeerCalls
import Mathlib.Data.List.Nodup

namespace PuCli

open Json
open Http
open PeerTool (Errand)
open Serve (Board Tick Verb Clock)

-- The servers of one topology. Each reads and writes JSON alike.
structure Cluster (ι : Type) where
  text : JsonText
  errorText : Nat → String → String
  site : ι → Site
  views : ι → Views
  pages : ι → List String
  cfg : ι → PeerConfig
  same : ∀ i, (site i).host.text = text

structure Sent (ι : Type) where
  seq : Nat
  caller : ι
  callee : ι
  peer : PeerEntry
  errand : Errand

-- The job a message names, at the server it is sent to.
def Sent.names {ι : Type} (sent : Sent ι) : Option (ι × String) :=
  match sent.errand with
  | .job _ _ => none
  | .message _ posted => some (sent.callee, posted.id)

structure Waiting where
  seq : Nat
  said : String

-- Requests are lost, late and overtaken, and so are their answers. The last two fields are an
-- observer's: the board jobs whose turn a server has queued, and those a caller was told of.
structure PeerNetwork (ι : Type) where
  node : ι → Live
  waiting : ι → Option Waiting := fun _ => none
  wire : List (Sent ι) := []
  next : Nat := 0
  queued : List (ι × String) := []
  told : List (ι × String) := []

namespace PeerNetwork

inductive Action (ι : Type) where
  | call (caller callee : ι) (peer : PeerEntry) (intent due said : String)
  | deliver (k : Nat) (address : String) (tick : Tick) (clock : Clock) (heard : Bool)
  | giveUp (caller : ι)
  | live (i : ι) (e : Live.Event)

def jobNames (jobs : List Job) : List String := (jobs.map Job.boardJob).filter (fun id => id ≠ "")

def newTurns (before after : Server) : List String :=
  jobNames ((after.jobs.getD []).drop (before.jobs.getD []).length)

theorem eraseIdx_perm {α : Type} {l : List α} {k : Nat} {a : α} (h : l[k]? = some a) :
    l.Perm (a :: l.eraseIdx k) := by
  obtain ⟨hk,hget⟩ := List.getElem?_eq_some_iff.mp h
  rw [← hget]
  exact (List.getElem_cons_eraseIdx_perm hk).symm

variable {ι : Type}

def accepted (C : Cluster ι) (answer : Except String String) : Bool :=
  match PeerTool.send C.text answer with
  | .ok reply => valueOrDefault reply "accepted" false
  | .error _ => false

def received (C : Cluster ι) (sent : Sent ι) (address : String) (tick : Tick) (clock : Clock) :
    Received :=
  { request := PeerTool.request C.text (C.cfg sent.caller) sent.peer sent.errand
    address := address, tick := tick, clock := clock }

def answered (C : Cluster ι) (net : PeerNetwork ι) (i : ι) (q : Received) : Response × Server :=
  dispatch (C.site i) (C.views i) (C.pages i) q (net.node i).server

section Step

variable [DecidableEq ι] (C : Cluster ι)

def ask (net : PeerNetwork ι) (caller callee : ι) (peer : PeerEntry) (said : String)
    (errand : Errand) : PeerNetwork ι :=
  { net with
    wire := net.wire ++ [⟨net.next,caller,callee,peer,errand⟩]
    waiting := Function.update net.waiting caller (some ⟨net.next,said⟩)
    next := net.next + 1 }

def hear (net : PeerNetwork ι) (sent : Sent ι) (said : String) (answer : Except String String) :
    PeerNetwork ι :=
  match sent.errand with
  | .job _ _ =>
      match PeerTool.postJob C.text answer with
      | .error _ => { net with waiting := Function.update net.waiting sent.caller none }
      | .ok posted => net.ask sent.caller sent.callee sent.peer said (.message said posted)
  | .message _ posted =>
      { net with
        waiting := Function.update net.waiting sent.caller none
        told := net.told ++ if accepted C answer then [(sent.callee, posted.id)] else [] }

def moveTo (net : PeerNetwork ι) (i : ι) (l : Live) : PeerNetwork ι :=
  { net with
    node := Function.update net.node i l
    queued := net.queued ++ (newTurns (net.node i).server l.server).map (fun id => (i, id)) }

def step (net : PeerNetwork ι) : Action ι → PeerNetwork ι
  | .call caller callee peer intent due said =>
      match net.waiting caller with
      | some _ => net
      | none => net.ask caller callee peer said (.job intent due)
  | .deliver k address tick clock heard =>
      match net.wire[k]? with
      | none => net
      | some sent =>
          let answer := net.answered C sent.callee (received C sent address tick clock)
          let moved := { net.moveTo sent.callee { net.node sent.callee with server := answer.2 } with
            wire := net.wire.eraseIdx k }
          match net.waiting sent.caller with
          | none => moved
          | some w =>
              if heard ∧ w.seq = sent.seq then
                moved.hear C sent w.said (PeerTool.heard C.text C.errorText answer.1)
              else moved
  | .giveUp caller => { net with waiting := Function.update net.waiting caller none }
  | .live i e =>
      net.moveTo i (Live.step (C.site i) (C.views i) (C.pages i) (net.node i) e)

end Step

-- A turn that is queued, or a message on its way that would queue one.
def tickets (net : PeerNetwork ι) : List (ι × String) :=
  net.queued ++ net.wire.filterMap Sent.names

-- What a run relies on: ids are drawn afresh, what is said is read as it was said, and no message
-- that names a job comes from outside a call.
def Fits (C : Cluster ι) (net : PeerNetwork ι) : Action ι → Prop
  | .deliver k address tick clock _ => ∀ sent ∈ net.wire[k]?,
      (sent.names = none → (sent.callee, tick.newId) ∉ net.tickets) ∧
      C.text.Reads (sent.errand.doc (C.cfg sent.caller) sent.peer) ∧
      ∀ status body authenticate, status < 400 →
        (net.answered C sent.callee (received C sent address tick clock)).1 =
          .json status body authenticate → C.text.Reads body
  | .live i (.request q) =>
      ∀ arrival, Hands C.text (C.pages i) q arrival → arrival.job = ""
  | _ => True

structure Once (net : PeerNetwork ι) : Prop where
  tickets : net.tickets.Nodup
  named : ∀ x ∈ net.tickets, x.2 ≠ ""
  told : net.told.Nodup
  queued : ∀ x ∈ net.told, x ∈ net.queued

section Turns

variable {site : Site} {views : Views} {pages : List String} {q : Received} {s s' : Server}

theorem newTurns_same (h : s'.jobs = s.jobs) : newTurns s s' = [] := by
  unfold newTurns
  rw [h,List.drop_length]
  rfl

theorem newTurns_queued {host : Host} {jobs : List Job} {board : Option Board} {a : Arrival}
    (h : s.jobs = some jobs) :
    newTurns s (Http.queued host s jobs board a) = if a.job = "" then [] else [a.job] := by
  unfold newTurns jobNames Http.queued
  rw [h]
  simp only [Option.getD_some,List.drop_left,List.map_cons,List.map_nil,Arrival.turn]
  split <;> simp_all

theorem newTurns_dispatch (views : Views) (q : Received) (s : Server) :
    newTurns s (dispatch site views pages q s).2 = [] ∨
      ∃ a, Hands site.host.text pages q a ∧
        newTurns s (dispatch site views pages q s).2 = if a.job = "" then [] else [a.job] := by
  have heffect := @effect_dispatch site pages views q s
  generalize dispatch site views pages q s = p at heffect ⊢
  cases heffect with
  | spared _ hjobs _ _ => exact .inl (newTurns_same hjobs)
  | touched _ _ _ _ => exact .inl (newTurns_same rfl)
  | served _ _ _ _ _ _ => exact .inl (newTurns_same rfl)
  | @queued _ a _ _ _ _ _ hhands hjobs _ _ => exact .inr ⟨a,hhands,newTurns_queued hjobs⟩

theorem newTurns_live {l : Live} {e : Live.Event} (he : ∀ q, e ≠ .request q) :
    newTurns l.server (Live.step site views pages l e).server = [] := by
  cases e with
  | request q => exact absurd rfl (he q)
  | submit text =>
      rw [Live.step]
      split
      · exact newTurns_same rfl
      · next jobs hjobs =>
          unfold newTurns SessionRunner.submit
          simp [hjobs,jobNames]
  | start =>
      rw [Live.step]
      split
      · next job jobs _ hjobs =>
          unfold newTurns
          rw [hjobs,Option.getD_some,Option.getD_some,List.drop_eq_nil_of_le (by simp)]
          rfl
      · exact newTurns_same rfl
  | session rt => exact newTurns_same rfl
  | close tick result =>
      rw [Live.step]
      split
      · exact newTurns_same rfl
      · split <;> exact newTurns_same rfl
  | finish => exact newTurns_same rfl
  | stop =>
      rw [Live.step,newTurns]
      cases l.server.jobs <;> simp [jobNames]

theorem jobNames_append (jobs jobs' : List Job) :
    jobNames (jobs ++ jobs') = jobNames jobs ++ jobNames jobs' := by simp [jobNames]

theorem jobNames_sublist {jobs jobs' : List Job} (h : jobs.Sublist jobs') :
    (jobNames jobs).Sublist (jobNames jobs') := (h.map Job.boardJob).filter _

theorem turns_same {l : Live} {s' : Server} (h : s'.jobs = l.server.jobs) :
    jobNames (Live.turns { l with server := s' }) =
      jobNames l.turns ++ newTurns l.server s' := by
  rw [newTurns_same h,List.append_nil,Live.turns,Live.turns,h]

-- The queue is first in, first out, so the jobs of its turns stay in the order they came.
theorem turns_request (l : Live) :
    jobNames (Live.step site views pages l (.request q)).turns = jobNames l.turns ++
      newTurns l.server (Live.step site views pages l (.request q)).server := by
  have heffect := @effect_dispatch site pages views q l.server
  rw [Live.step]
  generalize dispatch site views pages q l.server = p at heffect ⊢
  cases heffect with
  | spared _ hjobs _ _ => exact turns_same hjobs
  | touched _ _ _ _ => exact turns_same rfl
  | served _ _ _ _ _ _ => exact turns_same rfl
  | queued _ _ _ hjobs _ _ =>
      rw [newTurns,Live.turns,Live.turns,hjobs]
      simp [Http.queued,jobNames_append]

theorem turns_live {l : Live} {e : Live.Event} (he : ∀ q, e ≠ .request q) :
    (jobNames (Live.step site views pages l e).turns).Sublist (jobNames l.turns) := by
  cases e with
  | request q => exact absurd rfl (he q)
  | submit text =>
      rw [Live.step]
      split
      · exact List.Sublist.refl _
      · next jobs hjobs =>
          rw [Live.turns,Live.turns,hjobs]
          simp [SessionRunner.submit,jobNames]
  | start =>
      rw [Live.step]
      split
      · next job jobs hrunning hjobs =>
          rw [Live.turns,Live.turns,hrunning,hjobs]
          exact List.Sublist.refl _
      · exact List.Sublist.refl _
  | session rt => exact List.Sublist.refl _
  | close tick result =>
      rw [Live.step]
      split
      · exact List.Sublist.refl _
      · split <;> exact List.Sublist.refl _
  | finish => exact jobNames_sublist (List.sublist_append_right _ _)
  | stop =>
      refine jobNames_sublist (List.Sublist.append_left ?_ _)
      rw [Live.step]
      cases l.server.jobs <;> simp

end Turns

theorem heard_of_status {text : JsonText} {errorText : Nat → String → String} {r : Response}
    (h : 400 ≤ r.status) : ∃ what, PeerTool.heard text errorText r = .error what := by
  cases r with
  | file target => exact absurd h (by simp [Response.status])
  | json status body authenticate => exact ⟨_,if_pos h⟩
  | notFound => exact ⟨_,rfl⟩

section Steps

variable {C : Cluster ι} {net : PeerNetwork ι} {sent : Sent ι} {k : Nat} {address said : String}
  {tick : Tick} {clock : Clock}

def answerHeard (C : Cluster ι) (net : PeerNetwork ι) (sent : Sent ι) (address : String)
    (tick : Tick) (clock : Clock) : Except String String :=
  PeerTool.heard C.text C.errorText
    (net.answered C sent.callee (received C sent address tick clock)).1

theorem newTurns_job {intent due : String} (herrand : sent.errand = .job intent due) :
    newTurns (net.node sent.callee).server
      (net.answered C sent.callee (received C sent address tick clock)).2 = [] := by
  rcases newTurns_dispatch (C.views sent.callee) (received C sent address tick clock)
    (net.node sent.callee).server with hnone | ⟨a,⟨_,htarget,_⟩,_⟩
  · exact hnone
  · rw [received,herrand] at htarget
    exact absurd htarget (show PeerTool.kJobsPath ≠ "/api/peer/message" by decide)

theorem newTurns_message {posted : PostedJob} (herrand : sent.errand = .message said posted)
    (hreads : C.text.Reads (sent.errand.doc (C.cfg sent.caller) sent.peer))
    (hid : posted.id ≠ "") :
    (newTurns (net.node sent.callee).server
        (net.answered C sent.callee (received C sent address tick clock)).2 = [] ∧
      ∃ what, answerHeard C net sent address tick clock = .error what) ∨
    newTurns (net.node sent.callee).server
        (net.answered C sent.callee (received C sent address tick clock)).2 = [posted.id] := by
  have hq : (received C sent address tick clock).request =
      PeerTool.request (C.site sent.callee).host.text (C.cfg sent.caller) sent.peer
        (.message said posted) := by
    rw [C.same,← herrand]
    rfl
  rw [herrand,← C.same sent.callee] at hreads
  rcases @message_queued (C.site sent.callee) (C.views sent.callee) (C.pages sent.callee)
    (net.node sent.callee).server _ _ _ said posted hq hreads with ⟨hstatus,hsame⟩ |
    ⟨_,jobs,board,_,hjobs,_,hqueued⟩
  · refine .inl ⟨?_,heard_of_status hstatus⟩
    rw [answered,hsame]
    exact newTurns_same rfl
  · refine .inr ?_
    rw [answered,hqueued,newTurns_queued hjobs,if_neg hid]

theorem posted_fresh {intent due : String} {posted : PostedJob}
    (herrand : sent.errand = .job intent due)
    (hreads : C.text.Reads (sent.errand.doc (C.cfg sent.caller) sent.peer))
    (hanswer : ∀ status body authenticate, status < 400 →
      (net.answered C sent.callee (received C sent address tick clock)).1 =
        .json status body authenticate → C.text.Reads body)
    (h : PeerTool.postJob C.text (answerHeard C net sent address tick clock) = .ok posted) :
    posted.id = tick.newId ∧ posted.id ≠ "" := by
  have hq : (received C sent address tick clock).request =
      PeerTool.request (C.site sent.callee).host.text (C.cfg sent.caller) sent.peer
        (.job intent due) := by
    rw [C.same,← herrand]
    rfl
  rw [herrand,← C.same sent.callee] at hreads
  unfold answerHeard at h
  unfold answered at h hanswer
  rcases @posted_job (C.site sent.callee) (C.views sent.callee) (C.pages sent.callee)
    (net.node sent.callee).server _ _ _ intent due hq hreads with hstatus |
    ⟨_,b,r,b',_,_,_,hpost,hanswered⟩
  · obtain ⟨what,hwhat⟩ := @heard_of_status C.text C.errorText _ hstatus
    rw [hwhat] at h
    cases h
  · rw [hanswered] at h hanswer
    have hbody := hanswer 200 _ false (by decide) rfl
    obtain ⟨hid,hne⟩ := postJob_posted hbody h
    obtain ⟨_,_,_,_,hr,_⟩ := Board.post_ok hpost
    rw [hid] at *
    refine ⟨?_,hne⟩
    rw [hr]
    rfl

theorem Once.of_subperm {net' : PeerNetwork ι} (h : Once net) (ht : net'.tickets.Subperm net.tickets)
    (htold : net'.told = net.told) (hq : ∀ x ∈ net.queued, x ∈ net'.queued) : Once net' where
  tickets := Board.subperm_nodup ht h.tickets
  named x hx := h.named x (ht.subset hx)
  told := htold ▸ h.told
  queued x hx := hq x (h.queued x (htold ▸ hx))

theorem once_waiting (h : Once net) (waiting : ι → Option Waiting) :
    Once { net with waiting := waiting } :=
  ⟨h.tickets,h.named,h.told,h.queued⟩

def Recorded (net : PeerNetwork ι) : Prop :=
  ∀ i, ((jobNames (net.node i).turns).map (fun id => (i, id))).Sublist net.queued

-- A network nobody has called in yet.
structure Idle (net : PeerNetwork ι) : Prop where
  wire : net.wire = []
  queued : net.queued = []
  told : net.told = []
  turns : ∀ i, jobNames (net.node i).turns = []

theorem Idle.once (h : Idle net) : Once net := by
  have htickets : net.tickets = [] := by
    rw [tickets,h.queued,h.wire]
    rfl
  refine ⟨?_,?_,?_,?_⟩
  · rw [htickets]
    exact List.nodup_nil
  · rw [htickets]
    exact fun x hx => absurd hx List.not_mem_nil
  · rw [h.told]
    exact List.nodup_nil
  · rw [h.told]
    exact fun x hx => absurd hx List.not_mem_nil

theorem Idle.recorded (h : Idle net) : Recorded net := by
  intro i
  rw [h.turns i]
  exact List.nil_sublist _

variable [DecidableEq ι]

-- The answer of a request on the wire, with the network it leaves before anyone hears it.
def delivered (C : Cluster ι) (net : PeerNetwork ι) (k : Nat) (sent : Sent ι) (address : String)
    (tick : Tick) (clock : Clock) : PeerNetwork ι :=
  { net.moveTo sent.callee { net.node sent.callee with
      server := (net.answered C sent.callee (received C sent address tick clock)).2 } with
    wire := net.wire.eraseIdx k }

theorem deliver_cases (h : net.wire[k]? = some sent) (heard : Bool) :
    step C net (.deliver k address tick clock heard) = delivered C net k sent address tick clock ∨
    ∃ said, step C net (.deliver k address tick clock heard) =
      (delivered C net k sent address tick clock).hear C sent said
        (answerHeard C net sent address tick clock) := by
  rw [step,h]
  dsimp only
  cases net.waiting sent.caller with
  | none => exact .inl rfl
  | some w =>
      dsimp only
      split
      · exact .inr ⟨w.said,rfl⟩
      · exact .inl rfl

theorem tickets_delivered (h : net.wire[k]? = some sent)
    (hnew : newTurns (net.node sent.callee).server
        (net.answered C sent.callee (received C sent address tick clock)).2 = [] ∨
      ∃ id, newTurns (net.node sent.callee).server
          (net.answered C sent.callee (received C sent address tick clock)).2 = [id] ∧
        sent.names = some (sent.callee, id)) :
    (delivered C net k sent address tick clock).tickets.Subperm net.tickets := by
  have hwire : (net.wire.filterMap Sent.names).Perm
      (sent.names.toList ++ (net.wire.eraseIdx k).filterMap Sent.names) := by
    have hperm := (eraseIdx_perm h).filterMap Sent.names
    cases hnames : sent.names with
    | none => rwa [List.filterMap_cons_none hnames] at hperm
    | some x => rwa [List.filterMap_cons_some hnames] at hperm
  have hall : net.tickets.Perm
      (net.queued ++ (sent.names.toList ++ (net.wire.eraseIdx k).filterMap Sent.names)) :=
    hwire.append_left net.queued
  refine List.Subperm.trans ?_ hall.symm.subperm
  unfold tickets delivered moveTo
  dsimp only
  rcases hnew with hnone | ⟨id,hid,hnames⟩
  · rw [hnone,List.map_nil,List.append_nil]
    exact ((List.sublist_append_right _ _).append_left _).subperm
  · rw [hid,hnames,List.append_assoc]
    exact List.Subperm.refl _

theorem once_ask {caller callee : ι} {peer : PeerEntry} {errand : Errand} (h : Once net)
    (hnew : ∀ x, (Sent.mk net.next caller callee peer errand).names = some x →
      x ∉ net.tickets ∧ x.2 ≠ "") : Once (net.ask caller callee peer said errand) := by
  have htickets : (net.ask caller callee peer said errand).tickets =
      net.tickets ++ (Sent.mk net.next caller callee peer errand).names.toList := by
    unfold tickets ask
    dsimp only
    rw [List.filterMap_append,← List.append_assoc]
    cases hnames : (Sent.mk net.next caller callee peer errand).names <;> simp [hnames]
  cases hnames : (Sent.mk net.next caller callee peer errand).names with
  | none =>
      rw [hnames,Option.toList_none,List.append_nil] at htickets
      exact h.of_subperm (htickets ▸ List.Subperm.refl _) rfl (fun _ hx => hx)
  | some x =>
      obtain ⟨hfresh,hne⟩ := hnew x hnames
      rw [hnames,Option.toList_some] at htickets
      refine ⟨?_,?_,h.told,h.queued⟩
      · rw [htickets]
        exact h.tickets.append (List.nodup_singleton _) (by simpa using hfresh)
      · rw [htickets]
        intro y hy
        rcases List.mem_append.mp hy with hold | hlast
        · exact h.named y hold
        · rwa [List.mem_singleton.mp hlast]

theorem once_delivered (h : Once net) (hwire : net.wire[k]? = some sent)
    (hnew : newTurns (net.node sent.callee).server
        (net.answered C sent.callee (received C sent address tick clock)).2 = [] ∨
      ∃ id, newTurns (net.node sent.callee).server
          (net.answered C sent.callee (received C sent address tick clock)).2 = [id] ∧
        sent.names = some (sent.callee, id)) :
    Once (delivered C net k sent address tick clock) :=
  h.of_subperm (tickets_delivered hwire hnew) rfl (fun _ hx => List.mem_append_left _ hx)

theorem once_deliver_job {intent due : String} (h : Once net) (hwire : net.wire[k]? = some sent)
    (herrand : sent.errand = .job intent due)
    (hf : Fits C net (.deliver k address tick clock true)) (heard : Bool) :
    Once (step C net (.deliver k address tick clock heard)) := by
  obtain ⟨hfresh,hreads,hanswer⟩ := hf sent hwire
  have hnames : sent.names = none := by rw [Sent.names,herrand]
  have hnew : newTurns _ _ = [] := @newTurns_job ι C net sent address tick clock intent due herrand
  have hsub := @tickets_delivered ι C net sent k address tick clock _ hwire (.inl hnew)
  have hdelivered := once_delivered h hwire (.inl hnew)
  rcases @deliver_cases ι C net sent k address tick clock _ hwire heard with hd | ⟨said,hd⟩
  · rw [hd]
    exact hdelivered
  · rw [hd,hear,herrand]
    dsimp only
    split
    · exact once_waiting hdelivered _
    · next posted hposted =>
        obtain ⟨hid,hne⟩ := posted_fresh herrand hreads hanswer hposted
        refine once_ask hdelivered ?_
        intro x hx
        obtain rfl := Option.some.inj hx
        refine ⟨fun hmem => ?_,hne⟩
        rw [hid] at hmem
        exact hfresh hnames (hsub.subset hmem)

theorem once_deliver_message {posted : PostedJob} (h : Once net)
    (hwire : net.wire[k]? = some sent) (herrand : sent.errand = .message said posted)
    (hf : Fits C net (.deliver k address tick clock true)) (heard : Bool) :
    Once (step C net (.deliver k address tick clock heard)) := by
  obtain ⟨_,hreads,_⟩ := hf sent hwire
  have hnames : sent.names = some (sent.callee, posted.id) := by rw [Sent.names,herrand]
  have hwaits : (sent.callee, posted.id) ∈ net.wire.filterMap Sent.names :=
    List.mem_filterMap.mpr ⟨sent,List.mem_of_getElem? hwire,hnames⟩
  have hid : posted.id ≠ "" := h.named _ (List.mem_append_right _ hwaits)
  have hnever : (sent.callee, posted.id) ∉ net.told := fun htold =>
    List.disjoint_of_nodup_append h.tickets (h.queued _ htold) hwaits
  have hturns := @newTurns_message ι C net sent address said tick clock posted herrand hreads hid
  have hdelivered : Once (delivered C net k sent address tick clock) :=
    once_delivered h hwire (hturns.imp And.left (fun hnew => ⟨_,hnew,hnames⟩))
  rcases @deliver_cases ι C net sent k address tick clock _ hwire heard with hd | ⟨w,hd⟩
  · rw [hd]
    exact hdelivered
  · rw [hd,hear,herrand]
    dsimp only
    rcases hturns with ⟨_,what,hwhat⟩ | hnew
    · rw [hwhat]
      have hno : accepted C (.error what) = false := rfl
      rw [hno,if_neg Bool.false_ne_true,List.append_nil]
      exact once_waiting hdelivered _
    · split
      · refine ⟨hdelivered.tickets,hdelivered.named,?_,?_⟩
        · exact h.told.append (List.nodup_singleton _) (by simpa using hnever)
        · intro x hx
          rcases List.mem_append.mp hx with hold | hlast
          · exact hdelivered.queued x hold
          · rw [List.mem_singleton.mp hlast]
            refine List.mem_append_right _ ?_
            exact List.mem_map.mpr ⟨posted.id,hnew ▸ List.mem_singleton.mpr rfl,rfl⟩
      · rw [List.append_nil]
        exact once_waiting hdelivered _

theorem once_step (h : Once net) {a : Action ι} (hf : Fits C net a) : Once (step C net a) := by
  cases a with
  | call caller callee peer intent due said =>
      rw [step]
      split
      · exact h
      · exact once_ask h (fun x hx => by cases hx)
  | deliver k address tick clock heard =>
      cases hwire : net.wire[k]? with
      | none =>
          rw [step,hwire]
          exact h
      | some sent =>
          cases herrand : sent.errand with
          | job intent due => exact once_deliver_job h hwire herrand hf heard
          | message said posted => exact once_deliver_message h hwire herrand hf heard
  | giveUp caller => exact once_waiting h _
  | live i e =>
      have hnew : newTurns (net.node i).server
          (Live.step (C.site i) (C.views i) (C.pages i) (net.node i) e).server = [] := by
        cases e with
        | request q =>
            rcases newTurns_dispatch (C.views i) q (net.node i).server with hnone | ⟨a,hhands,hturns⟩
            · exact hnone
            · rw [C.same] at hhands
              rw [hf a hhands,if_pos rfl] at hturns
              exact hturns
        | _ => exact newTurns_live (fun q he => by cases he)
      refine h.of_subperm ?_ rfl (fun _ hx => List.mem_append_left _ hx)
      rw [step,moveTo,tickets]
      dsimp only
      rw [hnew,List.map_nil,List.append_nil]
      exact List.Subperm.refl _

theorem recorded_moveTo {i : ι} {l : Live} (h : Recorded net)
    (hl : (jobNames l.turns).Sublist (jobNames (net.node i).turns ++
      newTurns (net.node i).server l.server)) : Recorded (net.moveTo i l) := by
  intro j
  unfold moveTo
  dsimp only
  by_cases hj : j = i
  · rw [hj,Function.update_self]
    refine (hl.map _).trans ?_
    rw [List.map_append]
    exact (h i).append (List.Sublist.refl _)
  · rw [Function.update_of_ne hj]
    exact (h j).trans (List.sublist_append_left _ _)

theorem recorded_hear (h : Recorded net) (sent : Sent ι) (said : String)
    (answer : Except String String) : Recorded (net.hear C sent said answer) := by
  unfold hear
  split
  · split <;> exact h
  · exact h

theorem recorded_step (h : Recorded net) (a : Action ι) : Recorded (step C net a) := by
  cases a with
  | call caller callee peer intent due said =>
      rw [step]
      split <;> exact h
  | deliver k address tick clock heard =>
      cases hwire : net.wire[k]? with
      | none =>
          rw [step,hwire]
          exact h
      | some sent =>
          have hdelivered : Recorded (delivered C net k sent address tick clock) := by
            refine recorded_moveTo h ?_
            have hturns := @turns_request (C.site sent.callee) (C.views sent.callee)
              (C.pages sent.callee) (received C sent address tick clock) (net.node sent.callee)
            exact hturns ▸ List.Sublist.refl _
          rcases @deliver_cases ι C net sent k address tick clock _ hwire heard with hd | ⟨said,hd⟩
          · rw [hd]
            exact hdelivered
          · rw [hd]
            exact recorded_hear hdelivered sent said _
  | giveUp caller => exact h
  | live i e =>
      refine recorded_moveTo h ?_
      cases e with
      | request q => exact turns_request (net.node i) ▸ List.Sublist.refl _
      | _ => exact (turns_live (fun q he => by cases he)).trans (List.sublist_append_left _ _)

theorem called_job_runs_once (hidle : Idle net) (as : List (Action ι))
    (hf : Run.Along (step C) (Fits C) net as) :
    ∀ t ∈ Run.visited (step C) net as, t.queued.Nodup ∧ t.told.Nodup ∧ (∀ x ∈ t.told, x ∈ t.queued) ∧
      ∀ i, (jobNames (t.node i).turns).Nodup := by
  have hstep : ∀ t a, Once t ∧ Recorded t → Fits C t a → Once (step C t a) ∧ Recorded (step C t a) :=
    fun t a h hfits => ⟨once_step h.1 hfits,recorded_step h.2 a⟩
  intro t ht
  obtain ⟨honce,hrecorded⟩ := Run.visited_inv hstep ⟨hidle.once,hidle.recorded⟩ hf t ht
  have hqueued : t.queued.Nodup := (List.nodup_append.mp honce.tickets).1
  refine ⟨hqueued,honce.told,honce.queued,fun i => ?_⟩
  exact List.Nodup.of_map _ (hqueued.sublist (hrecorded i))

end Steps

def callerA : PeerConfig := ⟨"A","secret",[⟨"C","http://c"⟩]⟩

def peerC : PeerEntry := ⟨"C","http://c"⟩

def stillClock : Clock := ⟨"",fun _ => none⟩

def summed : Serve.ActionResult :=
  ⟨{ id := "j1", sender := "A", holder := "C", intent := "sum", createdAt := "1", updatedAt := "1" },
    none⟩

def jobDoc : Json := (Errand.job "sum" "").doc callerA peerC

def jobAnswer : Json := wrap "" (Serve.renderResult stillClock summed)

def messageDoc : Json := (Errand.message "add" ⟨"j1",""⟩).doc callerA peerC

def messageAnswer : Json := wrap "" (.object [("accepted", .bool true), ("from", .string "C"),
  ("turn", .string "n"), ("agent", .string "main"), ("model", .string "")])

-- One spelling for each of the four documents of a call.
def callText : JsonText where
  parse s :=
    if s = "\x7b1" then some jobDoc
    else if s = "\x7b2" then some (jobAnswer.reread .plain)
    else if s = "\x7b3" then some messageDoc
    else if s = "\x7b4" then some messageAnswer
    else none
  serialize j :=
    if (j.get? "intent").isSome then "\x7b1"
    else if (j.get? "hop").isSome then "\x7b3"
    else if (j.get? "accepted").isSome then "\x7b4"
    else "\x7b2"
  parseError s := s
  kindError _ := ""

def callSite : Site :=
  { Runtime.boardSite with host := { Runtime.boardSite.host with text := callText } }

def pair : Cluster Bool where
  text := callText
  errorText _ _ := ""
  site _ := callSite
  views _ := noViews
  pages _ := []
  cfg i := if i then Runtime.twoPeers else callerA
  same _ := rfl

def quiet : PeerNetwork Bool where
  node i := ⟨{ runtime := { Runtime.servingC with peers := some (pair.cfg i) } },none⟩

def callOnce : List (Action Bool) := [.call false true peerC "sum" "" "add",
  .deliver 0 "10.0.0.2" (Board.tickAt "1" "j1") stillClock true,
  .deliver 0 "10.0.0.2" (Board.tickAt "2" "") stillClock true, .live true .start]

theorem callText_reads : ∀ j ∈ [jobDoc, jobAnswer, messageDoc, messageAnswer], callText.Reads j := by
  simp only [List.forall_mem_cons,List.not_mem_nil,false_implies,implies_true,and_true]
  exact ⟨⟨rfl,fun _ => rfl⟩,⟨rfl,fun _ => rfl⟩,⟨rfl,fun _ => rfl⟩,⟨rfl,fun _ => rfl⟩⟩

theorem callOnce_fits : Run.Along (step pair) (Fits pair) quiet callOnce := by
  refine ⟨trivial,?_,?_,?_,trivial⟩
  · intro sent hsent
    obtain rfl := Option.some.inj (show some _ = some sent from hsent)
    refine ⟨fun _ => by decide,callText_reads jobDoc (by simp),?_⟩
    intro status body authenticate _ hbody
    have hanswer : body = jobAnswer := by
      injection hbody with _ hj _
      exact hj.symm
    rw [hanswer]
    exact callText_reads _ (by simp)
  · intro sent hsent
    obtain rfl := Option.some.inj (show some _ = some sent from hsent)
    refine ⟨(fun h => by cases h),callText_reads messageDoc (by simp),?_⟩
    intro status body authenticate _ hbody
    have hanswer : body = messageAnswer := by
      injection hbody with _ hj _
      exact hj.symm
    rw [hanswer]
    exact callText_reads _ (by simp)
  · trivial

theorem called_job_runs_once_sum :
    (callOnce.foldl (step pair) quiet).told = [(true, "j1")] ∧
      ∀ t ∈ Run.visited (step pair) quiet callOnce, t.queued.Nodup ∧ t.told.Nodup ∧
        (∀ x ∈ t.told, x ∈ t.queued) ∧ ∀ i, (jobNames (t.node i).turns).Nodup :=
  ⟨by decide,called_job_runs_once ⟨rfl,rfl,rfl,fun _ => rfl⟩ callOnce callOnce_fits⟩

end PeerNetwork

end PuCli
