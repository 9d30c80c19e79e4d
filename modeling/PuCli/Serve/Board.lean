import Mathlib.Algebra.Group.Nat.Defs
import Mathlib.Data.List.Basic

namespace PuCli.Serve

inductive JobState where
  | opened
  | claimed
  | working
  | blocked
  | done
  | failed
  | cancelled
  deriving DecidableEq

def jobStateName : JobState → String
  | .opened => "open"
  | .claimed => "claimed"
  | .working => "working"
  | .blocked => "blocked"
  | .done => "done"
  | .failed => "failed"
  | .cancelled => "cancelled"

def parseJobState (name : String) : Option JobState :=
  if name = "open" then some .opened
  else if name = "claimed" then some .claimed
  else if name = "working" then some .working
  else if name = "blocked" then some .blocked
  else if name = "done" then some .done
  else if name = "failed" then some .failed
  else none

def unitScale (unit : List Char) : Option Int :=
  if unit = ['s'] then some 1
  else if unit = ['m'] then some 60
  else if unit = ['h'] then some 3600
  else if unit = ['d'] then some 86400
  else none

-- The product is a 64-bit one in the source, so it wraps where a long count meets a long unit.
def parseDuration (text : String) : Option Int :=
  let digits := text.toList.takeWhile Char.isDigit
  let count := digits.foldl (fun n c => n * 10 + (c.toNat - '0'.toNat)) 0
  if digits = [] ∨ 2 ^ 63 ≤ count ∨ count = 0 then none
  else (unitScale (text.toList.dropWhile Char.isDigit)).map (fun scale =>
    Int.bmod (count * scale) (2 ^ 64))

structure Job where
  id : String
  sender : String
  holder : String
  intent : String
  state : JobState := .opened
  dueAt : Option String := none
  createdAt : String
  updatedAt : String
  result : Option String := none
  question : Option String := none
  note : String := ""
  declinedBy : Option String := none
  declines : UInt32 := 0
  chases : UInt32 := 0
  deriving DecidableEq

def Job.closed (job : Job) : Bool :=
  job.state = .done || job.state = .failed || job.state = .cancelled

structure JobUpdate where
  state : String
  result : String
  question : String
  note : String

structure JobRequest where
  job : Option String := none
  sender : Option String := none
  holder : Option String := none
  intent : Option String := none
  due : Option String := none
  state : Option String := none
  result : Option String := none
  question : Option String := none
  note : Option String := none

structure JobOutcome where
  id : String
  state : String
  result : Option String
  deriving DecidableEq

structure ActionResult where
  job : Job
  outcome : Option JobOutcome := none
  deriving DecidableEq

structure PeerPresence where
  name : String
  lastSeen : String
  state : String
  job : String
  deriving DecidableEq

structure AuditEntry where
  stamp : String
  kind : String
  peer : String
  job : String
  text : String
  deriving DecidableEq

structure Board where
  jobs : List Job := []
  peers : List PeerPresence := []
  audit : List AuditEntry := []
  deriving DecidableEq

structure Tick where
  now : String
  newId : String
  later : Int → String

inductive BoardError where
  | refused (what : String)
  | notFound (what : String)
  deriving DecidableEq

def BoardError.what : BoardError → String
  | .refused what => what
  | .notFound what => what

def kMaxOpen : Nat := 32

def kMaxAudit : Nat := 64

def kMaxClosedKept : Nat := 128

def move (job : Job) (update : JobUpdate) (now : String) : Except BoardError Job :=
  match parseJobState update.state with
  | none => .error (.refused
      ("`state` is open, claimed, working, blocked, done or failed, not " ++ update.state))
  | some .opened =>
      .ok { job with
        state := .opened, dueAt := none, question := none, result := none, updatedAt := now }
  | some .claimed =>
      .ok { job with state := .claimed, question := none, declinedBy := none, updatedAt := now }
  | some .working =>
      .ok { job with state := .working, question := none, declinedBy := none, updatedAt := now }
  | some .blocked =>
      if update.question = "" then
        .error (.refused "`blocked` needs a `question`, which is what the holder is asking")
      else .ok { job with state := .blocked, question := some update.question, updatedAt := now }
  | some .done =>
      .ok { job with
        state := .done
        result := if update.result = "" then job.result else some update.result
        updatedAt := now }
  | some .failed =>
      .ok { job with
        state := .failed
        result := some (if update.result = "" then "failed" else update.result)
        updatedAt := now }
  | some .cancelled =>
      .error (.refused "`cancelled` is the person's verb, so it is not an update")

def setFirst (id : String) (job : Job) : List Job → List Job
  | [] => []
  | j :: js => if j.id = id then job :: js else j :: setFirst id job js

def touchAmong (peer state now : String) : List PeerPresence → List PeerPresence
  | [] => [⟨peer, now, state, ""⟩]
  | p :: ps =>
      if p.name = peer then
        { p with lastSeen := now, state := if state = "" then p.state else state } :: ps
      else p :: touchAmong peer state now ps

def oldestLast (left right : Job) : Bool := decide (left.updatedAt ≤ right.updatedAt)

def noJob (id : String) : BoardError := .notFound ("no job with id " ++ id)

def alreadyEnded (id : String) (job : Job) : BoardError :=
  .refused ("job " ++ id ++ " already ended as " ++ jobStateName job.state)

namespace Board

def find (b : Board) (id : String) : Option Job := b.jobs.find? (fun job => job.id = id)

def record (b : Board) (stamp kind peer job text : String) : Board :=
  let audit := b.audit ++ [⟨stamp, kind, peer, job, text⟩]
  { b with audit := audit.drop (audit.length - kMaxAudit) }

def touchPeer (tick : Tick) (b : Board) (peer state : String) : Board :=
  if peer = "" then b else { b with peers := touchAmong peer state tick.now b.peers }

def dueIn (tick : Tick) : Option String → Except BoardError (Option String)
  | none => .ok none
  | some due =>
      match parseDuration due with
      | none => .error (.refused
          ("`due` is a duration such as \"30m\", \"2h\" or \"1d\", not " ++ due))
      | some span => .ok (some (tick.later span))

def crowd (jobs : List Job) : List Job :=
  if kMaxOpen + kMaxClosedKept < jobs.length then (jobs.mergeSort oldestLast).drop 1 else jobs

def post (tick : Tick) (b : Board) (request : JobRequest) : Except BoardError (ActionResult × Board) :=
  let holder := request.holder.getD ""
  let intent := request.intent.getD ""
  if holder = "" then .error (.refused "a job needs the peer it is for, as `to`")
  else if intent = "" then .error (.refused "a job needs an `intent`")
  else if kMaxOpen ≤ b.jobs.countP (fun job => !job.closed) then
    .error (.refused ("the board already holds " ++ toString kMaxOpen ++
      " unfinished jobs, so close one before posting another"))
  else do
    let dueAt ← dueIn tick request.due
    let job : Job :=
      { id := tick.newId, sender := request.sender.getD "", holder := holder, intent := intent,
        dueAt := dueAt, createdAt := tick.now, updatedAt := tick.now }
    .ok ({ job := job }, { b with jobs := crowd (b.jobs ++ [job]) }.record tick.now "post"
      job.sender job.id job.intent)

def declined (job : Job) (peer state : String) : Except BoardError Job :=
  if state = "open" then
    if job.declinedBy = some peer then
      .error (.refused ("job " ++ job.id ++ " was already declined by " ++ peer))
    else .ok { job with declines := job.declines + 1, declinedBy := some peer }
  else .ok job

def present (job : Job) (peer : String) (p : PeerPresence) : PeerPresence :=
  if p.name = peer then { p with state := jobStateName job.state, job := job.id } else p

def update (tick : Tick) (b : Board) (request : JobRequest) :
    Except BoardError (ActionResult × Board) :=
  let id := request.job.getD ""
  let peer := request.sender.getD ""
  if id = "" then .error (.refused "a job update needs the `job` it is about")
  else if peer = "" then .error (.refused "a job update needs the `from` that holds it")
  else match b.find id with
    | none => .error (noJob id)
    | some held =>
        if held.holder ≠ peer then
          .error (.refused ("job " ++ id ++ " is " ++ held.holder ++ "'s, so " ++ peer ++
            " cannot update it"))
        else if held.closed then .error (alreadyEnded id held)
        else do
          let state := request.state.getD ""
          let note := request.note.getD ""
          let job ← declined held peer state
          let job ← move job ⟨state, request.result.getD "", request.question.getD "", note⟩ tick.now
          let job := if note = "" then job else { job with note := note }
          let outcome : Option JobOutcome :=
            if job.closed then some ⟨job.id, jobStateName job.state, job.result⟩ else none
          .ok (⟨job, outcome⟩, { b with
            jobs := setFirst id job b.jobs
            peers := b.peers.map (present job peer) }.record tick.now
              (if state = "" then "note" else state) peer id note)

def answer (tick : Tick) (b : Board) (id text : String) :
    Except BoardError (ActionResult × Board) :=
  match b.find id with
  | none => .error (noJob id)
  | some held =>
      if held.closed then .error (alreadyEnded id held)
      else if held.state ≠ .blocked then
        .error (.refused ("job " ++ id ++ " is not blocked, so there is no question to answer"))
      else
        let job := { held with
          note := text, question := none, state := .working, updatedAt := tick.now }
        .ok (⟨job, none⟩, { b with jobs := setFirst id job b.jobs }.record tick.now "answer" "" id text)

def chase (tick : Tick) (b : Board) (id note : String) :
    Except BoardError (ActionResult × Board) :=
  match b.find id with
  | none => .error (noJob id)
  | some held =>
      if held.closed then .error (alreadyEnded id held)
      else
        let job := { held with
          note := note, question := none, chases := held.chases + 1, updatedAt := tick.now }
        .ok (⟨job, none⟩, { b with jobs := setFirst id job b.jobs }.record tick.now "chase" "" id note)

def drop (tick : Tick) (b : Board) (id note : String) :
    Except BoardError (ActionResult × Board) :=
  match b.find id with
  | none => .error (noJob id)
  | some held =>
      if held.closed then .error (alreadyEnded id held)
      else
        let job := { held with
          state := .cancelled, note := note, question := none, updatedAt := tick.now }
        .ok (⟨job, some ⟨job.id, jobStateName job.state, none⟩⟩,
          { b with jobs := setFirst id job b.jobs }.record tick.now "drop" "" id note)

end Board

inductive Verb where
  | post (request : JobRequest)
  | update (request : JobRequest)
  | answer (id text : String)
  | chase (id note : String)
  | drop (id note : String)
  | touch (peer state : String)

namespace Board

variable {b b' : Board} {tick : Tick} {id : String} {request : JobRequest} {r : ActionResult}

def kept (b : Board) : Except BoardError (ActionResult × Board) → Board
  | .ok (_, b') => b'
  | .error _ => b

def serve (b : Board) (v : Tick × Verb) : Board :=
  match v.2 with
  | .post request => b.kept (b.post v.1 request)
  | .update request => b.kept (b.update v.1 request)
  | .answer id text => b.kept (b.answer v.1 id text)
  | .chase id note => b.kept (b.chase v.1 id note)
  | .drop id note => b.kept (b.drop v.1 id note)
  | .touch peer state => b.touchPeer v.1 peer state

def serveAll (b : Board) (vs : List (Tick × Verb)) : Board := vs.foldl serve b

def Reachable (b : Board) : Prop := ∃ vs, b = serveAll {} vs

def Held (b : Board) (self id : String) : Prop :=
  ∃ job, b.find id = some job ∧ job.holder = self ∧ job.closed = false

instance (b : Board) (self id : String) : Decidable (b.Held self id) :=
  match h : b.find id with
  | none => isFalse (fun ⟨_,hj,_⟩ => by rw [h] at hj; cases hj)
  | some job =>
      decidable_of_iff (job.holder = self ∧ job.closed = false)
        ⟨fun hj => ⟨job,h,hj⟩,fun ⟨_,hf,hj⟩ => Option.some.inj (h.symm.trans hf) ▸ hj⟩

structure Moved (held job : Job) : Prop where
  id : job.id = held.id
  holder : job.holder = held.holder
  result : job.closed = false → job.result = held.result ∨ job.result = none

inductive Change (b b' : Board) : Prop
  | same (h : b'.jobs = b.jobs)
  | posted (job : Job) (hresult : job.result = none) (h : b'.jobs = crowd (b.jobs ++ [job]))
  | moved (id : String) {held job : Job} (hfind : b.find id = some held)
      (hopen : held.closed = false) (hm : Moved held job) (h : b'.jobs = setFirst id job b.jobs)

theorem id_of_find {job : Job} (h : b.find id = some job) : job.id = id := by
  have hp := List.find?_some h
  simpa using hp

theorem find_setFirst {job held : Job} {jobs : List Job} (hid : job.id = id)
    (h : jobs.find? (fun j => j.id = id) = some held) :
    (setFirst id job jobs).find? (fun j => j.id = id) = some job := by
  induction jobs with
  | nil => cases h
  | cons j js ih =>
      rw [setFirst]
      split
      · simp [hid]
      · next hj =>
          rw [List.find?_cons_of_neg (by simpa using hj)] at h ⊢
          exact ih h

theorem mem_setFirst {job j : Job} {jobs : List Job} (h : j ∈ setFirst id job jobs) :
    j = job ∨ j ∈ jobs := by
  induction jobs with
  | nil => cases h
  | cons first rest ih =>
      rw [setFirst] at h
      split at h
      · rcases List.mem_cons.mp h with rfl | h
        · exact .inl rfl
        · exact .inr (List.mem_cons_of_mem _ h)
      · rcases List.mem_cons.mp h with rfl | h
        · exact .inr (List.mem_cons_self ..)
        · exact (ih h).imp_right (List.mem_cons_of_mem _)

theorem mem_crowd {j : Job} {jobs : List Job} (h : j ∈ crowd jobs) : j ∈ jobs := by
  unfold crowd at h
  split at h
  · exact List.mem_mergeSort.mp (List.mem_of_mem_drop h)
  · exact h

theorem move_ok {held job : Job} {upd : JobUpdate} {now : String}
    (h : move held upd now = .ok job) :
    parseJobState upd.state = some job.state ∧ job.state ≠ .cancelled ∧
      (job.state = .blocked → job.question = some upd.question ∧ upd.question ≠ "") ∧
      (job.closed = false → job.result = held.result ∨ job.result = none) ∧
      job = { held with
        state := job.state, dueAt := job.dueAt, question := job.question, result := job.result,
        declinedBy := job.declinedBy, updatedAt := now } := by
  unfold move at h
  cases hp : parseJobState upd.state with
  | none =>
      rw [hp] at h
      cases h
  | some next =>
      rw [hp] at h
      cases next with
      | opened =>
          cases h
          exact ⟨rfl,by simp,by simp,fun _ => .inr rfl,rfl⟩
      | claimed =>
          cases h
          exact ⟨rfl,by simp,by simp,fun _ => .inl rfl,rfl⟩
      | working =>
          cases h
          exact ⟨rfl,by simp,by simp,fun _ => .inl rfl,rfl⟩
      | blocked =>
          dsimp only at h
          split at h
          · cases h
          · next hq =>
              cases h
              exact ⟨rfl,by simp,fun _ => ⟨rfl,hq⟩,fun _ => .inl rfl,rfl⟩
      | done =>
          cases h
          exact ⟨rfl,by simp,by simp,by simp [Job.closed],rfl⟩
      | failed =>
          cases h
          exact ⟨rfl,by simp,by simp,by simp [Job.closed],rfl⟩
      | cancelled => cases h

theorem moved_move {held job : Job} {upd : JobUpdate} {now : String}
    (h : move held upd now = .ok job) : Moved held job := by
  obtain ⟨_,_,_,hresult,hjob⟩ := move_ok h
  refine ⟨?_,?_,hresult⟩
  · rw [hjob]
  · rw [hjob]

theorem Moved.of_declined {held asked job : Job} {peer state : String}
    (h : declined held peer state = .ok asked) (hm : Moved asked job) : Moved held job := by
  unfold declined at h
  split at h
  · split at h
    · cases h
    · cases h
      exact ⟨hm.id,hm.holder,hm.result⟩
  · cases h
    exact hm

theorem post_ok (h : b.post tick request = .ok (r, b')) : ∃ due, dueIn tick request.due = .ok due ∧
    request.holder.getD "" ≠ "" ∧ b.jobs.countP (fun job => !job.closed) < kMaxOpen ∧
    r = ⟨⟨tick.newId, request.sender.getD "", request.holder.getD "", request.intent.getD "", .opened,
      due, tick.now, tick.now, none, none, "", none, 0, 0⟩, none⟩ ∧
    b' = { b with jobs := crowd (b.jobs ++ [r.job]) }.record tick.now "post" r.job.sender r.job.id
      r.job.intent := by
  unfold post at h
  dsimp only at h
  split at h
  · cases h
  · next hholder =>
    split at h
    · cases h
    · split at h
      · cases h
      · next hroom =>
          cases hd : dueIn tick request.due with
          | error what =>
              rw [hd] at h
              cases h
          | ok due =>
              rw [hd] at h
              cases h
              exact ⟨due,rfl,hholder,by omega,rfl,rfl⟩

theorem update_ok (h : b.update tick request = .ok (r, b')) :
    request.sender.getD "" ≠ "" ∧ ∃ held asked moved, b.find (request.job.getD "") = some held ∧
      held.holder = request.sender.getD "" ∧ held.closed = false ∧
      declined held (request.sender.getD "") (request.state.getD "") = .ok asked ∧
      move asked ⟨request.state.getD "", request.result.getD "", request.question.getD "",
        request.note.getD ""⟩ tick.now = .ok moved ∧
      r.job = (if request.note.getD "" = "" then moved
        else { moved with note := request.note.getD "" }) ∧
      b' = { b with
        jobs := setFirst (request.job.getD "") r.job b.jobs
        peers := b.peers.map (present r.job (request.sender.getD "")) }.record tick.now
          (if request.state.getD "" = "" then "note" else request.state.getD "")
          (request.sender.getD "") (request.job.getD "") (request.note.getD "") := by
  unfold update at h
  dsimp only at h
  split at h
  · cases h
  · split at h
    · cases h
    · next hpeer =>
      refine ⟨hpeer,?_⟩
      split at h
      · cases h
      · next held hfind =>
          split at h
          · cases h
          · next hholder =>
              split at h
              · cases h
              · next hopen =>
                  cases hd : declined held (request.sender.getD "") (request.state.getD "") with
                  | error what =>
                      rw [hd] at h
                      cases h
                  | ok asked =>
                      cases hm : move asked ⟨request.state.getD "", request.result.getD "",
                          request.question.getD "", request.note.getD ""⟩ tick.now with
                      | error what =>
                          rw [hd] at h
                          simp only [bind,Except.bind,hm] at h
                          cases h
                      | ok moved =>
                          rw [hd] at h
                          simp only [bind,Except.bind,hm] at h
                          cases h
                          exact ⟨held,asked,moved,hfind,by simpa using hholder,by simpa using hopen,hd,
                            hm,rfl,rfl⟩

theorem answer_ok {text : String} (h : b.answer tick id text = .ok (r, b')) :
    ∃ held, b.find id = some held ∧ held.closed = false ∧ held.state = .blocked ∧
      r = ⟨{ held with
        note := text, question := none, state := .working, updatedAt := tick.now }, none⟩ ∧
      b' = { b with jobs := setFirst id r.job b.jobs }.record tick.now "answer" "" id text := by
  unfold answer at h
  split at h
  · cases h
  · next held hfind =>
      split at h
      · cases h
      · next hopen =>
          split at h
          · cases h
          · next hblocked =>
              cases h
              exact ⟨held,hfind,by simpa using hopen,by simpa using hblocked,rfl,rfl⟩

theorem chase_ok {note : String} (h : b.chase tick id note = .ok (r, b')) :
    ∃ held, b.find id = some held ∧ held.closed = false ∧
      r = ⟨{ held with
        note := note, question := none, chases := held.chases + 1, updatedAt := tick.now }, none⟩ ∧
      b' = { b with jobs := setFirst id r.job b.jobs }.record tick.now "chase" "" id note := by
  unfold chase at h
  split at h
  · cases h
  · next held hfind =>
      split at h
      · cases h
      · next hopen =>
          cases h
          exact ⟨held,hfind,by simpa using hopen,rfl,rfl⟩

theorem drop_ok {note : String} (h : b.drop tick id note = .ok (r, b')) :
    ∃ held, b.find id = some held ∧ held.closed = false ∧
      r.job = { held with
        state := .cancelled, note := note, question := none, updatedAt := tick.now } ∧
      b' = { b with jobs := setFirst id r.job b.jobs }.record tick.now "drop" "" id note := by
  unfold drop at h
  split at h
  · cases h
  · next held hfind =>
      split at h
      · cases h
      · next hopen =>
          cases h
          exact ⟨held,hfind,by simpa using hopen,rfl,rfl⟩

theorem update_cases (h : b.update tick request = .ok (r, b')) :
    request.sender.getD "" ≠ "" ∧ ∃ held, b.find (request.job.getD "") = some held ∧
      held.holder = request.sender.getD "" ∧ held.closed = false ∧ Moved held r.job ∧
      b'.jobs = setFirst (request.job.getD "") r.job b.jobs := by
  obtain ⟨hpeer,held,asked,moved,hfind,hholder,hopen,hd,hm,hjob,rfl⟩ := update_ok h
  have hmoved := Moved.of_declined hd (moved_move hm)
  refine ⟨hpeer,held,hfind,hholder,hopen,?_,rfl⟩
  rw [hjob]
  split
  · exact hmoved
  · exact ⟨hmoved.id,hmoved.holder,hmoved.result⟩

theorem change_post (h : b.post tick request = .ok (r, b')) : Change b b' := by
  obtain ⟨due,_,_,_,rfl,rfl⟩ := post_ok h
  exact .posted _ rfl rfl

theorem change_answer {text : String} (h : b.answer tick id text = .ok (r, b')) : Change b b' := by
  obtain ⟨held,hfind,hopen,_,rfl,rfl⟩ := answer_ok h
  refine .moved id hfind hopen ?_ rfl
  exact ⟨rfl,rfl,fun _ => .inl rfl⟩

theorem change_chase {note : String} (h : b.chase tick id note = .ok (r, b')) : Change b b' := by
  obtain ⟨held,hfind,hopen,rfl,rfl⟩ := chase_ok h
  refine .moved id hfind hopen ?_ rfl
  exact ⟨rfl,rfl,fun _ => .inl rfl⟩

theorem change_drop {note : String} (h : b.drop tick id note = .ok (r, b')) : Change b b' := by
  obtain ⟨held,hfind,hopen,hjob,rfl⟩ := drop_ok h
  refine .moved id hfind hopen ?_ rfl
  rw [hjob]
  exact ⟨rfl,rfl,fun _ => .inl rfl⟩

theorem change_kept {ran : Except BoardError (ActionResult × Board)}
    (h : ∀ r b', ran = .ok (r, b') → Change b b') : Change b (b.kept ran) := by
  cases ran with
  | error what => exact .same rfl
  | ok done => exact h done.1 done.2 rfl

theorem change_serve (b : Board) (v : Tick × Verb) : Change b (b.serve v) := by
  obtain ⟨tick,verb⟩ := v
  cases verb with
  | post request => exact change_kept (fun _ _ h => change_post h)
  | update request =>
      refine change_kept (fun _ _ h => ?_)
      obtain ⟨_,held,hfind,_,hopen,hm,hjobs⟩ := update_cases h
      exact .moved _ hfind hopen hm hjobs
  | answer id text => exact change_kept (fun _ _ h => change_answer h)
  | chase id note => exact change_kept (fun _ _ h => change_chase h)
  | drop id note => exact change_kept (fun _ _ h => change_drop h)
  | touch peer state =>
      refine .same ?_
      simp only [serve,touchPeer]
      split <;> rfl

def Unanswered (b : Board) : Prop := ∀ job ∈ b.jobs, job.closed = false → job.result = none

theorem Change.unanswered (hc : Change b b') (h : b.Unanswered) : b'.Unanswered := by
  intro job hjob hopen
  cases hc with
  | same hs => exact h job (hs ▸ hjob) hopen
  | posted new hresult hs =>
      rw [hs] at hjob
      rcases List.mem_append.mp (mem_crowd hjob) with hold | hnew
      · exact h job hold hopen
      · rw [List.mem_singleton.mp hnew]
        exact hresult
  | @moved id held moved hfind hheld hm hs =>
      rw [hs] at hjob
      rcases mem_setFirst hjob with rfl | hold
      · have hbefore := h held (List.mem_of_find?_eq_some hfind) hheld
        rcases hm.result hopen with hsame | hnone
        · exact hsame.trans hbefore
        · exact hnone
      · exact h job hold hopen

theorem unanswered_serveAll (vs : List (Tick × Verb)) (h : b.Unanswered) :
    (b.serveAll vs).Unanswered := by
  induction vs generalizing b with
  | nil => exact h
  | cons v vs ih => exact ih ((change_serve b v).unanswered h)

theorem Reachable.unanswered (h : b.Reachable) : b.Unanswered := by
  obtain ⟨vs,rfl⟩ := h
  refine unanswered_serveAll vs ?_
  intro job hjob
  cases hjob

theorem Reachable.serveAll (h : b.Reachable) (vs : List (Tick × Verb)) :
    (b.serveAll vs).Reachable := by
  obtain ⟨before,rfl⟩ := h
  exact ⟨before ++ vs,(List.foldl_append ..).symm⟩

def closing (self id : String) (failed : Bool) (result : String) : JobRequest :=
  { job := some id, sender := some self
    state := some (jobStateName (if failed then .failed else .done))
    result := some result }

theorem update_held_of_ok (h : b.update tick request = .ok (r, b')) :
    b.Held (request.sender.getD "") (request.job.getD "") := by
  obtain ⟨_,held,hfind,hholder,hopen,_,_⟩ := update_cases h
  exact ⟨held,hfind,hholder,hopen⟩

def closedBy (held : Job) (failed : Bool) (result now : String) : Job :=
  { held with
    state := if failed then .failed else .done
    result :=
      if failed then some (if result = "" then "failed" else result)
      else if result = "" then held.result else some result
    updatedAt := now }

theorem update_closing {self result : String} {held : Job} (failed : Bool) (hid : id ≠ "")
    (hself : self ≠ "") (hfind : b.find id = some held) (hholder : held.holder = self)
    (hopen : held.closed = false) :
    ∃ r b', b.update tick (closing self id failed result) = .ok (r, b') ∧
      b'.find id = some (closedBy held failed result tick.now) := by
  set job := closedBy held failed result tick.now with hjob
  set state := jobStateName (if failed then .failed else .done) with hstate
  have hdeclined : declined held self state = .ok held := by
    rw [hstate]
    cases failed <;> rfl
  have hmove : move held ⟨state, result, "", ""⟩ tick.now = .ok job := by
    rw [hstate,hjob]
    cases failed <;> rfl
  refine ⟨⟨job, if job.closed then some ⟨job.id, jobStateName job.state, job.result⟩ else none⟩,
    { b with
      jobs := setFirst id job b.jobs
      peers := b.peers.map (present job self) }.record tick.now
        (if state = "" then "note" else state) self id "",?_,?_⟩
  · simp only [update,closing,Option.getD_some,Option.getD_none,hid,hself,if_false,hfind,hholder,
      hopen,ne_eq,not_true_eq_false,Bool.false_eq_true,← hstate,hdeclined,bind,Except.bind,hmove,
      if_true]
  · have hname : held.id = id := id_of_find hfind
    exact @find_setFirst id job held b.jobs hname hfind

end Board

end PuCli.Serve
