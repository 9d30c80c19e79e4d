import PuCli.Library.Settle
import PuCli.Serve.Board

namespace PuCli.Serve

open InPlace

abbrev JobM := InPlace BoardError Job

abbrev BoardM := InPlace BoardError Board

def moveIn (update : JobUpdate) (now : String) : JobM Unit :=
  match parseJobState update.state with
  | none => throw (.refused
      ("`state` is open, claimed, working, blocked, done or failed, not " ++ update.state))
  | some .opened => do
      modify (fun job => { job with state := .opened })
      modify (fun job => { job with dueAt := none })
      modify (fun job => { job with question := none })
      modify (fun job => { job with result := none })
      modify (fun job => { job with updatedAt := now })
  | some .claimed => do
      modify (fun job => { job with state := .claimed })
      modify (fun job => { job with question := none })
      modify (fun job => { job with declinedBy := none })
      modify (fun job => { job with updatedAt := now })
  | some .working => do
      modify (fun job => { job with state := .working })
      modify (fun job => { job with question := none })
      modify (fun job => { job with declinedBy := none })
      modify (fun job => { job with updatedAt := now })
  | some .blocked => do
      if update.question = "" then
        throw (.refused "`blocked` needs a `question`, which is what the holder is asking")
      modify (fun job => { job with state := .blocked })
      modify (fun job => { job with question := some update.question })
      modify (fun job => { job with updatedAt := now })
  | some .done => do
      modify (fun job => { job with state := .done })
      modify (fun job =>
        { job with result := if update.result = "" then job.result else some update.result })
      modify (fun job => { job with updatedAt := now })
  | some .failed => do
      modify (fun job => { job with state := .failed })
      modify (fun job =>
        { job with result := some (if update.result = "" then "failed" else update.result) })
      modify (fun job => { job with updatedAt := now })
  | some .cancelled => throw (.refused "`cancelled` is the person's verb, so it is not an update")

def refuseClosed (id : String) : JobM Unit := do
  let job ← get
  if job.closed then throw (alreadyEnded id job)

def declineIn (peer state : String) : JobM Unit := do
  if state = "open" then
    let job ← get
    if job.declinedBy = some peer then
      throw (.refused ("job " ++ job.id ++ " was already declined by " ++ peer))
    modify (fun job => { job with declines := job.declines + 1 })
    modify (fun job => { job with declinedBy := some peer })

def updateJob (tick : Tick) (request : JobRequest) (id peer : String) : JobM Job := do
  let held ← get
  if held.holder ≠ peer then
    throw (.refused ("job " ++ id ++ " is " ++ held.holder ++ "'s, so " ++ peer ++
      " cannot update it"))
  refuseClosed id
  declineIn peer (request.state.getD "")
  moveIn ⟨request.state.getD "", request.result.getD "", request.question.getD "",
    request.note.getD ""⟩ tick.now
  if request.note.getD "" ≠ "" then modify (fun job => { job with note := request.note.getD "" })
  get

def answerJob (tick : Tick) (id text : String) : JobM Job := do
  refuseClosed id
  let job ← get
  if job.state ≠ .blocked then
    throw (.refused ("job " ++ id ++ " is not blocked, so there is no question to answer"))
  modify (fun job => { job with note := text })
  modify (fun job => { job with question := none })
  modify (fun job => { job with state := .working })
  modify (fun job => { job with updatedAt := tick.now })
  get

def chaseJob (tick : Tick) (id note : String) : JobM Job := do
  refuseClosed id
  modify (fun job => { job with note := note })
  modify (fun job => { job with question := none })
  modify (fun job => { job with chases := job.chases + 1 })
  modify (fun job => { job with updatedAt := tick.now })
  get

def dropJob (tick : Tick) (id note : String) : JobM Job := do
  refuseClosed id
  modify (fun job => { job with state := .cancelled })
  modify (fun job => { job with note := note })
  modify (fun job => { job with question := none })
  modify (fun job => { job with updatedAt := tick.now })
  get

namespace BoardM

variable {α : Type}

-- The iterator `it` of a verb: every field the verb writes through it lands in the board at once,
-- also when the verb throws later.
def atJob (id : String) (m : JobM α) : BoardM α := ExceptT.mk (fun b =>
  match b.find id with
  | none => (.error (noJob id), b)
  | some held =>
      let left := ran m held
      (left.1, { b with jobs := setFirst id left.2 b.jobs }))

def record (stamp kind peer job text : String) : BoardM Unit :=
  modify (fun b => b.record stamp kind peer job text)

def update (tick : Tick) (request : JobRequest) : BoardM ActionResult := do
  let id := request.job.getD ""
  let peer := request.sender.getD ""
  if id = "" then throw (.refused "a job update needs the `job` it is about")
  if peer = "" then throw (.refused "a job update needs the `from` that holds it")
  let job ← atJob id (updateJob tick request id peer)
  let state := request.state.getD ""
  record tick.now (if state = "" then "note" else state) peer id (request.note.getD "")
  modify (fun b => { b with peers := b.peers.map (Board.present job peer) })
  return ⟨job, if job.closed then some ⟨job.id, jobStateName job.state, job.result⟩ else none⟩

def post (tick : Tick) (request : JobRequest) : BoardM ActionResult := do
  let holder := request.holder.getD ""
  let intent := request.intent.getD ""
  if holder = "" then throw (.refused "a job needs the peer it is for, as `to`")
  if intent = "" then throw (.refused "a job needs an `intent`")
  let b ← get
  if kMaxOpen ≤ b.jobs.countP (fun job => !job.closed) then
    throw (.refused ("the board already holds " ++ toString kMaxOpen ++
      " unfinished jobs, so close one before posting another"))
  let dueAt ← ExceptT.mk (pure (Board.dueIn tick request.due))
  let job : Job :=
    { id := tick.newId, sender := request.sender.getD "", holder := holder, intent := intent,
      dueAt := dueAt, createdAt := tick.now, updatedAt := tick.now }
  modify (fun b => { b with jobs := b.jobs ++ [job] })
  modify (fun b => { b with jobs := Board.crowd b.jobs })
  record tick.now "post" job.sender job.id job.intent
  return { job := job }

def answer (tick : Tick) (id text : String) : BoardM ActionResult := do
  let job ← atJob id (answerJob tick id text)
  record tick.now "answer" "" id text
  return ⟨job, none⟩

def chase (tick : Tick) (id note : String) : BoardM ActionResult := do
  let job ← atJob id (chaseJob tick id note)
  record tick.now "chase" "" id note
  return ⟨job, none⟩

def drop (tick : Tick) (id note : String) : BoardM ActionResult := do
  let job ← atJob id (dropJob tick id note)
  record tick.now "drop" "" id note
  return ⟨job, some ⟨job.id, jobStateName job.state, none⟩⟩

end BoardM

section Job

variable {job : Job} {tick : Tick} {id peer state text note now : String} {upd : JobUpdate}

theorem ran_moveIn : ran (moveIn upd now) job =
    settled job ((move job upd now).map (fun moved => ((), moved))) := by
  unfold moveIn move
  cases parseJobState upd.state with
  | none => rfl
  | some next =>
      cases next with
      | opened => rfl
      | claimed => rfl
      | working => rfl
      | blocked =>
          by_cases hq : upd.question = ""
          · simp only [if_pos hq]
            rfl
          · simp only [if_neg hq]
            rfl
      | done => rfl
      | failed => rfl
      | cancelled => rfl

theorem ran_refuseClosed : ran (refuseClosed id) job =
    (if job.closed then .error (alreadyEnded id job) else .ok (), job) := by
  unfold refuseClosed
  rw [ran_bind_ok ran_get]
  split <;> rfl

theorem ran_of_closed {k : Unit → JobM Job} (h : job.closed = true) :
    ran (refuseClosed id >>= k) job = (.error (alreadyEnded id job), job) := by
  refine ran_bind_error ?_
  rw [ran_refuseClosed,if_pos h]

theorem ran_of_open {k : Unit → JobM Job} (h : job.closed = false) :
    ran (refuseClosed id >>= k) job = ran (k ()) job := by
  refine ran_bind_ok ?_
  rw [ran_refuseClosed,if_neg (by simp [h])]

theorem ran_declineIn : ran (declineIn peer state) job =
    settled job ((Board.declined job peer state).map (fun asked => ((), asked))) := by
  unfold declineIn Board.declined
  split
  · rw [ran_bind_ok ran_get]
    split <;> rfl
  · rfl

theorem declined_of_move_error {asked : Job} {what : BoardError}
    (hd : Board.declined job peer upd.state = .ok asked) (hm : move asked upd now = .error what) :
    asked = job := by
  unfold Board.declined at hd
  split at hd
  · next hopen =>
      have hparse : parseJobState upd.state = some .opened := by
        rw [hopen]
        rfl
      simp [move,hparse] at hm
  · cases hd
    rfl

def noted (note : String) (job : Job) : Job := if note = "" then job else { job with note := note }

def updated (tick : Tick) (request : JobRequest) (id peer : String) (held : Job) :
    Except BoardError (Job × Job) :=
  if held.holder ≠ peer then
    .error (.refused ("job " ++ id ++ " is " ++ held.holder ++ "'s, so " ++ peer ++
      " cannot update it"))
  else if held.closed then .error (alreadyEnded id held)
  else do
    let asked ← Board.declined held peer (request.state.getD "")
    let moved ← move asked ⟨request.state.getD "", request.result.getD "",
      request.question.getD "", request.note.getD ""⟩ tick.now
    .ok (noted (request.note.getD "") moved, noted (request.note.getD "") moved)

theorem ran_updateJob {request : JobRequest} :
    ran (updateJob tick request id peer) job = settled job (updated tick request id peer job) := by
  unfold updateJob updated
  rw [ran_bind_ok ran_get]
  by_cases hholder : job.holder ≠ peer
  · rw [if_pos hholder,if_pos hholder]
    rfl
  · rw [if_neg hholder,if_neg hholder]
    dsimp only
    cases hclosed : job.closed with
    | true =>
        rw [ran_of_closed hclosed]
        rfl
    | false =>
        rw [ran_of_open hclosed]
        cases hd : Board.declined job peer (request.state.getD "") with
        | error what =>
            rw [ran_bind_error (ran_declineIn.trans (by rw [hd]; rfl))]
            rfl
        | ok asked =>
            rw [ran_bind_ok (ran_declineIn.trans (by rw [hd]; rfl))]
            cases hm : move asked ⟨request.state.getD "", request.result.getD "",
                request.question.getD "", request.note.getD ""⟩ tick.now with
            | error what =>
                obtain rfl := declined_of_move_error hd hm
                rw [ran_bind_error (ran_moveIn.trans (by rw [hm]; rfl))]
                simp [bind,Except.bind,hm,settled]
            | ok moved =>
                rw [ran_bind_ok (ran_moveIn.trans (by rw [hm]; rfl))]
                simp only [bind,Except.bind,hm,noted,Bool.false_eq_true,if_false]
                by_cases hnote : request.note.getD "" = ""
                · rw [if_pos hnote,if_neg (not_not_intro hnote)]
                  rfl
                · rw [if_neg hnote,if_pos hnote]
                  rfl

end Job

theorem setFirst_self {id : String} {held : Job} {jobs : List Job}
    (h : jobs.find? (fun job => job.id = id) = some held) : setFirst id held jobs = jobs := by
  induction jobs with
  | nil => cases h
  | cons j js ih =>
      rw [setFirst]
      split
      · next hj =>
          rw [List.find?_cons_of_pos (by simpa using hj)] at h
          rw [Option.some.inj h]
      · next hj =>
          rw [List.find?_cons_of_neg (by simpa using hj)] at h
          rw [ih h]

namespace BoardM

variable {α : Type} {b : Board} {tick : Tick} {id text note : String} {held : Job} {m : JobM α}

theorem ran_atJob_none (h : b.find id = none) : ran (atJob id m) b = (.error (noJob id), b) := by
  simp only [ran,atJob,ExceptT.run_mk,StateT.run,h]

theorem ran_atJob (h : b.find id = some held) {job : Job} {r : Except BoardError α}
    (hm : ran m held = (r, job)) :
    ran (atJob id m) b = (r, { b with jobs := setFirst id job b.jobs }) := by
  simp only [ran,atJob,ExceptT.run_mk,StateT.run,h]
  change ((ran m held).1, { b with jobs := setFirst id (ran m held).2 b.jobs }) = _
  rw [hm]

theorem ran_atJob_error (h : b.find id = some held) {what : BoardError}
    (hm : ran m held = (.error what, held)) : ran (atJob id m) b = (.error what, b) := by
  rw [ran_atJob h hm,setFirst_self h]

theorem ran_update {request : JobRequest} :
    ran (update tick request) b = settled b (b.update tick request) := by
  unfold update Board.update
  dsimp only
  by_cases hid : request.job.getD "" = ""
  · rw [if_pos hid,if_pos hid]
    rfl
  rw [if_neg hid,if_neg hid]
  by_cases hpeer : request.sender.getD "" = ""
  · rw [if_pos hpeer,if_pos hpeer]
    rfl
  rw [if_neg hpeer,if_neg hpeer]
  cases hfind : b.find (request.job.getD "") with
  | none =>
      rw [ran_bind_error (ran_atJob_none hfind)]
      rfl
  | some held =>
      have hjob := @ran_updateJob held tick (request.job.getD "") (request.sender.getD "") request
      unfold updated at hjob
      dsimp only
      by_cases hholder : held.holder ≠ request.sender.getD ""
      · rw [if_pos hholder] at hjob ⊢
        rw [ran_bind_error (ran_atJob_error hfind hjob)]
        rfl
      rw [if_neg hholder] at hjob ⊢
      by_cases hclosed : held.closed = true
      · rw [if_pos hclosed] at hjob ⊢
        rw [ran_bind_error (ran_atJob_error hfind hjob)]
        rfl
      rw [if_neg hclosed] at hjob ⊢
      cases hd : Board.declined held (request.sender.getD "") (request.state.getD "") with
      | error what =>
          simp only [hd,bind,Except.bind,settled] at hjob ⊢
          exact ran_bind_error (ran_atJob_error hfind hjob)
      | ok asked =>
          cases hm : move asked ⟨request.state.getD "", request.result.getD "",
              request.question.getD "", request.note.getD ""⟩ tick.now with
          | error what =>
              simp only [hd,hm,bind,Except.bind,settled] at hjob ⊢
              exact ran_bind_error (ran_atJob_error hfind hjob)
          | ok moved =>
              simp only [hd,hm,bind,Except.bind,settled] at hjob
              refine (ran_bind_ok (ran_atJob hfind hjob)).trans ?_
              simp only [hm,bind,Except.bind]
              rfl

theorem ran_answer : ran (answer tick id text) b = settled b (b.answer tick id text) := by
  unfold answer Board.answer
  cases hfind : b.find id with
  | none =>
      rw [ran_bind_error (ran_atJob_none hfind)]
      rfl
  | some held =>
      dsimp only
      by_cases hclosed : held.closed = true
      · have hjob : ran (answerJob tick id text) held = (.error (alreadyEnded id held), held) :=
          ran_of_closed hclosed
        rw [if_pos hclosed,ran_bind_error (ran_atJob_error hfind hjob)]
        rfl
      have hopen := eq_false_of_ne_true hclosed
      rw [if_neg hclosed]
      by_cases hblocked : held.state ≠ .blocked
      · have hjob : ran (answerJob tick id text) held = (.error (.refused ("job " ++ id ++
            " is not blocked, so there is no question to answer")), held) := by
          refine (ran_of_open hopen).trans ?_
          rw [ran_bind_ok ran_get,if_pos hblocked]
          rfl
        rw [if_pos hblocked,ran_bind_error (ran_atJob_error hfind hjob)]
        rfl
      · have hjob : ran (answerJob tick id text) held = (.ok { held with
            note := text, question := none, state := .working, updatedAt := tick.now }, { held with
            note := text, question := none, state := .working, updatedAt := tick.now }) := by
          refine (ran_of_open hopen).trans ?_
          rw [ran_bind_ok ran_get,if_neg hblocked]
          rfl
        rw [if_neg hblocked,ran_bind_ok (ran_atJob hfind hjob)]
        rfl

theorem ran_chase : ran (chase tick id note) b = settled b (b.chase tick id note) := by
  unfold chase Board.chase
  cases hfind : b.find id with
  | none =>
      rw [ran_bind_error (ran_atJob_none hfind)]
      rfl
  | some held =>
      dsimp only
      by_cases hclosed : held.closed = true
      · have hjob : ran (chaseJob tick id note) held = (.error (alreadyEnded id held), held) :=
          ran_of_closed hclosed
        rw [if_pos hclosed,ran_bind_error (ran_atJob_error hfind hjob)]
        rfl
      · have hjob : ran (chaseJob tick id note) held = (.ok { held with
            note := note, question := none, chases := held.chases + 1, updatedAt := tick.now },
            { held with
            note := note, question := none, chases := held.chases + 1, updatedAt := tick.now }) :=
          ran_of_open (eq_false_of_ne_true hclosed)
        rw [if_neg hclosed,ran_bind_ok (ran_atJob hfind hjob)]
        rfl

theorem ran_drop : ran (drop tick id note) b = settled b (b.drop tick id note) := by
  unfold drop Board.drop
  cases hfind : b.find id with
  | none =>
      rw [ran_bind_error (ran_atJob_none hfind)]
      rfl
  | some held =>
      dsimp only
      by_cases hclosed : held.closed = true
      · have hjob : ran (dropJob tick id note) held = (.error (alreadyEnded id held), held) :=
          ran_of_closed hclosed
        rw [if_pos hclosed,ran_bind_error (ran_atJob_error hfind hjob)]
        rfl
      · have hjob : ran (dropJob tick id note) held = (.ok { held with
            state := .cancelled, note := note, question := none, updatedAt := tick.now }, { held with
            state := .cancelled, note := note, question := none, updatedAt := tick.now }) :=
          ran_of_open (eq_false_of_ne_true hclosed)
        rw [if_neg hclosed,ran_bind_ok (ran_atJob hfind hjob)]
        rfl

theorem ran_post {request : JobRequest} :
    ran (post tick request) b = settled b (b.post tick request) := by
  unfold post Board.post
  dsimp only
  by_cases hholder : request.holder.getD "" = ""
  · rw [if_pos hholder,if_pos hholder]
    rfl
  rw [if_neg hholder,if_neg hholder]
  by_cases hintent : request.intent.getD "" = ""
  · rw [if_pos hintent,if_pos hintent]
    rfl
  rw [if_neg hintent,if_neg hintent,ran_bind_ok ran_get]
  by_cases hfull : kMaxOpen ≤ b.jobs.countP (fun job => !job.closed)
  · rw [if_pos hfull,if_pos hfull]
    rfl
  rw [if_neg hfull,if_neg hfull]
  cases Board.dueIn tick request.due with
  | error what => rfl
  | ok due => rfl

def act (v : Tick × Verb) : BoardM (Option ActionResult) :=
  match v.2 with
  | .post request => do return some (← post v.1 request)
  | .update request => do return some (← update v.1 request)
  | .answer id text => do return some (← answer v.1 id text)
  | .chase id note => do return some (← chase v.1 id note)
  | .drop id note => do return some (← drop v.1 id note)
  | .touch peer state => do
      modify (fun b => b.touchPeer v.1 peer state)
      return none

theorem ran_tagged {n : BoardM ActionResult} {ended : Except BoardError (ActionResult × Board)}
    (h : ran n b = settled b ended) :
    ran (do return some (← n)) b = settled b (ended.map (fun done => (some done.1, done.2))) := by
  cases ended with
  | error what =>
      rw [ran_bind_error h]
      rfl
  | ok done =>
      rw [ran_bind_ok h]
      rfl

def outcome (b : Board) (v : Tick × Verb) : Except BoardError (Option ActionResult × Board) :=
  match v.2 with
  | .post request => (b.post v.1 request).map (fun done => (some done.1, done.2))
  | .update request => (b.update v.1 request).map (fun done => (some done.1, done.2))
  | .answer id text => (b.answer v.1 id text).map (fun done => (some done.1, done.2))
  | .chase id note => (b.chase v.1 id note).map (fun done => (some done.1, done.2))
  | .drop id note => (b.drop v.1 id note).map (fun done => (some done.1, done.2))
  | .touch peer state => .ok (none, b.touchPeer v.1 peer state)

theorem ran_act (b : Board) (v : Tick × Verb) : ran (act v) b = settled b (outcome b v) := by
  obtain ⟨tick,verb⟩ := v
  cases verb with
  | post request => exact ran_tagged ran_post
  | update request => exact ran_tagged ran_update
  | answer id text => exact ran_tagged ran_answer
  | chase id note => exact ran_tagged ran_chase
  | drop id note => exact ran_tagged ran_drop
  | touch peer state => rfl

theorem serve_outcome (b : Board) (v : Tick × Verb) : (settled b (outcome b v)).2 = b.serve v := by
  obtain ⟨tick,verb⟩ := v
  have hkept : ∀ ended : Except BoardError (ActionResult × Board),
      (settled b (ended.map (fun done => (some done.1, done.2)))).2 = b.kept ended := by
    intro ended
    cases ended <;> rfl
  cases verb with
  | post request => exact hkept _
  | update request => exact hkept _
  | answer id text => exact hkept _
  | chase id note => exact hkept _
  | drop id note => exact hkept _
  | touch peer state => rfl

theorem acted_eq_serve (b : Board) (v : Tick × Verb) : (ran (act v) b).2 = b.serve v := by
  rw [ran_act,serve_outcome]

theorem unchanged_of_throw {v : Tick × Verb} {what : BoardError}
    (h : (ran (act v) b).1 = .error what) : (ran (act v) b).2 = b := by
  rw [ran_act] at h ⊢
  cases hended : outcome b v with
  | error why => rfl
  | ok done => simp [hended,settled] at h

end BoardM

end PuCli.Serve
