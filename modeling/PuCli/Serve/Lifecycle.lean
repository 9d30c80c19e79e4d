import PuCli.Serve.Verbs
import Mathlib.Data.List.Nodup
import Mathlib.Data.List.Perm.Subperm

namespace PuCli.Serve

namespace Board

variable {b b' : Board} {tick : Tick} {id : String} {v : Tick × Verb} {vs : List (Tick × Verb)}
  {r : ActionResult} {job : Job} {jobs : List Job}

inductive Accepted (b : Board) : Tick × Verb → ActionResult → Board → Prop
  | post {tick : Tick} {request : JobRequest} {r : ActionResult} {b' : Board}
      (h : b.post tick request = .ok (r, b')) : Accepted b (tick, .post request) r b'
  | update {tick : Tick} {request : JobRequest} {r : ActionResult} {b' : Board}
      (h : b.update tick request = .ok (r, b')) : Accepted b (tick, .update request) r b'
  | answer {tick : Tick} {id text : String} {r : ActionResult} {b' : Board}
      (h : b.answer tick id text = .ok (r, b')) : Accepted b (tick, .answer id text) r b'
  | chase {tick : Tick} {id note : String} {r : ActionResult} {b' : Board}
      (h : b.chase tick id note = .ok (r, b')) : Accepted b (tick, .chase id note) r b'
  | drop {tick : Tick} {id note : String} {r : ActionResult} {b' : Board}
      (h : b.drop tick id note = .ok (r, b')) : Accepted b (tick, .drop id note) r b'

theorem outcome_kept {ran : Except BoardError (ActionResult × Board)}
    (h : ∀ r b', ran = .ok (r, b') → Accepted b v r b') :
    ((∃ what, ran.map (fun done => (some done.1, done.2)) = .error what) ∧ b.kept ran = b) ∨
      ∃ r, ran.map (fun done => (some done.1, done.2)) = .ok (some r, b.kept ran) ∧
        Accepted b v r (b.kept ran) := by
  cases ran with
  | error what => exact .inl ⟨⟨what,rfl⟩,rfl⟩
  | ok done => exact .inr ⟨done.1,rfl,h done.1 done.2 rfl⟩

theorem outcome_cases (b : Board) (v : Tick × Verb) :
    ((∃ what, BoardM.outcome b v = .error what) ∧ b.serve v = b) ∨
      (∃ r, BoardM.outcome b v = .ok (some r, b.serve v) ∧ Accepted b v r (b.serve v)) ∨
      ∃ peer state, v.2 = .touch peer state ∧ BoardM.outcome b v = .ok (none, b.serve v) := by
  obtain ⟨tick,verb⟩ := v
  cases verb with
  | post request => exact (outcome_kept (fun _ _ h => .post h)).imp_right .inl
  | update request => exact (outcome_kept (fun _ _ h => .update h)).imp_right .inl
  | answer id text => exact (outcome_kept (fun _ _ h => .answer h)).imp_right .inl
  | chase id note => exact (outcome_kept (fun _ _ h => .chase h)).imp_right .inl
  | drop id note => exact (outcome_kept (fun _ _ h => .drop h)).imp_right .inl
  | touch peer state => exact .inr (.inr ⟨peer,state,rfl,rfl⟩)

theorem touchPeer_same (tick : Tick) (b : Board) (peer state : String) :
    (b.touchPeer tick peer state).jobs = b.jobs ∧ (b.touchPeer tick peer state).audit = b.audit := by
  unfold touchPeer
  split <;> exact ⟨rfl,rfl⟩

theorem serve_cases (b : Board) (v : Tick × Verb) :
    ((b.serve v).jobs = b.jobs ∧ (b.serve v).audit = b.audit) ∨
      ∃ r, Accepted b v r (b.serve v) := by
  rcases outcome_cases b v with ⟨_,hsame⟩ | ⟨r,_,haccepted⟩ | ⟨peer,state,hverb,_⟩
  · rw [hsame]
    exact .inl ⟨rfl,rfl⟩
  · exact .inr ⟨r,haccepted⟩
  · obtain ⟨tick,verb⟩ := v
    obtain rfl : verb = .touch peer state := hverb
    exact .inl (touchPeer_same tick b peer state)

-- What a verb may do to a job that stays on the board.
structure Kept (job job' : Job) : Prop where
  id : job'.id = job.id
  sender : job'.sender = job.sender
  holder : job'.holder = job.holder
  intent : job'.intent = job.intent
  createdAt : job'.createdAt = job.createdAt
  closed : job.closed = true → job' = job

theorem Kept.refl (job : Job) : Kept job job := ⟨rfl,rfl,rfl,rfl,rfl,fun _ => rfl⟩

theorem Kept.trans {first middle last : Job} (h : Kept first middle) (h' : Kept middle last) :
    Kept first last where
  id := h'.id.trans h.id
  sender := h'.sender.trans h.sender
  holder := h'.holder.trans h.holder
  intent := h'.intent.trans h.intent
  createdAt := h'.createdAt.trans h.createdAt
  closed := by
    intro hc
    obtain rfl := h.closed hc
    exact h'.closed hc

theorem kept_move {held moved : Job} {upd : JobUpdate} {now : String} (hopen : held.closed = false)
    (h : move held upd now = .ok moved) : Kept held moved := by
  obtain ⟨_,_,_,_,hmoved⟩ := move_ok h
  rw [hmoved]
  exact ⟨rfl,rfl,rfl,rfl,rfl,by simp [hopen]⟩

theorem kept_declined {held asked : Job} {peer state : String} (hopen : held.closed = false)
    (h : declined held peer state = .ok asked) : Kept held asked ∧ asked.closed = false := by
  unfold declined at h
  split at h
  · split at h
    · cases h
    · cases h
      exact ⟨⟨rfl,rfl,rfl,rfl,rfl,by simp [hopen]⟩,hopen⟩
  · cases h
    exact ⟨Kept.refl _,hopen⟩

-- How a verb moves the one job it reaches.
inductive Reaches (held job : Job) : Verb → Prop
  | update {request : JobRequest} (hholder : request.sender = some held.holder)
      (hstate : job.state ≠ .cancelled) : Reaches held job (.update request)
  | answer {text : String} (hstate : held.state = .blocked ∧ job.state = .working) :
      Reaches held job (.answer held.id text)
  | chase {note : String} (hstate : job.state = held.state) : Reaches held job (.chase held.id note)
  | drop {note : String} (hstate : job.state = .cancelled) : Reaches held job (.drop held.id note)

inductive Step (b b' : Board) (v : Tick × Verb) : Prop
  | same (hjobs : b'.jobs = b.jobs) (haudit : b'.audit = b.audit)
  | posted {request : JobRequest} {job : Job} (hverb : v.2 = .post request)
      (hid : job.id = v.1.newId) (hstate : job.state = .opened) (hholder : job.holder ≠ "")
      (hroom : b.jobs.countP (fun job => !job.closed) < kMaxOpen)
      (hjobs : b'.jobs = crowd (b.jobs ++ [job])) (haudit : b'.audit.length ≤ kMaxAudit)
  | moved {held job : Job} (hfind : b.find held.id = some held) (hopen : held.closed = false)
      (hkept : Kept held job) (hreach : Reaches held job v.2)
      (hjobs : b'.jobs = setFirst held.id job b.jobs) (haudit : b'.audit.length ≤ kMaxAudit)

theorem audit_record (b : Board) (stamp kind peer job text : String) :
    (b.record stamp kind peer job text).audit.length ≤ kMaxAudit := by
  simp only [record,List.length_drop]
  omega

theorem kept_written {held : Job} (hopen : held.closed = false) (hid : job.id = held.id)
    (hsender : job.sender = held.sender) (hholder : job.holder = held.holder)
    (hintent : job.intent = held.intent) (hcreated : job.createdAt = held.createdAt) :
    Kept held job :=
  ⟨hid,hsender,hholder,hintent,hcreated,by simp [hopen]⟩

theorem step_of_update {request : JobRequest} (h : b.update tick request = .ok (r, b')) :
    Step b b' (tick, .update request) := by
  obtain ⟨hpeer,held,asked,moved,hfind,hholder,hopen,hd,hm,hjob,rfl⟩ := update_ok h
  obtain ⟨hasked,haopen⟩ := kept_declined hopen hd
  have hmoved := hasked.trans (kept_move haopen hm)
  have hid : request.job.getD "" = held.id := (id_of_find hfind).symm
  have hsender : request.sender = some held.holder := by
    rw [hholder]
    cases hs : request.sender with
    | none => simp [hs] at hpeer
    | some peer => rfl
  have hsame : r.job.state = moved.state ∧ Kept held r.job := by
    rw [hjob]
    split
    · exact ⟨rfl,hmoved⟩
    · exact ⟨rfl,kept_written hopen hmoved.id hmoved.sender hmoved.holder hmoved.intent
        hmoved.createdAt⟩
  rw [hid] at hfind ⊢
  refine .moved hfind hopen hsame.2 (.update hsender ?_) rfl (audit_record ..)
  rw [hsame.1]
  exact (move_ok hm).2.1

theorem step_of_accepted (h : Accepted b v r b') : Step b b' v := by
  cases h with
  | post h =>
      obtain ⟨due,_,hholder,hroom,rfl,rfl⟩ := post_ok h
      exact .posted rfl rfl rfl hholder hroom rfl (audit_record ..)
  | update h => exact step_of_update h
  | answer h =>
      obtain ⟨held,hfind,hopen,hblocked,rfl,rfl⟩ := answer_ok h
      obtain rfl := id_of_find hfind
      refine .moved hfind hopen ?_ (.answer ⟨hblocked,rfl⟩) rfl (audit_record ..)
      exact kept_written hopen rfl rfl rfl rfl rfl
  | chase h =>
      obtain ⟨held,hfind,hopen,rfl,rfl⟩ := chase_ok h
      obtain rfl := id_of_find hfind
      refine .moved hfind hopen ?_ ?_ rfl (audit_record ..)
      · exact kept_written hopen rfl rfl rfl rfl rfl
      · exact .chase rfl
  | drop h =>
      obtain ⟨held,hfind,hopen,hjob,rfl⟩ := drop_ok h
      obtain rfl := id_of_find hfind
      refine .moved hfind hopen ?_ (.drop ?_) rfl (audit_record ..)
      · rw [hjob]
        exact kept_written hopen rfl rfl rfl rfl rfl
      · rw [hjob]

theorem step_serve (b : Board) (v : Tick × Verb) : Step b (b.serve v) v := by
  rcases serve_cases b v with ⟨hjobs,haudit⟩ | ⟨r,h⟩
  · exact .same hjobs haudit
  · exact step_of_accepted h

def ids (b : Board) : List String := b.jobs.map Job.id

def postId (v : Tick × Verb) : Option String :=
  match v.2 with
  | .post _ => some v.1.newId
  | _ => none

def newIds (vs : List (Tick × Verb)) : List String := vs.filterMap postId

def Fresh (b : Board) (vs : List (Tick × Verb)) : Prop := (b.ids ++ newIds vs).Nodup

theorem newIds_cons (v : Tick × Verb) (vs : List (Tick × Verb)) :
    newIds (v :: vs) = (postId v).toList ++ newIds vs := by
  unfold newIds
  cases hp : postId v <;> simp [hp]

theorem newIds_append (vs ws : List (Tick × Verb)) : newIds (vs ++ ws) = newIds vs ++ newIds ws :=
  List.filterMap_append ..

theorem map_id_setFirst (hid : job.id = id) :
    (setFirst id job jobs).map Job.id = jobs.map Job.id := by
  induction jobs with
  | nil => rfl
  | cons j js ih =>
      rw [setFirst]
      split
      · next hj => simp [hid,hj]
      · rw [List.map_cons,List.map_cons,ih]

theorem crowd_subperm (jobs : List Job) : (crowd jobs).Subperm jobs := by
  unfold crowd
  split
  · exact (List.drop_sublist 1 _).subperm.trans (List.mergeSort_perm ..).subperm
  · exact List.Subperm.refl jobs

theorem find_of_mem {held : Job} {jobs : List Job} (hn : (jobs.map Job.id).Nodup)
    (h : held ∈ jobs) :
    jobs.find? (fun job => job.id = held.id) = some held := by
  cases hfind : jobs.find? (fun job => job.id = held.id) with
  | none => simpa using List.find?_eq_none.mp hfind held h
  | some found =>
      have hid : found.id = held.id := by simpa using List.find?_some hfind
      rw [List.inj_on_of_nodup_map hn (List.mem_of_find?_eq_some hfind) h hid]

theorem subperm_map {α β : Type} (f : α → β) {l l' : List α} (h : l.Subperm l') :
    (l.map f).Subperm (l'.map f) := by
  obtain ⟨m,hperm,hsub⟩ := h
  exact ⟨m.map f,hperm.map f,hsub.map f⟩

theorem subperm_nodup {α : Type} {l l' : List α} (h : l.Subperm l') (hn : l'.Nodup) : l.Nodup := by
  obtain ⟨m,hperm,hsub⟩ := h
  exact hperm.nodup_iff.mp (hn.sublist hsub)

theorem ids_step (h : Step b b' v) : b'.ids.Subperm (b.ids ++ (postId v).toList) := by
  unfold ids
  cases h with
  | same hjobs _ =>
      rw [hjobs]
      exact (List.sublist_append_left ..).subperm
  | @posted request job hverb hid _ _ _ hjobs _ =>
      have hpost : postId v = some job.id := by
        unfold postId
        rw [hverb,hid]
      rw [hjobs,hpost]
      simpa using subperm_map Job.id (crowd_subperm (b.jobs ++ [job]))
  | moved _ _ hkept _ hjobs _ =>
      rw [hjobs,map_id_setFirst hkept.id]
      exact (List.sublist_append_left ..).subperm

theorem fresh_step {ws : List (Tick × Verb)} (h : Step b b' v) (hf : Fresh b (v :: ws)) :
    Fresh b' ws := by
  refine subperm_nodup ?_ hf
  rw [newIds_cons,← List.append_assoc]
  exact (List.subperm_append_right _).mpr (ids_step h)

theorem Fresh.distinct (h : Fresh b vs) : b.ids.Nodup := h.sublist (List.sublist_append_left ..)

theorem eq_of_id (hn : b.ids.Nodup) {job job' : Job} (h : job ∈ b.jobs) (h' : job' ∈ b.jobs)
    (hid : job'.id = job.id) : job' = job :=
  List.inj_on_of_nodup_map hn h' h hid

theorem kept_step (h : Step b b' v) (hf : Fresh b [v]) {job job' : Job} (hjob : job ∈ b.jobs)
    (hjob' : job' ∈ b'.jobs) (hid : job'.id = job.id) : Kept job job' := by
  have hsame : job' ∈ b.jobs → Kept job job' := by
    intro hmem
    obtain rfl := eq_of_id hf.distinct hjob hmem hid
    exact Kept.refl _
  cases h with
  | same hjobs _ => exact hsame (hjobs ▸ hjob')
  | @posted request new hverb hnew _ _ _ hjobs _ =>
      rw [hjobs] at hjob'
      rcases List.mem_append.mp (mem_crowd hjob') with hold | hlast
      · exact hsame hold
      · rw [List.mem_singleton.mp hlast,hnew] at hid
        have hpost : newIds [v] = [v.1.newId] := by
          simp [newIds,postId,hverb]
        unfold Fresh at hf
        rw [hpost] at hf
        have hmem : v.1.newId ∈ b.ids := List.mem_map.mpr ⟨job,hjob,hid.symm⟩
        exact absurd (List.mem_singleton.mpr rfl) ((List.nodup_append.mp hf).2.2 _ hmem _ · rfl)
  | @moved held moved hfind _ hkept _ hjobs _ =>
      rw [hjobs] at hjob'
      rcases mem_setFirst hjob' with rfl | hold
      · have hheld := List.mem_of_find?_eq_some hfind
        obtain rfl := eq_of_id hf.distinct hjob hheld (hkept.id.symm.trans hid)
        exact hkept
      · exact hsame hold

structure Bounded (b : Board) : Prop where
  unfinished : b.jobs.countP (fun job => !job.closed) ≤ kMaxOpen
  jobs : b.jobs.length ≤ kMaxOpen + kMaxClosedKept
  audit : b.audit.length ≤ kMaxAudit

theorem length_crowd (h : jobs.length ≤ kMaxOpen + kMaxClosedKept + 1) :
    (crowd jobs).length ≤ kMaxOpen + kMaxClosedKept := by
  unfold crowd
  split
  · rw [List.length_drop,List.length_mergeSort]
    omega
  · omega

theorem length_setFirst : (setFirst id job jobs).length = jobs.length := by
  induction jobs with
  | nil => rfl
  | cons j js ih =>
      rw [setFirst]
      split
      · rfl
      · rw [List.length_cons,List.length_cons,ih]

theorem countP_setFirst {held : Job} {p : Job → Bool} (hp : p held = true)
    (h : jobs.find? (fun j => j.id = id) = some held) :
    (setFirst id job jobs).countP p ≤ jobs.countP p := by
  induction jobs with
  | nil => cases h
  | cons j js ih =>
      rw [setFirst]
      split
      · next hj =>
          rw [List.find?_cons_of_pos (by simpa using hj)] at h
          rw [Option.some.inj h,List.countP_cons,List.countP_cons,if_pos hp]
          split <;> omega
      · next hj =>
          rw [List.find?_cons_of_neg (by simpa using hj)] at h
          rw [List.countP_cons,List.countP_cons]
          have hjs := ih h
          omega

theorem bounded_step (h : Step b b' v) (hb : Bounded b) : Bounded b' := by
  obtain ⟨hunfinished,hjobs,haudit⟩ := hb
  cases h with
  | same hsame hlog => exact ⟨hsame ▸ hunfinished,hsame ▸ hjobs,hlog ▸ haudit⟩
  | @posted request new _ _ _ _ hroom hsame hlog =>
      refine ⟨?_,?_,hlog⟩
      · rw [hsame]
        have hcount := (crowd_subperm (b.jobs ++ [new])).countP_le (fun job => !job.closed)
        rw [List.countP_append] at hcount
        have hone : [new].countP (fun job => !job.closed) ≤ 1 := List.countP_le_length
        omega
      · rw [hsame]
        refine length_crowd ?_
        rw [List.length_append,List.length_singleton]
        omega
  | @moved held new hfind hopen _ _ hsame hlog =>
      refine ⟨?_,?_,hlog⟩
      · rw [hsame]
        have hcount := @countP_setFirst held.id new b.jobs held (fun job => !job.closed)
          (by simp [hopen]) hfind
        omega
      · rw [hsame,length_setFirst]
        exact hjobs

-- A state moves only as its verb may.
structure Obeys (b : Board) (v : Tick × Verb) (b' : Board) : Prop where
  ids : ∀ job' ∈ b'.jobs, (∃ job ∈ b.jobs, job.id = job'.id) ∨
    (job'.id = v.1.newId ∧ ∃ request, v.2 = .post request)
  update : ∀ request, v.2 = .update request → ∀ job ∈ b.jobs, ∀ job' ∈ b'.jobs, job'.id = job.id →
    job'.state ≠ job.state → request.sender = some job.holder
  cancelled : ∀ job' ∈ b'.jobs, job'.state = .cancelled → job' ∈ b.jobs ∨
    ∃ note, v.2 = .drop job'.id note

theorem obeys_step (h : Step b b' v) (hf : Fresh b [v]) : Obeys b v b' := by
  cases h with
  | same hjobs _ =>
      refine ⟨?_,?_,?_⟩
      · intro job' hjob'
        exact .inl ⟨job',hjobs ▸ hjob',rfl⟩
      · intro request _ job hjob job' hjob' hid hstate
        rw [eq_of_id hf.distinct hjob (hjobs ▸ hjob') hid] at hstate
        exact absurd rfl hstate
      · intro job' hjob' _
        exact .inl (hjobs ▸ hjob')
  | @posted request new hverb hnewId hopened _ _ hjobs _ =>
      refine ⟨?_,?_,?_⟩
      · intro job' hjob'
        rw [hjobs] at hjob'
        rcases List.mem_append.mp (mem_crowd hjob') with hold | hnew
        · exact .inl ⟨job',hold,rfl⟩
        · rw [List.mem_singleton.mp hnew]
          exact .inr ⟨hnewId,request,hverb⟩
      · intro request' hupd
        rw [hverb] at hupd
        cases hupd
      · intro job' hjob' hstate
        rw [hjobs] at hjob'
        rcases List.mem_append.mp (mem_crowd hjob') with hold | hnew
        · exact .inl hold
        · rw [List.mem_singleton.mp hnew,hopened] at hstate
          cases hstate
  | @moved held new hfind hopen hkept hreach hjobs _ =>
      have hheld := List.mem_of_find?_eq_some hfind
      refine ⟨?_,?_,?_⟩
      · intro job' hjob'
        rw [hjobs] at hjob'
        rcases mem_setFirst hjob' with rfl | hold
        · exact .inl ⟨held,hheld,hkept.id.symm⟩
        · exact .inl ⟨job',hold,rfl⟩
      · intro request hupd job hjob job' hjob' hid hstate
        rw [hjobs] at hjob'
        rcases mem_setFirst hjob' with rfl | hold
        · obtain rfl := eq_of_id hf.distinct hjob hheld (hkept.id.symm.trans hid)
          rw [hupd] at hreach
          cases hreach with
          | update hholder _ => exact hholder
        · rw [eq_of_id hf.distinct hjob hold hid] at hstate
          exact absurd rfl hstate
      · intro job' hjob' hstate
        rw [hjobs] at hjob'
        rcases mem_setFirst hjob' with rfl | hold
        · refine .inr ?_
          have hid := hkept.id
          generalize v.2 = verb at hreach
          cases hreach with
          | update _ hne => exact absurd hstate hne
          | answer hw => simp [hw.2] at hstate
          | chase hsame =>
              rw [hstate] at hsame
              simp [Job.closed,← hsame] at hopen
          | @drop note _ => exact ⟨note,by rw [hid]⟩
        · exact .inl hold

theorem ids_serveAll (b : Board) (vs : List (Tick × Verb)) :
    (b.serveAll vs).ids ⊆ b.ids ++ newIds vs := by
  induction vs generalizing b with
  | nil =>
      intro id hid
      exact List.mem_append_left _ hid
  | cons v vs ih =>
      intro id hid
      rw [newIds_cons,← List.append_assoc]
      rcases List.mem_append.mp (ih (b.serve v) hid) with hnow | hlater
      · exact List.mem_append_left _ ((ids_step (step_serve b v)).subset hnow)
      · exact List.mem_append_right _ hlater

theorem fresh_serveAll {ws : List (Tick × Verb)} (h : Fresh b (vs ++ ws)) :
    Fresh (b.serveAll vs) ws := by
  induction vs generalizing b with
  | nil => exact h
  | cons v vs ih => exact ih (fresh_step (step_serve b v) h)

theorem bounded_serveAll (vs : List (Tick × Verb)) (h : Bounded b) : Bounded (b.serveAll vs) := by
  induction vs generalizing b with
  | nil => exact h
  | cons v vs ih => exact ih (bounded_step (step_serve b v) h)

theorem fresh_head {ws : List (Tick × Verb)} (h : Fresh b (v :: ws)) : Fresh b [v] := by
  unfold Fresh at h ⊢
  rw [newIds_cons] at h ⊢
  refine h.sublist ?_
  exact List.Sublist.append_left (List.Sublist.append_left (List.nil_sublist _) _) _

-- A job that has left the board never returns: its id is drawn only once.
theorem kept_serveAll (h : Fresh b vs) {job job' : Job} (hjob : job ∈ b.jobs)
    (hjob' : job' ∈ (b.serveAll vs).jobs) (hid : job'.id = job.id) : Kept job job' := by
  induction vs generalizing b job with
  | nil =>
      obtain rfl := eq_of_id h.distinct hjob hjob' hid
      exact Kept.refl _
  | cons v vs ih =>
      have hstep := step_serve b v
      have hmem : job.id ∈ (b.serve v).ids ++ newIds vs := by
        rw [← hid]
        exact ids_serveAll (b.serve v) vs (List.mem_map.mpr ⟨job',hjob',rfl⟩)
      rcases List.mem_append.mp hmem with hnow | hlater
      · obtain ⟨mid,hmid,hmidid⟩ := List.mem_map.mp hnow
        exact (kept_step hstep (fresh_head h) hjob hmid hmidid).trans
          (ih (fresh_step hstep h) hmid hjob' (hid.trans hmidid.symm))
      · refine absurd h ?_
        unfold Fresh
        rw [newIds_cons,List.nodup_append]
        rintro ⟨_,_,hdisjoint⟩
        exact hdisjoint _ (List.mem_map.mpr ⟨job,hjob,rfl⟩) _ (List.mem_append_right _ hlater) rfl

def acted (vs : List (Tick × Verb)) : Board :=
  vs.foldl (fun b v => (InPlace.ran (BoardM.act v) b).2) {}

theorem acted_eq_serveAll (vs : List (Tick × Verb)) : acted vs = serveAll {} vs := by
  unfold acted serveAll
  congr
  funext b v
  exact BoardM.acted_eq_serve b v

theorem board_lifecycle (vs ws : List (Tick × Verb)) (v : Tick × Verb)
    (hfresh : (newIds (vs ++ v :: ws)).Nodup) :
    ((acted vs).jobs.map Job.id).Nodup ∧ Bounded (acted vs) ∧
      (∀ what, (InPlace.ran (BoardM.act v) (acted vs)).1 = .error what →
        (InPlace.ran (BoardM.act v) (acted vs)).2 = acted vs) ∧
      Obeys (acted vs) v (InPlace.ran (BoardM.act v) (acted vs)).2 ∧
      ∀ job ∈ (acted vs).jobs, ∀ job' ∈ (acted (vs ++ v :: ws)).jobs, job'.id = job.id →
        Kept job job' := by
  have hstart : Fresh {} (vs ++ v :: ws) := hfresh
  have hmid := fresh_serveAll hstart
  have hempty : Bounded {} := ⟨by decide,by decide,by decide⟩
  rw [acted_eq_serveAll,acted_eq_serveAll,BoardM.acted_eq_serve]
  refine ⟨hmid.distinct,bounded_serveAll vs hempty,?_,?_,?_⟩
  · intro what h
    rw [← BoardM.acted_eq_serve]
    exact BoardM.unchanged_of_throw h
  · exact obeys_step (step_serve _ v) (fresh_head hmid)
  · intro job hjob job' hjob' hid
    have hsplit : serveAll {} (vs ++ v :: ws) = (serveAll {} vs).serveAll (v :: ws) :=
      List.foldl_append ..
    rw [hsplit] at hjob'
    exact kept_serveAll hmid hjob hjob' hid

def tickAt (now id : String) : Tick := ⟨now, id, fun _ => ""⟩

def postFor (now id holder intent : String) : Tick × Verb :=
  (tickAt now id, .post { holder := some holder, intent := some intent })

def moveTo (now id holder state question : String) : Tick × Verb :=
  (tickAt now "", .update
    { job := some id, sender := some holder, state := some state, question := some question })

theorem board_lifecycle_dropped :
    ((acted [postFor "1" "j1" "C" "tests", (tickAt "2" "", .drop "j1" "never mind")]).jobs.map
      Job.id).Nodup ∧
    ∀ job ∈ (acted [postFor "1" "j1" "C" "tests", (tickAt "2" "", .drop "j1" "never mind")]).jobs,
    ∀ job' ∈ (acted [postFor "1" "j1" "C" "tests", (tickAt "2" "", .drop "j1" "never mind"),
      moveTo "3" "j1" "C" "working" ""]).jobs, job'.id = job.id → Kept job job' := by
  have hrun := board_lifecycle [postFor "1" "j1" "C" "tests", (tickAt "2" "", .drop "j1" "never mind")]
    [] (moveTo "3" "j1" "C" "working" "") (by decide)
  exact ⟨hrun.1,hrun.2.2.2.2⟩

end Board

end PuCli.Serve
