import PuCli.Core.Json
import PuCli.Library.Run
import PuCli.Library.StableSort
import PuCli.Serve.Lifecycle

namespace PuCli.Serve

def kMaxSettledShown : Nat := 3

structure Clock where
  now : String
  age : String → Option Int

def Clock.ageSeconds (clock : Clock) (stamp : String) : Int := (clock.age stamp).getD 0

def told (key : String) : Option String → List (String × Json)
  | none => []
  | some text => [(key, .string text)]

def counted (key : String) (n : UInt32) : List (String × Json) :=
  if 0 < n then [(key, .uint64 n.toNat)] else []

def render (clock : Clock) (job : Job) : Json :=
  .object ([("id", .string job.id), ("from", .string job.sender), ("to", .string job.holder),
      ("intent", .string job.intent), ("state", .string (jobStateName job.state)),
      ("created_at", .string job.createdAt), ("updated_at", .string job.updatedAt),
      ("idle_seconds", .int64 (clock.ageSeconds job.updatedAt))] ++
    told "due_at" job.dueAt ++
    [("overdue", .bool (match job.dueAt with
      | none => false
      | some due => !job.closed && decide (0 < clock.ageSeconds due)))] ++
    told "result" job.result ++ told "question" job.question ++
    (if job.note = "" then [] else [("note", .string job.note)]) ++
    told "declined_by" job.declinedBy ++ counted "declines" job.declines ++
    counted "chases" job.chases ++ [("closed", .bool job.closed)])

def renderEntry (entry : AuditEntry) : Json :=
  .object [("at", .string entry.stamp), ("kind", .string entry.kind), ("peer", .string entry.peer),
    ("job", .string entry.job), ("text", .string entry.text)]

structure BoardPage where
  opened : List Json
  settled : List Json
  audit : List Json

namespace Board

def newestFirst (left right : Job) : Bool := decide (right.updatedAt ≤ left.updatedAt)

def unfinished (job : Job) : Bool := !job.closed

-- std::sort leaves the order of equal stamps open; the merge sort is one of its orders.
def page (clock : Clock) (b : Board) : BoardPage :=
  { opened := (b.jobs.filter unfinished).map (render clock)
    settled := (((b.jobs.filter Job.closed).mergeSort newestFirst).take kMaxSettledShown).map
      (render clock)
    audit := b.audit.map renderEntry }

-- Every job ever posted, as it stands now, beside the board that is meant to hold the unfinished ones.
structure Posted where
  ledger : List Job := []
  board : Board := {}

def entered (ledger : List Job) (v : Tick × Verb)
    (outcome : Except BoardError (Option ActionResult × Board)) : List Job :=
  match outcome, v.2 with
  | .ok (some r, _), .post _ => ledger ++ [r.job]
  | .ok (some r, _), _ => setFirst r.job.id r.job ledger
  | _, _ => ledger

def Posted.serve (s : Posted) (v : Tick × Verb) : Posted :=
  { ledger := entered s.ledger v (BoardM.outcome s.board v), board := s.board.serve v }

def Posted.owed (s : Posted) : List Job := s.ledger.filter unfinished

def Posted.Visible (s : Posted) : Prop :=
  (∀ clock, (s.board.page clock).opened = s.owed.map (render clock)) ∧
    ∀ job ∈ s.owed, job ∈ s.board.jobs

def oldest (jobs : List Job) : Option Job := jobs.find? (fun job => jobs.all (oldestLast job))

def Posted.Spares (s : Posted) (v : Tick × Verb) : Prop :=
  ∀ request r b', v.2 = .post request → s.board.post v.1 request = .ok (r, b') →
    kMaxOpen + kMaxClosedKept ≤ s.board.jobs.length →
      (∃ job, oldest (s.board.jobs ++ [r.job]) = some job ∧ job.closed = true) ∧
        (s.board.jobs ++ [r.job]).Pairwise (fun left right =>
          left.closed = false → right.closed = false → left.updatedAt ≤ right.updatedAt)

variable {s s' : Posted} {v : Tick × Verb} {vs : List (Tick × Verb)} {job held : Job} {id : String}
  {jobs : List Job}

inductive Entry (s s' : Posted) (v : Tick × Verb) : Prop
  | same (hrefused : ∀ request r b', v.2 = .post request → s.board.post v.1 request ≠ .ok (r, b'))
      (hledger : s'.ledger = s.ledger) (hjobs : s'.board.jobs = s.board.jobs)
  | posted {request : JobRequest} {r : ActionResult} {b' : Board} (hverb : v.2 = .post request)
      (hpost : s.board.post v.1 request = .ok (r, b')) (hid : r.job.id = v.1.newId)
      (hopen : r.job.closed = false) (hledger : s'.ledger = s.ledger ++ [r.job])
      (hjobs : s'.board.jobs = crowd (s.board.jobs ++ [r.job]))
  | moved {held job : Job} (hverb : ∀ request, v.2 ≠ .post request)
      (hfind : s.board.find held.id = some held) (hopen : held.closed = false)
      (hid : job.id = held.id) (hledger : s'.ledger = setFirst held.id job s.ledger)
      (hjobs : s'.board.jobs = setFirst held.id job s.board.jobs)

theorem moved_of_accepted {r : ActionResult} {b b' : Board} (h : Accepted b v r b')
    (hverb : ∀ request, v.2 ≠ .post request) :
    ∃ held, b.find held.id = some held ∧ held.closed = false ∧ r.job.id = held.id ∧
      b'.jobs = setFirst held.id r.job b.jobs := by
  cases h with
  | post h => exact absurd rfl (hverb _)
  | update h =>
      obtain ⟨_,held,hfind,_,hopen,hmoved,hjobs⟩ := update_cases h
      have hid := id_of_find hfind
      rw [← hid] at hfind hjobs
      exact ⟨held,hfind,hopen,hmoved.id,hjobs⟩
  | answer h =>
      obtain ⟨held,hfind,hopen,_,rfl,rfl⟩ := answer_ok h
      obtain rfl := id_of_find hfind
      exact ⟨held,hfind,hopen,rfl,rfl⟩
  | chase h =>
      obtain ⟨held,hfind,hopen,rfl,rfl⟩ := chase_ok h
      obtain rfl := id_of_find hfind
      exact ⟨held,hfind,hopen,rfl,rfl⟩
  | drop h =>
      obtain ⟨held,hfind,hopen,hjob,rfl⟩ := drop_ok h
      obtain rfl := id_of_find hfind
      exact ⟨held,hfind,hopen,by rw [hjob],rfl⟩

theorem entered_other {ledger : List Job} {r : ActionResult} {b' : Board}
    (hverb : ∀ request, v.2 ≠ .post request) :
    entered ledger v (.ok (some r, b')) = setFirst r.job.id r.job ledger := by
  obtain ⟨tick,verb⟩ := v
  cases verb with
  | post request => exact absurd rfl (hverb request)
  | update request => rfl
  | answer id text => rfl
  | chase id note => rfl
  | drop id note => rfl
  | touch peer state => rfl

theorem outcome_post {b b' : Board} {request : JobRequest} {r : ActionResult}
    (hverb : v.2 = .post request) (h : b.post v.1 request = .ok (r, b')) :
    BoardM.outcome b v = .ok (some r, b') := by
  simp only [BoardM.outcome,hverb,h,Except.map]

theorem entry_serve (s : Posted) (v : Tick × Verb) : Entry s (s.serve v) v := by
  have hledger : (s.serve v).ledger = entered s.ledger v (BoardM.outcome s.board v) := rfl
  have hboard : (s.serve v).board = s.board.serve v := rfl
  rcases outcome_cases s.board v with ⟨⟨what,hwhat⟩,hsame⟩ | ⟨r,hr,haccepted⟩ | ⟨peer,state,hverb,hnone⟩
  · refine .same ?_ ?_ ?_
    · intro request r b' hverb hpost
      rw [outcome_post hverb hpost] at hwhat
      cases hwhat
    · rw [hledger,hwhat]
      rfl
    · rw [hboard,hsame]
  · rw [hr] at hledger
    cases hv : v.2 with
    | post request =>
        obtain ⟨tick,verb⟩ := v
        obtain rfl : verb = .post request := hv
        rw [← hboard] at haccepted
        generalize s.serve (tick, .post request) = s' at haccepted hledger ⊢
        cases haccepted with
        | post h =>
            obtain ⟨due,_,_,_,hjob,hb⟩ := post_ok h
            refine .posted rfl h ?_ ?_ hledger ?_
            · rw [hjob]
            · rw [hjob]
              rfl
            · rw [hb]
              rfl
    | _ =>
        have hverb : ∀ request, v.2 ≠ .post request := by
          intro request h
          rw [hv] at h
          cases h
        obtain ⟨held,hfind,hopen,hid,hjobs⟩ := moved_of_accepted haccepted hverb
        rw [entered_other hverb,hid] at hledger
        exact .moved hverb hfind hopen hid hledger hjobs
  · obtain ⟨tick,verb⟩ := v
    obtain rfl : verb = .touch peer state := hverb
    refine .same ?_ ?_ ?_
    · intro request r b' h
      cases h
    · rw [hledger,hnone]
      rfl
    · rw [hboard]
      exact (touchPeer_same tick s.board peer state).1

structure Posted.Sound (s : Posted) : Prop where
  ledger : (s.ledger.map Job.id).Nodup
  board : s.board.ids.Nodup
  subset : ∀ job ∈ s.board.jobs, job ∈ s.ledger

def Posted.Draws (s : Posted) (v : Tick × Verb) : Prop :=
  ∀ id, postId v = some id → id ∉ s.ledger.map Job.id

def Posted.SameOwed (s : Posted) : Prop := s.board.jobs.filter unfinished = s.owed

theorem mem_setFirst_of_ne (h : job ∈ jobs) {new : Job} (hid : job.id ≠ id) :
    job ∈ setFirst id new jobs := by
  induction jobs with
  | nil => cases h
  | cons j js ih =>
      rw [setFirst]
      split
      · next hj =>
          rcases List.mem_cons.mp h with rfl | hmem
          · exact absurd hj hid
          · exact List.mem_cons_of_mem _ hmem
      · rcases List.mem_cons.mp h with rfl | hmem
        · exact List.mem_cons_self ..
        · exact List.mem_cons_of_mem _ (ih hmem)

theorem of_mem_setFirst (hn : (jobs.map Job.id).Nodup) {new : Job}
    (h : job ∈ setFirst id new jobs) :
    job = new ∨ (job ∈ jobs ∧ job.id ≠ id) := by
  induction jobs with
  | nil => cases h
  | cons j js ih =>
      rw [List.map_cons,List.nodup_cons] at hn
      rw [setFirst] at h
      split at h
      · next hj =>
          rcases List.mem_cons.mp h with rfl | hmem
          · exact .inl rfl
          · refine .inr ⟨List.mem_cons_of_mem _ hmem,?_⟩
            intro hid
            exact hn.1 (List.mem_map.mpr ⟨job,hmem,hid.trans hj.symm⟩)
      · next hj =>
          rcases List.mem_cons.mp h with rfl | hmem
          · exact .inr ⟨List.mem_cons_self ..,hj⟩
          · exact (ih hn.2 hmem).imp_right (fun hold => ⟨List.mem_cons_of_mem _ hold.1,hold.2⟩)

theorem filter_setFirst {p : Job → Bool} (hp : p held = true)
    (h : jobs.find? (fun job => job.id = id) = some held) :
    (setFirst id job jobs).filter p = (setFirst id job (jobs.filter p)).filter p := by
  induction jobs with
  | nil => cases h
  | cons j js ih =>
      by_cases hj : j.id = id
      · rw [List.find?_cons_of_pos (by simpa using hj)] at h
        obtain rfl := Option.some.inj h
        rw [List.filter_cons_of_pos hp,setFirst,if_pos hj,setFirst,if_pos hj]
        simp [List.filter_cons]
      · rw [List.find?_cons_of_neg (by simpa using hj)] at h
        rw [setFirst,if_neg hj,List.filter_cons,List.filter_cons,ih h]
        split
        · next hpj => rw [setFirst,if_neg hj,List.filter_cons_of_pos hpj]
        · rfl

theorem sound_step (h : Entry s s' v) (hids : s'.board.ids.Subperm (s.board.ids ++
    (postId v).toList))
    (hs : s.Sound) (hf : s.Draws v) : s'.Sound := by
  have hboard : s'.board.ids.Nodup := by
    refine subperm_nodup hids ?_
    cases hp : postId v with
    | none => simpa using hs.board
    | some id =>
        refine List.Nodup.append hs.board (List.nodup_singleton _) ?_
        intro a ha hlast
        obtain rfl := List.mem_singleton.mp hlast
        obtain ⟨job,hjob,hid⟩ := List.mem_map.mp ha
        exact hf a hp (List.mem_map.mpr ⟨job,hs.subset job hjob,hid⟩)
  cases h with
  | same _ hledger hjobs =>
      refine ⟨hledger ▸ hs.ledger,hboard,?_⟩
      rw [hledger,hjobs]
      exact hs.subset
  | @posted request r b' hverb _ hid _ hledger hjobs =>
      have hfresh : r.job.id ∉ s.ledger.map Job.id := by
        refine hf _ ?_
        rw [hid,postId,hverb]
      refine ⟨?_,hboard,?_⟩
      · rw [hledger,List.map_append]
        refine List.Nodup.append hs.ledger (List.nodup_singleton _) ?_
        intro a ha hlast
        rw [List.mem_singleton.mp hlast] at ha
        exact hfresh ha
      · intro job hjob
        rw [hjobs] at hjob
        rw [hledger]
        rcases List.mem_append.mp (mem_crowd hjob) with hold | hnew
        · exact List.mem_append_left _ (hs.subset job hold)
        · exact List.mem_append_right _ hnew
  | @moved held new _ hfind _ hid hledger hjobs =>
      refine ⟨?_,hboard,?_⟩
      · rw [hledger,map_id_setFirst hid]
        exact hs.ledger
      · intro job hjob
        rw [hjobs] at hjob
        rw [hledger]
        have hheld := hs.subset held (List.mem_of_find?_eq_some hfind)
        rcases of_mem_setFirst hs.board hjob with rfl | ⟨hold,hne⟩
        · exact List.mem_of_find?_eq_some (find_setFirst hid (find_of_mem hs.ledger hheld))
        · exact mem_setFirst_of_ne (hs.subset job hold) hne

theorem order_oldestLast : StableSort.Order oldestLast where
  trans a b c hab hbc := by
    simp only [oldestLast,decide_eq_true_eq] at hab hbc ⊢
    exact String.le_trans hab hbc
  total a b := by
    simp only [oldestLast,Bool.or_eq_true,decide_eq_true_eq]
    exact String.le_total _ _

-- The eviction is harmless exactly when what it takes is closed and what it sorts is sorted.
theorem filter_crowd_iff (hlong : kMaxOpen + kMaxClosedKept < jobs.length) :
    (crowd jobs).filter unfinished = jobs.filter unfinished ↔
      (∃ job, oldest jobs = some job ∧ job.closed = true) ∧
        jobs.Pairwise (fun left right =>
          left.closed = false → right.closed = false → left.updatedAt ≤ right.updatedAt) := by
  have hpair : jobs.Pairwise (fun left right =>
      left.closed = false → right.closed = false → left.updatedAt ≤ right.updatedAt) ↔
      (jobs.mergeSort oldestLast).filter unfinished = jobs.filter unfinished := by
    rw [StableSort.filter_mergeSort_iff order_oldestLast,List.pairwise_filter]
    simp [unfinished,oldestLast]
  have hhead := StableSort.head?_mergeSort order_oldestLast (l := jobs)
  rw [hpair]
  unfold crowd oldest
  rw [if_pos hlong,← hhead]
  have hcount := ((List.mergeSort_perm jobs oldestLast).filter unfinished).length_eq
  have hlen := (List.mergeSort_perm jobs oldestLast).length_eq
  generalize jobs.mergeSort oldestLast = sorted at hcount hlen ⊢
  cases sorted with
  | nil =>
      rw [← hlen] at hlong
      simp at hlong
  | cons first rest =>
      rw [List.drop_one,List.tail_cons,List.head?_cons]
      cases hclosed : first.closed with
      | true =>
          have hskip : (first :: rest).filter unfinished = rest.filter unfinished :=
            List.filter_cons_of_neg (by simp [unfinished,hclosed])
          rw [hskip]
          simp [hclosed]
      | false =>
          have hkeep : (first :: rest).filter unfinished = first :: rest.filter unfinished :=
            List.filter_cons_of_pos (by simp [unfinished,hclosed])
          rw [hkeep,List.length_cons] at hcount
          constructor
          · intro hsame
            rw [hsame] at hcount
            omega
          · rintro ⟨⟨job,hjob,hjobclosed⟩,_⟩
            rw [← Option.some.inj hjob,hclosed] at hjobclosed
            cases hjobclosed

theorem sameOwed_step (h : Entry s s' v) (hs : s.Sound) (hsame : s.SameOwed) :
    s'.SameOwed ↔ s.Spares v := by
  unfold Posted.SameOwed Posted.owed at hsame ⊢
  cases h with
  | same hrefused hledger hjobs =>
      rw [hledger,hjobs]
      exact ⟨fun _ request r b' hverb hpost => absurd hpost (hrefused request r b' hverb),
        fun _ => hsame⟩
  | @posted request r b' hverb hpost _ hopen hledger hjobs =>
      have hend : (s.board.jobs ++ [r.job]).filter unfinished =
          (s.ledger ++ [r.job]).filter unfinished := by
        rw [List.filter_append,List.filter_append,hsame]
      have hspares : s.Spares v ↔ (kMaxOpen + kMaxClosedKept ≤ s.board.jobs.length →
          (∃ job, oldest (s.board.jobs ++ [r.job]) = some job ∧ job.closed = true) ∧
            (s.board.jobs ++ [r.job]).Pairwise (fun left right =>
              left.closed = false → right.closed = false → left.updatedAt ≤ right.updatedAt)) := by
        constructor
        · intro h hfull
          exact h request r b' hverb hpost hfull
        · intro h request' r' b'' hverb' hpost' hfull
          obtain rfl := Verb.post.inj (hverb'.symm.trans hverb)
          obtain ⟨rfl,rfl⟩ := Prod.mk.inj (Except.ok.inj (hpost'.symm.trans hpost))
          exact h hfull
      rw [hledger,hjobs,hspares,← hend]
      by_cases hfull : kMaxOpen + kMaxClosedKept ≤ s.board.jobs.length
      · have hlong : kMaxOpen + kMaxClosedKept < (s.board.jobs ++ [r.job]).length := by
          rw [List.length_append,List.length_singleton]
          omega
        rw [filter_crowd_iff hlong]
        exact ⟨fun h _ => h,fun h => h hfull⟩
      · have hshort : crowd (s.board.jobs ++ [r.job]) = s.board.jobs ++ [r.job] := by
          unfold crowd
          rw [List.length_append,List.length_singleton,if_neg (by omega)]
        rw [hshort]
        exact ⟨fun _ h => absurd h hfull,fun _ => rfl⟩
  | @moved held new hverb hfind hopen hid hledger hjobs =>
      have hheld := hs.subset held (List.mem_of_find?_eq_some hfind)
      have hp : unfinished held = true := by simp [unfinished,hopen]
      rw [hledger,hjobs,filter_setFirst hp hfind,filter_setFirst hp (find_of_mem hs.ledger hheld),hsame]
      exact ⟨fun _ request _ _ hpost => absurd hpost (hverb request),fun _ => rfl⟩

theorem id_of_render {clock : Clock} {left right : Job}
    (h : render clock left = render clock right) :
    left.id = right.id := by
  have hmembers := Json.object.inj h
  simp only [List.cons_append,List.cons.injEq,Prod.mk.injEq,Json.string.injEq,true_and] at hmembers
  exact hmembers.1

theorem eq_of_map_render {clock : Clock} {ledger left right : List Job}
    (hn : (ledger.map Job.id).Nodup) (hl : ∀ job ∈ left, job ∈ ledger)
    (hr : ∀ job ∈ right, job ∈ ledger) (h : left.map (render clock) = right.map (render clock)) :
    left = right := by
  induction left generalizing right with
  | nil => exact (List.map_eq_nil_iff.mp h.symm).symm
  | cons job left ih =>
      cases right with
      | nil => cases h
      | cons job' right =>
          rw [List.map_cons,List.map_cons,List.cons.injEq] at h
          have hid := id_of_render h.1
          have hjob := List.inj_on_of_nodup_map hn (hl job (List.mem_cons_self ..))
            (hr job' (List.mem_cons_self ..)) hid
          rw [hjob,ih (fun j hj => hl j (List.mem_cons_of_mem _ hj))
            (fun j hj => hr j (List.mem_cons_of_mem _ hj)) h.2]

theorem visible_iff (hs : s.Sound) : s.Visible ↔ s.SameOwed := by
  constructor
  · rintro ⟨hpage,_⟩
    refine eq_of_map_render hs.ledger ?_ ?_ (hpage ⟨"", fun _ => none⟩)
    · intro job hjob
      exact hs.subset job (List.mem_of_mem_filter hjob)
    · intro job hjob
      exact List.mem_of_mem_filter hjob
  · intro hsame
    refine ⟨?_,?_⟩
    · intro clock
      exact congrArg (List.map (render clock)) hsame
    · intro job hjob
      rw [← hsame] at hjob
      exact List.mem_of_mem_filter hjob

theorem draws_along (h : (s.ledger.map Job.id ++ newIds vs).Nodup) :
    Run.Along Posted.serve Posted.Draws s vs := by
  induction vs generalizing s with
  | nil => trivial
  | cons v vs ih =>
      rw [newIds_cons] at h
      have hdraws : s.Draws v := by
        intro id hp hmem
        rw [hp] at h
        exact (List.nodup_append.mp h).2.2 id hmem id (List.mem_cons_self ..) rfl
      refine ⟨hdraws,ih ?_⟩
      have hentry := entry_serve s v
      refine h.sublist ?_
      rw [← List.append_assoc]
      refine List.Sublist.append_right ?_ _
      cases hentry with
      | same _ hledger _ =>
          rw [hledger]
          exact List.sublist_append_left ..
      | posted hverb _ hid _ hledger _ =>
          have hp : postId v = some v.1.newId := by rw [postId,hverb]
          rw [hledger,hp,List.map_append,List.map_singleton,hid]
          exact List.Sublist.refl _
      | moved _ _ _ hid hledger _ =>
          rw [hledger,map_id_setFirst hid]
          exact List.sublist_append_left ..

theorem owed_visible_iff (vs : List (Tick × Verb)) (hfresh : (newIds vs).Nodup) :
    (∀ s ∈ Run.visited Posted.serve {} vs, s.Visible) ↔ Run.Along Posted.serve Posted.Spares {} vs := by
  have hstep : ∀ (s : Posted) (v : Tick × Verb), s.Sound → s.Draws v → (s.serve v).Sound :=
    fun s v hs hf => sound_step (entry_serve s v) (ids_step (step_serve s.board v)) hs hf
  have hsound : Posted.Sound {} :=
    ⟨List.nodup_nil,List.nodup_nil,fun job hjob => absurd hjob (List.not_mem_nil)⟩
  refine Run.visited_good_iff hstep ?_ hsound ((visible_iff hsound).mpr rfl)
    (draws_along (s := {}) hfresh)
  intro s v hs hf hgood
  rw [visible_iff (hstep s v hs hf)]
  exact sameOwed_step (entry_serve s v) hs ((visible_iff hs).mp hgood)

theorem owed_visible_one_job :
    (∀ s ∈ Run.visited Posted.serve {} [postFor "1" "j1" "C" "tests"], s.Visible) ↔
      Run.Along Posted.serve Posted.Spares {} [postFor "1" "j1" "C" "tests"] :=
  owed_visible_iff [postFor "1" "j1" "C" "tests"] (by decide)

def errand (i : Nat) : String := String.ofList (List.replicate (i + 1) 'c')

theorem errand_injective : Function.Injective errand := by
  intro i j h
  have hlen := congrArg (fun text => text.toList.length) h
  simpa [errand] using hlen

theorem errand_ne {i : Nat} {c : Char} (hc : c ≠ 'c') : errand i ≠ String.ofList [c] := by
  intro h
  have hlist := congrArg String.toList h
  simp only [errand,String.toList_ofList,List.replicate_succ,List.cons.injEq] at hlist
  exact hc hlist.1.symm

def offered (now id holder intent : String) : Job :=
  { id := id, sender := "", holder := holder, intent := intent, createdAt := now, updatedAt := now }

def idle : Job := offered "0" "a" "C" "wait"

def ranErrand (i : Nat) : Job := closedBy (offered "0" (errand i) "C" "run") false "" "0"

def errands : Nat → List (Tick × Verb)
  | 0 => [postFor "0" "a" "C" "wait"]
  | k + 1 => errands k ++ [postFor "0" (errand k) "C" "run",
      (tickAt "0" "", .update (closing "C" (errand k) false ""))]

theorem mem_ledger_post {tick : Tick} {request : JobRequest} (h : job ∈ s.ledger) :
    job ∈ (s.serve (tick, .post request)).ledger := by
  cases entry_serve s (tick, .post request) with
  | same _ hledger _ => rwa [hledger]
  | posted _ _ _ _ hledger _ =>
      rw [hledger]
      exact List.mem_append_left _ h
  | moved hverb _ _ _ _ _ => exact absurd rfl (hverb request)

theorem mem_ledger_update {tick : Tick} {request : JobRequest} (h : job ∈ s.ledger)
    (hne : job.id ≠ request.job.getD "") : job ∈ (s.serve (tick, .update request)).ledger := by
  have hledger : (s.serve (tick, .update request)).ledger =
    entered s.ledger (tick, .update request) (BoardM.outcome s.board (tick, .update request)) := rfl
  rw [hledger]
  rcases outcome_cases s.board (tick, .update request) with
    ⟨⟨what,hwhat⟩,_⟩ | ⟨r,hr,haccepted⟩ | ⟨peer,state,hverb,_⟩
  · rw [hwhat]
    exact h
  · rw [hr,entered_other (fun _ hverb => by cases hverb)]
    generalize s.board.serve (tick, .update request) = b' at haccepted
    cases haccepted with
    | update hok =>
        obtain ⟨_,held,hfind,_,_,hmoved,_⟩ := update_cases hok
        refine mem_setFirst_of_ne h ?_
        rw [hmoved.id,id_of_find hfind]
        exact hne
  · cases hverb

theorem jobs_postFor {b : Board} {now holder intent : String} (hholder : holder ≠ "")
    (hintent : intent ≠ "") (hroom : b.jobs.countP unfinished < kMaxOpen) :
    (b.serve (postFor now id holder intent)).jobs = crowd (b.jobs ++ [offered now id holder intent]) := by
  have hcount : ¬ kMaxOpen ≤ b.jobs.countP (fun job => !job.closed) := not_le_of_gt hroom
  simp only [serve,postFor,post,Option.getD_some,Option.getD_none,hholder,hintent,if_false,hcount,
    dueIn,bind,Except.bind,kept,tickAt]
  rfl

theorem setFirst_last {new : Job} (hid : job.id = id) (hout : ∀ j ∈ jobs, j.id ≠ id) :
    setFirst id new (jobs ++ [job]) = jobs ++ [new] := by
  induction jobs with
  | nil => simp [setFirst,hid]
  | cons j js ih =>
      have hj := hout j (List.mem_cons_self ..)
      have hrest := ih (fun j' hj' => hout j' (List.mem_cons_of_mem _ hj'))
      rw [List.cons_append,setFirst,if_neg hj,hrest,List.cons_append]

theorem jobs_closing {b : Board} {tick : Tick} {holder : String} (hholder : holder ≠ "")
    (hid : job.id = id) (hne : id ≠ "") (hheld : job.holder = holder) (hopen : job.closed = false)
    (hjobs : b.jobs = jobs ++ [job]) (hout : ∀ j ∈ jobs, j.id ≠ id) :
    (b.serve (tick, .update (closing holder id false ""))).jobs =
      jobs ++ [closedBy job false "" tick.now] := by
  have hfind : b.find id = some job := by
    unfold find
    rw [hjobs,List.find?_append,List.find?_eq_none.mpr (by simpa using hout)]
    simp [hid]
  obtain ⟨r,b',hok,hclosed⟩ := @update_closing b tick id holder "" job false hne hholder hfind
    hheld hopen
  obtain ⟨_,held,hfind',_,_,hmoved,hset⟩ := update_cases hok
  have hserve : b.serve (tick, .update (closing holder id false "")) = b' := by
    simp only [serve,hok,kept]
  have hheldid : held.id = id := id_of_find hfind'
  have hr : b'.find id = some r.job := by
    unfold find
    rw [hset]
    exact find_setFirst (hmoved.id.trans hheldid) hfind'
  rw [hserve,hset,hjobs,← Option.some.inj (hr.symm.trans hclosed)]
  exact setFirst_last hid hout

theorem errands_room (k : Nat) :
    (idle :: (List.range k).map ranErrand).countP unfinished < kMaxOpen := by
  have hclosed : ((List.range k).map ranErrand).countP unfinished = 0 := by
    rw [List.countP_eq_zero]
    intro job hjob
    obtain ⟨i,_,rfl⟩ := List.mem_map.mp hjob
    simp [unfinished,ranErrand,closedBy,Job.closed]
  rw [List.countP_cons,hclosed]
  decide

theorem errands_done (k : Nat) (hk : k < kMaxOpen + kMaxClosedKept) :
    ((errands k).foldl Posted.serve {}).board.jobs = idle :: (List.range k).map ranErrand ∧
      idle ∈ ((errands k).foldl Posted.serve {}).ledger := by
  induction k with
  | zero => exact ⟨rfl,List.mem_singleton.mpr rfl⟩
  | succ k ih =>
      obtain ⟨hjobs,hidle⟩ := ih (by omega)
      rw [errands,List.foldl_append]
      generalize (errands k).foldl Posted.serve {} = s at hjobs hidle ⊢
      have hroom : s.board.jobs.countP unfinished < kMaxOpen := hjobs ▸ errands_room k
      have hpost := @jobs_postFor (errand k) s.board "0" "C" "run" (by decide) (by decide) hroom
      have hshort : (s.board.jobs ++ [offered "0" (errand k) "C" "run"]).length ≤
          kMaxOpen + kMaxClosedKept := by
        rw [hjobs]
        simp only [List.length_append,List.length_cons,List.length_map,List.length_range,
          List.length_nil]
        omega
      rw [crowd,if_neg (not_lt_of_ge hshort)] at hpost
      have hout : ∀ j ∈ s.board.jobs, j.id ≠ errand k := by
        rw [hjobs]
        intro j hj
        rcases List.mem_cons.mp hj with rfl | hj
        · exact (errand_ne (c := 'a') (by decide)).symm
        · obtain ⟨i,hi,rfl⟩ := List.mem_map.mp hj
          intro hsame
          have hik := errand_injective hsame
          simp [hik] at hi
      have hne : errand k ≠ "" := by
        intro hempty
        have hlen := congrArg (fun text => text.toList.length) hempty
        simp [errand] at hlen
      have hdone := @jobs_closing _ (errand k) s.board.jobs
        (s.serve (postFor "0" (errand k) "C" "run")).board (tickAt "0" "") "C" (by decide) rfl hne rfl
        rfl hpost hout
      refine ⟨?_,?_⟩
      · rw [List.range_succ,List.map_append,← List.cons_append,← hjobs]
        exact hdone
      · exact mem_ledger_update (mem_ledger_post hidle) (errand_ne (c := 'a') (by decide)).symm

theorem newIds_errands (k : Nat) : newIds (errands k) = "a" :: (List.range k).map errand := by
  induction k with
  | zero => rfl
  | succ k ih =>
      rw [errands,newIds_append,ih,List.range_succ,List.map_append]
      rfl

theorem errands_draw_once (k : Nat) :
    (newIds (errands k ++ [postFor "0" "z" "C" "next"])).Nodup := by
  rw [newIds_append,newIds_errands]
  refine List.Nodup.append ?_ (List.nodup_singleton _) ?_
  · refine List.nodup_cons.mpr ⟨?_,List.Nodup.map errand_injective List.nodup_range⟩
    intro ha
    obtain ⟨i,_,hi⟩ := List.mem_map.mp ha
    exact errand_ne (c := 'a') (by decide) hi
  · intro id hid hz
    obtain rfl := List.mem_singleton.mp hz
    rcases List.mem_cons.mp hid with ha | hmem
    · exact absurd ha (by decide)
    · obtain ⟨i,_,hi⟩ := List.mem_map.mp hmem
      exact errand_ne (c := 'z') (by decide) hi

theorem idle_job_evicted :
    ¬ ∀ vs : List (Tick × Verb), (newIds vs).Nodup →
      ∀ s ∈ Run.visited Posted.serve {} vs, s.Visible := by
  intro h
  have hlast := h _ (errands_draw_once (kMaxOpen + kMaxClosedKept - 1))
    (((errands (kMaxOpen + kMaxClosedKept - 1)).foldl Posted.serve {}).serve
      (postFor "0" "z" "C" "next"))
    (by rw [Run.visited_append]; exact List.mem_append_right _ (List.mem_singleton.mpr rfl))
  obtain ⟨hjobs,hidle⟩ := errands_done (kMaxOpen + kMaxClosedKept - 1) (by decide)
  generalize (errands (kMaxOpen + kMaxClosedKept - 1)).foldl Posted.serve {} = s at hlast hjobs hidle
  have howed : idle ∈ (s.serve (postFor "0" "z" "C" "next")).owed :=
    List.mem_filter.mpr ⟨mem_ledger_post hidle,rfl⟩
  have hmem := hlast.2 idle howed
  have hpost := @jobs_postFor "z" s.board "0" "C" "next" (by decide) (by decide)
    (hjobs ▸ errands_room _)
  have hstamps : ∀ job ∈ s.board.jobs ++ [offered "0" "z" "C" "next"], job.updatedAt = "0" := by
    intro job hjob
    rcases List.mem_append.mp hjob with hold | hnew
    · rw [hjobs] at hold
      rcases List.mem_cons.mp hold with rfl | hrest
      · rfl
      · obtain ⟨i,_,rfl⟩ := List.mem_map.mp hrest
        rfl
    · rw [List.mem_singleton.mp hnew]
      rfl
  have hsorted : (s.board.jobs ++ [offered "0" "z" "C" "next"]).mergeSort oldestLast =
      s.board.jobs ++ [offered "0" "z" "C" "next"] := by
    refine List.mergeSort_of_pairwise (List.pairwise_iff_forall_sublist.mpr ?_)
    intro left right hpair
    have hleft := hstamps left (hpair.subset (List.mem_cons_self ..))
    have hright := hstamps right (hpair.subset (List.mem_cons_of_mem _ (List.mem_cons_self ..)))
    simp [oldestLast,hleft,hright]
  have hlong :
      kMaxOpen + kMaxClosedKept < (s.board.jobs ++ [offered "0" "z" "C" "next"]).length := by
    rw [hjobs]
    simp only [List.length_append,List.length_cons,List.length_map,List.length_range,List.length_nil]
    decide
  rw [crowd,if_pos hlong,hsorted,hjobs,List.cons_append,List.drop_one,List.tail_cons] at hpost
  have hboard :
      (s.serve (postFor "0" "z" "C" "next")).board = s.board.serve (postFor "0" "z" "C" "next") :=
    rfl
  rw [hboard,hpost] at hmem
  rcases List.mem_append.mp hmem with hold | hnew
  · obtain ⟨i,_,hi⟩ := List.mem_map.mp hold
    exact errand_ne (c := 'a') (by decide) (congrArg Job.id hi)
  · exact absurd (List.mem_singleton.mp hnew) (by decide)

end Board

end PuCli.Serve
