import PuCli.App.Worker
import PuCli.Library.Run
import PuCli.Serve.Lifecycle

namespace PuCli

open Serve (Board BoardError JobRequest Tick Verb)

structure Arrival where
  sender : String
  message : String
  job : String
  deriving DecidableEq

def Arrival.turn (a : Arrival) (turnId : String) : Job :=
  { text := a.message, peerOrigin := a.sender, turnId := turnId, boardJob := a.job }

namespace SessionRunner

def received (tick : Tick) (cfg : PeerConfig) (board : Option Board) (a : Arrival) :
    Except String (Option Board) :=
  if a.sender ≠ "" ∧ ¬ cfg.knows a.sender then .error ("Unknown peer: " ++ a.sender)
  else if a.sender = "" then .error "Missing or invalid 'from'"
  else if a.message = "" then .error "Missing or invalid 'message'"
  else claimOn tick board cfg a.job

theorem handlePeerMessage_eq (host : Host) (tick : Tick) (cfg : PeerConfig) (board : Option Board)
    (r : SessionRunner) (a : Arrival) :
    handlePeerMessage host tick cfg board r a.sender a.message a.job =
      (received tick cfg board a).map
        (fun board => (board, r.submitFromPeer host a.sender a.message a.job)) := by
  unfold handlePeerMessage received
  split
  · rfl
  · split
    · rfl
    · split
      · rfl
      · cases claimOn tick board cfg a.job <;> rfl

end SessionRunner

-- The board, the runner's queue and the turn in flight, with the route caught between its claim
-- and SubmitFromPeer: the worker and its tools run on another thread.
structure Intake where
  board : Board := {}
  claimed : Option Arrival := none
  jobs : List Job := []
  running : Option Job := none

namespace Intake

inductive Event where
  | verb (v : Tick × Verb)
  | claim (tick : Tick) (arrival : Arrival)
  | submitFromPeer (turnId : String)
  | submit (text turnId : String)
  | start
  | close (tick : Tick) (failed : Bool) (result : String)
  | finish
  | stop

variable (cfg : PeerConfig)

def step (d : Intake) : Event → Intake
  | .verb v => { d with board := d.board.serve v }
  | .claim tick arrival =>
      match d.claimed, SessionRunner.received tick cfg (some d.board) arrival with
      | none, .ok (some board) => { d with board := board, claimed := some arrival }
      | _, _ => d
  | .submitFromPeer turnId =>
      match d.claimed with
      | none => d
      | some a =>
          { d with claimed := none, jobs := d.jobs ++ [a.turn turnId] }
  | .submit text turnId => { d with jobs := d.jobs ++ [{ text := text, conn := true, turnId := turnId }] }
  | .start =>
      match d.running, d.jobs with
      | none, job :: jobs => { d with jobs := jobs, running := some job }
      | _, _ => d
  | .close tick failed result =>
      match d.running with
      | none => d
      | some job =>
          { d with
            board := d.board.serve
              (tick, .update (Board.closing cfg.selfName job.boardJob failed result)) }
  | .finish => { d with running := none }
  | .stop => { d with jobs := [] }

def turns (d : Intake) : List Job := d.running.toList ++ d.jobs

def turnsFor (d : Intake) (id : String) : Nat := d.turns.countP (fun job => job.boardJob = id)

def Owes (b : Board) (id : String) : Prop := ∃ job, b.find id = some job ∧ job.closed = false

def AtMostOne (d : Intake) : Prop := ∀ id, id ≠ "" → Owes d.board id → d.turnsFor id ≤ 1

def Taken (b : Board) (id : String) : Prop :=
  ∃ job, b.find id = some job ∧ job.holder = cfg.selfName ∧
    (job.state = .claimed ∨ job.state = .working)

def RefusesTaken (d : Intake) (e : Event) : Prop :=
  ∀ tick arrival, e = .claim tick arrival → d.claimed = none → arrival.job ≠ "" →
    Taken cfg d.board arrival.job →
      (∃ what, SessionRunner.received tick cfg (some d.board) arrival = .error what) ∧
        step cfg d e = d

def WellFormed (a : Arrival) : Prop := cfg.knows a.sender = true ∧ a.sender ≠ "" ∧ a.message ≠ ""

def NamesFree (d : Intake) (e : Event) : Prop :=
  ∀ tick arrival, e = .claim tick arrival → d.claimed = none → WellFormed cfg arrival →
    arrival.job ≠ "" → ¬ Taken cfg d.board arrival.job

def QueuesFirst (d : Intake) (e : Event) : Prop :=
  ∀ turnId arrival, e = .submitFromPeer turnId → d.claimed = some arrival → arrival.job ≠ "" →
    Owes d.board arrival.job → d.turnsFor arrival.job = 0

def Draws (d : Intake) (e : Event) : Prop :=
  ∀ v id, e = .verb v → Board.postId v = some id →
    id ∉ d.board.ids ∧ ∀ job ∈ d.turns, job.boardJob ≠ id

section Boards

variable {b b' : Board} {v : Tick × Verb} {id : String} {cfg : PeerConfig} {tick : Tick} {a : Arrival}

def Named (b : Board) : Prop := b.ids.Nodup ∧ ∀ job ∈ b.jobs, job.holder ≠ ""

theorem named_step (h : Board.Step b b' v) (hfresh : ∀ id, Board.postId v = some id → id ∉ b.ids)
    (hb : Named b) : Named b' := by
  obtain ⟨hn,hholder⟩ := hb
  refine ⟨?_,?_⟩
  · refine Board.subperm_nodup (Board.ids_step h) ?_
    cases hp : Board.postId v with
    | none => simpa using hn
    | some id =>
        refine List.Nodup.append hn (List.nodup_singleton _) ?_
        intro a ha hlast
        rw [List.mem_singleton.mp hlast] at ha
        exact hfresh id hp ha
  · intro job hjob
    cases h with
    | same hjobs _ => exact hholder job (hjobs ▸ hjob)
    | posted _ _ _ hnew _ hjobs _ =>
        rw [hjobs] at hjob
        rcases List.mem_append.mp (Board.mem_crowd hjob) with hold | hlast
        · exact hholder job hold
        · rw [List.mem_singleton.mp hlast]
          exact hnew
    | moved hfind _ hkept _ hjobs _ =>
        rw [hjobs] at hjob
        rcases Board.mem_setFirst hjob with rfl | hold
        · rw [hkept.holder]
          exact hholder _ (List.mem_of_find?_eq_some hfind)
        · exact hholder job hold

theorem owes_before (h : Board.Step b b' v) (hb : Named b) (howes : Owes b' id) :
    Owes b id ∨ Board.postId v = some id := by
  obtain ⟨job,hfind,hopen⟩ := howes
  have hid := Board.id_of_find hfind
  have hmem := List.mem_of_find?_eq_some hfind
  have hold : job ∈ b.jobs → Owes b id := by
    intro hjob
    exact ⟨job,hid ▸ Board.find_of_mem hb.1 hjob,hopen⟩
  cases h with
  | same hjobs _ => exact .inl (hold (hjobs ▸ hmem))
  | posted hverb hnew _ _ _ hjobs _ =>
      rw [hjobs] at hmem
      rcases List.mem_append.mp (Board.mem_crowd hmem) with hbefore | hlast
      · exact .inl (hold hbefore)
      · refine .inr ?_
        rw [Board.postId,hverb,← hid,List.mem_singleton.mp hlast,hnew]
  | moved hheld hheldopen hkept _ hjobs _ =>
      rw [hjobs] at hmem
      rcases Board.mem_setFirst hmem with rfl | hbefore
      · refine .inl ⟨_,?_,hheldopen⟩
        rw [← hid,hkept.id]
        exact hheld
      · exact .inl (hold hbefore)

theorem received_ok {taken : Option Board}
    (h : SessionRunner.received tick cfg (some b) a = .ok taken) :
    WellFormed cfg a ∧ (taken = some b ∨ ∃ r b',
      b.update tick (SessionRunner.claim cfg.selfName a.job) = .ok (r, b') ∧ taken = some b') := by
  unfold SessionRunner.received at h
  split at h
  · cases h
  · next hknown =>
      split at h
      · cases h
      · next hsender =>
          split at h
          · cases h
          · next hmessage =>
              refine ⟨⟨?_,hsender,hmessage⟩,?_⟩
              · by_contra hnot
                exact hknown ⟨hsender,hnot⟩
              · unfold SessionRunner.claimOn at h
                dsimp only at h
                split at h
                · cases h
                  exact .inl rfl
                · split at h
                  · cases h
                  · next r b' hup =>
                      split at h
                      · cases h
                      · cases h
                        exact .inr ⟨r,b',hup,rfl⟩

theorem update_claim {self : String} {held : Serve.Job} (hid : id ≠ "") (hself : self ≠ "")
    (hfind : b.find id = some held) (hholder : held.holder = self) (hopen : held.closed = false) :
    ∃ r b', b.update tick (SessionRunner.claim self id) = .ok (r, b') ∧ r.job.state = .claimed := by
  have hdeclined : Board.declined held self "claimed" = .ok held := rfl
  have hmove : Serve.move held ⟨"claimed", "", "", ""⟩ tick.now = .ok { held with
      state := .claimed, question := none, declinedBy := none, updatedAt := tick.now } := rfl
  cases hup : b.update tick (SessionRunner.claim self id) with
  | error what =>
      simp only [Board.update,SessionRunner.claim,Serve.jobStateName,Option.getD_some,
        Option.getD_none,hid,hself,if_false,hfind,hholder,hopen,ne_eq,not_true_eq_false,
        Bool.false_eq_true,hdeclined,bind,Except.bind,hmove] at hup
      cases hup
  | ok done =>
      obtain ⟨r,b'⟩ := done
      obtain ⟨_,_,_,moved,_,_,_,_,hmoved,hjob,_⟩ := Board.update_ok hup
      refine ⟨r,b',rfl,?_⟩
      have hstate : some Serve.JobState.claimed = some moved.state := (Board.move_ok hmoved).1
      rw [hjob]
      exact (Option.some.inj hstate).symm

theorem received_taken (hwell : WellFormed cfg a) (hid : a.job ≠ "") (hself : cfg.selfName ≠ "")
    (h : Taken cfg b a.job) : ∃ b', SessionRunner.received tick cfg (some b) a = .ok (some b') := by
  obtain ⟨hknown,hsender,hmessage⟩ := hwell
  obtain ⟨held,hfind,hholder,hstate⟩ := h
  have hopen : held.closed = false := by
    rcases hstate with hs | hs <;> simp [Serve.Job.closed,hs]
  obtain ⟨r,b',hup,hclaimed⟩ := @update_claim b a.job tick cfg.selfName held hid hself hfind hholder hopen
  refine ⟨b',?_⟩
  unfold SessionRunner.received SessionRunner.claimOn
  rw [if_neg (by simp [hknown]),if_neg hsender,if_neg hmessage]
  simp only [hid,if_false,hup,hclaimed,ne_eq,not_true_eq_false]

end Boards

section Steps

variable {d : Intake} {e : Event} {id : String} {cfg : PeerConfig}

theorem board_step (cfg : PeerConfig) (d : Intake) (e : Event) :
    (step cfg d e).board = d.board ∨ ∃ v, Board.Step d.board (step cfg d e).board v ∧
      ∀ id, Board.postId v = some id → e = .verb v := by
  cases e with
  | verb v => exact .inr ⟨v,Board.step_serve d.board v,fun _ _ => rfl⟩
  | claim tick arrival =>
      rw [step]
      split
      · next hreceived =>
          rcases (received_ok hreceived).2 with hsame | ⟨r,b',hup,hb'⟩
          · obtain rfl := Option.some.inj hsame
            exact .inl rfl
          · obtain rfl := Option.some.inj hb'
            exact .inr ⟨_,Board.step_of_update hup,fun _ hpost => by cases hpost⟩
      · exact .inl rfl
  | submitFromPeer turnId =>
      rw [step]
      split <;> exact .inl rfl
  | submit text turnId => exact .inl rfl
  | start =>
      rw [step]
      split <;> exact .inl rfl
  | close tick failed result =>
      rw [step]
      split
      · exact .inl rfl
      · next job _ =>
          refine .inr ⟨(tick, .update (Board.closing cfg.selfName job.boardJob failed result)),?_,?_⟩
          · exact Board.step_serve d.board
              (tick, .update (Board.closing cfg.selfName job.boardJob failed result))
          · intro _ hpost
            cases hpost
  | finish => exact .inl rfl
  | stop => exact .inl rfl

theorem named_of_step (hf : Draws d e) (h : Named d.board) : Named (step cfg d e).board := by
  rcases board_step cfg d e with hsame | ⟨v,hstep,hpost⟩
  · rwa [hsame]
  · exact named_step hstep (fun id hp => (hf v id (hpost id hp) hp).1) h

theorem turnsFor_step (hother : ∀ turnId, e ≠ .submitFromPeer turnId) (hid : id ≠ "") :
    (step cfg d e).turnsFor id ≤ d.turnsFor id := by
  unfold turnsFor
  cases e with
  | verb v => exact le_rfl
  | claim tick arrival =>
      rw [step]
      split <;> exact le_rfl
  | submitFromPeer turnId => exact absurd rfl (hother turnId)
  | submit text turnId =>
      have hpage : ([{ text := text, conn := true, turnId := turnId }] : List Job).countP
          (fun job => job.boardJob = id) = 0 := by
        simp [Ne.symm hid]
      rw [step,turns,turns,← List.append_assoc,List.countP_append,hpage]
      exact le_rfl
  | start =>
      rw [step]
      split
      · next hnone hjobs =>
          rw [turns,turns,hnone,hjobs]
          exact le_rfl
      · exact le_rfl
  | close tick failed result =>
      rw [step]
      split <;> exact le_rfl
  | finish =>
      rw [step,turns,turns,List.countP_append,List.countP_append]
      exact Nat.add_le_add_right (Nat.zero_le _) _
  | stop =>
      rw [step,turns,turns,List.countP_append,List.countP_append]
      exact Nat.add_le_add_left (Nat.zero_le _) _

theorem atMostOne_other (hother : ∀ turnId, e ≠ .submitFromPeer turnId) (hf : Draws d e)
    (hb : Named d.board) (h : AtMostOne d) : AtMostOne (step cfg d e) := by
  intro id hid howes
  have hless := @turnsFor_step d e id cfg hother hid
  rcases board_step cfg d e with hsame | ⟨v,hstep,hpost⟩
  · rw [hsame] at howes
    exact hless.trans (h id hid howes)
  · rcases owes_before hstep hb howes with hbefore | hnew
    · exact hless.trans (h id hid hbefore)
    · have hfree := (hf v id (hpost id hnew) hnew).2
      have hzero : d.turnsFor id = 0 := by
        refine List.countP_eq_zero.mpr ?_
        intro job hjob
        simpa using hfree job hjob
      omega

theorem atMostOne_submit {turnId : String} (h : AtMostOne d) :
    AtMostOne (step cfg d (.submitFromPeer turnId)) ↔ QueuesFirst d (.submitFromPeer turnId) := by
  cases hclaimed : d.claimed with
  | none =>
      have hsame : step cfg d (.submitFromPeer turnId) = d := by rw [step,hclaimed]
      rw [hsame]
      refine ⟨fun _ _ _ _ hsome => ?_,fun _ => h⟩
      rw [hclaimed] at hsome
      cases hsome
  | some a =>
      have hstep : step cfg d (.submitFromPeer turnId) =
          { d with claimed := none, jobs := d.jobs ++ [a.turn turnId] } := by rw [step,hclaimed]
      have hcount : ∀ id, (step cfg d (.submitFromPeer turnId)).turnsFor id =
          d.turnsFor id + if a.job = id then 1 else 0 := by
        intro id
        rw [hstep]
        simp only [turnsFor,turns]
        rw [← List.append_assoc,List.countP_append]
        simp [List.countP_cons,Arrival.turn]
      constructor
      · intro hone _ arrival _ hsome hid howes
        obtain rfl := Option.some.inj (hclaimed.symm.trans hsome)
        have hle := hone a.job hid (by rw [hstep]; exact howes)
        rw [hcount,if_pos rfl] at hle
        omega
      · intro hfirst id hid howes
        rw [hstep] at howes
        rw [hcount]
        split
        · next hsame =>
            subst hsame
            rw [hfirst turnId a rfl hclaimed hid howes]
        · exact h id hid howes

theorem atMostOne_step (hf : Draws d e) (hb : Named d.board) (h : AtMostOne d) :
    AtMostOne (step cfg d e) ↔ QueuesFirst d e := by
  by_cases hsubmit : ∃ turnId, e = .submitFromPeer turnId
  · obtain ⟨turnId,rfl⟩ := hsubmit
    exact atMostOne_submit h
  · have hother : ∀ turnId, e ≠ .submitFromPeer turnId := fun turnId he => hsubmit ⟨turnId,he⟩
    refine ⟨fun _ turnId _ he => absurd he (hother turnId),fun _ => ?_⟩
    exact atMostOne_other hother hf hb h

theorem refusesTaken_iff (hb : Named d.board) : RefusesTaken cfg d e ↔ NamesFree cfg d e := by
  constructor
  · intro h tick arrival he hnone hwell hid htaken
    obtain ⟨⟨what,hwhat⟩,_⟩ := h tick arrival he hnone hid htaken
    have hself : cfg.selfName ≠ "" := by
      obtain ⟨held,hfind,hholder,_⟩ := htaken
      rw [← hholder]
      exact hb.2 held (List.mem_of_find?_eq_some hfind)
    obtain ⟨b',hok⟩ := @received_taken d.board cfg tick arrival hwell hid hself htaken
    rw [hok] at hwhat
    cases hwhat
  · intro h tick arrival he hnone hid htaken
    cases hreceived : SessionRunner.received tick cfg (some d.board) arrival with
    | error what =>
        refine ⟨⟨what,rfl⟩,?_⟩
        rw [he,step,hreceived]
        simp
    | ok taken => exact absurd htaken (h tick arrival he hnone (received_ok hreceived).1 hid)

end Steps

theorem one_turn_per_job_iff (es : List Event) (hfresh : Run.Along (step cfg) Draws {} es) :
    ((∀ d ∈ Run.visited (step cfg) {} es, AtMostOne d) ∧
        Run.Along (step cfg) (RefusesTaken cfg) {} es) ↔
      Run.Along (step cfg) (fun d e => NamesFree cfg d e ∧ QueuesFirst d e) {} es := by
  have hinv : ∀ (d : Intake) (e : Event), Named d.board → Draws d e → Named (step cfg d e).board :=
    fun d e hb hf => named_of_step hf hb
  have hstart : Named ({} : Intake).board :=
    ⟨List.nodup_nil,fun _ hjob => absurd hjob List.not_mem_nil⟩
  have hone : AtMostOne {} := fun _ _ _ => Nat.zero_le 1
  rw [Run.along_and,and_comm]
  refine and_congr ?_ ?_
  · exact Run.along_iff hinv (fun d e hb _ => refusesTaken_iff hb) hstart hfresh
  · exact Run.visited_good_iff hinv (fun d e hb hf h => atMostOne_step hf hb h) hstart hone hfresh

def cKnowsA : PeerConfig := ⟨"C", "secret", [⟨"A", "http://a"⟩]⟩

def postedToC : Event := .verb (Board.postFor "1" "j1" "C" "sum")

def namingJ1 : Event := .claim (Board.tickAt "2" "") ⟨"A", "add them", "j1"⟩

def ranOnce : List Event :=
  [namingJ1, .submitFromPeer "t1", .start, .close (Board.tickAt "3" "") false "3", .finish]

def namedTwice : List Event := [namingJ1, .submitFromPeer "t1", namingJ1, .submitFromPeer "t2"]

theorem draws_once {es : List Event} (h : ∀ e ∈ es, ∀ v, e ≠ .verb v) :
    Run.Along (step cKnowsA) Draws {} (postedToC :: es) := by
  have hrest : ∀ d, Run.Along (step cKnowsA) Draws d es := by
    induction es with
    | nil => exact fun _ => trivial
    | cons e es ih =>
        intro d
        refine ⟨?_,ih (fun e' he' => h e' (List.mem_cons_of_mem _ he')) _⟩
        intro v id he
        exact absurd he (h e (List.mem_cons_self ..) v)
  refine ⟨?_,hrest _⟩
  intro v id _ _
  exact ⟨List.not_mem_nil,fun job hjob => absurd hjob List.not_mem_nil⟩

theorem one_turn_per_job_ran_once :
    ((∀ d ∈ Run.visited (step cKnowsA) {} (postedToC :: ranOnce), AtMostOne d) ∧
        Run.Along (step cKnowsA) (RefusesTaken cKnowsA) {} (postedToC :: ranOnce)) ↔
      Run.Along (step cKnowsA) (fun d e => NamesFree cKnowsA d e ∧ QueuesFirst d e) {}
        (postedToC :: ranOnce) :=
  one_turn_per_job_iff cKnowsA (postedToC :: ranOnce) (draws_once (by simp [ranOnce,namingJ1]))

theorem two_turns_for_one_job :
    ¬ ∀ es : List Event, Run.Along (step cKnowsA) Draws {} es →
      (∀ d ∈ Run.visited (step cKnowsA) {} es, AtMostOne d) ∧
        Run.Along (step cKnowsA) (RefusesTaken cKnowsA) {} es := by
  intro h
  have hone := (h (postedToC :: namedTwice) (draws_once (by simp [namedTwice,namingJ1]))).1 _
    (Run.end_mem_visited (step cKnowsA) {} (postedToC :: namedTwice)) "j1" (by decide)
  have hopen : (((postedToC :: namedTwice).foldl (step cKnowsA) {}).board.find "j1").map
      Serve.Job.closed = some false := by
    decide
  have htwo : ((postedToC :: namedTwice).foldl (step cKnowsA) {}).turnsFor "j1" = 2 := by decide
  have hle := hone (Option.map_eq_some_iff.mp hopen)
  omega

end Intake

end PuCli
