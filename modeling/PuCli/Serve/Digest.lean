import PuCli.Core.Reread
import PuCli.Serve.Snapshot
import PuCli.Tools.PeerTool

namespace PuCli.Serve

open Json

def byOr (name other : String) : String := if name = "" then other else name

def spoken (said : String) : Option String → String
  | none => ""
  | some text => said ++ text

def overdue (clock : Clock) (job : Job) : Bool :=
  match job.dueAt with
  | none => false
  | some due => decide (0 < clock.ageSeconds due)

def heldLines (clock : Clock) (job : Job) : List String :=
  let line := "- " ++ job.id ++ " from " ++ byOr job.sender "a person" ++ ": " ++ job.intent ++
    " [" ++ jobStateName job.state ++ (if overdue clock job then ", overdue" else "") ++
    spoken ", asking: " job.question ++
    (if 0 < job.chases then ", re-asked " ++ toString job.chases ++ "x" else "")
  (line ++ "]") ::
    (if job.note = "" then [] else ["  what the poster last said: " ++ job.note])

def closedLine (job : Job) : String :=
  "- " ++ job.id ++ " to " ++ job.holder ++ ": " ++ job.intent ++ " [" ++ jobStateName job.state ++
    spoken ", answered: " job.result ++ "]"

-- The lines of the jobs a peer holds, and of those it handed out that have closed.
def digestLines (clock : Clock) (peer : String) (jobs : List Job) : List String × List String :=
  jobs.foldl (fun (lines, closed) job =>
    if job.holder = peer ∧ job.closed = false then (lines ++ heldLines clock job, closed)
    else if job.sender = peer ∧ job.closed = true then (lines, closed ++ [closedLine job])
    else (lines, closed)) ([], [])

def ended (lines : List String) : String := String.join (lines.map (fun line => line ++ "\n"))

def laidOut (lines closed : List String) : String :=
  if lines = [] ∧ closed = [] then ""
  else
    "=== Peer Board ===\n" ++
      (if lines = [] then "" else "Jobs you hold, which only you can move:\n" ++ ended lines) ++
      (if closed = [] then ""
        else "Jobs you handed out that have since closed:\n" ++ ended closed)

def Board.digest (clock : Clock) (peer : String) (b : Board) : String :=
  if peer = "" then ""
  else
    let (lines, closed) := digestLines clock peer b.jobs
    laidOut lines closed

open Board

def holds (peer : String) (job : Job) : Bool := decide (job.holder = peer)

def handedOut (peer : String) (job : Job) : Bool := decide (job.sender = peer)

theorem digestLines_eq (clock : Clock) (peer : String) (jobs : List Job) :
    digestLines clock peer jobs =
      (((jobs.filter unfinished).filter (holds peer)).flatMap (heldLines clock),
        ((jobs.filter Job.closed).filter (handedOut peer)).map closedLine) := by
  have hfold (lines closed : List String) :
      jobs.foldl (fun (lines, closed) job =>
        if job.holder = peer ∧ job.closed = false then (lines ++ heldLines clock job, closed)
        else if job.sender = peer ∧ job.closed = true then (lines, closed ++ [closedLine job])
        else (lines, closed)) (lines, closed) =
      (lines ++ ((jobs.filter unfinished).filter (holds peer)).flatMap (heldLines clock),
        closed ++ ((jobs.filter Job.closed).filter (handedOut peer)).map closedLine) := by
    induction jobs generalizing lines closed with
    | nil => simp
    | cons job jobs ih =>
        rw [List.foldl_cons]
        cases hclosed : job.closed with
        | false =>
            by_cases hholder : job.holder = peer
            · simp [ih,unfinished,holds,hclosed,hholder]
            · simp [ih,unfinished,holds,hclosed,hholder]
        | true =>
            by_cases hsender : job.sender = peer
            · simp [ih,unfinished,handedOut,hclosed,hsender]
            · simp [ih,unfinished,handedOut,hclosed,hsender]
  exact hfold [] []

section Told

variable {s : Posted} {vs : List (Tick × Verb)}

theorem digest_owed (clock : Clock) {peer : String} (hpeer : peer ≠ "") (hs : s.Sound)
    (hsame : s.SameOwed) :
    ∃ closed, (∀ line ∈ closed,
        ∃ job ∈ s.ledger, job.closed = true ∧ job.sender = peer ∧ line = closedLine job) ∧
      s.board.digest clock peer =
        laidOut ((s.owed.filter (holds peer)).flatMap (heldLines clock)) closed := by
  have howed : s.board.jobs.filter unfinished = s.owed := hsame
  refine ⟨((s.board.jobs.filter Job.closed).filter (handedOut peer)).map closedLine,?_,?_⟩
  · intro line hline
    obtain ⟨job,hjob,rfl⟩ := List.mem_map.mp hline
    obtain ⟨hmem,hsender⟩ := List.mem_filter.mp hjob
    obtain ⟨hboard,hclosed⟩ := List.mem_filter.mp hmem
    exact ⟨job,hs.subset job hboard,hclosed,of_decide_eq_true hsender,rfl⟩
  · rw [digest,if_neg hpeer,digestLines_eq,howed]

theorem digest_tells_owed (hfresh : (newIds vs).Nodup)
    (hspares : Run.Along Posted.serve Posted.Spares {} vs) :
    ∀ s ∈ Run.visited Posted.serve {} vs, ∀ clock peer, peer ≠ "" →
      ∃ closed, (∀ line ∈ closed,
          ∃ job ∈ s.ledger, job.closed = true ∧ job.sender = peer ∧ line = closedLine job) ∧
        s.board.digest clock peer =
          laidOut ((s.owed.filter (holds peer)).flatMap (heldLines clock)) closed := by
  have hstep : ∀ (s : Posted) (v : Tick × Verb), s.Sound → s.Draws v → (s.serve v).Sound :=
    fun s v hs hf => sound_step (entry_serve s v) (ids_step (step_serve s.board v)) hs hf
  have hkeeps : ∀ (s : Posted) (v : Tick × Verb), s.Sound → s.Draws v → s.SameOwed →
      ((s.serve v).SameOwed ↔ s.Spares v) :=
    fun s v hs _ hsame => sameOwed_step (entry_serve s v) hs hsame
  have hsound : Posted.Sound {} :=
    ⟨List.nodup_nil,List.nodup_nil,fun job hjob => absurd hjob (List.not_mem_nil)⟩
  have hdraws := draws_along (s := {}) hfresh
  intro s hvisited clock peer hpeer
  refine digest_owed clock hpeer (Run.visited_inv hstep hsound hdraws s hvisited) ?_
  exact (Run.visited_good_iff hstep hkeeps hsound rfl hdraws).mpr hspares s hvisited

theorem digest_tells_owed_tests :
    (Posted.serve {} (postFor "1" "j1" "C" "tests")).board.digest ⟨"1", fun _ => none⟩ "C" =
      "=== Peer Board ===\nJobs you hold, which only you can move:\n" ++
        "- j1 from a person: tests [open]\n" ∧
    ∀ s ∈ Run.visited Posted.serve {} [postFor "1" "j1" "C" "tests"], ∀ clock peer, peer ≠ "" →
      ∃ closed, (∀ line ∈ closed,
          ∃ job ∈ s.ledger, job.closed = true ∧ job.sender = peer ∧ line = closedLine job) ∧
        s.board.digest clock peer =
          laidOut ((s.owed.filter (holds peer)).flatMap (heldLines clock)) closed :=
  ⟨by decide +kernel,
    digest_tells_owed (by decide) ⟨fun _ _ _ _ _ hfull => absurd hfull (by decide),trivial⟩⟩

end Told

end PuCli.Serve
