import PuCli.App.Wire
import PuCli.App.Worker

namespace PuCli

open Serve (Board BoardError JobRequest Tick Verb)

variable {ρ : Type}

def Frame.terminal : Frame → Bool
  | .done _ => true
  | .error _ => true
  | _ => false

structure OneTerminal (frames : List Frame) : Prop where
  ends : ∃ last, frames.getLast? = some last ∧ last.terminal = true
  once : ∀ f ∈ frames.dropLast, f.terminal = false

def NoTerminal (frames : List Frame) : Prop := ∀ f ∈ frames, f.terminal = false

theorem oneTerminal_append {frames : List Frame} {last : Frame} (h : NoTerminal frames)
    (hl : last.terminal = true) : OneTerminal (frames ++ [last]) :=
  ⟨⟨last,List.getLast?_concat,hl⟩,by rw [List.dropLast_concat]; exact h⟩

theorem not_oneTerminal_twice {frames : List Frame} {first last : Frame}
    (hf : first.terminal = true) : ¬ OneTerminal (frames ++ [first, last]) := by
  intro h
  have honce := h.once first (by simp)
  rw [honce] at hf
  cases hf

theorem OneTerminal.not_noTerminal {frames : List Frame} (h : OneTerminal frames) :
    ¬ NoTerminal frames := by
  obtain ⟨last,hlast,hterm⟩ := h.ends
  intro hno
  rw [hno last (List.mem_of_getLast? hlast)] at hterm
  cases hterm

-- The page a turn was submitted from on `conn`, and how the sockets stood while the turn ran and
-- when its end is looked at.
structure PageSide where
  client : Nat → String := fun _ => ""
  conn : Nat := 0
  during : List Wire := []
  last : Wire := {}

namespace PageSide

variable (page : PageSide)

def Owns (other : Nat) : Prop := other = page.conn ∨ Wire.samePage page.client page.conn other = true

def Holds (w : Wire) : Prop := ∃ current, w.attached = some current ∧ page.Owns current

def Here : Prop :=
  ∃ current, page.last.attached = some current ∧ current ∉ page.last.closed ∧ page.Owns current

-- What the worker reads there of the page: the flag of the socket the turn was submitted on.
def ending (cancels pageAsked : Bool) : Ending where
  cancels := cancels
  pageAsked := pageAsked
  pageHere := decide (page.conn ∈ page.last.onPage)

-- A socket that another of the same tab replaced has not left: the tab holds the session still.
def Left (job : Job) : Prop :=
  job.conn = true ∧ ((∃ w ∈ page.during, ¬ page.Holds w) ∨ ¬ page.Here)

end PageSide

namespace SessionRunner

variable {site : Site} {serve : Conversation → ρ → Conversation} {script : Script ρ}
variable {ending : Ending} {fault : Option Fault} {watch : Watch} {job : Job} {rt : Runtime}
variable {board : Option Board} {page : PageSide} {cancels pageAsked : Bool}

theorem frameLaw_open : FrameLaw (fun f => f.terminal = false) :=
  ⟨fun _ => rfl,fun _ => rfl,fun _ => rfl⟩

theorem noTerminal_talk (input origin : String) :
    NoTerminal ((talkFrames (rt.processInput site true serve script input origin)).1 ++
      (talkFrames (rt.processInput site true serve script input origin)).2) := by
  unfold Runtime.processInput
  dsimp only
  split
  · rw [Runtime.runCommand_frames.2]
    intro f hf
    cases hf
  · split
    · intro f hf
      cases hf
    · have hlaw : ∀ round : Round ρ, round.Lawful (fun f => f.terminal = false) :=
        fun _ _ _ => ⟨fun _ => rfl,fun _ _ _ => rfl⟩
      have hstart : Executing.Says (fun f => f.terminal = false)
          ((Runtime.defaultSession { rt with peerOrigin := origin }).executing : Executing ρ) := by
        intro f hf
        cases hf
      have hsays : Executing.Says (fun f => f.terminal = false) (Executing.execute site.host
          ((Runtime.defaultSession { rt with peerOrigin := origin }).turn true serve) script input
            (Runtime.defaultSession { rt with peerOrigin := origin }).executing).2 :=
        Executing.says_execute frameLaw_open script input (fun round _ => hlaw round) hstart
      unfold Runtime.runTurn
      split
      · next hx => rw [hx] at hsays; exact hsays
      · next hx => rw [hx] at hsays; exact hsays
      · next hx => rw [hx] at hsays; exact hsays

theorem closingFrames_eq (rt : Runtime) (result : ExecutionResult) :
    ∃ frames, closingFrames rt result = frames ++ [endFrame result] ∧ NoTerminal frames ∧
      (endFrame result).terminal = true := by
  refine ⟨noticeFrames result ++ usageFrames rt result,rfl,?_,?_⟩
  · intro f hf
    rcases List.mem_append.mp hf with hf | hf
    · unfold noticeFrames at hf
      split at hf
      · cases hf
      · rw [List.mem_singleton.mp hf]
        rfl
    · unfold usageFrames at hf
      split at hf
      · cases hf
      · rw [List.mem_singleton.mp hf]
        rfl
  · unfold endFrame
    split <;> rfl

def CutShort (job : Job) (ending : Ending) (p : Processed ρ) : Prop :=
  wasCancelled p ending = true ∧ ¬ (ending.pageAsked = true ∧ job.conn = true ∧
    ending.pageHere = true)

instance (job : Job) (ending : Ending) (p : Processed ρ) : Decidable (CutShort job ending p) :=
  inferInstanceAs (Decidable (_ ∧ _))

def Struck (fault : Option Fault) (frames : List Frame) : Prop :=
  ∃ f, fault = some f ∧ f.index < frames.length

theorem report_cut {p : Processed ρ} (hended : p.ended = true) (hcut : CutShort job ending p) :
    report job ending p =
      { runtime := p.runtime
        record := { id := job.turnId, earlier := (talkFrames p).1, last := (talkFrames p).2 } } := by
  unfold report
  dsimp only
  rw [if_neg (by simp [hended])]
  exact if_pos hcut

theorem report_whole {p : Processed ρ} (hended : p.ended = true) (hcut : ¬ CutShort job ending p) :
    report job ending p =
      { runtime := p.runtime
        record :=
          { id := job.turnId, earlier := (talkFrames p).1, last := (talkFrames p).2
            closing := closingFrames p.runtime p.result }
        closed := closeBoardJob p.runtime.peers job.boardJob p.result } := by
  unfold report
  dsimp only
  rw [if_neg (by simp [hended])]
  exact if_neg hcut

theorem sayAll_cases (fault : Option Fault) (frames : List Frame) :
    ¬ Struck fault frames ∧ sayAll fault frames = (frames, none) ∨
      Struck fault frames ∧ ∃ said what, sayAll fault frames = (said, some what) := by
  unfold sayAll Struck
  cases fault with
  | none => exact .inl ⟨by simp,rfl⟩
  | some f =>
      dsimp only
      split
      · next hlt => exact .inr ⟨⟨f,rfl,hlt⟩,_,_,rfl⟩
      · next hge =>
          refine .inl ⟨?_,rfl⟩
          rintro ⟨g,hg,hlt⟩
          obtain rfl := Option.some.inj hg
          exact hge hlt

def CloseAccepted (watch : Watch) (job : Job) (peers : Option PeerConfig)
    (board : Option Board) : Prop :=
  ∀ b cfg, board = some b → peers = some cfg → job.boardJob ≠ "" → cfg.selfName ≠ "" →
    (b.serveAll watch.during).Held cfg.selfName job.boardJob

theorem closeBoardJob_eq {cfg : PeerConfig} {id : String} (hid : id ≠ "") (hself : cfg.selfName ≠ "")
    (result : ExecutionResult) :
    closeBoardJob (some cfg) id result = some ⟨id, cfg.selfName, result.hasError,
      if result.hasError then resultText result else result.content⟩ := by
  simp [closeBoardJob,hid,hself]

theorem closeOn_held {tick : Tick} {b : Board} {cfg : PeerConfig} {id : String}
    {result : ExecutionResult} (hid : id ≠ "") (hself : cfg.selfName ≠ "")
    (h : b.Held cfg.selfName id) :
    ∃ b' held, closeOn tick (some b) (closeBoardJob (some cfg) id result) = .ok (some b') ∧
      b.find id = some held ∧ held.closed = false ∧
      b'.find id = some (Board.closedBy held result.hasError
        (if result.hasError then resultText result else result.content) tick.now) := by
  obtain ⟨held,hfind,hholder,hopen⟩ := h
  obtain ⟨r,b',hup,hfound⟩ := @Board.update_closing b tick id cfg.selfName
    (if result.hasError then resultText result else result.content) held result.hasError hid hself
    hfind hholder hopen
  refine ⟨b',held,?_,hfind,hopen,hfound⟩
  rw [closeBoardJob_eq hid hself]
  simp only [closeOn,JobClose.request,hup,Except.map]

theorem closeOn_ok_iff {tick : Tick} {result : ExecutionResult} {peers : Option PeerConfig} :
    (∃ b', closeOn tick (board.map (fun b => b.serveAll watch.during))
        (closeBoardJob peers job.boardJob result) = .ok b') ↔
      CloseAccepted watch job peers board := by
  constructor
  · rintro ⟨b',hok⟩ b cfg rfl rfl hid hself
    rw [closeBoardJob_eq hid hself] at hok
    simp only [Option.map_some,closeOn] at hok
    cases hup : (b.serveAll watch.during).update tick (JobClose.request ⟨job.boardJob, cfg.selfName,
        result.hasError, if result.hasError then resultText result else result.content⟩) with
    | error refusal =>
        rw [hup] at hok
        cases hok
    | ok done => exact Board.update_held_of_ok hup
  · intro hacc
    cases board with
    | none => exact ⟨none,by simp [closeOn]⟩
    | some b =>
        cases peers with
        | none => exact ⟨_,rfl⟩
        | some cfg =>
            by_cases hno : job.boardJob = "" ∨ cfg.selfName = ""
            · exact ⟨_,by simp [closeOn,closeBoardJob,hno]; rfl⟩
            · obtain ⟨hid,hself⟩ := not_or.mp hno
              obtain ⟨b',_,hok,_⟩ := @closeOn_held tick _ cfg job.boardJob result hid hself
                (hacc b cfg rfl rfl hid hself)
              exact ⟨some b',hok⟩

def processed (site : Site) (serve : Conversation → ρ → Conversation) (script : Script ρ)
    (job : Job) (rt : Runtime) : Processed ρ :=
  rt.processInput site true serve script job.text job.peerOrigin

structure Asked (p : Processed ρ) (job : Job) : Prop where
  asked : job.conn = true ∨ job.peerOrigin ≠ ""
  ended : p.ended = true

def recordOf (job : Job) (p : Processed ρ) (closing : List Frame) : TurnRecord :=
  { id := job.turnId, earlier := (talkFrames p).1, last := (talkFrames p).2, closing := closing }

section Exits

variable (h : Asked (processed site serve script job rt) job)
include h

theorem work_cut (hcut : CutShort job ending (processed site serve script job rt)) :
    work site serve script ending fault watch job rt board =
      ⟨(processed site serve script job rt).runtime,
        recordOf job (processed site serve script job rt) [],
        board.map (fun b => b.serveAll watch.during)⟩ := by
  have hsaid : sayAll fault [] = ([], none) := by
    rcases sayAll_cases fault [] with ⟨_,hs⟩ | ⟨⟨f,_,hlt⟩,_⟩
    · exact hs
    · exact absurd hlt (Nat.not_lt_zero _)
  have hclose : ∀ b, closeOn watch.closing b none = .ok b := by
    intro b
    cases b <;> rfl
  have hrun : runJob site serve script ending job rt =
      { runtime := (processed site serve script job rt).runtime
        record := recordOf job (processed site serve script job rt) [] } :=
    (runJob_asked h.asked).trans (report_cut h.ended hcut)
  have hnone : (recordOf job (processed site serve script job rt) []).closing = [] := rfl
  unfold work
  rw [hrun]
  dsimp only
  rw [hnone,hsaid]
  dsimp only
  rw [hclose]

variable (hcut : ¬ CutShort job ending (processed site serve script job rt))
include hcut

theorem runJob_whole : runJob site serve script ending job rt =
    { runtime := (processed site serve script job rt).runtime
      record := recordOf job (processed site serve script job rt) (closingFrames
        (processed site serve script job rt).runtime (processed site serve script job rt).result)
      closed := closeBoardJob rt.peers job.boardJob
        (processed site serve script job rt).result } := by
  have hpeers : (processed site serve script job rt).runtime.peers = rt.peers :=
    Runtime.peers_processInput
  rw [← hpeers]
  exact (runJob_asked h.asked).trans (report_whole h.ended hcut)

theorem closing_runJob_whole : (runJob site serve script ending job rt).record.closing =
    closingFrames (processed site serve script job rt).runtime
      (processed site serve script job rt).result := by
  rw [runJob_whole h hcut]
  rfl

theorem work_struck {said : List Frame} {what : String}
    (hsaid : sayAll fault (closingFrames (processed site serve script job rt).runtime
      (processed site serve script job rt).result) = (said, some what)) :
    work site serve script ending fault watch job rt board =
      reportFailedTurn watch job (runJob site serve script ending job rt) said what
        (board.map (fun b => b.serveAll watch.during)) := by
  unfold work
  dsimp only
  rw [closing_runJob_whole h hcut,hsaid]

theorem work_clear (hclear : ¬ Struck fault (closingFrames
      (processed site serve script job rt).runtime (processed site serve script job rt).result)) :
    work site serve script ending fault watch job rt board =
      match closeOn watch.closing (board.map (fun b => b.serveAll watch.during)) (closeBoardJob
        rt.peers job.boardJob (processed site serve script job rt).result) with
      | .ok board =>
          ⟨(processed site serve script job rt).runtime,
            recordOf job (processed site serve script job rt) (closingFrames
              (processed site serve script job rt).runtime
              (processed site serve script job rt).result), board⟩
      | .error refusal =>
          reportFailedTurn watch job (runJob site serve script ending job rt) (closingFrames
            (processed site serve script job rt).runtime
            (processed site serve script job rt).result) refusal.what
            (board.map (fun b => b.serveAll watch.during)) := by
  have hsaid := ((sayAll_cases fault _).resolve_right (fun hs => hclear hs.1)).2
  have hrun := runJob_whole h hcut
  unfold work
  dsimp only
  rw [closing_runJob_whole h hcut,hsaid]
  dsimp only
  generalize runJob site serve script ending job rt = run at hrun ⊢
  subst hrun
  rfl

end Exits

def EndsOnce (page : PageSide) (job : Job) (frames : List Frame) : Prop :=
  OneTerminal frames ∨ page.Left job ∧ NoTerminal frames

theorem not_endsOnce_reported {run : JobRun} {said : List Frame} {reason : String} :
    ¬ EndsOnce page job (reportFailedTurn watch job run said reason board).record.frames := by
  have hframes : (reportFailedTurn watch job run said reason board).record.frames =
      (run.record.earlier ++ run.record.last ++ said) ++ [.error reason, .done ""] := by
    simp [reportFailedTurn,TurnRecord.frames]
  rw [hframes]
  rintro (hone | ⟨_,hnone⟩)
  · exact not_oneTerminal_twice rfl hone
  · have hlast := hnone (.done "") (by simp)
    cases hlast

def noon : Tick := ⟨"2026-01-01T12:00:00Z", "j1", fun _ => ""⟩

def postedBoard : Board :=
  Board.serveAll {} [(noon, .post { sender := some "A", holder := some "C", intent := some "sum" })]

def claimedBoard : Board := postedBoard.serve (noon, .update (claim "C" "j1"))

def answering : Script Empty := { rounds := [Runtime.answerRound] }

def askedByA : Job := peerJob Runtime.boardSite.host ⟨Runtime.servingC, []⟩ "A" "add them" "j1"

def workedForA (ending : Ending) (fault : Option Fault) (during : List (Tick × Verb)) : Worked :=
  work Runtime.boardSite (fun c (_ : Empty) => c) answering ending fault
    { during := during, closing := noon, reporting := noon } askedByA Runtime.servingC
    (some claimedBoard)

theorem one_terminal_frame_iff (h : Asked (processed site serve script job rt) job) :
    EndsOnce page job (work site serve script (page.ending cancels pageAsked) fault watch job rt
        board).record.frames ↔
      (CutShort job (page.ending cancels pageAsked) (processed site serve script job rt) →
        page.Left job) ∧
      (¬ CutShort job (page.ending cancels pageAsked) (processed site serve script job rt) →
        ¬ Struck fault (closingFrames (processed site serve script job rt).runtime
            (processed site serve script job rt).result) ∧
          CloseAccepted watch job rt.peers board) := by
  have hquiet : NoTerminal ((talkFrames (processed site serve script job rt)).1 ++
    (talkFrames (processed site serve script job rt)).2) := noTerminal_talk job.text job.peerOrigin
  by_cases hcut : CutShort job (page.ending cancels pageAsked)
      (processed site serve script job rt)
  · rw [work_cut h hcut]
    simp only [recordOf,TurnRecord.frames,List.append_nil]
    constructor
    · rintro (hone | ⟨hleft,_⟩)
      · exact absurd hquiet hone.not_noTerminal
      · exact ⟨fun _ => hleft,fun hnot => absurd hcut hnot⟩
    · rintro ⟨hleft,_⟩
      exact .inr ⟨hleft hcut,hquiet⟩
  rcases sayAll_cases fault (closingFrames (processed site serve script job rt).runtime
    (processed site serve script job rt).result) with ⟨hclear,_⟩ | ⟨hstruck,said,what,hsaid⟩
  · have hok := @closeOn_ok_iff watch job board watch.closing
      (processed site serve script job rt).result rt.peers
    rw [work_clear h hcut hclear]
    cases hclose : closeOn watch.closing (board.map (fun b => b.serveAll watch.during))
        (closeBoardJob rt.peers job.boardJob (processed site serve script job rt).result) with
    | error refusal =>
        rw [hclose] at hok
        refine ⟨fun hends => absurd hends not_endsOnce_reported,?_⟩
        rintro ⟨_,hrest⟩
        obtain ⟨_,hb⟩ := hok.mpr (hrest hcut).2
        cases hb
    | ok b =>
        rw [hclose] at hok
        refine ⟨fun _ => ⟨fun hc => absurd hc hcut,fun _ => ⟨hclear,hok.mp ⟨b,rfl⟩⟩⟩,fun _ => ?_⟩
        obtain ⟨frames,heq,hno,hterm⟩ := closingFrames_eq
          (processed site serve script job rt).runtime (processed site serve script job rt).result
        refine .inl ?_
        simp only [recordOf,TurnRecord.frames]
        rw [heq,← List.append_assoc]
        refine oneTerminal_append ?_ hterm
        intro f hf
        rcases List.mem_append.mp hf with hf | hf
        · exact hquiet f hf
        · exact hno f hf
  · rw [work_struck h hcut hsaid]
    refine ⟨fun hends => absurd hends not_endsOnce_reported,?_⟩
    rintro ⟨_,hrest⟩
    exact absurd hstruck (hrest hcut).1

theorem one_terminal_frame_answered :
    (workedForA (PageSide.ending {} false false) none []).record.frames = [.done ""] ∧
      EndsOnce {} askedByA (workedForA (PageSide.ending {} false false) none []).record.frames := by
  refine ⟨by decide,(one_terminal_frame_iff ⟨.inr (by decide),by decide⟩).mpr ⟨?_,?_⟩⟩
  · intro hcut
    exact absurd hcut (by decide)
  · intro _
    constructor
    · rintro ⟨f,hf,_⟩
      cases hf
    · intro b cfg hb hcfg _ _
      obtain rfl := Option.some.inj hb
      obtain rfl := Option.some.inj hcfg
      decide

def openedTab : List WireEvent := [.attach 0,.snapshot,.enter]

def reopening : List WireEvent := [.attach 1,.snapshot,.enter]

-- A tab that reopens its socket while its turn runs, and has the new one at the end.
def reopenedTab : PageSide where
  client := fun _ => "tab"
  conn := 0
  during := Run.visited (Wire.step fun _ => "tab") (openedTab.foldl (Wire.step fun _ => "tab") {})
    reopening
  last := (openedTab ++ reopening).foldl (Wire.step fun _ => "tab") {}

theorem reopenedTab_stays (job : Job) : ¬ reopenedTab.Left job := by
  have hown : ∀ other, reopenedTab.Owns other := fun _ => .inr rfl
  have hheld : ∀ w ∈ reopenedTab.during, w.attached.isSome = true := by decide
  have hlast : reopenedTab.last.attached = some 1 ∧ 1 ∉ reopenedTab.last.closed := by decide
  rintro ⟨-,⟨w,hw,hleft⟩ | hgone⟩
  · obtain ⟨current,hcurrent⟩ := Option.isSome_iff_exists.mp (hheld w hw)
    exact hleft ⟨current,hcurrent,hown current⟩
  · exact hgone ⟨1,hlast.1,hlast.2,hown 1⟩

def workedForTab : Worked :=
  work Runtime.boardSite (fun c (_ : Empty) => c) answering (reopenedTab.ending true true) none
    { closing := noon, reporting := noon } (typed "go") Runtime.servingC none

theorem three_terminals_after_drop :
    (workedForA (PageSide.ending {} false false) none [(noon, .drop "j1" "not needed")]).record.frames =
        [.done "", .error "job j1 already ended as cancelled", .done ""] ∧
      ¬ EndsOnce {} askedByA (workedForA (PageSide.ending {} false false) none
        [(noon, .drop "j1" "not needed")]).record.frames ∧
      (workedForA (PageSide.ending {} true true) none []).record.frames = [] ∧
      ¬ EndsOnce {} askedByA (workedForA (PageSide.ending {} true true) none []).record.frames ∧
      workedForTab.record.frames = [] ∧
      ¬ EndsOnce reopenedTab (typed "go") workedForTab.record.frames := by
  have hthree : (workedForA (PageSide.ending {} false false) none
      [(noon, .drop "j1" "not needed")]).record.frames =
        [.done "", .error "job j1 already ended as cancelled", .done ""] := by decide
  have hnone : (workedForA (PageSide.ending {} true true) none []).record.frames = [] := by decide
  have htab : workedForTab.record.frames = [] := by decide
  have hsilent : ¬ OneTerminal [] := by
    rintro ⟨⟨last,hlast,-⟩,-⟩
    cases hlast
  refine ⟨hthree,?_,hnone,?_,htab,?_⟩
  · rw [hthree]
    rintro (hone | ⟨hleft,_⟩)
    · have honce := hone.once (.done "") (by simp)
      cases honce
    · cases hleft.1
  · rw [hnone]
    rintro (hone | ⟨hleft,_⟩)
    · exact hsilent hone
    · cases hleft.1
  · rw [htab]
    rintro (hone | ⟨hleft,_⟩)
    · exact hsilent hone
    · exact reopenedTab_stays _ hleft

def Settles (job : Serve.Job) (result : ExecutionResult) : Prop :=
  if result.hasError then
    job.state = .failed ∧ (resultText result ≠ "" → job.result = some (resultText result))
  else job.state = .done ∧ job.result.getD "" = result.content

theorem Settles.closed {j : Serve.Job} {result : ExecutionResult} (h : Settles j result) :
    j.closed = true := by
  unfold Settles at h
  split at h
  · simp [Serve.Job.closed,h.1]
  · simp [Serve.Job.closed,h.1]

theorem settles_closedBy {held : Serve.Job} (hresult : held.result = none)
    (result : ExecutionResult) (now : String) :
    Settles (Board.closedBy held result.hasError
      (if result.hasError then resultText result else result.content) now) result := by
  unfold Settles Board.closedBy
  cases result.hasError with
  | true =>
      refine ⟨rfl,?_⟩
      intro hne
      simp [hne]
  | false =>
      refine ⟨rfl,?_⟩
      by_cases hc : result.content = ""
      · simp [hc,hresult]
      · simp [hc]

def outcomeOf (fault : Option Fault) (p : Processed ρ) : ExecutionResult :=
  match (sayAll fault (closingFrames p.runtime p.result)).2 with
  | some what => failedWith what
  | none => p.result

def FollowsTurn (board : Option Board) (id : String) (outcome : ExecutionResult) : Prop :=
  ∃ b j, board = some b ∧ b.find id = some j ∧ Settles j outcome

structure HeldThrough (watch : Watch) (b : Board) (self id : String) : Prop where
  closing : (b.serveAll watch.during).Held self id
  reporting : ((b.serveAll watch.during).serveAll watch.after).Held self id

theorem admitted {host : Host} {tick : Tick} {cfg : PeerConfig} {b : Board} {taken : Option Board}
    {r r' : SessionRunner} {sender message id : String} (hid : id ≠ "")
    (h : handlePeerMessage host tick cfg (some b) r sender message id = .ok (taken, r')) :
    sender ≠ "" ∧ cfg.selfName ≠ "" ∧ r'.jobs = r.jobs ++ [peerJob host r sender message id] ∧
      ∃ b', taken = some b' ∧ b' = b.serve (tick, .update (claim cfg.selfName id)) := by
  unfold handlePeerMessage at h
  split at h
  · cases h
  · split at h
    · cases h
    · next hsender =>
        split at h
        · cases h
        · cases hc : claimOn tick (some b) cfg id with
          | error what =>
              rw [hc] at h
              cases h
          | ok claimed =>
              rw [hc] at h
              cases h
              simp only [claimOn,if_neg hid] at hc
              split at hc
              · cases hc
              · next done b' hup =>
                  split at hc
                  · cases hc
                  · cases hc
                    obtain ⟨hself,_⟩ := Board.update_cases hup
                    exact ⟨hsender,hself,rfl,b',rfl,by simp [Board.serve,hup,Board.kept]⟩

theorem reported_board {b : Board} {cfg : PeerConfig} {run : JobRun} {said : List Frame}
    {what : String} (hid : job.boardJob ≠ "") (hself : cfg.selfName ≠ "")
    (hpeers : run.runtime.peers = some cfg)
    (hheld : (b.serveAll watch.after).Held cfg.selfName job.boardJob) :
    ∃ b' held, (reportFailedTurn watch job run said what (some b)).board = some b' ∧
      b'.find job.boardJob = some (Board.closedBy held false "" watch.reporting.now) := by
  obtain ⟨b',held,hok,_,_,hfound⟩ := @closeOn_held watch.reporting _ cfg job.boardJob {} hid hself
    hheld
  refine ⟨b',held,?_,hfound⟩
  unfold reportFailedTurn
  dsimp only
  rw [hpeers,Option.map_some,hok]

theorem followsTurn_iff {b : Board} {cfg : PeerConfig}
    (h : Asked (processed site serve script job rt) job) (hconn : job.conn = false)
    (hreach : b.Reachable) (hid : job.boardJob ≠ "") (hself : cfg.selfName ≠ "")
    (hpeers : rt.peers = some cfg) (hheld : HeldThrough watch b cfg.selfName job.boardJob) :
    FollowsTurn (work site serve script ending fault watch job rt (some b)).board job.boardJob
        (outcomeOf fault (processed site serve script job rt)) ↔
      wasCancelled (processed site serve script job rt) ending = false ∧
        ¬ Struck fault (closingFrames (processed site serve script job rt).runtime
          (processed site serve script job rt).result) := by
  obtain ⟨hclosing,hreporting⟩ := hheld
  by_cases hcut : CutShort job ending (processed site serve script job rt)
  · rw [work_cut h hcut]
    constructor
    · rintro ⟨board,j,hboard,hfind,hsettles⟩
      obtain rfl := Option.some.inj hboard
      obtain ⟨held,hfound,_,hopen⟩ := hclosing
      rw [hfind] at hfound
      obtain rfl := Option.some.inj hfound
      rw [hsettles.closed] at hopen
      cases hopen
    · rintro ⟨hnot,_⟩
      rw [hcut.1] at hnot
      cases hnot
  have hcancel : wasCancelled (processed site serve script job rt) ending = false := by
    rw [← Bool.not_eq_true]
    intro hc
    exact hcut ⟨hc,by simp [hconn]⟩
  rcases sayAll_cases fault (closingFrames (processed site serve script job rt).runtime
    (processed site serve script job rt).result) with
    ⟨hclear,hsaid⟩ | ⟨hstruck,said,what,hsaid⟩
  · refine ⟨fun _ => ⟨hcancel,hclear⟩,fun _ => ?_⟩
    obtain ⟨b',held,hok,hfind,hopen,hfound⟩ := @closeOn_held watch.closing _ cfg job.boardJob
      (processed site serve script job rt).result hid hself hclosing
    have hnone : held.result = none :=
      (hreach.serveAll watch.during).unanswered held (List.mem_of_find?_eq_some hfind) hopen
    rw [work_clear h hcut hclear,hpeers,Option.map_some,hok,outcomeOf,hsaid]
    exact ⟨b',_,rfl,hfound,settles_closedBy hnone _ _⟩
  · refine ⟨?_,fun hboth => absurd hstruck hboth.2⟩
    rintro ⟨board,j,hboard,hfind,hsettles⟩
    have hrun : (runJob site serve script ending job rt).runtime.peers = some cfg := by
      rw [runJob_whole h hcut]
      exact Runtime.peers_processInput.trans hpeers
    obtain ⟨b',held,hreported,hfound⟩ := @reported_board watch job (b.serveAll watch.during) cfg
      (runJob site serve script ending job rt) said what hid hself hrun hreporting
    rw [work_struck h hcut hsaid,Option.map_some,hreported] at hboard
    obtain rfl := Option.some.inj hboard
    obtain rfl := Option.some.inj (hfound.symm.trans hfind)
    rw [outcomeOf,hsaid] at hsettles
    have hstate := hsettles.1
    simp [Board.closedBy] at hstate

theorem board_job_follows_turn_iff {tick : Tick} {cfg : PeerConfig} {b claimed : Board}
    {r r' : SessionRunner} {sender message id : String} (hreach : b.Reachable) (hid : id ≠ "")
    (hpeers : rt.peers = some cfg)
    (haccept : handlePeerMessage site.host tick cfg (some b) r sender message id =
      .ok (some claimed, r')) (hqueued : r'.jobs = r.jobs ++ [job])
    (hended : (processed site serve script job rt).ended = true)
    (hheld : HeldThrough watch claimed cfg.selfName id) :
    FollowsTurn (work site serve script ending fault watch job rt (some claimed)).board id
        (outcomeOf fault (processed site serve script job rt)) ↔
      wasCancelled (processed site serve script job rt) ending = false ∧
        ¬ Struck fault (closingFrames (processed site serve script job rt).runtime
          (processed site serve script job rt).result) := by
  obtain ⟨hsender,hself,hjobs,_,hsame,hclaimed⟩ := admitted hid haccept
  obtain rfl := Option.some.inj hsame
  obtain rfl : job = peerJob site.host r sender message id := by
    have hone := List.append_cancel_left (hqueued.symm.trans hjobs)
    simpa using hone
  have hreached : claimed.Reachable := by
    rw [hclaimed]
    exact hreach.serveAll [(tick, .update (claim cfg.selfName id))]
  exact followsTurn_iff ⟨.inr hsender,hended⟩ rfl hreached hid hself hpeers hheld

theorem admitted_by_A :
    ∃ r', handlePeerMessage Runtime.boardSite.host noon Runtime.twoPeers (some postedBoard)
        ⟨Runtime.servingC, []⟩ "A" "add them" "j1" = .ok (some claimedBoard, r') ∧
      r'.jobs = [] ++ [askedByA] := ⟨_,rfl,rfl⟩

theorem board_job_follows_answered_turn :
    (workedForA {} none []).board.bind (fun b => b.find "j1") =
        some { id := "j1", sender := "A", holder := "C", intent := "sum", state := .done
               createdAt := noon.now, updatedAt := noon.now, result := some "done" } ∧
      FollowsTurn (workedForA {} none []).board "j1" (outcomeOf none
        (processed Runtime.boardSite (fun c (_ : Empty) => c) answering askedByA
          Runtime.servingC)) := by
  obtain ⟨r',haccept,hqueued⟩ := admitted_by_A
  refine ⟨by decide,?_⟩
  refine (board_job_follows_turn_iff ⟨_,rfl⟩ (by decide) rfl haccept hqueued (by decide)
    ⟨by decide,by decide⟩).mpr ⟨by decide,?_⟩
  rintro ⟨f,hf,_⟩
  cases hf

theorem board_job_left_claimed_or_done :
    (∃ r', handlePeerMessage Runtime.boardSite.host noon Runtime.twoPeers (some postedBoard)
        ⟨Runtime.servingC, []⟩ "A" "add them" "j1" = .ok (some claimedBoard, r') ∧
      r'.jobs = [] ++ [askedByA]) ∧
    claimedBoard.Held "C" "j1" ∧
    ((workedForA ⟨true, true, true⟩ none []).board.bind (fun b => b.find "j1")).map
        Serve.Job.state = some .claimed ∧
    ¬ FollowsTurn (workedForA ⟨true, true, true⟩ none []).board "j1" (outcomeOf none
        (processed Runtime.boardSite (fun c (_ : Empty) => c) answering askedByA
          Runtime.servingC)) ∧
    ((workedForA {} (some ⟨0, false, "bad alloc"⟩) []).board.bind (fun b => b.find "j1")).map
        Serve.Job.state = some .done ∧
    ¬ FollowsTurn (workedForA {} (some ⟨0, false, "bad alloc"⟩) []).board "j1" (outcomeOf
        (some ⟨0, false, "bad alloc"⟩) (processed Runtime.boardSite (fun c (_ : Empty) => c)
          answering askedByA Runtime.servingC)) := by
  refine ⟨⟨_,rfl,rfl⟩,by decide,by decide,?_,by decide,?_⟩
  · rintro ⟨b,j,hb,hfind,hsettles⟩
    have hstate : ((workedForA ⟨true, true, true⟩ none []).board.bind
        (fun b => b.find "j1")).map Serve.Job.closed = some false := by decide
    rw [hb,Option.bind_some,hfind,Option.map_some,hsettles.closed] at hstate
    cases hstate
  · rintro ⟨b,j,hb,hfind,hsettles⟩
    have hstate : ((workedForA {} (some ⟨0, false, "bad alloc"⟩) []).board.bind
        (fun b => b.find "j1")).map Serve.Job.state = some .done := by decide
    rw [hb,Option.bind_some,hfind,Option.map_some] at hstate
    have hout : outcomeOf (some ⟨0, false, "bad alloc"⟩) (processed Runtime.boardSite
        (fun c (_ : Empty) => c) answering askedByA Runtime.servingC) = failedWith "bad alloc" := by
      decide
    rw [hout] at hsettles
    have hfailed := hsettles.1
    rw [Option.some.inj hstate] at hfailed
    cases hfailed

end SessionRunner

end PuCli
