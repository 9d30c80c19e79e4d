import PuCli.Runtime.Approval
import PuCli.Runtime.ExecutorRound

namespace PuCli

open Tools (BashContext SecurityPolicy Executed)
open Tools.BashTool (spoken)

structure PageWords where
  cancels : Bool := false
  texts : List String := []
  answers : List (Bool × String) := []

-- HandleMessage lets no empty note through.
def heardNotes (texts : List String) : List String := texts.filter (fun text => text ≠ "")

def PageWords.window {ρ : Type} (words : PageWords) (cut : Bool) : Window ρ :=
  { cancels := words.cancels || cut, notes := heardNotes words.texts }

def answerNotes (answers : List (Bool × String)) : List String :=
  answers.flatMap (fun a => spoken a.2)

-- A bash call, and what the page answers from the moment its question opens until the thread wakes.
structure BashCall where
  shell : Tools.BashTool.Shell
  pager : Paging.Pager
  args : Json
  first : Bool × String
  further : List (Bool × String) := []

structure Slot where
  before : PageWords := {}
  bash : Option BashCall := none
  otherwise : ToolAnswer

structure NoteRound where
  opening : PageWords := {}
  calling : PageWords := {}
  slots : List Slot
  closing : PageWords := {}
  settling : PageWords := {}

structure NoteSetup where
  security : Option SecurityPolicy
  asks : Bool
  token : Bool

-- The notes of one round by where they were when they came, and those its results and its message carry.
structure Boundary where
  pending : List String := []
  during : List String := []
  refused : List String := []
  astray : List String := []
  stopped : Bool := false
  carried : List String := []
  deriving DecidableEq

structure Notes where
  flags : Flags
  book : Boundary := {}
  boundaries : List Boundary := []

def Boundary.arrived (b : Boundary) : List String := b.pending ++ b.during ++ b.refused ++ b.astray

def BashCall.answers (call : BashCall) : List (Bool × String) := call.first :: call.further

def BashCall.gate (call : BashCall) : Gate :=
  call.answers.foldl (fun _ a => Gate.resolve a.1 a.2) (Gate.opened {})

def BashCall.decided (call : BashCall) : Bool × String := (call.gate.allowed, call.gate.note)

namespace Notes

variable (setup : NoteSetup)

def context (note : String) (answer : Bool × String) : BashContext :=
  { security := some (setup.security.getD {})
    control := if setup.token then some { note := note } else none
    approval := if setup.asks then some (fun _ => answer) else none }

def runBash (note : String) (call : BashCall) : Except String Executed :=
  Tools.BashTool.execute call.shell call.pager call.args (context setup note call.decided)

def early (s : Notes) (words : PageWords) : Notes :=
  { s with
    flags := s.flags.pass setup.token (words.window false : Window Unit)
    book := { s.book with
      pending := s.book.pending ++ heardNotes words.texts
      astray := s.book.astray ++ answerNotes words.answers } }

def late (s : Notes) (words : PageWords) : Notes :=
  { s with
    flags := s.flags.pass setup.token (words.window false : Window Unit)
    book := { s.book with
      during := s.book.during ++ heardNotes words.texts
      astray := s.book.astray ++ answerNotes words.answers } }

def answered (b : Boundary) (call : BashCall) : Boundary :=
  if call.decided.1 then { b with astray := b.astray ++ answerNotes call.answers }
  else { b with
    refused := b.refused ++ spoken call.decided.2
    astray := b.astray ++ answerNotes call.answers.dropLast }

-- exec::Run reports a stopped command only when the token is set.
def settleBash (s : Notes) (call : BashCall) (done : Executed) : Notes :=
  let book := if done.asked then answered s.book call else s.book
  { s with
    flags := { s.flags with cancelled := s.flags.cancelled || (done.stopped && setup.token) }
    book := { book with
      stopped := book.stopped || (done.stopped && setup.token)
      carried := book.carried ++ done.adds ++ done.told } }

def runSlot (note : String) (s : Notes) (slot : Slot) : Notes :=
  match slot.bash with
  | none => s
  | some call =>
      match runBash setup note call with
      | .error _ => s
      | .ok done => settleBash setup s call done

def runSlots (note : String) : List Slot → Notes → Notes
  | [], s => s
  | slot :: slots, s =>
      let s := late setup s slot.before
      if s.flags.stopped setup.token then s else runSlots note slots (runSlot setup note s slot)

def leave (s : Notes) : Notes :=
  if s.flags.userNote ≠ "" ∧ setup.token then
    { s with
      flags := { s.flags with userNote := "" }
      book := { s.book with carried := s.book.carried ++ [s.flags.userNote] } }
  else s

def close (s : Notes) : Notes := { s with book := {}, boundaries := s.boundaries ++ [s.book] }

def build (s : Notes) : Notes := { s with flags := { s.flags with userNote := "" } }

def playRound (s : Notes) (round : NoteRound) : Notes :=
  let s := early setup (early setup s round.opening) round.calling
  let s := runSlots setup s.flags.userNote round.slots s.build
  let s := leave setup (late setup s round.closing)
  early setup s.close round.settling

def play (rounds : List NoteRound) (s : Notes) : Notes := rounds.foldl (playRound setup) s

def begin (flags : Flags) : Notes :=
  { flags := flags, book := { pending := spoken flags.userNote } }

def Kept (b : Boundary) : Prop := b.carried.Perm b.arrived

def Clear (b : Boundary) : Prop :=
  b.astray = [] ∧ (b.during = [] ∨ setup.token = true ∧ b.during.length = 1) ∧
    (b.pending = [] ∨ b.stopped = true ∧ b.pending.length = 1)

theorem length_spoken (note : String) : (spoken note).length ≤ 1 := by
  unfold spoken
  split <;> simp

theorem mem_heardNotes {texts : List String} {text : String} (h : text ∈ heardNotes texts) :
    text ≠ "" := by
  simpa using (List.mem_filter.mp h).2

-- The one note a field of the executor still holds when it is read, if it is read.
def surviving (read : Bool) (notes : List String) : List String :=
  if read then spoken (notes.getLast?.getD "") else []

theorem length_surviving (read : Bool) (notes : List String) :
    (surviving read notes).length ≤ notes.length := by
  unfold surviving
  cases notes with
  | nil => simp [spoken]
  | cons note notes =>
      have := length_spoken ((note :: notes).getLast?.getD "")
      split
      · simp only [List.length_cons]
        omega
      · exact Nat.zero_le _

theorem alone_of_length {read : Bool} {notes : List String}
    (h : (surviving read notes).length = notes.length) :
    notes = [] ∨ read = true ∧ notes.length = 1 := by
  have := length_spoken (notes.getLast?.getD "")
  rw [← List.length_eq_zero_iff]
  unfold surviving at h
  split at h
  · next hread =>
      refine (Nat.eq_zero_or_pos notes.length).imp_right (fun hpos => ⟨hread,?_⟩)
      omega
  · exact .inl h.symm

theorem surviving_alone {read : Bool} {notes : List String} (hall : ∀ note ∈ notes, note ≠ "")
    (h : notes = [] ∨ read = true ∧ notes.length = 1) : surviving read notes = notes := by
  rcases h with rfl | ⟨rfl,h⟩
  · simp [surviving,spoken]
  · obtain ⟨note,rfl⟩ := List.length_eq_one_iff.mp h
    simp [surviving,spoken,hall note]

theorem last_append (notes more : List String) (note : String) :
    (notes ++ more).getLast?.getD note = more.getLast?.getD (notes.getLast?.getD note) := by
  rw [List.getLast?_append]
  cases more.getLast? <;> rfl

theorem decided_eq (call : BashCall) :
    call.decided = call.answers.getLast (by simp [BashCall.answers]) := by
  have hfold : ∀ (answers : List (Bool × String)) (g : Gate) (h : answers ≠ []),
      (answers.foldl (fun _ a => Gate.resolve a.1 a.2) g).allowed = (answers.getLast h).1 ∧
        (answers.foldl (fun _ a => Gate.resolve a.1 a.2) g).note = (answers.getLast h).2 := by
    intro answers
    induction answers with
    | nil => exact fun g h => absurd rfl h
    | cons a answers ih =>
        intro g h
        cases answers with
        | nil => exact ⟨rfl,rfl⟩
        | cons b answers => exact ih (Gate.resolve a.1 a.2) (by simp)
  exact Prod.ext (hfold call.answers _ _).1 (hfold call.answers _ _).2

theorem arrived_answered (b : Boundary) (call : BashCall) :
    (answered b call).arrived.Perm (b.arrived ++ answerNotes call.answers) := by
  unfold answered
  split
  · simp [Boundary.arrived]
  · have hlast : answerNotes call.answers = answerNotes call.answers.dropLast ++ spoken call.decided.2 := by
      have h := List.dropLast_append_getLast (l := call.answers) (by simp [BashCall.answers])
      rw [← decided_eq] at h
      conv_lhs => rw [← h]
      simp [answerNotes]
    simp only [Boundary.arrived,hlast,List.append_assoc]
    refine .append_left _ (.append_left _ (.append_left _ ?_))
    refine List.perm_append_comm.trans ?_
    simp only [List.append_assoc]
    exact .refl _

variable {setup : NoteSetup} {s : Notes} {note : String}

structure Booked (setup : NoteSetup) (note : String) (s : Notes) : Prop where
  carried : s.book.carried.Perm ((if s.book.stopped then spoken note else []) ++ s.book.refused)
  stopped : s.book.stopped = true → s.flags.stopped setup.token = true
  userNote : s.flags.userNote = s.book.during.getLast?.getD ""
  during : ∀ text ∈ s.book.during, text ≠ ""

theorem booked_late (h : Booked setup note s) (words : PageWords) :
    Booked setup note (late setup s words) := by
  refine ⟨h.carried,fun hs => Flags.stopped_pass _ (h.stopped hs),?_,?_⟩
  · change (heardNotes words.texts).getLast?.getD s.flags.userNote = _
    rw [h.userNote]
    exact (last_append _ _ _).symm
  · intro text htext
    rcases List.mem_append.mp htext with htext | htext
    · exact h.during text htext
    · exact mem_heardNotes htext

theorem stoppedAdds_context (answer : Bool × String) (stopped : Bool) :
    Tools.BashTool.stoppedAdds (context setup note answer) stopped =
      if stopped && setup.token then spoken note else [] := by
  unfold Tools.BashTool.stoppedAdds context
  cases setup.token <;> simp

theorem settled_book (setup : NoteSetup) (s : Notes) (call : BashCall) (done : Executed) :
    (settleBash setup s call done).book.carried = s.book.carried ++ done.adds ++ done.told ∧
      (settleBash setup s call done).book.during = s.book.during ∧
      (settleBash setup s call done).book.stopped = (s.book.stopped || (done.stopped && setup.token)) ∧
      (settleBash setup s call done).book.refused = s.book.refused ++
        if done.asked = true ∧ call.decided.1 = false then spoken call.decided.2 else [] := by
  cases hasked : done.asked <;> cases hyes : call.decided.1 <;>
    simp [settleBash,answered,hasked,hyes]

theorem booked_runSlot (h : Booked setup note s) (hgoing : s.flags.stopped setup.token = false)
    (slot : Slot) : Booked setup note (runSlot setup note s slot) := by
  have hfresh : s.book.stopped = false :=
    Bool.eq_false_iff.mpr (fun hs => by rw [h.stopped hs] at hgoing; cases hgoing)
  unfold runSlot
  split
  · exact h
  · next call _ =>
      split
      · exact h
      · next done hdone =>
          have hb : Tools.BashTool.Brought (context setup note call.decided) call.decided done :=
            Tools.BashTool.brought_execute
              (fun ask command happ => by
                simp only [context] at happ
                split at happ
                · rw [← Option.some.inj happ]
                · cases happ)
              (fun control hc => by
                simp only [context] at hc
                split at hc
                · rw [← Option.some.inj hc]
                · cases hc)
              hdone
          have hcarried := h.carried
          rw [hfresh] at hcarried
          simp only [Bool.false_eq_true,if_false,List.nil_append] at hcarried
          obtain ⟨hsaid,hduring,hstopped,hrefused⟩ := settled_book setup s call done
          refine ⟨?_,?_,?_,?_⟩
          · rw [hsaid,hb.told,hb.adds,stoppedAdds_context,hstopped,hfresh,hrefused,List.append_nil,
              Bool.false_or,← List.append_assoc,← List.append_assoc]
            exact .append_right _ ((hcarried.append_right _).trans List.perm_append_comm)
          · rw [hstopped,hfresh,Bool.false_or]
            intro hs
            simp only [Bool.and_eq_true] at hs
            simp [settleBash,Flags.stopped,hs]
          · exact h.userNote.trans (by rw [hduring])
          · rw [hduring]
            exact h.during

theorem booked_runSlots (h : Booked setup note s) (slots : List Slot) :
    Booked setup note (runSlots setup note slots s) := by
  induction slots generalizing s with
  | nil => exact h
  | cons slot slots ih =>
      simp only [runSlots]
      split
      · exact booked_late h slot.before
      · next hs => exact ih (booked_runSlot (booked_late h slot.before) (by simpa using hs) slot)

structure Opened (setup : NoteSetup) (s : Notes) : Prop where
  userNote : setup.token = true → s.flags.userNote = s.book.pending.getLast?.getD ""
  pending : ∀ text ∈ s.book.pending, text ≠ ""
  during : s.book.during = []
  refused : s.book.refused = []
  stopped : s.book.stopped = false
  carried : s.book.carried = []

theorem opened_begin (setup : NoteSetup) (flags : Flags) : Opened setup (begin flags) := by
  refine ⟨fun _ => ?_,?_,rfl,rfl,rfl,rfl⟩ <;> simp only [begin,spoken] <;> split <;> simp [*]

theorem opened_early (h : Opened setup s) (words : PageWords) :
    Opened setup (early setup s words) := by
  refine ⟨fun ht => ?_,?_,h.during,h.refused,h.stopped,h.carried⟩
  · change (heardNotes words.texts).getLast?.getD s.flags.userNote = _
    rw [h.userNote ht]
    exact (last_append _ _ _).symm
  · intro text htext
    rcases List.mem_append.mp htext with htext | htext
    · exact h.pending text htext
    · exact mem_heardNotes htext

theorem booked_build (h : Opened setup s) : Booked setup s.flags.userNote s.build := by
  refine ⟨?_,?_,?_,?_⟩
  · simp [build,h.carried,h.refused,h.stopped]
  · simp [build,h.stopped]
  · simp [build,h.during]
  · simp [build,h.during]

structure SameBooks (s s' : Notes) : Prop where
  pending : s'.book.pending = s.book.pending
  boundaries : s'.boundaries = s.boundaries

theorem sameBooks_runSlot (setup : NoteSetup) (note : String) (s : Notes) (slot : Slot) :
    SameBooks s (runSlot setup note s slot) := by
  unfold runSlot
  split
  · exact ⟨rfl,rfl⟩
  · next call _ =>
      split
      · exact ⟨rfl,rfl⟩
      · next done _ =>
          refine ⟨?_,rfl⟩
          cases hasked : done.asked <;> cases hyes : call.decided.1 <;>
            simp [settleBash,answered,hasked,hyes]

theorem sameBooks_runSlots (setup : NoteSetup) (note : String) (slots : List Slot) (s : Notes) :
    SameBooks s (runSlots setup note slots s) := by
  induction slots generalizing s with
  | nil => exact ⟨rfl,rfl⟩
  | cons slot slots ih =>
      simp only [runSlots]
      split
      · exact ⟨rfl,rfl⟩
      · have hrun := sameBooks_runSlot setup note (late setup s slot.before) slot
        have hrest := ih (runSlot setup note (late setup s slot.before) slot)
        exact ⟨hrest.pending.trans hrun.pending,hrest.boundaries.trans hrun.boundaries⟩

theorem carried_leave (s : Notes) : (leave setup s).book =
    { s.book with carried := s.book.carried ++ if setup.token then spoken s.flags.userNote else [] } := by
  unfold leave spoken
  by_cases hu : s.flags.userNote = "" <;> cases ht : setup.token <;> simp [hu]

theorem kept_iff_clear (hb : Booked setup note s) (hpending : ∀ text ∈ s.book.pending, text ≠ "")
    (hnote : setup.token = true → note = s.book.pending.getLast?.getD "") :
    Kept (leave setup s).book ↔ Clear setup (leave setup s).book := by
  have htoken : s.book.stopped = true → setup.token = true := by
    intro hs
    have := hb.stopped hs
    simp only [Flags.stopped,Bool.and_eq_true] at this
    exact this.1
  have hfirst : (if s.book.stopped then spoken note else []) =
      surviving s.book.stopped s.book.pending := by
    unfold surviving
    split
    · next hs => rw [hnote (htoken hs)]
    · rfl
  have hcarried := hb.carried
  rw [hfirst] at hcarried
  have hleft : (leave setup s).book.carried.Perm
      (surviving s.book.stopped s.book.pending ++ surviving setup.token s.book.during ++ s.book.refused) := by
    rw [carried_leave,hb.userNote]
    refine (hcarried.append_right _).trans ?_
    rw [List.append_assoc,List.append_assoc]
    exact .append_left _ List.perm_append_comm
  have harrived : (leave setup s).book.arrived =
      s.book.pending ++ s.book.during ++ s.book.refused ++ s.book.astray := by
    rw [carried_leave]
    rfl
  have hclear : Clear setup (leave setup s).book ↔ Clear setup s.book := by
    rw [carried_leave]
    exact .rfl
  rw [Kept,harrived,hclear]
  constructor
  · intro hperm
    have hlen := (hleft.symm.trans hperm).length_eq
    have hp := length_surviving s.book.stopped s.book.pending
    have hd := length_surviving setup.token s.book.during
    simp only [List.length_append] at hlen
    refine ⟨?_,alone_of_length (by omega),alone_of_length (by omega)⟩
    exact List.eq_nil_of_length_eq_zero (by omega)
  · rintro ⟨hastray,hduring,hpend⟩
    rw [surviving_alone hpending hpend,surviving_alone hb.during hduring] at hleft
    rw [hastray,List.append_nil]
    exact hleft

theorem opened_close (s : Notes) : Opened setup (leave setup s).close := by
  refine ⟨fun ht => ?_,by simp [close],rfl,rfl,rfl,rfl⟩
  unfold leave
  by_cases hu : s.flags.userNote = "" <;> simp [close,hu,ht]

theorem boundaries_leave (s : Notes) : (leave setup s).boundaries = s.boundaries := by
  unfold leave
  split <;> rfl

theorem playRound_boundary (h : Opened setup s) (round : NoteRound) :
    ∃ b, (playRound setup s round).boundaries = s.boundaries ++ [b] ∧ (Kept b ↔ Clear setup b) ∧
      Opened setup (playRound setup s round) := by
  obtain ⟨opened,hopened⟩ : ∃ opened, opened = early setup (early setup s round.opening) round.calling :=
    ⟨_,rfl⟩
  have hopen : Opened setup opened := hopened ▸ opened_early (opened_early h round.opening) round.calling
  have hran := booked_late (booked_runSlots (booked_build hopen) round.slots) round.closing
  have hsame :=
    sameBooks_runSlots setup opened.flags.userNote round.slots opened.build
  refine ⟨_,?_,kept_iff_clear hran ?_ ?_,opened_early (opened_close _) round.settling⟩
  · have hbefore : opened.boundaries = s.boundaries := by rw [hopened]; rfl
    have hclosed : (playRound setup s round).boundaries =
        (leave setup (late setup (runSlots setup opened.flags.userNote round.slots opened.build)
          round.closing)).close.boundaries := by rw [hopened]; rfl
    rw [hclosed]
    simp only [close]
    rw [boundaries_leave]
    change (runSlots setup opened.flags.userNote round.slots opened.build).boundaries ++ _ = _
    rw [hsame.boundaries]
    change opened.boundaries ++ _ = _
    rw [hbefore]
  · change ∀ text ∈ (runSlots setup opened.flags.userNote round.slots opened.build).book.pending, text ≠ ""
    rw [hsame.pending]
    exact hopen.pending
  · change setup.token = true → opened.flags.userNote =
      (runSlots setup opened.flags.userNote round.slots opened.build).book.pending.getLast?.getD ""
    rw [hsame.pending]
    exact hopen.userNote

theorem play_boundaries (h : Opened setup s) (rounds : List NoteRound)
    (hall : ∀ b ∈ s.boundaries, Kept b ↔ Clear setup b) :
    ∀ b ∈ (play setup rounds s).boundaries, Kept b ↔ Clear setup b := by
  induction rounds generalizing s with
  | nil => exact hall
  | cons round rounds ih =>
      obtain ⟨b,hb,hiff,hopen⟩ := playRound_boundary h round
      refine ih hopen ?_
      rw [hb]
      intro b' hb'
      rcases List.mem_append.mp hb' with hb' | hb'
      · exact hall b' hb'
      · rw [List.mem_singleton.mp hb']
        exact hiff

theorem notes_kept_iff (setup : NoteSetup) (rounds : List NoteRound) (flags : Flags) :
    (∀ b ∈ (play setup rounds (begin flags)).boundaries, Kept b) ↔
      ∀ b ∈ (play setup rounds (begin flags)).boundaries, Clear setup b := by
  have hall := play_boundaries (opened_begin setup flags) rounds (by simp [begin])
  exact forall₂_congr hall

instance (b : Boundary) : Decidable (Kept b) :=
  inferInstanceAs (Decidable (b.carried.Perm b.arrived))

-- The page adds a word while the model is still writing the call it answers with.
def advisedRound : NoteRound :=
  { calling := { texts := ["use tabs"] }, slots := [{ otherwise := ⟨.ok "ran", ⟨.ok "", .ok ""⟩⟩ }] }

theorem note_before_the_calls_lost :
    ¬ ∀ b ∈ (play ⟨none, true, true⟩ [advisedRound] (begin ⟨false, ""⟩)).boundaries, Kept b := by
  intro h
  exact absurd (h _ (List.mem_singleton.mpr rfl)) (by decide)

section Executor

open Executing

variable {ρ : Type} (setup : NoteSetup) (note : String)

def cut (slot : Slot) : Bool :=
  match slot.bash with
  | none => false
  | some call =>
      match runBash setup note call with
      | .error _ => false
      | .ok done => done.stopped && setup.token

def answer (slot : Slot) : ToolAnswer :=
  match slot.bash with
  | none => slot.otherwise
  | some call => { slot.otherwise with result := (runBash setup note call).map Executed.result }

def steps (past : CallStep ρ) : Bool → List Slot → Nat → CallStep ρ
  | _, [], _ => past
  | stopped, slot :: _, 0 =>
      { before := slot.before.window stopped, answer := answer setup note slot }
  | _, slot :: slots, i + 1 => steps past (cut setup note slot) slots i

def script (past : CallStep ρ) (reply : Provided) (round : NoteRound) : Round ρ :=
  { opening := round.opening.window false
    calling := round.calling.window false
    reply := reply
    steps := steps setup note past false round.slots
    closing := round.closing.window (round.slots.any (cut setup note))
    settling := round.settling.window false }

variable {setup : NoteSetup} {note : String}

theorem flags_runSlot (s : Notes) (slot : Slot) : (runSlot setup note s slot).flags =
    ⟨s.flags.cancelled || cut setup note slot, s.flags.userNote⟩ := by
  unfold runSlot cut
  split
  · simp
  · split <;> simp [settleBash]

theorem cut_token (slot : Slot) : (cut setup note slot && setup.token) = cut setup note slot := by
  unfold cut
  split
  · rfl
  · split <;> simp

theorem flags_runSlots (setup : NoteSetup) (note : String) (past : CallStep ρ) (closing : PageWords) (slots : List Slot)
    (stopped : Bool)
    (f : Flags) (s : Notes) (hf : s.flags = ⟨f.cancelled || (stopped && setup.token), f.userNote⟩) :
    (late setup (runSlots setup note slots s) closing).flags =
      (Flags.ran setup.token (steps setup note past stopped slots) slots.length f).2.pass setup.token
        (closing.window (stopped || slots.any (cut setup note)) : Window ρ) := by
  induction slots generalizing stopped f s with
  | nil =>
      change s.flags.pass setup.token (closing.window false : Window Unit) = f.pass setup.token _
      rw [hf]
      simp only [Flags.pass,PageWords.window,List.any_nil]
      cases setup.token <;> cases stopped <;> simp
  | cons slot slots ih =>
      obtain ⟨g,hg⟩ : ∃ g, g = f.pass setup.token (slot.before.window stopped : Window ρ) := ⟨_,rfl⟩
      have hlate : (late setup s slot.before).flags = g := by
        change s.flags.pass setup.token (slot.before.window false : Window Unit) = g
        rw [hf,hg]
        simp only [Flags.pass,PageWords.window]
        cases setup.token <;> cases stopped <;> simp
      change (late setup (if (late setup s slot.before).flags.stopped setup.token then _ else _)
        closing).flags = Flags.pass setup.token (if (f.pass setup.token (slot.before.window stopped : Window ρ)).stopped
          setup.token then (0, f.pass setup.token (slot.before.window stopped : Window ρ)) else _).2 _
      rw [hlate,← hg]
      by_cases hs : g.stopped setup.token = true
      · rw [if_pos hs,if_pos hs]
        change (late setup s slot.before).flags.pass setup.token (closing.window false : Window Unit) = _
        rw [hlate]
        simp only [Flags.stopped,Bool.and_eq_true] at hs
        simp [Flags.pass,PageWords.window,hs]
      · rw [if_neg hs,if_neg hs]
        have hstep :=
          ih (cut setup note slot) g (runSlot setup note (late setup s slot.before) slot)
          (by rw [flags_runSlot,hlate,cut_token])
        have hfirst : f.pass setup.token (steps setup note past stopped (slot :: slots) 0).before = g := hg.symm
        rw [hstep,hfirst]
        change Flags.pass setup.token (Flags.ran setup.token (steps setup note past (cut setup note slot) slots)
          slots.length g).2 _ = Flags.pass setup.token (Flags.ran setup.token (steps setup note past
            (cut setup note slot) slots) slots.length g).2 _
        have hcut : (stopped && setup.token) = false := by
          refine Bool.eq_false_iff.mpr (fun hboth => hs ?_)
          simp only [Bool.and_eq_true] at hboth
          simp [hg,Flags.stopped,Flags.pass,PageWords.window,hboth]
        simp only [Flags.pass,PageWords.window,List.any_cons]
        cases ht : setup.token
        · simp
        · rw [ht,Bool.and_true] at hcut
          simp [hcut]

variable {host : Host} {turn : Turn ρ}

theorem flags_sealIfStopped (st : Executing ρ) : (st.sealIfStopped host turn).flags = st.flags := by
  unfold sealIfStopped
  split <;> rfl

theorem flags_leaveNote (st : Executing ρ) (s : Notes) (htoken : turn.token = setup.token)
    (h : st.flags = s.flags) : (st.leaveNote host turn).flags = (leave setup s).flags := by
  have hnote : st.userNote = s.flags.userNote := congrArg Flags.userNote h
  have hcancelled : st.cancelled = s.flags.cancelled := congrArg Flags.cancelled h
  unfold leaveNote leave
  rw [hnote,htoken]
  split
  · simp [Executing.flags,append,hcancelled]
  · exact h

theorem flags_playRound (htoken : turn.token = setup.token) (past : CallStep ρ)
    (provided : Provided)
    {reply : ChatResult} (round : NoteRound) (hcalls : reply.toolCalls.length = round.slots.length)
    {st : Executing ρ} {s : Notes}
    (hst : st.flags = (early setup (early setup s round.opening) round.calling).flags) :
    (runTools host turn (script setup st.userNote past provided round) reply st).flags =
        (playRound setup s round).flags ∧
      roundNote turn (script setup st.userNote past provided round) (calledAs host reply st).length st =
        (late setup (runSlots setup st.userNote round.slots
          (early setup (early setup s round.opening) round.calling).build) round.closing).flags.userNote := by
  obtain ⟨opened,hopened⟩ : ∃ opened, opened = early setup (early setup s round.opening) round.calling :=
    ⟨_,rfl⟩
  rw [← hopened] at hst ⊢
  have hnote : st.userNote = opened.flags.userNote := congrArg Flags.userNote hst
  have hcancelled : st.cancelled = opened.flags.cancelled := congrArg Flags.cancelled hst
  have hcount : (calledAs host reply st).length = round.slots.length := by
    rw [calledAs,length_assignIds,hcalls]
  have hran :=
    flags_runSlots setup st.userNote past round.closing round.slots false
    ⟨st.cancelled, ""⟩ opened.build (by simp [build,hcancelled])
  have hclosed : (runCalls host turn ⟨st.userNote, st.peerOrigin⟩
      (script setup st.userNote past provided round).steps (calledAs host reply st)
      (called host reply st) |>.pass turn (script setup st.userNote past provided round).closing).flags =
        (late setup (runSlots setup st.userNote round.slots opened.build) round.closing).flags := by
    rw [flags_pass,(runCalls_frame _ _ _ _).1,hran,hcount,htoken]
    rfl
  refine ⟨?_,?_⟩
  · rw [runTools_eq,flags_sealIfStopped,flags_pass,noted,flags_leaveNote _ _ htoken hclosed,htoken]
    have hplayed : (playRound setup s round).flags =
        (leave setup (late setup (runSlots setup opened.flags.userNote round.slots opened.build)
          round.closing)).flags.pass setup.token (round.settling.window false : Window Unit) := by
      rw [hopened]
      rfl
    rw [hplayed,hnote]
    rfl
  · have huser := congrArg Flags.userNote hran
    rw [roundNote,roundFlags,hcount,htoken]
    exact huser.symm

end Executor

end Notes

end PuCli
