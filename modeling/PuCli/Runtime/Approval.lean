import PuCli.Library.Run
import PuCli.Tools.Bash

namespace PuCli

structure Gate where
  answered : Bool := false
  allowed : Bool := false
  note : String := ""

def Gate.opened (g : Gate) : Gate := { g with answered := false, note := "" }

def Gate.resolve (allow : Bool) (note : String) : Gate := ⟨true, allow, note⟩

-- What a page sends, and the question it was looking at when it did; the frame itself names none.
structure PageAnswer where
  given : Option Nat
  allow : Bool
  note : String := ""
  deriving DecidableEq

structure Decision where
  ask : Nat
  command : String
  allowed : Bool
  note : String
  heard : Option PageAnswer
  deriving DecidableEq

inductive Asking where
  | idle
  | opened (command : String)
  | waiting (command : String)

structure Approvals where
  gate : Gate := {}
  asks : Nat := 0
  thread : Asking := .idle
  announced : List Nat := []
  delivered : List Nat := []
  sent : List PageAnswer := []
  inFlight : List PageAnswer := []
  standing : Option PageAnswer := none
  decisions : List Decision := []

namespace Approvals

inductive Event where
  | ask (command : String)
  | announce
  | deliver (ask : Nat)
  | answer (a : PageAnswer)
  | arrive (place : Nat)
  | wake

def CanGive (s : Approvals) (a : PageAnswer) : Prop := ∀ ask, a.given = some ask → ask ∈ s.delivered

instance (s : Approvals) (a : PageAnswer) : Decidable (s.CanGive a) :=
  match h : a.given with
  | none => isTrue (fun _ hg => by rw [h] at hg; cases hg)
  | some ask =>
      decidable_of_iff (ask ∈ s.delivered)
        ⟨fun hd _ hg => Option.some.inj (h.symm.trans hg) ▸ hd,fun hd => hd ask h⟩

def step (s : Approvals) : Event → Approvals
  | .ask command =>
      match s.thread with
      | .idle =>
          { s with gate := s.gate.opened, asks := s.asks + 1, thread := .opened command, standing := none }
      | _ => s
  | .announce =>
      match s.thread with
      | .opened command =>
          { s with thread := .waiting command, announced := s.announced ++ [s.asks] }
      | _ => s
  | .deliver ask =>
      if ask ∈ s.announced then { s with delivered := s.delivered ++ [ask] } else s
  | .answer a =>
      if s.CanGive a then { s with sent := s.sent ++ [a], inFlight := s.inFlight ++ [a] } else s
  | .arrive place =>
      match s.inFlight[place]? with
      | none => s
      | some a =>
          { s with
            gate := Gate.resolve a.allow a.note
            inFlight := s.inFlight.eraseIdx place
            standing := some a }
  | .wake =>
      match s.thread, s.gate.answered with
      | .waiting command, true =>
          { s with
            thread := .idle
            decisions := s.decisions ++ [⟨s.asks, command, s.gate.allowed, s.gate.note, s.standing⟩] }
      | _, _ => s

def answering (ctx : Tools.BashContext) (d : Decision) : Tools.BashContext :=
  { ctx with approval := some (fun _ => (d.allowed, d.note)) }

def Owned (s : Approvals) (d : Decision) : Prop :=
  (∃ a, d.heard = some a ∧ a.given = some d.ask) ∧
    ∀ (sh : Tools.BashTool.Shell) pager args ctx done ran,
      Tools.BashTool.execute sh pager args (answering ctx d) = .ok done → done.ran = some ran →
        (Tools.assess sh.search ran ctx.security).risk = .approval →
          ∃ a ∈ s.sent, a.given = some d.ask ∧ a.allow = true ∧ d.ask ∈ s.delivered

def AnswersOwn (s : Approvals) : Prop := ∀ d ∈ s.decisions, Owned s d

def WokenByOwn (s : Approvals) (e : Event) : Prop :=
  ∀ command, e = .wake → s.thread = .waiting command → s.gate.answered = true →
    ∃ a, s.standing = some a ∧ a.given = some s.asks

structure Heard (s : Approvals) : Prop where
  standing : s.gate.answered = true →
    ∃ a, s.standing = some a ∧ a ∈ s.sent ∧ s.gate.allowed = a.allow
  inFlight : ∀ a ∈ s.inFlight, a ∈ s.sent
  given : ∀ a ∈ s.sent, ∀ ask, a.given = some ask → ask ∈ s.delivered
  decided : ∀ d ∈ s.decisions, ∃ a, d.heard = some a ∧ a ∈ s.sent ∧ d.allowed = a.allow

variable {s : Approvals} {e : Event}

theorem heard_step (h : Heard s) : Heard (s.step e) := by
  cases e with
  | ask command =>
      rw [step]
      split
      · refine ⟨?_,h.inFlight,h.given,h.decided⟩
        intro hanswered
        cases hanswered
      · exact h
  | announce =>
      rw [step]
      split
      · exact ⟨h.standing,h.inFlight,h.given,h.decided⟩
      · exact h
  | deliver ask =>
      rw [step]
      split
      · refine ⟨h.standing,h.inFlight,?_,h.decided⟩
        intro a ha k hk
        exact List.mem_append_left _ (h.given a ha k hk)
      · exact h
  | answer a =>
      rw [step]
      split
      · next hcan =>
          refine ⟨?_,?_,?_,?_⟩
          · intro hanswered
            obtain ⟨b,hb,hmem,hallow⟩ := h.standing hanswered
            exact ⟨b,hb,List.mem_append_left _ hmem,hallow⟩
          · intro b hb
            rcases List.mem_append.mp hb with hold | hnew
            · exact List.mem_append_left _ (h.inFlight b hold)
            · exact List.mem_append_right _ hnew
          · intro b hb k hk
            rcases List.mem_append.mp hb with hold | hnew
            · exact h.given b hold k hk
            · rw [List.mem_singleton.mp hnew] at hk
              exact hcan k hk
          · intro d hd
            obtain ⟨b,hb,hmem,hallow⟩ := h.decided d hd
            exact ⟨b,hb,List.mem_append_left _ hmem,hallow⟩
      · exact h
  | arrive place =>
      rw [step]
      split
      · exact h
      · next a ha =>
          refine ⟨?_,?_,h.given,h.decided⟩
          · intro _
            exact ⟨a,rfl,h.inFlight a (List.mem_of_getElem? ha),rfl⟩
          · intro b hb
            exact h.inFlight b (List.mem_of_mem_eraseIdx hb)
  | wake =>
      rw [step]
      split
      · next command hthread hanswered =>
          refine ⟨h.standing,h.inFlight,h.given,?_⟩
          intro d hd
          rcases List.mem_append.mp hd with hold | hnew
          · exact h.decided d hold
          · rw [List.mem_singleton.mp hnew]
            exact h.standing hanswered
      · exact h

theorem Owned.mono {s s' : Approvals} {d : Decision} (hsent : ∀ a ∈ s.sent, a ∈ s'.sent)
    (hdelivered : ∀ k ∈ s.delivered, k ∈ s'.delivered) (h : Owned s d) : Owned s' d := by
  refine ⟨h.1,?_⟩
  intro sh pager args ctx done ran hok hran hrisk
  obtain ⟨a,ha,hgiven,hallow,hask⟩ := h.2 sh pager args ctx done ran hok hran hrisk
  exact ⟨a,hsent a ha,hgiven,hallow,hdelivered _ hask⟩

theorem owned_iff {d : Decision} (h : Heard s)
    (hd : ∃ a, d.heard = some a ∧ a ∈ s.sent ∧ d.allowed = a.allow) :
    Owned s d ↔ ∃ a, d.heard = some a ∧ a.given = some d.ask := by
  refine ⟨And.left,fun hown => ⟨hown,?_⟩⟩
  intro sh pager args ctx done ran hok hran hrisk
  obtain ⟨ask,hask,hyes⟩ := Tools.BashTool.runs_only_allowed hok hran hrisk
  obtain ⟨a,ha,hgiven⟩ := hown
  obtain ⟨b,hb,hsent,hallow⟩ := hd
  obtain rfl := Option.some.inj (ha.symm.trans hb)
  refine ⟨a,hsent,hgiven,?_,h.given a hsent _ hgiven⟩
  rw [← hallow]
  rw [← Option.some.inj hask] at hyes
  exact hyes

theorem decisions_step :
    (∃ command, e = .wake ∧ s.thread = .waiting command ∧ s.gate.answered = true ∧
      (s.step e).decisions =
        s.decisions ++ [⟨s.asks, command, s.gate.allowed, s.gate.note, s.standing⟩]) ∨
    ((s.step e).decisions = s.decisions ∧ WokenByOwn s e) := by
  have hother : e ≠ .wake → WokenByOwn s e := fun hne command he => absurd he hne
  cases e with
  | wake =>
      rw [step]
      split
      · next command hthread hanswered => exact .inl ⟨command,rfl,hthread,hanswered,rfl⟩
      · next hidle =>
          refine .inr ⟨rfl,?_⟩
          intro command _ hthread hanswered
          exact absurd hanswered (hidle command hthread)
  | _ =>
      refine .inr ⟨?_,hother (fun h => by cases h)⟩
      simp only [step]
      try split
      all_goals rfl

theorem grows_step : (∀ a ∈ s.sent, a ∈ (s.step e).sent) ∧
    ∀ k ∈ s.delivered, k ∈ (s.step e).delivered := by
  cases e with
  | deliver ask =>
      rw [step]
      split
      · exact ⟨fun _ h => h,fun _ h => List.mem_append_left _ h⟩
      · exact ⟨fun _ h => h,fun _ h => h⟩
  | answer a =>
      rw [step]
      split
      · exact ⟨fun _ h => List.mem_append_left _ h,fun _ h => h⟩
      · exact ⟨fun _ h => h,fun _ h => h⟩
  | _ =>
      simp only [step]
      try split
      all_goals exact ⟨fun _ h => h,fun _ h => h⟩

theorem answersOwn_step (h : Heard s) (hgood : AnswersOwn s) :
    AnswersOwn (s.step e) ↔ WokenByOwn s e := by
  have hgrows := @grows_step s e
  have hold : ∀ d ∈ s.decisions, Owned (s.step e) d :=
    fun d hd => (hgood d hd).mono hgrows.1 hgrows.2
  rcases @decisions_step s e with ⟨command,rfl,hthread,hanswered,hdecisions⟩ | ⟨hsame,hwoken⟩
  · have hheard := @heard_step s .wake h
    have hlast := owned_iff hheard
      (hheard.decided ⟨s.asks, command, s.gate.allowed, s.gate.note, s.standing⟩
        (by rw [hdecisions]; exact List.mem_append_right _ (List.mem_singleton.mpr rfl)))
    constructor
    · intro hafter command' _ _ _
      exact hlast.mp (hafter _ (by rw [hdecisions]; simp))
    · intro hwoken d hd
      rw [hdecisions] at hd
      rcases List.mem_append.mp hd with hbefore | hnew
      · exact hold d hbefore
      · rw [List.mem_singleton.mp hnew]
        exact hlast.mpr (hwoken command rfl hthread hanswered)
  · refine ⟨fun _ => hwoken,fun _ d hd => ?_⟩
    rw [hsame] at hd
    exact hold d hd

theorem answers_own_question_iff (es : List Event) :
    (∀ s ∈ Run.visited step {} es, AnswersOwn s) ↔ Run.Along step WokenByOwn {} es := by
  have hstart : Heard {} := by
    refine ⟨?_,?_,?_,?_⟩
    · intro h
      cases h
    all_goals
      intro a ha
      cases ha
  have hempty : AnswersOwn {} := by
    intro d hd
    cases hd
  exact Run.visited_good_iff (fun s e h _ => heard_step h) (fun s e h _ hgood => answersOwn_step h hgood)
    hstart hempty (Run.along_true _ es)

def answeredTwice : List Event :=
  [.ask "rm a", .announce, .deliver 1, .answer ⟨some 1, true, ""⟩, .answer ⟨some 1, true, ""⟩,
    .arrive 0, .wake, .ask "rm b", .announce, .arrive 0, .wake]

theorem second_question_decided_by_first_answer :
    ¬ ∀ es : List Event, ∀ s ∈ Run.visited step {} es, AnswersOwn s := by
  intro h
  have hlast := h answeredTwice _ (Run.end_mem_visited step {} answeredTwice)
  have hd : (⟨2, "rm b", true, "", some ⟨some 1, true, ""⟩⟩ : Decision) ∈
      (answeredTwice.foldl step {}).decisions := by
    decide
  obtain ⟨⟨a,ha,hgiven⟩,_⟩ := hlast _ hd
  obtain rfl := Option.some.inj ha
  cases hgiven

end Approvals

end PuCli
