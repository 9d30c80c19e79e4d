import PuCli.Tools.Bash

namespace PuCli

open Json

namespace Tools

namespace BashTool

def Contains (command pattern : String) : Prop := pattern.toList <:+: command.toList

-- A pattern the engine reads as its own characters is found wherever it is contained.
def Plain (search : Search) (pattern : String) : Prop :=
  ∀ command, Contains command pattern → search command pattern = some true

def Guards (search : Search) (pattern command : String) : Prop :=
  search command pattern = some true ∨ (Plain search pattern ∧ Contains command pattern)

def Refused (sh : Shell) (done : Executed) : Prop :=
  done.ran = none ∧ ∃ error blocked refusal,
    done.result =
      makeToolResultJson sh.text false [] (Utf8.bytesOf error) (-1) blocked refusal []

def RanApproved (ctx : BashContext) (done : Executed) : Prop :=
  ∀ ran, done.ran = some ran →
    done.asked = true ∧ ∃ ask, ctx.approval = some ask ∧ (ask ran).1 = true

-- The policy without the patterns the engine refuses.
def compiled (search : Search) (command : String) (policy : SecurityPolicy) : SecurityPolicy :=
  { policy with
    forbiddenPatterns := policy.forbiddenPatterns.filter (fun p => (search command p).isSome)
    approvalPatterns := policy.approvalPatterns.filter (fun p => (search command p).isSome) }

def under (ctx : BashContext) (policy : SecurityPolicy) : BashContext :=
  { ctx with security := some policy }

variable {sh : Shell} {pager : Paging.Pager} {args : Json} {ctx : BashContext}
  {policy : SecurityPolicy} {command pattern : String} {patterns : List String} {done : Executed}
  {search : Search} {anchor : Paging.Anchor} {lines : Nat}

theorem matchesAnyPattern_of_guards (hp : pattern ∈ patterns) (hg : Guards search pattern command) :
    matchesAnyPattern search command patterns = true := by
  have hs : search command pattern = some true := by
    rcases hg with hs | ⟨hplain,hcontains⟩
    · exact hs
    · exact hplain command hcontains
  rw [matchesAnyPattern,List.any_eq_true]
  exact ⟨pattern,hp,by rw [hs]; rfl⟩

theorem matchesAnyPattern_compiled (search : Search) (command : String) (patterns : List String) :
    matchesAnyPattern search command (patterns.filter (fun p => (search command p).isSome)) =
      matchesAnyPattern search command patterns := by
  induction patterns with
  | nil => rfl
  | cons pattern patterns ih =>
      cases hs : search command pattern with
      | none =>
          rw [List.filter_cons_of_neg (by simp [hs]),ih]
          simp [matchesAnyPattern,hs]
      | some found =>
          rw [List.filter_cons_of_pos (by simp [hs])]
          simp only [matchesAnyPattern,List.any_cons] at ih ⊢
          rw [ih]

theorem refused_refuse (sh : Shell) (pager : Paging.Pager) (error : String) (blocked : Bool)
    (refusal : Refusal) (adds : List String) :
    Refused sh (refuse sh pager error blocked refusal adds) :=
  ⟨rfl,error,blocked,refusal,rfl⟩

theorem refused_runChecked (hpolicy : ctx.security = some policy)
    (h : matchesAnyPattern sh.search command policy.forbiddenPatterns = true) :
    Refused sh (runChecked sh pager command anchor lines ctx) := by
  have hne : policy.forbiddenPatterns ≠ [] := by
    rintro hnil
    rw [hnil] at h
    cases h
  have hforbidden : forbidden sh ctx.security command =
      some (kForbidden policy.forbiddenPatterns) := by
    rw [hpolicy]
    exact if_pos ⟨hne,h⟩
  rw [runChecked,hforbidden]
  split
  · exact refused_refuse sh pager _ _ _ _
  · exact refused_refuse sh pager _ _ _ _
  · next h => cases h

theorem ranApproved_askAndRun :
    RanApproved ctx (askAndRun sh pager command anchor lines ctx) := by
  intro ran hran
  obtain ⟨rfl,ask,hask,hyes⟩ := ran_askAndRun hran
  refine ⟨?_,ask,hask,hyes⟩
  rw [askAndRun,hask]

theorem risk_of_approval (h : matchesAnyPattern search command policy.approvalPatterns = true) :
    (assess search command (some policy)).risk = .dangerous ∨
      (assess search command (some policy)).risk = .approval := by
  unfold assess
  split
  · exact .inl rfl
  · rw [Option.map_some,Option.getD_some,if_pos h]
    exact .inr rfl

theorem ranApproved_runChecked (hpolicy : ctx.security = some policy)
    (h : matchesAnyPattern sh.search command policy.approvalPatterns = true) :
    RanApproved ctx (runChecked sh pager command anchor lines ctx) := by
  unfold runChecked
  split
  · intro ran hran
    cases hran
  · intro ran hran
    cases hran
  · dsimp only
    rw [hpolicy]
    rcases risk_of_approval h with hrisk | hrisk <;> rw [hrisk]
    · intro ran hran
      cases hran
    · exact ranApproved_askAndRun

theorem assess_compiled (search : Search) (command : String) (policy : SecurityPolicy) :
    assess search command (some (compiled search command policy)) =
      assess search command (some policy) := by
  simp only [assess,Option.map_some,compiled,matchesAnyPattern_compiled]

theorem forbidden_compiled (sh : Shell) (command : String) (policy : SecurityPolicy) :
    (forbidden sh (some (compiled sh.search command policy)) command).isSome =
      (forbidden sh (some policy) command).isSome := by
  have hsome (p : SecurityPolicy) : (forbidden sh (some p) command).isSome =
      matchesAnyPattern sh.search command p.forbiddenPatterns := by
    cases hm : matchesAnyPattern sh.search command p.forbiddenPatterns with
    | true =>
        have hne : p.forbiddenPatterns ≠ [] := by
          intro hnil
          rw [hnil] at hm
          cases hm
        simp [forbidden,hm,hne]
    | false => simp [forbidden,hm]
  rw [hsome,hsome,compiled,matchesAnyPattern_compiled]

theorem runChecked_compiled (hpolicy : ctx.security = some policy) :
    let skipped := runChecked sh pager command anchor lines
      (under ctx (compiled sh.search command policy))
    let done := runChecked sh pager command anchor lines ctx
    skipped.ran = done.ran ∧ skipped.asked = done.asked := by
  intro skipped done
  have hlong : tooLong (some (compiled sh.search command policy)) command =
      tooLong (some policy) command := rfl
  have hforbidden := forbidden_compiled sh command policy
  simp only [skipped,done,runChecked,under,hpolicy,assess_compiled,hlong]
  cases tooLong (some policy) command with
  | some error => exact ⟨rfl,rfl⟩
  | none =>
      revert hforbidden
      cases forbidden sh (some policy) command <;>
        cases forbidden sh (some (compiled sh.search command policy)) command <;> intro hsame
      · dsimp only
        cases (assess sh.search command (some policy)).risk with
        | approval =>
            dsimp only [askAndRun]
            cases ctx.approval with
            | none => exact ⟨rfl,rfl⟩
            | some ask =>
                dsimp only
                split <;> exact ⟨rfl,rfl⟩
        | _ => exact ⟨rfl,rfl⟩
      · cases hsame
      · cases hsame
      · exact ⟨rfl,rfl⟩

theorem execute_command
    (hat : (valueOrDefault args "at" "head" : String) = "head" ∨
      (valueOrDefault args "at" "head" : String) = "tail")
    (hcommand : args.get? "command" = some (.string command)) :
    ∃ anchor, ∀ ctx : BashContext, execute sh pager args ctx = .ok
      (if command = "" then
        refuse sh pager "'command' is required unless 'at' names a cursor" false .none []
      else runChecked sh pager command anchor (pageLines pager.budget args) ctx) := by
  have hof : commandOf sh args = .ok command := by
    rw [commandOf,hcommand]
    rfl
  have hrun (anchor : Paging.Anchor) (ctx : BashContext)
      (hparse : Paging.Anchor.parse (valueOrDefault args "at" "head") = some anchor)
      (hplace : ∀ c, anchor ≠ .cursor c) : execute sh pager args ctx = .ok
        (if command = "" then
          refuse sh pager "'command' is required unless 'at' names a cursor" false .none []
        else runChecked sh pager command anchor (pageLines pager.budget args) ctx) := by
    simp only [execute,hparse,hof,bind,Except.bind]
    cases anchor with
    | cursor c => exact absurd rfl (hplace c)
    | _ => split <;> rfl
  rcases hat with hat | hat
  · exact ⟨.head,fun ctx => hrun .head ctx (by rw [hat]; rfl) (fun c => nofun)⟩
  · exact ⟨.tail,fun ctx => hrun .tail ctx (by rw [hat]; rfl) (fun c => nofun)⟩

-- A policy guards what its patterns match; one the engine refuses guards nothing.
theorem policy_fails_closed
    (hat : (valueOrDefault args "at" "head" : String) = "head" ∨
      (valueOrDefault args "at" "head" : String) = "tail")
    (hcommand : args.get? "command" = some (.string command))
    (hpolicy : ctx.security = some policy) :
    ∃ done skipped, execute sh pager args ctx = .ok done ∧
      (∀ pattern ∈ policy.forbiddenPatterns, Guards sh.search pattern command → Refused sh done) ∧
      (∀ pattern ∈ policy.approvalPatterns, Guards sh.search pattern command →
        RanApproved ctx done) ∧
      execute sh pager args (under ctx (compiled sh.search command policy)) = .ok skipped ∧
      skipped.ran = done.ran ∧ skipped.asked = done.asked := by
  obtain ⟨anchor,hexecute⟩ := @execute_command sh pager args command hat hcommand
  refine ⟨_,_,hexecute ctx,?_,?_,hexecute _,?_⟩
  · intro pattern hp hg
    split
    · exact refused_refuse sh pager _ _ _ _
    · exact refused_runChecked hpolicy (matchesAnyPattern_of_guards hp hg)
  · intro pattern hp hg
    split
    · intro ran hran
      cases hran
    · exact ranApproved_runChecked hpolicy (matchesAnyPattern_of_guards hp hg)
  · split
    · exact ⟨rfl,rfl⟩
    · exact runChecked_compiled hpolicy

def bracketPolicy : SecurityPolicy := { forbiddenPatterns := ["["] }

-- An engine that refuses an open bracket, and finds `cat` in the command it is given.
def bracketShell : Shell where
  text := ⟨fun _ => none, fun _ => "", fun s => s, fun _ => ""⟩
  kindError _ := "not a string"
  search _ pattern := if pattern = "[" then none else some (pattern = "cat")
  sandboxRoot := "/tmp"
  run command _ := ⟨{ command := command, ok := true },⟨[], {}⟩⟩

def bracketArgs : Json := .object [("command", .string "cat a[1]")]

def catPolicy : SecurityPolicy := { bracketPolicy with approvalPatterns := ["cat"] }

theorem policy_fails_closed_cat :
    let ctx : BashContext := ⟨some catPolicy, none, none⟩
    ∃ done skipped, execute bracketShell { generation := "ab12" } bracketArgs ctx = .ok done ∧
      (∀ pattern ∈ catPolicy.forbiddenPatterns,
        Guards bracketShell.search pattern "cat a[1]" → Refused bracketShell done) ∧
      (∀ pattern ∈ catPolicy.approvalPatterns,
        Guards bracketShell.search pattern "cat a[1]" → RanApproved ctx done) ∧
      execute bracketShell { generation := "ab12" } bracketArgs
        (under ctx (compiled bracketShell.search "cat a[1]" catPolicy)) = .ok skipped ∧
      skipped.ran = done.ran ∧ skipped.asked = done.asked :=
  policy_fails_closed (.inl rfl) rfl rfl

theorem contained_pattern_unguarded :
    ¬ ∀ (sh : Shell) (pager : Paging.Pager) (args : Json) (ctx : BashContext)
        (policy : SecurityPolicy) (command : String),
      ((valueOrDefault args "at" "head" : String) = "head" ∨
        (valueOrDefault args "at" "head" : String) = "tail") →
      args.get? "command" = some (.string command) → ctx.security = some policy →
      ∃ done, execute sh pager args ctx = .ok done ∧
        (∀ pattern ∈ policy.forbiddenPatterns, Contains command pattern → Refused sh done) ∧
        (∀ pattern ∈ policy.approvalPatterns, Contains command pattern →
          RanApproved ctx done) := by
  intro h
  obtain ⟨done,hdone,hforbidden,-⟩ := h bracketShell { generation := "ab12" } bracketArgs
    ⟨some bracketPolicy, none, none⟩ bracketPolicy "cat a[1]" (.inl rfl) rfl rfl
  obtain ⟨anchor,hexecute⟩ := @execute_command bracketShell { generation := "ab12" } bracketArgs
    "cat a[1]" (.inl rfl) rfl
  obtain rfl := Except.ok.inj (hdone.symm.trans (hexecute _))
  have hcontains : Contains "cat a[1]" "[" := ⟨"cat a".toList,"1]".toList,rfl⟩
  cases (hforbidden "[" (by decide) hcontains).1

end BashTool

end Tools

end PuCli
