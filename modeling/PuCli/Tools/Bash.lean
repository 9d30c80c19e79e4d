import PuCli.Config.SecurityPolicy
import PuCli.Runtime.Executor
import PuCli.Tools.ToolResult

namespace PuCli

open Json

namespace Tools

inductive Risk where
  | safe
  | neutral
  | dangerous
  | approval
  deriving DecidableEq

structure Assessment where
  risk : Risk
  reason : String := ""

-- std::regex_search, case-insensitive; `none` for a pattern the engine refuses.
abbrev Search := String → String → Option Bool

def kDangerous : List String :=
  ["rm\\s+-rf\\s+/", "sudo\\b", "mkfs", "dd\\s+if=.*of=/dev/sd", ":\\(\\)\\\x7b :\\|:&\\\x7d;:"]

def kSafe : List String :=
  ["ls", "pwd", "cat", "head", "tail", "less", "more", "echo", "date", "whoami", "hostname", "uptime",
    "which", "type", "wc", "sort", "uniq", "cut", "tr", "find .", "grep", "awk", "sed", "diff", "file",
    "stat", "du", "df", "free", "ps", "top -n", "pgrep"]

def matchesAnyPattern (search : Search) (command : String) (patterns : List String) : Bool :=
  patterns.any (fun pattern => (search command pattern).getD false)

def assess (search : Search) (command : String) (policy : Option SecurityPolicy) : Assessment :=
  match kDangerous.find? (fun pattern => (search command pattern).getD false) with
  | some pattern => ⟨.dangerous, "matches dangerous pattern: " ++ pattern⟩
  | none =>
      if (policy.map (fun p => matchesAnyPattern search command p.approvalPatterns)).getD false then
        ⟨.approval, ""⟩
      else ⟨if matchesAnyPattern search command kSafe then .safe else .neutral, ""⟩

structure Control where
  note : String
  onNote : Bool := false

structure BashContext where
  security : Option SecurityPolicy
  control : Option Control
  approval : Option (String → Bool × String)

structure Ran where
  verdict : Exec.Verdict
  captured : Exec.Captured

structure Executed where
  result : String
  pager : Paging.Pager
  ran : Option String := none
  asked : Bool := false
  stopped : Bool := false
  adds : List String := []
  told : List String := []

namespace BashTool

structure Shell where
  text : JsonText
  kindError : Json → String
  search : Search
  sandboxRoot : String
  run : String → Bool → Ran

variable (sh : Shell)

def refuse (pager : Paging.Pager) (error : String) (blocked : Bool) (refusal : Refusal)
    (adds : List String) : Executed :=
  { result := makeToolResultJson sh.text false [] (Utf8.bytesOf error) (-1) blocked refusal []
    pager := pager
    adds := adds }

-- The user's words as a result carries them; an empty note is no note.
def spoken (note : String) : List String := if note = "" then [] else [note]

def beside (adds : List String) : String :=
  String.join (adds.map (fun note => ". The user adds: " ++ note))

def readAt (pager : Paging.Pager) (cursor : Paging.Cursor) (lines : Nat) : Executed :=
  match pager.find cursor.buffer with
  | none => refuse sh pager ("no such page: " ++ cursor.buffer ++
      " is no longer retained. Run the command again to read it.") false .none []
  | some buffer =>
      if buffer.lines ≤ cursor.line then
        refuse sh pager ("cursor is past the end of " ++ cursor.buffer) false .none []
      else { result := pageResult sh.text buffer (.cursor cursor) lines, pager := pager }

def stoppedAdds (ctx : BashContext) (stopped : Bool) : List String :=
  match ctx.control with
  | none => []
  | some control => if stopped then spoken control.note else []

def runAndPage (pager : Paging.Pager) (command : String) (anchor : Paging.Anchor) (lines : Nat)
    (ctx : BashContext) (told : List String) : Executed :=
  let fromEnd := match anchor with
    | .tail => true
    | _ => false
  let ran := sh.run command fromEnd
  let adds := stoppedAdds ctx ran.verdict.stopped
  let verdict := { ran.verdict with error := ran.verdict.error ++ Utf8.bytesOf (beside adds) }
  let stored := pager.store ran.captured verdict (sourceKey command sh.sandboxRoot)
  { result := pageResult sh.text stored.1 anchor lines, pager := stored.2, ran := some command
    stopped := ran.verdict.stopped, adds := adds, told := told }

def pageLines (budget : Paging.Budget) (args : Json) : Nat :=
  let lines := (optionalOrDefault args "limit").getD budget.pageLines
  min (if lines = 0 then budget.pageLines else lines) budget.maxLines

def kNoChannel (policy : Option SecurityPolicy) : String :=
  "Command needs user approval and no approval channel is open. Rework it to avoid: " ++
    joinQuoted ((policy.map SecurityPolicy.approvalPatterns).getD []) ++ "."

def kForbidden (patterns : List String) : String :=
  "Command rejected: contains a forbidden pattern. This sandbox forbids " ++ joinQuoted patterns ++
    ". Rework the command to stay within them."

def kTooLong (policy : SecurityPolicy) : String :=
  "command exceeds maximum allowed length (" ++ toString policy.maxCommandLength ++ ")"

def tooLong (policy : Option SecurityPolicy) (command : String) : Option String :=
  policy.bind (fun p =>
    if 0 < p.maxCommandLength ∧ p.maxCommandLength < command.utf8ByteSize then some (kTooLong p)
    else none)

def forbidden (policy : Option SecurityPolicy) (command : String) : Option String :=
  policy.bind (fun p =>
    if p.forbiddenPatterns ≠ [] ∧ matchesAnyPattern sh.search command p.forbiddenPatterns then
      some (kForbidden p.forbiddenPatterns)
    else none)

def kDenied : String := "Command rejected by the user"

def toldOnAllow (ctx : BashContext) (note : String) : List String :=
  match ctx.control with
  | some control => if control.onNote then spoken note else []
  | none => []

def askAndRun (pager : Paging.Pager) (command : String) (anchor : Paging.Anchor) (lines : Nat)
    (ctx : BashContext) : Executed :=
  match ctx.approval with
  | none => refuse sh pager (kNoChannel ctx.security) true .nobodyToAsk []
  | some ask =>
      let answer := ask command
      let done :=
        if answer.1 then runAndPage sh pager command anchor lines ctx (toldOnAllow ctx answer.2)
        else refuse sh pager (kDenied ++ beside (spoken answer.2)) true .none (spoken answer.2)
      { done with asked := true }

def runChecked (pager : Paging.Pager) (command : String) (anchor : Paging.Anchor) (lines : Nat)
    (ctx : BashContext) : Executed :=
  match tooLong ctx.security command, forbidden sh ctx.security command with
  | some error, _ => refuse sh pager error false .none []
  | none, some error => refuse sh pager error true .none []
  | none, none =>
      let assessment := assess sh.search command ctx.security
      match assessment.risk with
      | .dangerous => refuse sh pager ("Command rejected: " ++ assessment.reason) true .none []
      | .approval => askAndRun sh pager command anchor lines ctx
      | _ => runAndPage sh pager command anchor lines ctx []

def commandOf (args : Json) : Except String String :=
  match args.get? "command" with
  | none => .ok ""
  | some raw =>
      match (FromJson.valueTo raw : Option String) with
      | some command => .ok command
      | none => .error (sh.kindError raw)

def execute (pager : Paging.Pager) (args : Json) (ctx : BashContext) :
    Except String Executed :=
  let place := valueOrDefault args "at" "head"
  let lines := pageLines pager.budget args
  match Paging.Anchor.parse place with
  | none => .ok (refuse sh pager ("at must be 'head', 'tail', or a cursor from page.earlier/" ++
      "page.later, not '" ++ place ++ "'") false .none [])
  | some (.cursor cursor) => .ok (readAt sh pager cursor lines)
  | some anchor => do
      let command ← commandOf sh args
      if command = "" then
        .ok (refuse sh pager "'command' is required unless 'at' names a cursor" false .none [])
      else .ok (runChecked sh pager command anchor lines ctx)

section Runs

variable {sh : Shell} {pager : Paging.Pager} {args : Json} {ctx : BashContext}
  {done : Executed} {command : String}

theorem ran_askAndRun {anchor : Paging.Anchor} {lines : Nat} {ran : String}
    (h : (askAndRun sh pager command anchor lines ctx).ran = some ran) :
    ran = command ∧ ∃ ask, ctx.approval = some ask ∧ (ask command).1 = true := by
  unfold askAndRun at h
  split at h
  · cases h
  · next ask hask =>
      dsimp only at h
      split at h
      · next hyes => exact ⟨(Option.some.inj h).symm,ask,hask,hyes⟩
      · cases h

theorem ran_runChecked {anchor : Paging.Anchor} {lines : Nat} {ran : String}
    (h : (runChecked sh pager command anchor lines ctx).ran = some ran) :
    ran = command ∧ ((assess sh.search command ctx.security).risk = .approval →
      ∃ ask, ctx.approval = some ask ∧ (ask command).1 = true) := by
  unfold runChecked at h
  split at h
  · cases h
  · cases h
  · dsimp only at h
    split at h
    · cases h
    · obtain ⟨hsame,hask⟩ := ran_askAndRun h
      exact ⟨hsame,fun _ => hask⟩
    · next hrisk => exact ⟨(Option.some.inj h).symm,fun hask => absurd hask hrisk⟩

theorem runs_only_allowed {ran : String} (h : execute sh pager args ctx = .ok done)
    (hran : done.ran = some ran) (hrisk : (assess sh.search ran ctx.security).risk = .approval) :
    ∃ ask, ctx.approval = some ask ∧ (ask ran).1 = true := by
  unfold execute at h
  dsimp only at h
  split at h
  · cases h
    cases hran
  · cases h
    unfold readAt at hran
    split at hran
    · cases hran
    · split at hran <;> cases hran
  · cases hc : commandOf sh args with
    | error what =>
        rw [hc] at h
        cases h
    | ok command =>
        rw [hc] at h
        simp only [bind,Except.bind] at h
        split at h
        · cases h
          cases hran
        · cases h
          obtain ⟨rfl,hallowed⟩ := ran_runChecked hran
          exact hallowed hrisk

theorem toldOnAllow_nil (hnote : ∀ control, ctx.control = some control → control.onNote = false)
    (note : String) : toldOnAllow ctx note = [] := by
  unfold toldOnAllow
  split
  · next control hc => simp [hnote control hc]
  · rfl

structure Brought (ctx : BashContext) (answer : Bool × String) (done : Executed) : Prop where
  adds : done.adds = stoppedAdds ctx done.stopped ++
    if done.asked = true ∧ answer.1 = false then spoken answer.2 else []
  told : done.told = []

theorem brought_of_silent {answer : Bool × String} (hadds : done.adds = []) (htold : done.told = [])
    (hstopped : done.stopped = false) (hasked : done.asked = false) : Brought ctx answer done := by
  refine ⟨?_,htold⟩
  rw [hadds,hstopped,hasked]
  unfold stoppedAdds
  split <;> simp

theorem brought_runChecked {answer : Bool × String} {anchor : Paging.Anchor} {lines : Nat}
    (hask : ∀ ask, ctx.approval = some ask → ask command = answer)
    (hnote : ∀ control, ctx.control = some control → control.onNote = false) :
    Brought ctx answer (runChecked sh pager command anchor lines ctx) := by
  unfold runChecked
  split
  · exact brought_of_silent rfl rfl rfl rfl
  · exact brought_of_silent rfl rfl rfl rfl
  · dsimp only
    split
    · exact brought_of_silent rfl rfl rfl rfl
    · unfold askAndRun
      split
      · exact brought_of_silent rfl rfl rfl rfl
      · next ask happ =>
          dsimp only
          rw [hask ask happ]
          by_cases hyes : answer.1 = true
          · rw [if_pos hyes]
            refine ⟨?_,toldOnAllow_nil hnote answer.2⟩
            simp [runAndPage,hyes]
          · rw [if_neg hyes]
            refine ⟨?_,rfl⟩
            simp only [Bool.not_eq_true] at hyes
            unfold stoppedAdds refuse
            split <;> simp [hyes]
    · refine ⟨?_,rfl⟩
      simp [runAndPage]

theorem brought_execute {answer : Bool × String}
    (hask : ∀ ask command, ctx.approval = some ask → ask command = answer)
    (hnote : ∀ control, ctx.control = some control → control.onNote = false)
    (h : execute sh pager args ctx = .ok done) : Brought ctx answer done := by
  unfold execute at h
  dsimp only at h
  split at h
  · cases h
    exact brought_of_silent rfl rfl rfl rfl
  · cases h
    unfold readAt
    split
    · exact brought_of_silent rfl rfl rfl rfl
    · split <;> exact brought_of_silent rfl rfl rfl rfl
  · cases hc : commandOf sh args with
    | error what =>
        rw [hc] at h
        cases h
    | ok command =>
        rw [hc] at h
        simp only [bind,Except.bind] at h
        split at h
        · cases h
          exact brought_of_silent rfl rfl rfl rfl
        · cases h
          exact brought_runChecked (fun ask happ => hask ask command happ) hnote

end Runs

end BashTool

end Tools

end PuCli
