import PuCli.App.PeerMessage
import PuCli.App.RewindRace
import PuCli.Runtime.AnswerText

namespace PuCli

namespace CommandRouter

def commandWord (input : String) : String :=
  String.ofList ((trim input).takeWhile (fun c => c ≠ ' '))

def Leaves (input : String) : Prop :=
  commandWord input = "/exit" ∨ commandWord input = "/quit"

instance (input : String) : Decidable (Leaves input) := inferInstanceAs (Decidable (_ ∨ _))

def Speaks (handled : Handled) : Prop := ∀ ok output, handled.1 = .ok (ok, output) → output ≠ ""

theorem speaks_error (rt : Runtime) (what : String) : Speaks (.error what, rt) := by
  intro ok output h
  cases h

theorem speaks_said {rt : Runtime} {output : String} (h : output ≠ "") : Speaks (said rt output) := by
  intro ok out hs
  obtain ⟨rfl,rfl⟩ := Prod.mk.inj (Except.ok.inj hs)
  exact h

theorem speaks_describeOutcome {ran : Except String Unit × Runtime} {output : String}
    (h : output ≠ "") : Speaks (describeOutcome ran output) := by
  unfold describeOutcome
  split
  · exact speaks_said h
  · exact speaks_said (by simp [describeError,String.append_eq_empty_iff])

theorem speaks_adoptBackend (site : Site) (rt : Runtime) (name model : String)
    (host : Option String) : Speaks (adoptBackend site rt name model host) := by
  unfold adoptBackend
  split
  · exact speaks_said (by simp [String.append_eq_empty_iff])
  · exact speaks_describeOutcome (by simp [String.append_eq_empty_iff])

theorem speaks_handleBackend (site : Site) (rt : Runtime) (args : List String) :
    Speaks (handleBackend site rt args) := by
  unfold handleBackend
  split
  · split
    · exact speaks_error _ _
    · exact speaks_said (by simp [String.append_eq_empty_iff])
  · split
    · exact speaks_describeOutcome (by simp [String.append_eq_empty_iff])
    · split
      · exact speaks_said (by simp [formatUsage])
      · exact speaks_adoptBackend _ _ _ _ _
      · exact speaks_adoptBackend _ _ _ _ _
      · exact speaks_said (by simp)

theorem speaks_reportModels (site : Site) (rt : Runtime) (cfg : Backend) :
    Speaks (reportModels site rt cfg) := by
  unfold reportModels
  split
  · exact speaks_said (by simp [describeError,String.append_eq_empty_iff])
  · refine speaks_said ?_
    unfold formatModelList
    split <;> simp [String.append_eq_empty_iff]

theorem speaks_handleModels (site : Site) (rt : Runtime) (args : List String) :
    Speaks (handleModels site rt args) := by
  unfold handleModels
  split
  · split
    · exact speaks_error _ _
    · exact speaks_reportModels _ _ _
  · split
    · exact speaks_said (by simp [String.append_eq_empty_iff])
    · exact speaks_reportModels _ _ _

theorem speaks_handleAgents (rt : Runtime) : Speaks (handleAgents rt) := by
  refine speaks_said ?_
  unfold formatAgentTable
  split
  · simp
  · simp [String.append_eq_empty_iff]

theorem speaks_handleRewind (rt : Runtime) (args : List String) : Speaks (handleRewind rt args) := by
  unfold handleRewind
  split
  · exact speaks_said (by simp [formatUsage])
  · split
    · exact speaks_said (by simp)
    · split
      · exact speaks_said (by simp [describeError,String.append_eq_empty_iff])
      · exact speaks_said (by simp [String.append_eq_empty_iff])
      · exact speaks_said (by simp [String.append_eq_empty_iff])

theorem speaks_reportThinking (host : Host) (rt : Runtime) {output : String → String}
    (h : ∀ level, output level ≠ "") : Speaks (reportThinking host rt output) := by
  unfold reportThinking
  split
  · exact speaks_error _ _
  · exact speaks_said (h _)

theorem speaks_changeThinking (host : Host) (rt : Runtime) (level : Option ThinkingLevel)
    {output : String → String} (h : ∀ level, output level ≠ "") :
    Speaks (changeThinking host rt level output) := by
  unfold changeThinking
  split
  · exact speaks_error _ _
  · exact speaks_reportThinking _ _ h

theorem speaks_handleThinking (host : Host) (rt : Runtime) (args : List String) :
    Speaks (handleThinking host rt args) := by
  unfold handleThinking
  split
  · exact speaks_reportThinking _ _ (by intro level; simp [String.append_eq_empty_iff])
  · split
    · exact speaks_changeThinking _ _ _ (by intro level; simp [String.append_eq_empty_iff])
    · split
      · exact speaks_said (by simp [String.append_eq_empty_iff])
      · exact speaks_changeThinking _ _ _ (by intro level; simp [String.append_eq_empty_iff])
  · exact speaks_said (by simp [formatUsage])

theorem speaks_run (site : Site) (rt : Runtime) (args : List String) (command : Command) :
    Speaks (run site rt args command) := by
  cases command with
  | help => exact speaks_said (fun he => absurd (String.append_eq_empty_iff.mp he).2 (by decide))
  | backend => exact speaks_handleBackend site rt args
  | agents => exact speaks_handleAgents rt
  | models => exact speaks_handleModels site rt args
  | clear => exact speaks_said (by simp)
  | rewind => exact speaks_handleRewind rt args
  | thinking => exact speaks_handleThinking site.host rt args

theorem route_silent_iff {site : Site} {rt : Runtime} {input output : String}
    (h : (route site rt input).1 = .ok (true, output)) : output = "" ↔ Leaves input := by
  unfold route at h
  dsimp only at h
  split at h
  · simp at h
  · split at h
    · next command hfind =>
        have hspeaks := speaks_run site rt _ command true output h
        refine ⟨fun he => absurd he hspeaks,?_⟩
        intro hleaves
        have hname := List.find?_some hfind
        simp only [decide_eq_true_eq] at hname
        unfold Leaves commandWord at hleaves
        rw [← hname] at hleaves
        cases command <;> simp [Command.name] at hleaves
    · split at h
      · next hword =>
          have ho := (Prod.mk.inj (Except.ok.inj h)).2
          exact ⟨fun _ => hword,fun _ => ho.symm⟩
      · simp at h

end CommandRouter

def MessageNode.words (n : MessageNode) : Option String :=
  match n.payload with
  | .assistant p => some p.content
  | _ => none

namespace Executing

variable {ρ : Type} {host : Host} {turn : Turn ρ} {st : Executing ρ} {script : Script ρ}
variable {input : String}

theorem execute_returned (h : (execute host turn script input st).1 = .returned) :
    (runToolLoop host turn script.rounds {} (st.append host (question input st.peerOrigin))).1 =
        .returned ∧
      (execute host turn script input st).2 =
        ((runToolLoop host turn script.rounds {}
          (st.append host (question input st.peerOrigin))).2.pass turn script.leaving).keepAnswer
            host := by
  unfold execute at h ⊢
  dsimp only at h ⊢
  split at h
  · next hs => exact ⟨by rw [hs],by rw [hs]⟩
  · next hother =>
      refine (hother (runToolLoop host turn script.rounds {}
        (st.append host (question input st.peerOrigin))).2 ?_).elim
      rw [← h]

theorem keepAnswer_keeps (st : Executing ρ) :
    (st.keepAnswer host).result = st.result ∧ (st.keepAnswer host).frames = st.frames := by
  unfold keepAnswer
  split <;> exact ⟨rfl,rfl⟩

theorem heard_execute (h : (execute host turn script input st).1 = .returned)
    (he : (execute host turn script input st).2.result.hasError = false) :
    (⟨(execute host turn script input st).2.result.content,
        chunkText (execute host turn script input st).2.frames⟩ : Heard) =
      (calledRounds turn.token turn.budget script.rounds {} st.cancelled
        st.result.toolCallCount).foldl Heard.next ⟨st.result.content, chunkText st.frames⟩ := by
  obtain ⟨hret,heq⟩ := execute_returned h
  rw [heq,(keepAnswer_keeps _).1] at he
  rw [heq,(keepAnswer_keeps _).1,(keepAnswer_keeps _).2]
  rw [result_pass] at he
  rw [result_pass,frames_pass]
  exact heard_runToolLoop script.rounds {} hret he

theorem words_execute (hk : turn.Keeps) (hr : Ready host st)
    (h : (execute host turn script input st).1 = .returned)
    (he : (execute host turn script input st).2.result.hasError = false)
    (hc : (execute host turn script input st).2.result.content ≠ "") :
    (execute host turn script input st).2.chain.getLast?.bind MessageNode.words =
      some (execute host turn script input st).2.result.content := by
  obtain ⟨_,heq⟩ := execute_returned h
  have hsteady := @steady_ready ρ host turn hk
  have hready := hsteady.pass script.leaving
    (hsteady.runToolLoop script.rounds {} (hr.append (question input st.peerOrigin)))
  rw [heq,(keepAnswer_keeps _).1] at he hc ⊢
  generalize (runToolLoop host turn script.rounds {} (st.append host
    (question input st.peerOrigin))).2.pass turn script.leaving = s at he hc hready ⊢
  rw [keepAnswer,if_neg (by simp [he,hc]),chain_append hready,List.getLast?_concat]
  rfl

end Executing

namespace SessionRunner

variable {ρ : Type}

def EndsDone (run : JobRun) : Prop := ∃ model, run.record.closing.getLast? = some (.done model)

structure AnswerSent (p : Processed ρ) (run : JobRun) : Prop where
  chunks : chunkText run.record.last = p.result.content
  kept : p.isCommand = false → p.result.content ≠ "" →
    run.runtime.current.conversation.chain.getLast?.bind MessageNode.words = some p.result.content

theorem endsDone_report {job : Job} {ending : Ending} {p : Processed ρ}
    (h : EndsDone (report job ending p)) :
    p.ended = true ∧ p.result.hasError = false ∧
      (report job ending p).record.last = (talkFrames p).2 ∧
      (report job ending p).runtime = p.runtime := by
  obtain ⟨model,h⟩ := h
  unfold report at h ⊢
  dsimp only at h ⊢
  split at h
  · simp at h
  · next hended =>
      rw [if_neg hended]
      split at h
      · simp at h
      · next hhere =>
          rw [if_neg hhere]
          refine ⟨by simpa using hended,?_,rfl,rfl⟩
          have hend : endFrame p.result = .done model := by
            simpa [closingFrames] using h
          unfold endFrame at hend
          split at hend
          · cases hend
          · next herr => simpa using herr

theorem endsDone_runJob {site : Site} {serve : Conversation → ρ → Conversation}
    {script : Script ρ} {ending : Ending} {job : Job} {rt : Runtime}
    (h : EndsDone (runJob site serve script ending job rt)) :
    runJob site serve script ending job rt =
      report job ending (rt.processInput site true serve script job.text job.peerOrigin) := by
  unfold runJob at h ⊢
  split
  · next hgone =>
      rw [if_pos hgone] at h
      obtain ⟨model,h⟩ := h
      simp at h
  · rfl

end SessionRunner

namespace Runtime

variable {ρ : Type} {site : Site} {serve : Conversation → ρ → Conversation} {script : Script ρ}
variable {input origin : String} {rt : Runtime}

def Sent (rt : Runtime) (script : Script ρ) (input : String) : Prop :=
  if isCommand input then CommandRouter.Leaves input
  else Told (calledRounds true rt.toolCallBudget.toInt script.rounds {} false 0)

instance (rt : Runtime) (script : Script ρ) (input : String) : Decidable (Sent rt script input) :=
  if h : isCommand input then decidable_of_iff (CommandRouter.Leaves input) (by simp [Sent,h])
  else decidable_of_iff (Told (calledRounds true rt.toolCallBudget.toInt script.rounds {} false 0))
    (by simp [Sent,h])

theorem runCommand_sent_iff
    (he : (runCommand site rt input : Processed ρ).result.hasError = false) :
    "" = (runCommand site rt input : Processed ρ).result.content ↔ CommandRouter.Leaves input := by
  unfold runCommand at he ⊢
  split at he
  · simp [failedWith] at he
  · next ok output rt' hr =>
      obtain rfl : ok = true := by simpa using he
      rw [eq_comm]
      exact CommandRouter.route_silent_iff (by rw [hr])

theorem runCommand_frames :
    (runCommand site rt input : Processed ρ).isCommand = true ∧
      SessionRunner.talkFrames (runCommand site rt input : Processed ρ) = ([], []) := by
  unfold runCommand
  split <;> exact ⟨rfl,rfl⟩

def talking (site : Site) (serve : Conversation → ρ → Conversation) (script : Script ρ)
    (input origin : String) (rt : Runtime) : Exit × Executing ρ :=
  Executing.execute site.host (rt.turn true serve) script input
    (defaultSession { rt with peerOrigin := origin }).executing

theorem runTurn_talked {backend : Backend} {turn : Turn ρ}
    (hended : (runTurn site.host rt backend turn script input).ended = true)
    (he : (runTurn site.host rt backend turn script input).result.hasError = false) :
    (Executing.execute site.host turn script input rt.executing).1 = .returned ∧
      (runTurn site.host rt backend turn script input).result =
        (Executing.execute site.host turn script input rt.executing).2.result ∧
      (runTurn site.host rt backend turn script input).talk =
        some (Executing.execute site.host turn script input rt.executing).2 ∧
      (runTurn site.host rt backend turn script input).isCommand = false ∧
      (runTurn site.host rt backend turn script input).runtime.current.conversation =
        (Executing.execute site.host turn script input rt.executing).2.conversation := by
  unfold runTurn at hended he ⊢
  cases hx : Executing.execute site.host turn script input rt.executing with
  | mk exit st =>
      rw [hx] at hended he
      cases exit with
      | returned => exact ⟨rfl,rfl,rfl,rfl,(recordTurnUsage_keeps _ _ _).1⟩
      | threw what => simp [failedWith] at he
      | running => simp at hended

theorem processInput_talked (hc : isCommand input = false)
    (hended : (processInput site true serve script input origin rt).ended = true)
    (he : (processInput site true serve script input origin rt).result.hasError = false) :
    (talking site serve script input origin rt).1 = .returned ∧
      (processInput site true serve script input origin rt).result =
        (talking site serve script input origin rt).2.result ∧
      (processInput site true serve script input origin rt).talk =
        some (talking site serve script input origin rt).2 ∧
      (processInput site true serve script input origin rt).isCommand = false ∧
      (processInput site true serve script input origin rt).runtime.current.conversation =
        (talking site serve script input origin rt).2.conversation := by
  cases hb : (defaultSession { rt with peerOrigin := origin }).readyBackend site.host with
  | error what =>
      have hp : processInput site true serve script input origin rt =
          { runtime := defaultSession { rt with peerOrigin := origin }, result := failedWith what } := by
        simp [processInput,hc,hb]
      rw [hp] at he
      simp [failedWith] at he
  | ok backend =>
      have hp : processInput site true serve script input origin rt =
          runTurn site.host (defaultSession { rt with peerOrigin := origin }) backend
            (rt.turn true serve) script input := by
        simp [processInput,hc,hb]
        rfl
      rw [hp] at hended he ⊢
      exact runTurn_talked hended he

end Runtime

namespace SessionRunner

open Executing

theorem page_sent_kept_answer_iff {site : Site} {script : Script Int} {ending : Ending} {job : Job}
    {rt : Runtime} (hbuilt : rt.current.conversation.graph.Built)
    (hids : rt.current.conversation.graph.FreshSupply (fun i => site.host.newId (rt.drawn + i)))
    (hdone : EndsDone (runJob site serveRewind script ending job rt)) :
    AnswerSent (rt.processInput site true serveRewind script job.text job.peerOrigin)
        (runJob site serveRewind script ending job rt) ↔
      rt.Sent script job.text := by
  have hrun := endsDone_runJob hdone
  rw [hrun] at hdone ⊢
  obtain ⟨hended,he,hlast,hruntime⟩ := endsDone_report hdone
  cases hc : Runtime.isCommand job.text with
  | true =>
      have hp : rt.processInput site true serveRewind script job.text job.peerOrigin =
          Runtime.runCommand site (Runtime.defaultSession { rt with peerOrigin := job.peerOrigin })
            job.text := by
        simp [Runtime.processInput,hc]
      rw [hp] at he hlast ⊢
      have hframes := @Runtime.runCommand_frames Int site job.text
        (Runtime.defaultSession { rt with peerOrigin := job.peerOrigin })
      have hiff := Runtime.runCommand_sent_iff he
      rw [Runtime.Sent,if_pos hc,← hiff]
      constructor
      · intro hsent
        have hchunks := hsent.chunks
        rw [hlast,hframes.2] at hchunks
        exact hchunks
      · intro hempty
        refine ⟨by rw [hlast,hframes.2]; exact hempty,?_⟩
        intro hnot
        rw [hframes.1] at hnot
        cases hnot
  | false =>
      obtain ⟨hret,hresult,htalk,_,hconv⟩ := Runtime.processInput_talked hc hended he
      rw [hresult] at he
      have hready : Ready site.host
          ((Runtime.defaultSession { rt with peerOrigin := job.peerOrigin }).executing :
            Executing Int) := ⟨hbuilt.sound,hids⟩
      have hheard := heard_execute hret he
      have htold := @told_iff Int
        (calledRounds true rt.toolCallBudget.toInt script.rounds {} false 0)
        (fun _ _ h => answer_init_calledRounds h)
      have hframes : (talkFrames (rt.processInput site true serveRewind script job.text
          job.peerOrigin)).2 = (Runtime.talking site serveRewind script job.text job.peerOrigin
            rt).2.frames := by
        rw [talkFrames,htalk]
      have hcontent := congrArg Heard.content hheard
      have hchunks := congrArg Heard.chunks hheard
      dsimp only at hcontent hchunks
      rw [Runtime.Sent,hc,if_neg (by simp),← htold]
      constructor
      · intro hsent
        have hsaid := hsent.chunks
        rw [hlast,hframes,hresult] at hsaid
        exact (hchunks.symm.trans hsaid).trans hcontent
      · intro heq
        refine ⟨?_,?_⟩
        · rw [hlast,hframes,hresult]
          exact (hchunks.trans heq).trans hcontent.symm
        · intro _ hne
          rw [hresult] at hne
          rw [hruntime,hconv,hresult]
          exact words_execute (keeps_serveRewind rfl) hready hret he hne

def replying (reply : Provided) : Script Int where
  rounds := [{ reply := reply, steps := fun _ => { answer := ⟨.ok "", ⟨.ok "", .ok ""⟩⟩ } }]

def typed (text : String) : Job := { text := text, conn := true, turnId := "t" }

def typedRun (text : String) (reply : Provided) : JobRun :=
  runJob Runtime.boardSite serveRewind (replying reply) {} (typed text) Runtime.servingC

def typedInput (text : String) (reply : Provided) : Processed Int :=
  Runtime.servingC.processInput Runtime.boardSite true serveRewind (replying reply) text ""

theorem page_sent_kept_answer_streamed :
    EndsDone (typedRun "hi" (.streamed [.content "hel", .content "lo"] "" {})) ∧
      (typedInput "hi" (.streamed [.content "hel", .content "lo"] "" {})).result.content = "hello" ∧
      AnswerSent (typedInput "hi" (.streamed [.content "hel", .content "lo"] "" {}))
        (typedRun "hi" (.streamed [.content "hel", .content "lo"] "" {})) := by
  have hdone : EndsDone (typedRun "hi" (.streamed [.content "hel", .content "lo"] "" {})) :=
    ⟨"",by decide⟩
  refine ⟨hdone,by decide,?_⟩
  refine (@page_sent_kept_answer_iff Runtime.boardSite _ {} (typed "hi") Runtime.servingC
    ⟨_,.empty,.refl⟩ (Runtime.tally_fresh_empty 0) hdone).mpr ?_
  decide

theorem page_never_sent_command_output :
    EndsDone (typedRun "/clear" (.whole {})) ∧
      (typedRun "/clear" (.whole {})).record.last = [] ∧
      (typedInput "/clear" (.whole {})).result.content = "Conversation history cleared." ∧
      EndsDone (typedRun "hi" (.whole { content := "hello" })) ∧
      (typedRun "hi" (.whole { content := "hello" })).record.last = [] ∧
      (typedInput "hi" (.whole { content := "hello" })).result.content = "hello" ∧
      ¬ AnswerSent (typedInput "/clear" (.whole {})) (typedRun "/clear" (.whole {})) ∧
      ¬ AnswerSent (typedInput "hi" (.whole { content := "hello" }))
        (typedRun "hi" (.whole { content := "hello" })) := by
  refine ⟨⟨"",by decide⟩,by decide,by decide,⟨"",by decide⟩,by decide,by decide,?_,?_⟩
  · intro hsent
    exact absurd hsent.chunks (by decide)
  · intro hsent
    exact absurd hsent.chunks (by decide)

end SessionRunner

end PuCli
