import PuCli.Llm.StreamingProvider

namespace PuCli

open Sse OpenAIProtocol StreamingProvider InPlace

namespace OpenAIProvider

def resetAccumulators (r : Reply) : Reply := { seenFields := r.seenFields }

def flushCall (text : JsonText) (acc : ToolCallAccumulator) : InPlace String Reply Unit := do
  let r ← get
  match settle text r.finishReason acc with
  | .ok call => modify (fun r => { r with stream := r.stream.appendToolCall call })
  | .error what => throw what

def flushCalls (text : JsonText) : List ToolCallAccumulator → InPlace String Reply Unit
  | [] => modify (fun r => { r with pendingTools := [] })
  | acc :: accs => do
      flushCall text acc
      flushCalls text accs

def flushPending (text : JsonText) : InPlace String Reply Unit := do
  let r ← get
  flushCalls text r.pendingTools

def readFrame (config : Config) (r : Reply) (j : Json) : Reply :=
  handleModel (handleUsage config
    ((((j.get? "choices").getD .null).asArray).foldl (handleChoice config.shape) r) j) j

def noteFields (r : Reply) (j : Json) : Reply :=
  let r := noteUnreadFields r j kReadKeys
  { r with seenFields := noteFrame r.seenFields j }

-- `HandleJsonToken` on the fields themselves: what it wrote before it threw stays.
def handleToken (text : JsonText) (config : Config) (j : Json) : InPlace String Reply Unit := do
  modify (noteFields · j)
  match j.get? "error" with
  | some error => throw ("provider error: " ++ streamErrorDetail text error)
  | none =>
      match isFinal text j with
      | .error what => throw what
      | .ok final =>
          modify (readFrame config · j)
          if final then flushPending text else pure ()

def parseData (text : JsonText) (config : Config) (data : List UInt8) : InPlace String Reply Unit :=
  if data.isEmpty then pure ()
  else match parseBytes text data with
    | some j => handleToken text config j
    | none => pure ()

def closeReply (config : Config) (r : Reply) : Reply :=
  { r with
    missingFields := absentShapeFields config.shape r.seenFields true
    stream := { r.stream with content := r.stream.finishContent r.refusal } }

def finishReply (text : JsonText) (config : Config) : InPlace String Reply Unit := do
  flushPending text
  modify (closeReply config)

def provider (text : JsonText) (config : Config) : Provider where
  framesBareLines := false
  resetAccumulators := resetAccumulators
  parseData := parseData text config
  finishStream := finishReply text config

-- The documents read up to the one that threw.
def readUntil (text : JsonText) (config : Config) : Reply → List Json → List Json
  | _, [] => []
  | r, j :: js =>
      match handleJsonToken text config r j with
      | .ok r => j :: readUntil text config r js
      | .error _ => [j]

variable {text : JsonText} {config : Config} {r : Reply} {j : Json} {js : List Json}

theorem provider_reads (text : JsonText) (config : Config) :
    Reads (provider text config) (parseBytes text) (handleToken text config) := by
  intro data hdata
  have hne : data.isEmpty = false := by
    simp only [carriesData,decide_eq_true_eq] at hdata
    simpa using hdata.1
  dsimp only [provider,parseData]
  rw [hne]
  rfl

theorem ran_flushCalls (accs : List ToolCallAccumulator) (r : Reply) :
    match accs.mapM (settle text r.finishReason) with
    | .ok calls => ran (flushCalls text accs) r =
        (.ok (),{ r with stream := calls.foldl Stream.appendToolCall r.stream, pendingTools := [] })
    | .error what => (ran (flushCalls text accs) r).1 = .error what ∧
        (ran (flushCalls text accs) r).2.seenFields = r.seenFields := by
  induction accs generalizing r with
  | nil => rfl
  | cons acc accs ih =>
      rw [List.mapM_cons,flushCalls,ran_bind,flushCall,ran_bind_get]
      cases settle text r.finishReason acc with
      | error what => exact ⟨rfl,rfl⟩
      | ok call =>
          rw [ran_modify,resumed]
          specialize ih { r with stream := r.stream.appendToolCall call }
          dsimp only at ih
          dsimp only [bind,Except.bind] at ih ⊢
          cases hcalls : accs.mapM (settle text r.finishReason) with
          | error what =>
              rw [hcalls] at ih
              exact ih
          | ok calls =>
              rw [hcalls] at ih
              exact ih

theorem flushPendingToolCalls_eq (text : JsonText) (r : Reply) : flushPendingToolCalls text r =
    match r.pendingTools.mapM (settle text r.finishReason) with
    | .ok calls => .ok
        { r with stream := calls.foldl Stream.appendToolCall r.stream, pendingTools := [] }
    | .error what => .error what := by
  rw [flushPendingToolCalls]
  cases r.pendingTools.mapM (settle text r.finishReason) <;> rfl

theorem ran_flushPending (r : Reply) :
    match flushPendingToolCalls text r with
    | .ok r' => ran (flushPending text) r = (.ok (),r') ∧ r'.seenFields = r.seenFields
    | .error what => (ran (flushPending text) r).1 = .error what ∧
        (ran (flushPending text) r).2.seenFields = r.seenFields := by
  have h := @ran_flushCalls text r.pendingTools r
  rw [flushPendingToolCalls_eq,flushPending,ran_bind_get]
  cases hcalls : r.pendingTools.mapM (settle text r.finishReason) with
  | ok calls =>
      rw [hcalls] at h
      exact ⟨h,rfl⟩
  | error what =>
      rw [hcalls] at h
      exact h

def withSeen (r : Reply) (seen : List String) : Reply := { r with seenFields := seen }

theorem flushPending_withSeen (r : Reply) (seen : List String) :
    flushPendingToolCalls text (withSeen r seen) =
      (flushPendingToolCalls text r).map (withSeen · seen) := by
  rw [flushPendingToolCalls_eq,flushPendingToolCalls_eq]
  dsimp only [withSeen]
  cases r.pendingTools.mapM (settle text r.finishReason) <;> rfl

def claimReply (index : Int32) (r : Reply) : Reply :=
  if r.replyChoiceIndex < 0 then { r with replyChoiceIndex := index } else r

def readChoice (shape : ResponseShape) (choice : Json) (r : Reply) : Reply :=
  let r := match pieceOf choice with
    | some (.object members) => handlePiece shape r (.object members)
    | _ => r
  match stringAt choice shape.finishReasonField with
  | some reason => { r with finishReason := reason }
  | none => r

theorem handleChoice_eq (shape : ResponseShape) (r : Reply) (choice : Json) :
    handleChoice shape r choice =
      if ¬ choice.isObject then r
      else if Json.valueOrDefault choice "index" 0 ≠
          (claimReply (Json.valueOrDefault choice "index" 0) r).replyChoiceIndex then
        { claimReply (Json.valueOrDefault choice "index" 0) r with reportedExtraChoice := true }
      else readChoice shape choice (claimReply (Json.valueOrDefault choice "index" 0) r) := rfl

theorem claimReply_withSeen (index : Int32) (r : Reply) (seen : List String) :
    claimReply index (withSeen r seen) = withSeen (claimReply index r) seen := by
  rw [claimReply,claimReply,apply_ite (withSeen · seen)]
  rfl

theorem readChoice_withSeen (shape : ResponseShape) (choice : Json) (r : Reply)
    (seen : List String) :
    readChoice shape choice (withSeen r seen) = withSeen (readChoice shape choice r) seen := by
  rw [readChoice,readChoice]
  cases pieceOf choice with
  | none => cases stringAt choice shape.finishReasonField <;> rfl
  | some piece => cases piece <;> cases stringAt choice shape.finishReasonField <;> rfl

theorem handleChoice_withSeen (shape : ResponseShape) (seen : List String) (r : Reply)
    (choice : Json) : handleChoice shape (withSeen r seen) choice =
      withSeen (handleChoice shape r choice) seen := by
  rw [handleChoice_eq,handleChoice_eq,claimReply_withSeen,readChoice_withSeen,
    apply_ite (withSeen · seen),apply_ite (withSeen · seen)]
  rfl

theorem foldl_handleChoice_withSeen (shape : ResponseShape) (seen : List String)
    (choices : List Json) (r : Reply) : choices.foldl (handleChoice shape) (withSeen r seen) =
      withSeen (choices.foldl (handleChoice shape) r) seen := by
  induction choices generalizing r with
  | nil => rfl
  | cons choice choices ih => rw [List.foldl_cons,List.foldl_cons,handleChoice_withSeen,ih]

theorem readFrame_withSeen (config : Config) (r : Reply) (seen : List String) (j : Json) :
    readFrame config (withSeen r seen) j = withSeen (readFrame config r j) seen := by
  rw [readFrame,readFrame,foldl_handleChoice_withSeen]
  generalize (((j.get? "choices").getD .null).asArray).foldl (handleChoice config.shape) r = r'
  have husage : handleUsage config (withSeen r' seen) j = withSeen (handleUsage config r' j) seen := by
    rw [handleUsage,handleUsage]
    cases (if config.shape.usageField = "" then none else j.get? config.shape.usageField) with
    | none => rfl
    | some usage => cases usage <;> rfl
  rw [husage,handleModel,handleModel]
  cases j.get? "model" with
  | none => rfl
  | some model => cases model <;> rfl

theorem seenFields_readFrame (config : Config) (r : Reply) (j : Json) :
    (readFrame config r j).seenFields = r.seenFields := by
  have h : readFrame config r j = withSeen (readFrame config r j) r.seenFields :=
    readFrame_withSeen config r r.seenFields j
  rw [h]
  rfl

theorem noteFields_withSeen (r : Reply) (seen : List String) (j : Json) :
    noteFields (withSeen r seen) j = withSeen (noteFields r j) (noteFrame seen j) := by
  have hnote : noteUnreadFields (withSeen r seen) j kReadKeys =
      withSeen (noteUnreadFields r j kReadKeys) seen := by
    cases hframe : r.inspectedFrame <;> cases j <;> simp [noteUnreadFields,withSeen,hframe]
  rw [noteFields,noteFields,hnote]
  rfl

theorem seenFields_noteFields (r : Reply) (j : Json) :
    (noteFields r j).seenFields = noteFrame r.seenFields j :=
  congrArg Reply.seenFields (noteFields_withSeen r r.seenFields j)

theorem handleJsonToken_eq (text : JsonText) (config : Config) (r : Reply) (j : Json) :
    handleJsonToken text config r j = match j.get? "error" with
      | some error => .error ("provider error: " ++ streamErrorDetail text error)
      | none => match isFinal text j with
        | .error what => .error what
        | .ok final =>
            if final then flushPendingToolCalls text (readFrame config (noteFields r j) j)
            else .ok (readFrame config (noteFields r j) j) := by
  rw [handleJsonToken]
  cases j.get? "error" with
  | some error => rfl
  | none => cases isFinal text j <;> rfl

theorem ran_handleToken (r : Reply) (j : Json) :
    match handleJsonToken text config r j with
    | .ok r' => ran (handleToken text config j) r = (.ok (),r') ∧
        r'.seenFields = noteFrame r.seenFields j
    | .error what => (ran (handleToken text config j) r).1 = .error what ∧
        (ran (handleToken text config j) r).2.seenFields = noteFrame r.seenFields j := by
  rw [handleJsonToken_eq,handleToken,ran_bind_modify]
  cases j.get? "error" with
  | some error => exact ⟨rfl,seenFields_noteFields r j⟩
  | none =>
      cases isFinal text j with
      | error what => exact ⟨rfl,seenFields_noteFields r j⟩
      | ok final =>
          dsimp only
          rw [ran_bind_modify,← seenFields_noteFields r j,
            ← seenFields_readFrame config (noteFields r j) j]
          cases final with
          | false => exact ⟨rfl,rfl⟩
          | true => exact ran_flushPending (readFrame config (noteFields r j) j)

theorem handleJsonToken_withSeen (r : Reply) (seen : List String) (j : Json) :
    handleJsonToken text config (withSeen r seen) j =
      (handleJsonToken text config r j).map (withSeen · (noteFrame seen j)) := by
  rw [handleJsonToken_eq,handleJsonToken_eq,noteFields_withSeen,readFrame_withSeen]
  cases j.get? "error" with
  | some error => rfl
  | none =>
      cases isFinal text j with
      | error what => rfl
      | ok final =>
          cases final with
          | false => rfl
          | true => exact flushPending_withSeen (readFrame config (noteFields r j) j) (noteFrame seen j)

theorem foldlM_withSeen (js : List Json) (r : Reply) (seen : List String) :
    js.foldlM (handleJsonToken text config) (withSeen r seen) =
      (js.foldlM (handleJsonToken text config) r).map
        (withSeen · (js.foldl noteFrame seen)) := by
  induction js generalizing r seen with
  | nil => rfl
  | cons j js ih =>
      rw [List.foldlM_cons,List.foldlM_cons,handleJsonToken_withSeen]
      cases handleJsonToken text config r j with
      | error what => rfl
      | ok r' => exact ih r' (noteFrame seen j)

theorem readUntil_withSeen (js : List Json) (r : Reply) (seen : List String) :
    readUntil text config (withSeen r seen) js = readUntil text config r js := by
  induction js generalizing r seen with
  | nil => rfl
  | cons j js ih =>
      rw [readUntil,readUntil,handleJsonToken_withSeen]
      cases handleJsonToken text config r j with
      | error what => rfl
      | ok r' => exact congrArg (j :: ·) (ih r' (noteFrame seen j))

theorem ran_readDocuments (js : List Json) (r : Reply) :
    match js.foldlM (handleJsonToken text config) r with
    | .ok r' => ran (readDocuments (handleToken text config) js) r = (.ok (),r') ∧
        r'.seenFields = js.foldl noteFrame r.seenFields ∧ readUntil text config r js = js
    | .error what => (ran (readDocuments (handleToken text config) js) r).1 = .error what ∧
        (ran (readDocuments (handleToken text config) js) r).2.seenFields =
          (readUntil text config r js).foldl noteFrame r.seenFields := by
  induction js generalizing r with
  | nil => exact ⟨rfl,rfl,rfl⟩
  | cons j js ih =>
      have hstep := @ran_handleToken text config r j
      rw [List.foldlM_cons,readDocuments,readUntil,List.foldl_cons]
      cases htoken : handleJsonToken text config r j with
      | error what =>
          rw [htoken] at hstep
          obtain ⟨hresult,hseen⟩ := hstep
          rw [ran_bind_error (Prod.ext hresult rfl)]
          exact ⟨rfl,hseen⟩
      | ok r' =>
          rw [htoken] at hstep
          obtain ⟨hran,hseen⟩ := hstep
          specialize ih r'
          rw [hseen] at ih
          rw [ran_bind_ok hran]
          dsimp only [bind,Except.bind]
          rw [List.foldl_cons]
          cases hrest : js.foldlM (handleJsonToken text config) r' with
          | error what =>
              rw [hrest] at ih
              exact ih
          | ok r'' =>
              rw [hrest] at ih
              obtain ⟨hrun,hnoted,huntil⟩ := ih
              exact ⟨hrun,hnoted,congrArg (j :: ·) huntil⟩

end OpenAIProvider

end PuCli
