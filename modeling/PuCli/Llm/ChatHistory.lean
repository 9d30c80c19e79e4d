import PuCli.Llm.OpenAIProvider

namespace PuCli

open Sse OpenAIProtocol StreamingProvider InPlace

namespace OpenAIProvider

def framesOf (text : JsonText) (config : Config) (x : Exchange) : List Json :=
  documents (parseBytes text) (reportsOf text (provider text config) x)

def answerTo (text : JsonText) (config : Config) (r : Reply) (x : Exchange) :
    Except String Answer :=
  (ran (chat text (provider text config) x) r).1

def leaves (text : JsonText) (config : Config) (r : Reply) (x : Exchange) : Reply :=
  (ran (chat text (provider text config) x) r).2

-- The fields an exchange notes, read up to the frame it broke off at.
def notedBy (text : JsonText) (config : Config) (seen : List String) (x : Exchange) : List String :=
  (readUntil text config {} (framesOf text config x)).foldl noteFrame seen

-- The fields that exchanges which broke off have left noted since the last one that was answered.
def carried (text : JsonText) (config : Config) (xs : List Exchange) : List String :=
  xs.foldl (fun seen x =>
    match answerTo text config {} x with
    | .ok _ => []
    | .error _ => notedBy text config seen x) []

def noting (config : Config) (seen : List String) (a : Answer) : Answer :=
  { a with seenFields := seen, missingFields := absentShapeFields config.shape seen true }

-- What a provider makes of the documents it was sent, as the protocol reads them.
def closing (text : JsonText) (config : Config) (x : Exchange) (r : Reply) : Except String Answer :=
  match x.failure with
  | some what => .error what
  | none => (flushPendingToolCalls text r).map (fun r => answerOf (closeReply config r))

variable {text : JsonText} {config : Config} {r : Reply} {x : Exchange} {xs : List Exchange}

theorem ran_exchange (x : Exchange) (r : Reply) :
    ran (StreamingProvider.chat text (provider text config) x) r =
      ran (readDocuments (handleToken text config) (framesOf text config x) >>= fun _ =>
        ending (provider text config) x) (resetAccumulators r) :=
  ran_chat (provider_reads text config) x r

theorem ran_ending (r : Reply) :
    (ran (ending (provider text config) x) r).1 = closing text config x r ∧
      (ran (ending (provider text config) x) r).2.seenFields =
        (match closing text config x r with
        | .ok _ => []
        | .error _ => r.seenFields) := by
  rw [ending,closing]
  cases x.failure with
  | some what => exact ⟨rfl,rfl⟩
  | none =>
      have h := @ran_flushPending text r
      dsimp only
      have hfinish : (provider text config).finishStream =
          flushPending text >>= fun _ => modify (closeReply config) := rfl
      rw [hfinish,bind_assoc]
      cases hflush : flushPendingToolCalls text r with
      | error what =>
          rw [hflush] at h
          obtain ⟨hresult,hseen⟩ := h
          rw [ran_bind_error (Prod.ext hresult rfl)]
          exact ⟨rfl,hseen⟩
      | ok r' =>
          rw [hflush] at h
          rw [ran_bind_ok h.1]
          exact ⟨rfl,rfl⟩

theorem answerTo_eq (x : Exchange) (r : Reply) : answerTo text config r x =
    readFrames text config r.seenFields (framesOf text config x) >>= closing text config x := by
  have h := @ran_readDocuments text config (framesOf text config x)
    (resetAccumulators r)
  rw [answerTo,ran_exchange,readFrames]
  have hreset : resetAccumulators r = { seenFields := r.seenFields } := rfl
  rw [hreset] at h ⊢
  cases hread : (framesOf text config x).foldlM (handleJsonToken text config)
      { seenFields := r.seenFields } with
  | error what =>
      rw [hread] at h
      rw [ran_bind_error (Prod.ext h.1 rfl)]
      rfl
  | ok r' =>
      rw [hread] at h
      rw [ran_bind_ok h.1]
      exact (ran_ending r').1

theorem seenFields_leaves (x : Exchange) (r : Reply) : (leaves text config r x).seenFields =
    match answerTo text config r x with
    | .ok _ => []
    | .error _ => notedBy text config r.seenFields x := by
  have h := @ran_readDocuments text config (framesOf text config x)
    (resetAccumulators r)
  have hreset : resetAccumulators r = withSeen {} r.seenFields := rfl
  have hsame : readUntil text config (withSeen {} r.seenFields) (framesOf text config x) =
      readUntil text config {} (framesOf text config x) := readUntil_withSeen _ _ _
  rw [answerTo,leaves,ran_exchange,notedBy]
  rw [hreset] at h ⊢
  rw [hsame] at h
  cases hread : (framesOf text config x).foldlM (handleJsonToken text config)
      (withSeen {} r.seenFields) with
  | error what =>
      rw [hread] at h
      rw [ran_bind_error (Prod.ext h.1 rfl)]
      exact h.2
  | ok r' =>
      rw [hread] at h
      obtain ⟨hran,hseen,huntil⟩ := h
      rw [ran_bind_ok hran,(ran_ending r').2,(ran_ending r').1,huntil]
      cases closing text config x r' with
      | ok a => rfl
      | error what => exact hseen

theorem closing_withSeen (r : Reply) (seen : List String) :
    closing text config x (withSeen r seen) =
      (closing text config x r).map (noting config seen) := by
  rw [closing,closing]
  cases x.failure with
  | some what => rfl
  | none =>
      dsimp only
      rw [flushPending_withSeen]
      cases flushPendingToolCalls text r with
      | error what => rfl
      | ok r' => rfl

-- Two providers that have noted different fields answer alike but for the fields.
theorem answerTo_withSeen (x : Exchange) (r : Reply) : answerTo text config r x =
    (answerTo text config {} x).map
      (noting config ((framesOf text config x).foldl noteFrame r.seenFields)) := by
  rw [answerTo_eq,answerTo_eq,readFrames,readFrames]
  have h := @foldlM_withSeen text config (framesOf text config x) {}
    r.seenFields
  have hfresh : ({ seenFields := r.seenFields } : Reply) = withSeen {} r.seenFields := rfl
  have hnone : ({ seenFields := ({} : Reply).seenFields } : Reply) = {} := rfl
  rw [hfresh,hnone,h]
  cases (framesOf text config x).foldlM (handleJsonToken text config) {} with
  | error what => rfl
  | ok r' => exact closing_withSeen r' _

theorem seenFields_after (xs : List Exchange) :
    (after text (provider text config) xs).seenFields = carried text config xs := by
  have hrun : ∀ r : Reply, ∀ seen, r.seenFields = seen →
      (xs.foldl (leaves text config) r).seenFields = xs.foldl (fun seen x =>
        match answerTo text config {} x with
        | .ok _ => []
        | .error _ => notedBy text config seen x) seen := by
    induction xs with
    | nil => exact fun r seen h => h
    | cons x xs ih =>
        intro r seen hseen
        refine ih (leaves text config r x) _ ?_
        rw [seenFields_leaves,answerTo_withSeen,hseen]
        dsimp only
        cases answerTo text config {} x <;> rfl
  exact hrun {} [] rfl

theorem chat_history (text : JsonText) (config : Config) (xs : List Exchange) (x : Exchange) :
    answerTo text config (after text (provider text config) xs) x =
      (answerTo text config {} x).map
        (noting config ((framesOf text config x).foldl noteFrame (carried text config xs))) := by
  rw [answerTo_withSeen,seenFields_after]

end OpenAIProvider

end PuCli
