import PuCli.Core.SsePayloads
import PuCli.Library.Settle
import PuCli.Llm.OpenAIProtocol

namespace PuCli

open Sse OpenAIProtocol

namespace StreamingProvider

structure Answer extends ChatResult where
  rawUsage : Json := .null
  unreadFields : List String := []
  seenFields : List String := []

-- A call of `PostStream`: the chunks it hands on before it returns or throws.
structure Exchange where
  chunks : List (List UInt8)
  failure : Option String := none

-- What a provider overrides, over the fields it gathers a reply in.
structure Provider where
  framesBareLines : Bool
  resetAccumulators : Reply → Reply
  parseData : List UInt8 → InPlace String Reply Unit
  finishStream : InPlace String Reply Unit

-- `boost::json::parse` of bytes, which refuses what is not UTF-8.
def parseBytes (text : JsonText) (data : List UInt8) : Option Json :=
  if Utf8.isValidUtf8 data then text.parse (Utf8.sanitizeUtf8 data) else none

def parses (text : JsonText) (data : List UInt8) : Bool := (parseBytes text data).isSome

def carriesData (data : List UInt8) : Bool := data ≠ [] ∧ data ≠ kDone

def onEvent (g : Provider) : Report → InPlace String Reply Unit
  | .event e => if carriesData e.data then g.parseData e.data else pure ()
  | .retry _ => pure ()

def onEvents (g : Provider) : List Report → InPlace String Reply Unit
  | [] => pure ()
  | report :: reports => do
      onEvent g report
      onEvents g reports

def answerOf (r : Reply) : Answer where
  content := r.stream.content
  toolCalls := r.stream.toolCalls
  reasoning := r.stream.reasoning
  usage := r.usage
  rawUsage := r.rawUsage
  unreadFields := r.unreadFields
  seenFields := r.seenFields
  missingFields := r.missingFields
  finishReason := r.finishReason
  model := r.responseModel

-- The fields the result is moved out of.
def moved (r : Reply) : Reply :=
  { r with
    stream := { r.stream with content := "", toolCalls := [], reasoning := [] }
    rawUsage := .null
    unreadFields := []
    seenFields := []
    missingFields := []
    finishReason := ""
    responseModel := "" }

def takeResult : InPlace String Reply Answer := do
  let r ← get
  modify moved
  pure (answerOf r)

def fed (text : JsonText) (g : Provider) (x : Exchange) : SseParser Frame × List Report :=
  feedAll (handleLine (parses text)) { state := { bareLinesAreEvents := g.framesBareLines } } x.chunks

def chat (text : JsonText) (g : Provider) (x : Exchange) : InPlace String Reply Answer := do
  modify g.resetAccumulators
  onEvents g (fed text g x).2
  match x.failure with
  | some what => throw what
  | none =>
      onEvents g (finish (parses text) (fed text g x).1)
      g.finishStream
      takeResult

def after (text : JsonText) (g : Provider) (xs : List Exchange) : Reply :=
  xs.foldl (fun r x => (InPlace.ran (chat text g x) r).2) {}

-- The payloads handed to the provider: those the close adds are its own.
def reportsOf (text : JsonText) (g : Provider) (x : Exchange) : List Report :=
  (fed text g x).2 ++
    (match x.failure with
    | some _ => []
    | none => finish (parses text) (fed text g x).1)

def ending (g : Provider) (x : Exchange) : InPlace String Reply Answer :=
  match x.failure with
  | some what => throw what
  | none => do
      g.finishStream
      takeResult

-- A provider that reads its payloads as documents and skips those that are none.
def Reads (g : Provider) (payload : List UInt8 → Option Json)
    (handle : Json → InPlace String Reply Unit) : Prop :=
  ∀ data, carriesData data = true → g.parseData data =
    match payload data with
    | some j => handle j
    | none => pure ()

def documents (payload : List UInt8 → Option Json) (reports : List Report) : List Json :=
  reports.filterMap (fun report => match report with
    | .event e => if carriesData e.data then payload e.data else none
    | .retry _ => none)

def readDocuments (handle : Json → InPlace String Reply Unit) :
    List Json → InPlace String Reply Unit
  | [] => pure ()
  | j :: js => do
      handle j
      readDocuments handle js

variable {text : JsonText} {g : Provider} {payload : List UInt8 → Option Json}
  {handle : Json → InPlace String Reply Unit}

open InPlace

theorem onEvents_documents (h : Reads g payload handle) (reports : List Report) (r : Reply) :
    ran (onEvents g reports) r = ran (readDocuments handle (documents payload reports)) r := by
  induction reports generalizing r with
  | nil => rfl
  | cons report reports ih =>
      rw [onEvents,documents,List.filterMap_cons]
      cases report with
      | retry milliseconds => exact (ran_bind_pure () _ r).trans (ih r)
      | event e =>
          dsimp only [onEvent]
          split
          · next hdata =>
              rw [h e.data hdata]
              cases payload e.data with
              | none => exact (ran_bind_pure () _ r).trans (ih r)
              | some j => exact ran_bind_congr (handle j) (fun _ s => ih s) r
          · exact (ran_bind_pure () _ r).trans (ih r)

theorem ran_onEvents_append (g : Provider) (reports reports' : List Report)
    (k : Unit → InPlace String Reply Answer) (r : Reply) :
    ran (onEvents g (reports ++ reports') >>= k) r =
      ran (onEvents g reports >>= fun _ => onEvents g reports' >>= k) r := by
  induction reports generalizing r with
  | nil => rfl
  | cons report reports ih =>
      rw [List.cons_append,onEvents,onEvents,bind_assoc,bind_assoc]
      exact ran_bind_congr (onEvent g report) (fun _ s => ih s) r

theorem ran_chat (h : Reads g payload handle) (x : Exchange) (r : Reply) :
    ran (chat text g x) r =
      ran (readDocuments handle (documents payload (reportsOf text g x)) >>= fun _ => ending g x)
        (g.resetAccumulators r) := by
  have hread (reports : List Report) (k : Unit → InPlace String Reply Answer) (s : Reply) :
      ran (onEvents g reports >>= k) s =
        ran (readDocuments handle (documents payload reports) >>= k) s := by
    rw [ran_bind,ran_bind,onEvents_documents h]
  rw [← hread,reportsOf,chat,ran_bind_modify,ending]
  cases x.failure with
  | some what => rw [List.append_nil]
  | none => exact (ran_onEvents_append _ _ _ _ _).symm

theorem done_not_text (n : Nat) : ¬ JsonGrammar.Text n kDone := by
  have hdone : kDone = [0x5B,0x44,0x4F,0x4E,0x45,0x5D] := by decide
  have hstart : ¬ JsonGrammar.Started [0x44,0x4F,0x4E,0x45,0x5D] :=
    fun h => absurd (h.head (by decide)) (by decide)
  intro h
  rw [hdone] at h
  generalize hq : ([0x5B,0x44,0x4F,0x4E,0x45,0x5D] : List UInt8) = q at h
  cases h with
  | @element _ w v u hw hv hu =>
      cases w with
      | cons a w =>
          have hblank := hw a (List.mem_cons_self ..)
          rw [← (List.cons.inj hq).1] at hblank
          exact absurd hblank (by decide)
      | nil =>
          rw [List.nil_append] at hq
          cases hv with
          | array h =>
              refine hstart ?_
              rw [(List.cons.inj hq).2]
              exact ((JsonGrammar.elements_started h).append _).append _
          | @emptyArray _ w hw =>
              cases w with
              | nil => exact absurd (List.cons.inj (List.cons.inj hq).2).1 (by decide)
              | cons a w =>
                  have hblank := hw a (List.mem_cons_self ..)
                  rw [← (List.cons.inj (List.cons.inj hq).2).1] at hblank
                  exact absurd hblank (by decide)
          | emptyObject _ => exact absurd (List.cons.inj hq).1 (by decide)
          | object _ => exact absurd (List.cons.inj hq).1 (by decide)
          | null => exact absurd (List.cons.inj hq).1 (by decide)
          | yes => exact absurd (List.cons.inj hq).1 (by decide)
          | no => exact absurd (List.cons.inj hq).1 (by decide)
          | string h =>
              cases h with
              | mk h => exact absurd (List.cons.inj hq).1 (by decide)
          | number h =>
              obtain ⟨c,rest,rfl,hc,-⟩ := JsonGrammar.number_head h
              obtain rfl := (List.cons.inj hq).1
              exact absurd (by decide) hc

end StreamingProvider

end PuCli
