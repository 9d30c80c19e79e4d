import PuCli.Llm.ChatHistory

namespace PuCli

open Sse OpenAIProtocol StreamingProvider InPlace Framing

namespace OpenAIProvider

-- What may follow the last payload: nothing, or the sentinel and blank lines behind it.
def Farewell (tail : List (List UInt8)) : Prop :=
  tail = [] ∨ ∃ n, tail = dataLine kDone :: List.replicate n []

variable {text : JsonText} {parses : List UInt8 → Bool} {limit : Nat} {bare : Bool} {s : Frame}
  {payloads lines tail : List (List UInt8)} {data : List (List UInt8)}

theorem blanks_deliver (n : Nat) (s : Frame) :
    Delivers ((handleAll (handleLine parses) s (List.replicate n [])).2 ++
      (dispatch (handleAll (handleLine parses) s (List.replicate n [])).1).2) (waiting s) := by
  induction n generalizing s with
  | zero => exact dispatch_delivers s
  | succ n ih =>
      rw [List.replicate_succ,handleAll,List.append_assoc]
      exact (List.append_nil (waiting s)) ▸ (dispatch_delivers s).append (ih (dispatch s).1)

theorem farewell_delivers (h : Farewell tail) (s : Frame) (hr : Ready parses s) :
    ∃ data, Delivers ((handleAll (handleLine parses) s tail).2 ++
        (dispatch (handleAll (handleLine parses) s tail).1).2) (waiting s ++ data) ∧
      ∀ text ∈ data, text = kDone := by
  rcases h with rfl | ⟨n,rfl⟩
  · exact ⟨[],(List.append_nil (waiting s)).symm ▸ dispatch_delivers s,List.forall_mem_nil _⟩
  · refine ⟨[kDone],?_,fun text ht => List.mem_singleton.mp ht⟩
    have hsplit : payloadLines kDone = [kDone] := by decide
    have hunbroken : Unbroken parses kDone := by
      intro front rest hfront
      have hmem : kNewline ∈ kDone := by
        rw [hfront]
        simp
      exact absurd hmem (by decide)
    obtain ⟨hdelivers,hwaiting,-,-⟩ := @handleAll_payload _ _ kDone hunbroken
      (by rw [parsesAsOneValue,if_neg (by decide),if_pos rfl]) (by decide) hr
    rw [hsplit,List.map_singleton] at hdelivers hwaiting
    rw [← List.singleton_append,handleAll_append,List.append_assoc]
    have hblanks := @blanks_deliver parses n
      (handleAll (handleLine parses) s [dataLine kDone]).1
    rw [hwaiting] at hblanks
    exact hdelivers.append hblanks

theorem encodes_farewell (hj : ReadsJson parses limit) (h : Encodes bare limit payloads lines)
    (hf : Farewell tail) (hb : s.bareLinesAreEvents = bare) (hr : Ready parses s) :
    ∃ data, Delivers ((handleAll (handleLine parses) s (lines ++ tail)).2 ++
        (dispatch (handleAll (handleLine parses) s (lines ++ tail)).1).2)
        (waiting s ++ (payloads ++ data)) ∧
      ∀ text ∈ data, text = kDone := by
  induction h generalizing s with
  | done => exact farewell_delivers hf s hr
  | @filler payloads lines line hfill _ _ ih =>
      subst hb
      obtain ⟨before,hdelivers,hwaiting,hready,hbare⟩ := handleLine_filler hfill hr
      obtain ⟨data,hlater,hdone⟩ := ih hbare hready
      refine ⟨data,?_,hdone⟩
      rw [List.cons_append,handleAll,List.append_assoc,← hwaiting,List.append_assoc]
      exact hdelivers.append hlater
  | @payload payloads lines text hp _ ih =>
      obtain ⟨hdelivers,hwaiting,hready,hbare⟩ := handleAll_payload (payload_unbroken hj hp)
        (payload_complete hj hp) (payload_open hp) hr
      obtain ⟨data,hlater,hdone⟩ := ih (hbare.trans hb) hready
      refine ⟨data,?_,hdone⟩
      rw [hwaiting] at hlater
      rw [List.append_assoc,handleAll_append,List.append_assoc]
      exact hdelivers.append hlater

theorem farewell_whole (h : Farewell tail) :
    ∀ line ∈ tail, Utf8.endsWithPartialSequence line = false := by
  rcases h with rfl | ⟨n,rfl⟩
  · exact List.forall_mem_nil _
  · refine List.forall_mem_cons.mpr ⟨by decide,?_⟩
    intro line hline
    rw [List.eq_of_mem_replicate hline]
    rfl

theorem payload_carries (hj : ReadsJson (StreamingProvider.parses text) limit)
    {payload : List UInt8} (hp : Payload limit payload) :
    carriesData payload = true ∧ ∃ j, parseBytes text payload = some j := by
  have hcomplete := payload_complete hj hp
  have hne : payload ≠ [] := by
    rintro rfl
    have hempty : parsesAsOneValue (StreamingProvider.parses text) [] = false := rfl
    rw [hempty] at hcomplete
    cases hcomplete
  have hdone : payload ≠ kDone := by
    rintro rfl
    obtain ⟨blank,body,htext,hblank,hcontainer⟩ := hp.container
    refine done_not_text limit ?_
    rw [JsonGrammar.Text,htext,← List.append_nil body]
    exact .element hblank hcontainer.1 (List.forall_mem_nil _)
  refine ⟨decide_eq_true ⟨hne,hdone⟩,Option.isSome_iff_exists.mp ?_⟩
  rw [parsesAsOneValue,if_neg (by simpa using hne),if_neg hdone] at hcomplete
  exact hcomplete

theorem documents_of (hj : ReadsJson (StreamingProvider.parses text) limit)
    (hp : ∀ payload ∈ payloads, Payload limit payload) (hd : ∀ text ∈ data, text = kDone)
    (events : List SseEvent) (he : events.map SseEvent.data = payloads ++ data) :
    payloads.map (parseBytes text) = (documents (parseBytes text) (events.map .event)).map some := by
  have hread : documents (parseBytes text) (events.map .event) =
      (payloads ++ data).filterMap (fun payload =>
        if carriesData payload then parseBytes text payload else none) := by
    rw [← he,documents,List.filterMap_map,List.filterMap_map]
    rfl
  have hnone : data.filterMap (fun payload =>
      if carriesData payload then parseBytes text payload else none) = [] := by
    refine List.filterMap_eq_nil_iff.mpr ?_
    intro payload hmem
    rw [hd payload hmem]
    exact if_neg (by decide)
  rw [hread,List.filterMap_append,hnone,List.append_nil]
  clear hread he
  induction payloads with
  | nil => rfl
  | cons payload payloads ih =>
      obtain ⟨hhead,hp⟩ := List.forall_mem_cons.mp hp
      obtain ⟨hcarries,j,hj'⟩ := payload_carries hj hhead
      rw [List.map_cons,List.filterMap_cons,if_pos hcarries,hj',ih hp]
      rfl

theorem chat_encoded (text : JsonText) (config : Config) (limit : Nat)
    (hj : ReadsJson (StreamingProvider.parses text) limit) (r : Reply)
    (chunks : List (List UInt8)) {payloads lines tail : List (List UInt8)}
    (h : Encodes false limit payloads lines) (hf : Farewell tail)
    (hs : streamLines chunks.flatten = lines ++ tail) :
    ∃ frames, payloads.map (parseBytes text) = frames.map some ∧
      (answerTo text config r { chunks := chunks }).map Answer.toChatResult =
        OpenAIProtocol.chat text config r.seenFields frames := by
  have hlines := (handledLines_iff chunks).mpr
    (hs ▸ List.forall_mem_append.mpr ⟨encodes_whole h,farewell_whole hf⟩)
  have hready : Ready (StreamingProvider.parses text) {} := ⟨(fun h => by cases h),fun _ => rfl⟩
  obtain ⟨data,⟨events,hreports,hdata⟩,hdone⟩ := encodes_farewell hj h hf (s := {}) rfl hready
  have hframes : framesOf text config { chunks := chunks } =
      documents (parseBytes text) (events.map .event) := by
    rw [← hreports,← hs,← hlines,← parse_handledLines]
    rfl
  refine ⟨documents (parseBytes text) (events.map .event),
    documents_of hj (encodes_payload h) hdone events hdata,?_⟩
  rw [answerTo_eq,hframes,OpenAIProtocol.chat]
  cases readFrames text config r.seenFields (documents (parseBytes text) (events.map .event)) with
  | error what => rfl
  | ok r' =>
      dsimp only [bind,Except.bind,closing]
      rw [OpenAIProtocol.finishStream]
      cases flushPendingToolCalls text r' <;> rfl

open Classical in
-- A parser of exactly the JSON texts, which reads the empty object as one.
noncomputable def grammarText : JsonText where
  parse s :=
    if s = "\x7b\x7d" then some (.object [])
    else if JsonGrammar.Text 32 (Utf8.bytesOf s) then some .null else none
  serialize _ := "\x7b\x7d"
  parseError _ := ""
  kindError _ := ""

theorem grammarText_reads : ReadsJson (StreamingProvider.parses grammarText) 32 := by
  have hempty : JsonGrammar.Text 32 (Utf8.bytesOf "\x7b\x7d") := by
    have h := JsonGrammar.Grammar.element (w := []) (u := []) (List.forall_mem_nil _)
      (JsonGrammar.Grammar.emptyObject (n := 31) (w := []) (List.forall_mem_nil _))
      (List.forall_mem_nil _)
    exact h
  intro data
  rw [StreamingProvider.parses,parseBytes]
  cases hvalid : Utf8.isValidUtf8 data with
  | false => simp
  | true =>
      have hback : Utf8.bytesOf (Utf8.sanitizeUtf8 data) = data := by
        rw [Utf8.bytesOf_sanitizeUtf8,Utf8.repair_id hvalid]
      rw [if_pos rfl]
      dsimp only [grammarText]
      rw [hback]
      by_cases hobject : Utf8.sanitizeUtf8 data = "\x7b\x7d"
      · rw [if_pos hobject]
        rw [hobject] at hback
        rw [← hback]
        exact iff_of_true rfl ⟨rfl,hempty⟩
      · rw [if_neg hobject]
        split
        · next h => exact iff_of_true rfl ⟨rfl,h⟩
        · next h => exact iff_of_false (by simp) (fun hboth => h hboth.2)

def helloChunks : List (List UInt8) :=
  [Utf8.bytesOf "data: \x7b",Utf8.bytesOf "\x7d\n\ndata: [DO",Utf8.bytesOf "NE]\n\n"]

theorem chat_encoded_hello : ∃ frames,
    [Utf8.bytesOf "\x7b\x7d"].map (parseBytes grammarText) = frames.map some ∧
      (answerTo grammarText {} {} { chunks := helloChunks }).map Answer.toChatResult =
        OpenAIProtocol.chat grammarText {} [] frames :=
  chat_encoded grammarText {} 32 grammarText_reads {} helloChunks
    (.payload payload_object (.filler .blank (by decide) .done)) (.inr ⟨1,rfl⟩) (by decide)

end OpenAIProvider

end PuCli
