import PuCli.Core.SseLines
import PuCli.Library.JsonGrammar

namespace PuCli

namespace Sse

open Framing

variable {parses : List UInt8 → Bool} {s : Frame} {line text name value : List UInt8} {limit : Nat}
  {bare : Bool}

-- An array or an object as it is sent: blank space in front is fine, behind there is none.
structure Payload (limit : Nat) (text : List UInt8) : Prop where
  valid : Utf8.isValidUtf8 text = true
  noReturn : kCarriageReturn ∉ text
  container : ∃ blank body, text = blank ++ body ∧ JsonGrammar.Blank blank ∧
    JsonGrammar.Container limit body

def payloadLines (text : List UInt8) : List (List UInt8) := Lines.split kNewline text

def dataLine (line : List UInt8) : List UInt8 := kData ++ kColon :: kSpace :: line

-- What may stand between payloads. A name without a colon is no field where bare lines are events.
inductive Filler (bare : Bool) : List UInt8 → Prop
  | blank : Filler bare []
  | comment (text : List UInt8) : Filler bare (kColon :: text)
  | field {name : List UInt8} (hn : name = kId ∨ name = kEvent) (value : List UInt8) :
      Filler bare (name ++ kColon :: value)
  | name {name : List UInt8} (hn : name = kId ∨ name = kEvent) (hb : bare = false) :
      Filler bare name

-- The lines of a stream that carries these payloads. Text in UTF-8 never ends inside a character.
inductive Encodes (bare : Bool) (limit : Nat) : List (List UInt8) → List (List UInt8) → Prop
  | done : Encodes bare limit [] []
  | filler {payloads lines : List (List UInt8)} {line : List UInt8} (hf : Filler bare line)
      (hw : Utf8.endsWithPartialSequence line = false) (h : Encodes bare limit payloads lines) :
      Encodes bare limit payloads (line :: lines)
  | payload {payloads lines : List (List UInt8)} {text : List UInt8} (hp : Payload limit text)
      (h : Encodes bare limit payloads lines) :
      Encodes bare limit (text :: payloads) ((payloadLines text).map dataLine ++ lines)

theorem splitField_colon (hn : kColon ∉ name) (value : List UInt8) :
    splitField (name ++ kColon :: value) =
      (name,if value.head? = some kSpace then value.tail else value) := by
  rw [splitField,Lines.findIdx?_first hn]
  dsimp only
  rw [List.take_left,List.append_cons,List.drop_left' (by simp)]

theorem splitField_name (hn : kColon ∉ name) : splitField name = (name,[]) := by
  rw [splitField,Lines.findIdx?_absent hn]

theorem field_name (hn : name ∈ [kData,kEvent,kId,kRetry]) : name ≠ [] ∧ kColon ∉ name := by
  have hall : ∀ name ∈ [kData,kEvent,kId,kRetry], name ≠ [] ∧ kColon ∉ name := by decide
  exact hall name hn

theorem startsAField_colon (hn : name ∈ [kData,kEvent,kId,kRetry]) (value : List UInt8) :
    startsAField (name ++ kColon :: value) = true := by
  rw [startsAField,List.any_eq_true]
  refine ⟨name,hn,decide_eq_true ⟨?_,?_,?_⟩⟩
  · rw [List.length_append,List.length_cons]
    omega
  · exact List.take_left
  · simp

-- A line with a field in front is read as that field, bare lines or not.
theorem handleLine_field (s : Frame) (hn : name ∈ [kData,kEvent,kId,kRetry]) (value : List UInt8) :
    handleLine parses s (name ++ kColon :: value) =
      handleField parses s name (if value.head? = some kSpace then value.tail else value) := by
  obtain ⟨hne,hcolon⟩ := field_name hn
  have hhead : (name ++ kColon :: value).head? ≠ some kColon := by
    rw [List.head?_append_of_ne_nil _ hne]
    intro h
    exact hcolon (List.mem_of_head? h)
  rw [handleLine,if_neg (by simp),if_neg hhead,
    if_neg (fun h => h.2 (startsAField_colon hn value)),splitField_colon hcolon]

theorem handleField_data (s : Frame) (value : List UInt8) : handleField parses s kData value =
    (addData (if s.hasData ∧ pendingIsComplete parses s then dispatch s else (s,[])).1 value,
      (if s.hasData ∧ pendingIsComplete parses s then dispatch s else (s,[])).2) := by
  rw [handleField,if_pos rfl]

theorem handleLine_data (s : Frame) (line : List UInt8) :
    handleLine parses s (dataLine line) = handleField parses s kData line := by
  rw [dataLine,handleLine_field s (by simp),List.head?_cons,if_pos rfl,List.tail_cons]

theorem handleField_name (s : Frame) (hn : name = kId ∨ name = kEvent) (value : List UInt8) :
    (handleField parses s name value).2 = [] ∧
      (handleField parses s name value).1.hasData = s.hasData ∧
      (handleField parses s name value).1.pending.data = s.pending.data ∧
      (handleField parses s name value).1.bareLinesAreEvents = s.bareLinesAreEvents := by
  rcases hn with rfl | rfl
  · rw [handleField,if_neg (by decide),if_neg (by decide),if_pos rfl]
    exact ⟨rfl,rfl,rfl,rfl⟩
  · rw [handleField,if_neg (by decide),if_pos rfl]
    exact ⟨rfl,rfl,rfl,rfl⟩

-- The data a frame still holds that its end would deliver.
def waiting (s : Frame) : List (List UInt8) := if s.hasData then [s.pending.data] else []

structure Ready (parses : List UInt8 → Bool) (s : Frame) : Prop where
  complete : s.hasData = true → pendingIsComplete parses s = true
  empty : s.hasData = false → s.pending.data = []

def Delivers (reports : List Report) (data : List (List UInt8)) : Prop :=
  ∃ events : List SseEvent, reports = events.map .event ∧ events.map SseEvent.data = data

theorem Delivers.append {reports reports' : List Report} {data data' : List (List UInt8)}
    (h : Delivers reports data) (h' : Delivers reports' data') :
    Delivers (reports ++ reports') (data ++ data') := by
  obtain ⟨events,rfl,rfl⟩ := h
  obtain ⟨events',rfl,rfl⟩ := h'
  exact ⟨events ++ events',by rw [List.map_append],by rw [List.map_append]⟩

theorem delivers_nil : Delivers [] [] := ⟨[],rfl,rfl⟩

theorem dispatch_delivers (s : Frame) : Delivers (dispatch s).2 (waiting s) := by
  rw [dispatch,waiting]
  dsimp only
  split
  · exact ⟨[s.pending],rfl,rfl⟩
  · exact delivers_nil

theorem handleLine_filler (h : Filler s.bareLinesAreEvents line) (hr : Ready parses s) :
    ∃ data, Delivers (handleLine parses s line).2 data ∧
      data ++ waiting (handleLine parses s line).1 = waiting s ∧
      Ready parses (handleLine parses s line).1 ∧
      (handleLine parses s line).1.bareLinesAreEvents = s.bareLinesAreEvents := by
  have hkept {s' : Frame} {reports : List Report} (hreports : reports = [])
      (hdata : s'.hasData = s.hasData) (hpending : s'.pending.data = s.pending.data)
      (hbare : s'.bareLinesAreEvents = s.bareLinesAreEvents) :
      ∃ data, Delivers reports data ∧ data ++ waiting s' = waiting s ∧ Ready parses s' ∧
        s'.bareLinesAreEvents = s.bareLinesAreEvents := by
    refine ⟨[],hreports ▸ delivers_nil,?_,⟨?_,?_⟩,hbare⟩
    · rw [List.nil_append,waiting,hdata,hpending]
      rfl
    · intro hs
      rw [pendingIsComplete,hpending]
      exact hr.complete (hdata ▸ hs)
    · intro hs
      rw [hpending]
      exact hr.empty (hdata ▸ hs)
  have hfield {name : List UInt8} (hn : name = kId ∨ name = kEvent) (value : List UInt8) :=
    @handleField_name parses name s hn value
  cases h with
  | blank =>
      refine ⟨waiting s,dispatch_delivers s,List.append_nil _,⟨?_,fun _ => rfl⟩,rfl⟩
      intro h
      cases h
  | comment text => exact hkept rfl rfl rfl rfl
  | @field name hn value =>
      have hmem : name ∈ [kData,kEvent,kId,kRetry] := by
        rcases hn with rfl | rfl <;> decide
      rw [handleLine_field s hmem]
      obtain ⟨hreports,hdata,hpending,hbare⟩ := hfield hn
        (if value.head? = some kSpace then value.tail else value)
      exact hkept hreports hdata hpending hbare
  | name hn hb =>
      have hmem : line ∈ [kData,kEvent,kId,kRetry] := by
        rcases hn with rfl | rfl <;> decide
      obtain ⟨hne,hcolon⟩ := field_name hmem
      have hhead : line.head? ≠ some kColon := fun h => hcolon (List.mem_of_head? h)
      rw [handleLine,if_neg (by simpa using hne),if_neg hhead,if_neg (by simp [hb]),
        splitField_name hcolon]
      obtain ⟨hreports,hdata,hpending,hbare⟩ := hfield hn []
      exact hkept hreports hdata hpending hbare

-- What makes a payload one event: no earlier line of it ends a value.
def Unbroken (parses : List UInt8 → Bool) (text : List UInt8) : Prop :=
  ∀ front rest, text = front ++ kNewline :: rest → parsesAsOneValue parses front = false

theorem handleAll_rest (hu : Unbroken parses text) (lines : List (List UInt8)) {s : Frame}
    (hs : s.hasData = true) (ht : s.pending.data ++ lines.flatMap (kNewline :: ·) = text) :
    (handleAll (handleLine parses) s (lines.map dataLine)).2 = [] ∧
      (handleAll (handleLine parses) s (lines.map dataLine)).1.hasData = true ∧
      (handleAll (handleLine parses) s (lines.map dataLine)).1.pending.data = text ∧
      (handleAll (handleLine parses) s (lines.map dataLine)).1.bareLinesAreEvents =
        s.bareLinesAreEvents := by
  induction lines generalizing s with
  | nil =>
      rw [List.flatMap_nil,List.append_nil] at ht
      exact ⟨rfl,hs,ht,rfl⟩
  | cons line lines ih =>
      rw [List.flatMap_cons,List.cons_append] at ht
      have hopen : pendingIsComplete parses s = false := hu _ _ ht.symm
      have hstep : handleLine parses s (dataLine line) = (addData s line,[]) := by
        rw [handleLine_data,handleField_data,if_neg (by simp [hopen])]
      have hdata : (addData s line).pending.data = s.pending.data ++ [kNewline] ++ line := by
        rw [addData,hs]
        rfl
      rw [List.map_cons,handleAll,hstep]
      exact @ih (addData s line) rfl (by rw [hdata,← ht]; simp)

theorem handleAll_payload (hu : Unbroken parses text) (hc : parsesAsOneValue parses text = true)
    (hopen : ¬ Lines.Closed kNewline text) (hr : Ready parses s) :
    Delivers (handleAll (handleLine parses) s ((payloadLines text).map dataLine)).2 (waiting s) ∧
      waiting (handleAll (handleLine parses) s ((payloadLines text).map dataLine)).1 = [text] ∧
      Ready parses (handleAll (handleLine parses) s ((payloadLines text).map dataLine)).1 ∧
      (handleAll (handleLine parses) s ((payloadLines text).map dataLine)).1.bareLinesAreEvents =
        s.bareLinesAreEvents := by
  obtain ⟨line,lines,hsplit,hjoin⟩ := Lines.split_joins text hopen
  rw [payloadLines,hsplit,List.map_cons,handleAll,handleLine_data,handleField_data]
  -- The line that starts a payload ends the frame before it, if there is one.
  have hstart : ∃ s', (if s.hasData ∧ pendingIsComplete parses s then dispatch s else (s,[])).1 = s' ∧
      Delivers (if s.hasData ∧ pendingIsComplete parses s then dispatch s else (s,[])).2 (waiting s) ∧
      s'.hasData = false ∧ s'.pending.data = [] ∧ s'.bareLinesAreEvents = s.bareLinesAreEvents := by
    refine ⟨_,rfl,?_⟩
    by_cases hs : s.hasData = true
    · rw [if_pos ⟨hs,hr.complete hs⟩]
      exact ⟨dispatch_delivers s,rfl,rfl,rfl⟩
    · have hno : s.hasData = false := by simpa using hs
      rw [if_neg (fun h => hs h.1),waiting,if_neg hs]
      exact ⟨delivers_nil,hno,hr.empty hno,rfl⟩
  obtain ⟨s',hs',hdelivers,hno,hempty,hbare⟩ := hstart
  rw [hs']
  have hdata : (addData s' line).pending.data = line := by
    rw [addData,hno]
    dsimp only
    rw [hempty]
    rfl
  obtain ⟨hreports,hhas,htext,hsame⟩ := @handleAll_rest parses text hu lines (addData s' line) rfl
    (by rw [hdata,hjoin])
  refine ⟨?_,?_,⟨?_,?_⟩,hsame.trans hbare⟩
  · rw [hreports,List.append_nil]
    exact hdelivers
  · rw [waiting,hhas,if_pos rfl,htext]
  · intro _
    rw [pendingIsComplete,htext]
    exact hc
  · intro h
    rw [hhas] at h
    cases h

theorem payload_open (hp : Payload limit text) : ¬ Lines.Closed kNewline text := by
  obtain ⟨blank,body,rfl,-,hcontainer⟩ := hp.container
  obtain ⟨a,inner,close,rfl,-,hclose,-⟩ := JsonGrammar.container_shape hcontainer
  rw [← List.cons_append,← List.append_assoc]
  rintro (hnil | hlast)
  · exact absurd hnil (List.append_ne_nil_of_right_ne_nil _ (List.cons_ne_nil _ _))
  · rw [List.getLast?_concat] at hlast
    rw [Option.some.inj hlast] at hclose
    revert hclose
    decide

-- `parses` takes exactly the texts of JSON, nested as far as the limit goes.
def ReadsJson (parses : List UInt8 → Bool) (limit : Nat) : Prop :=
  ∀ text, parses text = true ↔ Utf8.isValidUtf8 text = true ∧ JsonGrammar.Text limit text

theorem payload_unbroken (hj : ReadsJson parses limit) (hp : Payload limit text) :
    Unbroken parses text := by
  obtain ⟨blank,body,htext,hblank,hcontainer⟩ := hp.container
  intro front rest hfront
  rw [htext] at hfront
  rw [parsesAsOneValue]
  split
  · rfl
  · have hdone : front ≠ kDone := by
      rintro rfl
      rcases JsonGrammar.front_open hblank hcontainer hfront with h | h
      · exact absurd (h 0x44 (by decide)) (by decide)
      · revert h
        decide
    rw [if_neg hdone,Bool.eq_false_iff]
    intro h
    exact JsonGrammar.front_not_text hblank hcontainer hfront ((hj front).mp h).2

theorem payload_complete (hj : ReadsJson parses limit) (hp : Payload limit text) :
    parsesAsOneValue parses text = true := by
  have hparses : parses text = true := by
    refine (hj text).mpr ⟨hp.valid,?_⟩
    obtain ⟨blank,body,rfl,hblank,hcontainer⟩ := hp.container
    have helement := JsonGrammar.Grammar.element hblank hcontainer.1 (List.forall_mem_nil _)
    rwa [List.append_nil] at helement
  rw [parsesAsOneValue,hparses]
  split
  · next hempty =>
      exact absurd (.inl (List.isEmpty_iff.mp hempty)) (payload_open hp)
  · split <;> rfl

theorem encodes_delivers (hj : ReadsJson parses limit) {payloads lines : List (List UInt8)}
    (h : Encodes bare limit payloads lines) {s : Frame} (hb : s.bareLinesAreEvents = bare)
    (hr : Ready parses s) :
    Delivers ((handleAll (handleLine parses) s lines).2 ++
      (dispatch (handleAll (handleLine parses) s lines).1).2) (waiting s ++ payloads) := by
  induction h generalizing s with
  | done =>
      rw [List.append_nil]
      exact dispatch_delivers s
  | @filler payloads lines line hf _ _ ih =>
      subst hb
      obtain ⟨data,hdelivers,hwaiting,hready,hbare⟩ := handleLine_filler hf hr
      rw [handleAll,List.append_assoc,← hwaiting,List.append_assoc]
      exact hdelivers.append (ih hbare hready)
  | @payload payloads lines text hp _ ih =>
      obtain ⟨hdelivers,hwaiting,hready,hbare⟩ := handleAll_payload (payload_unbroken hj hp)
        (payload_complete hj hp) (payload_open hp) hr
      rw [handleAll_append,List.append_assoc]
      have hlater := ih (hbare.trans hb) hready
      rw [hwaiting] at hlater
      exact hdelivers.append hlater

theorem payloadLines_valid {text : List UInt8} (h : Utf8.isValidUtf8 text = true) :
    ∀ line ∈ payloadLines text, Utf8.isValidUtf8 line = true := by
  induction hn : text.length using Nat.strongRecOn generalizing text with
  | ind n ih =>
      by_cases hmem : kNewline ∈ text
      · obtain ⟨front,rest,rfl,hf⟩ := List.eq_append_cons_of_mem hmem
        have hfront : Utf8.isValidUtf8 front = true :=
          (Utf8.cut_valid h).front_valid_of_head
            (show (!Utf8.isContinuationByte kNewline) = true by decide)
        have hrest : Utf8.isValidUtf8 rest = true := by
          rw [List.append_cons] at h
          have hcut := Utf8.cut_valid h
          exact hcut.back_valid (hcut.front_valid_of_ascii List.getLast?_concat (by decide))
        have hshort : rest.length < n := by
          rw [← hn,List.length_append,List.length_cons]
          omega
        rw [payloadLines,Lines.split_cons hf,List.forall_mem_cons]
        exact ⟨hfront,ih rest.length hshort hrest rfl⟩
      · cases text with
        | nil => exact List.forall_mem_nil _
        | cons byte text =>
            rw [payloadLines,Lines.split_of_not_mem (List.cons_ne_nil _ _) hmem,
              List.forall_mem_singleton]
            exact h

theorem encodes_whole {payloads lines : List (List UInt8)} (h : Encodes bare limit payloads lines) :
    ∀ line ∈ lines, Utf8.endsWithPartialSequence line = false := by
  induction h with
  | done => exact List.forall_mem_nil _
  | filler _ hw _ ih => exact List.forall_mem_cons.mpr ⟨hw,ih⟩
  | payload hp _ ih =>
      refine List.forall_mem_append.mpr ⟨?_,ih⟩
      intro line hline
      obtain ⟨part,hpart,rfl⟩ := List.mem_map.mp hline
      have hname : Utf8.isValidUtf8 (kData ++ [kColon,kSpace]) = true := by decide
      have hvalid := Utf8.valid_append hname (payloadLines_valid hp.valid part hpart)
      rw [List.append_assoc] at hvalid
      exact Utf8.valid_partial_eq_false hvalid

theorem encodes_payload {payloads lines : List (List UInt8)}
    (h : Encodes bare limit payloads lines) : ∀ text ∈ payloads, Payload limit text := by
  induction h with
  | done => exact List.forall_mem_nil _
  | filler _ _ _ ih => exact ih
  | payload hp _ ih => exact List.forall_mem_cons.mpr ⟨hp,ih⟩

-- A stream written line by line is made of just these lines.
theorem streamLines_written {lines : List (List UInt8)} (hn : ∀ line ∈ lines, kNewline ∉ line)
    (hr : ∀ line ∈ lines, line.getLast? ≠ some kCarriageReturn) :
    streamLines (lines.flatMap (fun line => line ++ [kNewline])) = lines := by
  induction lines with
  | nil => rfl
  | cons line lines ih =>
      obtain ⟨hline,hn⟩ := List.forall_mem_cons.mp hn
      obtain ⟨hreturn,hr⟩ := List.forall_mem_cons.mp hr
      rw [List.flatMap_cons,List.append_assoc,List.singleton_append,streamLines_cons hline,ih hn hr,
        stripReturn,if_neg hreturn]

theorem payloads_decoded (parses : List UInt8 → Bool) (limit : Nat) (hj : ReadsJson parses limit)
    (bare hasRetry : Bool) (payloads : List (List UInt8)) (chunks : List (List UInt8))
    (h : Encodes bare limit payloads (streamLines chunks.flatten)) :
    ∃ events : List SseEvent,
      parse parses { bareLinesAreEvents := bare, hasRetry := hasRetry } chunks =
          events.map .event ∧
        events.map SseEvent.data = payloads ∧
        ∀ text ∈ payloads, [kNewline].intercalate (payloadLines text) = text := by
  have hlines := (handledLines_iff chunks).mpr (encodes_whole h)
  have hready : Ready parses { bareLinesAreEvents := bare, hasRetry := hasRetry } :=
    ⟨(fun h => by cases h),fun _ => rfl⟩
  obtain ⟨events,hreports,hdata⟩ := encodes_delivers hj h
    (s := { bareLinesAreEvents := bare, hasRetry := hasRetry }) rfl hready
  refine ⟨events,?_,hdata,?_⟩
  · rw [parse_handledLines,hlines,hreports]
  · intro text ht
    exact Lines.intercalate_split (payload_open (encodes_payload h text ht))

-- An array in two lines, an id and an empty object, with nothing between the two payloads.
def twoPayloads : List (List UInt8) :=
  [Utf8.bytesOf "data: [\ndata: 1]\nid: 7\nda",Utf8.bytesOf "ta: \x7b\x7d\n"]

theorem payload_array : Payload 32 (Utf8.bytesOf "[\n1]") := by
  have hone : JsonGrammar.Grammar .value 31 [0x31] :=
    .number (.mk (.inl rfl) (.nonzero (t := []) (by decide) (by decide) (List.forall_mem_nil _)) .none .none)
  have hlist : JsonGrammar.Grammar .elements 31 ([0x0A] ++ ([0x31] ++ [])) :=
    .one (.element (by simp [JsonGrammar.Blank,JsonGrammar.blank]) hone (List.forall_mem_nil _))
  refine ⟨by decide,by decide,[],_,rfl,List.forall_mem_nil _,?_,.inl rfl⟩
  exact .array hlist

theorem payload_object : Payload 32 (Utf8.bytesOf "\x7b\x7d") :=
  ⟨by decide,by decide,[],_,rfl,List.forall_mem_nil _,
    .emptyObject (w := []) (List.forall_mem_nil _),.inr rfl⟩

open Classical in
theorem twoPayloads_decoded : ∃ events : List SseEvent,
    parse (fun text => decide (Utf8.isValidUtf8 text = true ∧ JsonGrammar.Text 32 text)) {}
        twoPayloads = events.map .event ∧
      events.map SseEvent.data = [Utf8.bytesOf "[\n1]",Utf8.bytesOf "\x7b\x7d"] := by
  have hlines : streamLines twoPayloads.flatten =
      (payloadLines (Utf8.bytesOf "[\n1]")).map dataLine ++ (kId ++ kColon :: Utf8.bytesOf " 7") ::
        ((payloadLines (Utf8.bytesOf "\x7b\x7d")).map dataLine ++ []) := by decide
  have hencodes : Encodes false 32 [Utf8.bytesOf "[\n1]",Utf8.bytesOf "\x7b\x7d"]
      (streamLines twoPayloads.flatten) := by
    rw [hlines]
    exact .payload payload_array (.filler (.field (.inl rfl) _) (by decide)
      (.payload payload_object .done))
  obtain ⟨events,hreports,hdata,-⟩ := payloads_decoded
    (fun text => decide (Utf8.isValidUtf8 text = true ∧ JsonGrammar.Text 32 text)) 32
    (fun text => decide_eq_true_iff) false false _ twoPayloads hencodes
  exact ⟨events,hreports,hdata⟩

end Sse

end PuCli
