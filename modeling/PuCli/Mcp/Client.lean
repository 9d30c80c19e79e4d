import Mathlib.Data.Finset.Insert
import Mathlib.Data.Finset.Erase
import PuCli.Core.Json
import PuCli.Library.Run

namespace PuCli

open Json

namespace Mcp

inductive Cause where
  | writeFailed (id : Int)
  | message (j : Json)

inductive Outcome where
  | value (j : Json)
  | exception (what : String)

structure Completion where
  id : Int
  cause : Cause
  outcome : Outcome

structure JsonRpcClient where
  nextId : Int := 1
  pending : Finset Int := ∅
  completed : List Completion := []
  -- Requests whose line is still being written, and those whose caller has thrown a timeout.
  writing : Finset Int := ∅
  gaveUp : Finset Int := ∅
  offered : List String := []

inductive Event where
  | sendRequest (method : String) (params : Json)
  | writeReturned (id : Int) (ok : Bool)
  | timeout (id : Int)
  | line (text : String)

def request (id : Int) (method : String) (params : Json) : Json :=
  .object ([("jsonrpc", .string "2.0"), ("id", .int64 id), ("method", .string method)] ++
    if params.isNull then [] else [("params", params)])

def messageId (j : Json) : Option Int :=
  match j.get? "id" with
  | some (.int64 id) => (Json.int64 id).toInt
  | _ => none

namespace JsonRpcClient

def sendRequest (text : JsonText) (method : String) (params : Json) (s : JsonRpcClient) :
    JsonRpcClient :=
  { s with
    nextId := s.nextId + 1
    pending := insert s.nextId s.pending
    writing := insert s.nextId s.writing
    offered := s.offered ++ [text.serialize (request s.nextId method params)] }

def complete (s : JsonRpcClient) (id : Int) (cause : Cause) (outcome : Outcome) :
    JsonRpcClient :=
  { s with
    completed := s.completed ++ [⟨id,cause,outcome⟩]
    pending := s.pending.erase id }

def writeReturned (id : Int) (ok : Bool) (s : JsonRpcClient) : JsonRpcClient :=
  if id ∈ s.writing then
    let written := { s with writing := s.writing.erase id }
    if ¬ ok ∧ id ∈ s.pending then
      written.complete id (.writeFailed id) (.exception "Write failed")
    else written
  else s

-- The caller throws and drops the future; pending_ is left as it was.
def timeout (id : Int) (s : JsonRpcClient) : JsonRpcClient :=
  if id ∈ s.pending ∧ id ∉ s.writing then { s with gaveUp := insert id s.gaveUp } else s

def onMessage (text : JsonText) (line : String) (s : JsonRpcClient) : JsonRpcClient :=
  match text.parse line with
  | none => s
  | some j =>
      match messageId j with
      | none => s
      | some id =>
          if id ∈ s.pending then
            match j.get? "error" with
            | some error => s.complete id (.message j) (.exception (text.serialize error))
            | none => s.complete id (.message j) (.value j)
          else s

def step (text : JsonText) (s : JsonRpcClient) : Event → JsonRpcClient
  | .sendRequest method params => s.sendRequest text method params
  | .writeReturned id ok => s.writeReturned id ok
  | .timeout id => s.timeout id
  | .line l => s.onMessage text l

def Awaited (s : JsonRpcClient) (id : Int) : Prop :=
  1 ≤ id ∧ id < s.nextId ∧ (∀ c ∈ s.completed, c.id ≠ id) ∧ id ∉ s.gaveUp

end JsonRpcClient

def Answers (j : Json) : Prop :=
  (j.hasKey "result" ∨ j.hasKey "error") ∧ j.hasKey "method" = false

structure IsResponse (id : Int) (j : Json) : Prop where
  named : j.get? "id" = some (.int64 id)
  answers : Answers j

def Completion.Proper (c : Completion) : Prop :=
  match c.cause with
  | .writeFailed id => id = c.id
  | .message j => IsResponse c.id j

namespace JsonRpcClient

variable {text : JsonText} {s : JsonRpcClient} {id : Int} {cause : Cause} {outcome : Outcome}

structure Matched (s : JsonRpcClient) : Prop where
  once : (s.completed.map Completion.id).Nodup
  own : ∀ c ∈ s.completed, c.Proper
  pendingAwaited : ∀ id, id ∈ s.pending ↔ s.Awaited id

-- What holds whatever the server sends and however long it takes.
structure Numbered (s : JsonRpcClient) : Prop where
  positive : 1 ≤ s.nextId
  pending : ∀ id, id ∈ s.pending ↔ 1 ≤ id ∧ id < s.nextId ∧ ∀ c ∈ s.completed, c.id ≠ id
  once : (s.completed.map Completion.id).Nodup
  issued : ∀ c ∈ s.completed, c.id < s.nextId
  gaveUp : ∀ id ∈ s.gaveUp, id < s.nextId

theorem matched_iff (h : s.Numbered) :
    s.Matched ↔ (∀ c ∈ s.completed, c.Proper) ∧ ∀ id ∈ s.pending, id ∉ s.gaveUp := by
  constructor
  · intro hm
    exact ⟨hm.own,fun id hid => ((hm.pendingAwaited id).mp hid).2.2.2⟩
  · rintro ⟨hown,hkept⟩
    refine ⟨h.once,hown,fun id => ⟨fun hid => ?_,fun hid => ?_⟩⟩
    · obtain ⟨hlow,hhigh,hopen⟩ := (h.pending id).mp hid
      exact ⟨hlow,hhigh,hopen,hkept id hid⟩
    · exact (h.pending id).mpr ⟨hid.1,hid.2.1,hid.2.2.1⟩

theorem Numbered.complete (h : s.Numbered) (hid : id ∈ s.pending) :
    (s.complete id cause outcome).Numbered := by
  obtain ⟨_,hhigh,hopen⟩ := (h.pending id).mp hid
  refine ⟨h.positive,fun other => ?_,?_,?_,h.gaveUp⟩
  · simp only [JsonRpcClient.complete,Finset.mem_erase,h.pending other,List.forall_mem_append,
      List.forall_mem_singleton]
    constructor
    · rintro ⟨hne,hlow,hlt,hothers⟩
      exact ⟨hlow,hlt,hothers,fun heq => hne heq.symm⟩
    · rintro ⟨hlow,hlt,hothers,hne⟩
      exact ⟨fun heq => hne heq.symm,hlow,hlt,hothers⟩
  · have hfresh : id ∉ s.completed.map Completion.id := by
      intro hmem
      obtain ⟨c,hc,heq⟩ := List.mem_map.mp hmem
      exact hopen c hc heq
    simpa [JsonRpcClient.complete,List.nodup_append] using ⟨h.once,fun c hc => hopen c hc⟩
  · simp only [JsonRpcClient.complete,List.forall_mem_append,List.forall_mem_singleton]
    exact ⟨h.issued,hhigh⟩

theorem matched_complete_iff (h : s.Numbered) (hm : s.Matched) (hid : id ∈ s.pending) :
    (s.complete id cause outcome).Matched ↔ (Completion.mk id cause outcome).Proper := by
  rw [matched_iff (h.complete hid)]
  obtain ⟨hown,hkept⟩ := (matched_iff h).mp hm
  simp only [complete,List.forall_mem_append,List.forall_mem_singleton,Finset.mem_erase]
  constructor
  · intro hboth
    exact hboth.1.2
  · intro hproper
    exact ⟨⟨hown,hproper⟩,fun other hother => hkept other hother.2⟩

theorem named_of_messageId {j : Json} (h : messageId j = some id) :
    j.get? "id" = some (.int64 id) := by
  unfold messageId at h
  split at h
  case h_1 i hid =>
    simp only [toInt,toNumber,Rat.den_intCast,Rat.num_intCast,true_and] at h
    split at h
    · rw [hid,Option.some.inj h]
    · cases h
  case h_2 => cases h

theorem onMessage_cases (text : JsonText) (l : String) (s : JsonRpcClient) :
    s.onMessage text l = s ∧
        (∀ j id, text.parse l = some j → messageId j = some id → id ∉ s.pending) ∨
      ∃ j id outcome, text.parse l = some j ∧ messageId j = some id ∧ id ∈ s.pending ∧
        s.onMessage text l = s.complete id (.message j) outcome := by
  unfold onMessage
  cases hparse : text.parse l with
  | none => exact .inl ⟨rfl,nofun⟩
  | some j =>
      cases hid : messageId j with
      | none =>
          refine .inl ⟨by simp only [hid],?_⟩
          rintro _ id ⟨⟩ hsome
          rw [hid] at hsome
          cases hsome
      | some id =>
          simp only [hid]
          by_cases hp : id ∈ s.pending
          · refine .inr ⟨j,id,?_⟩
            cases herror : j.get? "error" with
            | some error => exact ⟨.exception (text.serialize error),rfl,hid,hp,if_pos hp⟩
            | none => exact ⟨.value j,rfl,hid,hp,if_pos hp⟩
          · refine .inl ⟨by simp only [hp,if_false],?_⟩
            rintro _ other ⟨⟩ hother
            rw [hid] at hother
            exact Option.some.inj hother ▸ hp

theorem writeReturned_cases (id : Int) (ok : Bool) (s : JsonRpcClient) :
    s.writeReturned id ok = s ∨
      s.writeReturned id ok = { s with writing := s.writing.erase id } ∨
      id ∈ s.pending ∧ s.writeReturned id ok =
        { s with writing := s.writing.erase id }.complete id (.writeFailed id)
          (.exception "Write failed") := by
  unfold writeReturned
  by_cases hw : id ∈ s.writing
  · by_cases hfail : ¬ ok ∧ id ∈ s.pending
    · exact .inr (.inr ⟨hfail.2,by simp only [if_pos hw,if_pos hfail]⟩)
    · exact .inr (.inl (by simp only [if_pos hw,if_neg hfail]))
  · exact .inl (if_neg hw)

theorem Numbered.unwriting (h : s.Numbered) (writing : Finset Int) :
    { s with writing := writing }.Numbered := ⟨h.positive,h.pending,h.once,h.issued,h.gaveUp⟩

theorem matched_unwriting (hm : s.Matched) (writing : Finset Int) :
    { s with writing := writing }.Matched := ⟨hm.once,hm.own,hm.pendingAwaited⟩

theorem Numbered.sendRequest (h : s.Numbered) (text : JsonText) (method : String)
    (params : Json) : (s.sendRequest text method params).Numbered := by
  have hpositive := h.positive
  refine ⟨?_,fun id => ?_,h.once,fun c hc => ?_,fun id hid => ?_⟩
  · simp only [JsonRpcClient.sendRequest]
    omega
  · simp only [JsonRpcClient.sendRequest,Finset.mem_insert,h.pending id]
    constructor
    · rintro (rfl | ⟨hlow,hhigh,hopen⟩)
      · refine ⟨hpositive,by omega,fun c hc heq => ?_⟩
        have := h.issued c hc
        omega
      · exact ⟨hlow,by omega,hopen⟩
    · rintro ⟨hlow,hhigh,hopen⟩
      by_cases heq : id = s.nextId
      · exact .inl heq
      · exact .inr ⟨hlow,by omega,hopen⟩
  · have := h.issued c hc
    simp only [JsonRpcClient.sendRequest]
    omega
  · have := h.gaveUp id hid
    simp only [JsonRpcClient.sendRequest]
    omega

theorem matched_sendRequest (h : s.Numbered) (hm : s.Matched) (text : JsonText)
    (method : String) (params : Json) : (s.sendRequest text method params).Matched := by
  obtain ⟨hown,hkept⟩ := (matched_iff h).mp hm
  refine (matched_iff (h.sendRequest text method params)).mpr ⟨hown,fun id hid hgave => ?_⟩
  rcases Finset.mem_insert.mp hid with rfl | hold
  · have := h.gaveUp _ hgave
    omega
  · exact hkept id hold hgave

theorem Numbered.timeout (h : s.Numbered) (id : Int) : (s.timeout id).Numbered := by
  unfold JsonRpcClient.timeout
  split
  case isTrue hout =>
    refine ⟨h.positive,h.pending,h.once,h.issued,fun other hother => ?_⟩
    rcases Finset.mem_insert.mp hother with rfl | hold
    · exact ((h.pending _).mp hout.1).2.1
    · exact h.gaveUp other hold
  case isFalse => exact h

theorem matched_timeout_iff (h : s.Numbered) (hm : s.Matched) (id : Int) :
    (s.timeout id).Matched ↔ ¬ (id ∈ s.pending ∧ id ∉ s.writing) := by
  by_cases hout : id ∈ s.pending ∧ id ∉ s.writing
  · refine iff_of_false (fun hafter => ?_) (not_not_intro hout)
    have hkept := ((matched_iff (h.timeout id)).mp hafter).2 id
    simp only [timeout,hout,if_true,not_false_eq_true,and_self,Finset.mem_insert,true_or] at hkept
    exact hkept trivial trivial
  · simp only [timeout,hout,if_false,not_false_eq_true,iff_true]
    exact hm

def Keeps (text : JsonText) (s : JsonRpcClient) : Event → Prop
  | .sendRequest _ _ => True
  | .writeReturned _ _ => True
  | .timeout id => ¬ (id ∈ s.pending ∧ id ∉ s.writing)
  | .line l =>
      ∀ j id, text.parse l = some j → messageId j = some id → id ∈ s.pending → Answers j

theorem numbered_step (h : s.Numbered) (text : JsonText) (event : Event) :
    (s.step text event).Numbered := by
  cases event with
  | sendRequest method params => exact h.sendRequest text method params
  | writeReturned id ok =>
      rcases writeReturned_cases id ok s with hsame | hwritten | ⟨hp,hfailed⟩
      · exact (congrArg Numbered hsame).mpr h
      · exact (congrArg Numbered hwritten).mpr (h.unwriting _)
      · exact (congrArg Numbered hfailed).mpr ((h.unwriting _).complete hp)
  | timeout id => exact h.timeout id
  | line l =>
      rcases onMessage_cases text l s with ⟨hsame,_⟩ | ⟨j,id,outcome,_,_,hp,hdone⟩
      · exact (congrArg Numbered hsame).mpr h
      · exact (congrArg Numbered hdone).mpr (h.complete hp)

theorem matched_step_iff (h : s.Numbered) (hm : s.Matched) (text : JsonText) (event : Event) :
    (s.step text event).Matched ↔ s.Keeps text event := by
  cases event with
  | sendRequest method params =>
      exact iff_of_true (matched_sendRequest h hm text method params) trivial
  | writeReturned id ok =>
      refine iff_of_true ?_ trivial
      rcases writeReturned_cases id ok s with hsame | hwritten | ⟨hp,hfailed⟩
      · exact (congrArg Matched hsame).mpr hm
      · exact (congrArg Matched hwritten).mpr (matched_unwriting hm _)
      · have hown : (Completion.mk id (.writeFailed id) (.exception "Write failed")).Proper := rfl
        refine (congrArg Matched hfailed).mpr ?_
        exact (matched_complete_iff (h.unwriting (s.writing.erase id))
          (matched_unwriting hm _) hp).mpr hown
  | timeout id => exact matched_timeout_iff h hm id
  | line l =>
      rcases onMessage_cases text l s with ⟨hsame,hnone⟩ | ⟨j,id,outcome,hparse,hid,hp,hdone⟩
      · refine iff_of_true ((congrArg Matched hsame).mpr hm) ?_
        intro j id hparse hid hp
        exact absurd hp (hnone j id hparse hid)
      · have hafter := @matched_complete_iff s id (.message j) outcome h hm hp
        refine (iff_of_eq (congrArg Matched hdone)).trans (hafter.trans ⟨?_,?_⟩)
        · intro hproper other _ hother _ _
          rw [hparse] at hother
          cases hother
          exact hproper.answers
        · intro hkeeps
          exact ⟨named_of_messageId hid,hkeeps j id hparse hid hp⟩

theorem numbered_start : ({} : JsonRpcClient).Numbered := by
  refine ⟨le_refl 1,fun id => ?_,List.nodup_nil,nofun,fun id hid => ?_⟩
  · refine iff_of_false (Finset.notMem_empty id) ?_
    rintro ⟨hlow,hhigh,_⟩
    exact absurd hhigh (by simp only; omega)
  · exact absurd hid (Finset.notMem_empty id)

theorem matched_start : ({} : JsonRpcClient).Matched :=
  (matched_iff numbered_start).mpr ⟨nofun,fun id hid => absurd hid (Finset.notMem_empty id)⟩

theorem requests_matched_iff (text : JsonText) (events : List Event) :
    (∀ s ∈ Run.visited (step text) {} events, s.Matched) ↔
      Run.Along (step text) (Keeps text) {} events := by
  have hinv : ∀ (s : JsonRpcClient) (event : Event), s.Numbered → True →
      (s.step text event).Numbered := fun s event h _ => numbered_step h text event
  have hgood : ∀ (s : JsonRpcClient) (event : Event), s.Numbered → True → s.Matched →
      ((s.step text event).Matched ↔ s.Keeps text event) :=
    fun s event h _ hm => matched_step_iff h hm text event
  exact Run.visited_good_iff hinv hgood numbered_start matched_start
    (Run.along_true _ events)

def ping : Json :=
  .object [("jsonrpc", .string "2.0"), ("id", .int64 1), ("method", .string "ping")]

def pingLine : String := "\x7b\"jsonrpc\":\"2.0\",\"id\":1,\"method\":\"ping\"\x7d"

def pingText : JsonText :=
  ⟨fun line => if line = pingLine then some ping else none,fun _ => "",fun _ => "",fun _ => ""⟩

theorem ping_answers_request :
    (¬ ∀ s ∈ Run.visited (step pingText) {}
        [.sendRequest "tools/list" .null,.writeReturned 1 true,.line pingLine], s.Matched) ∧
      ¬ ∀ s ∈ Run.visited (step pingText) {}
        [.sendRequest "tools/list" .null,.writeReturned 1 true,.timeout 1], s.Matched := by
  constructor
  · intro h
    have hlast := h _ (Run.end_mem_visited _ _ _)
    have hping := hlast.own ⟨1,.message ping,.value ping⟩ (List.mem_singleton.mpr rfl)
    exact absurd hping.answers.2 (by decide)
  · intro h
    have hlast := h _ (Run.end_mem_visited _ _ _)
    have hkept := ((hlast.pendingAwaited 1).mp (by decide)).2.2.2
    exact hkept (by decide)

end JsonRpcClient

end Mcp

end PuCli
