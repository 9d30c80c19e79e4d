import Mathlib.Data.List.Induction
import PuCli.Llm.OpenAIProtocol

namespace PuCli

open Json

namespace OpenAIProtocol

structure CallHead where
  id : String
  name : String
  deriving DecidableEq

-- One entry of a delta's `tool_calls`; a call's first one names it.
structure Fragment where
  index : Nat
  head : Option CallHead
  arguments : String

def Fragment.toJson (f : Fragment) : Json :=
  .object ([("index", .uint64 f.index)] ++
    (match f.head with
      | none => []
      | some head => [("id", .string head.id), ("type", .string "function")]) ++
    [("function", .object ((match f.head with
        | none => []
        | some head => [("name", .string head.name)]) ++ [("arguments", .string f.arguments)]))])

def frameJson (fragments : List Fragment) : Json :=
  .object [("choices", .array [.object [("index", .int64 0),
    ("delta", .object [("tool_calls", .array (fragments.map Fragment.toJson))])]])]

-- The calls begun so far, by number and in the order of their first pieces.
def begin (seen : List Nat) (k : Nat) : List Nat := if k ∈ seen then seen else seen ++ [k]

def begun (pieces : List (Nat × String)) : List Nat :=
  (pieces.map Prod.fst).foldl begin []

def labelledFrom (heads : Nat → CallHead) (seen : List Nat) : List (Nat × String) → List Fragment
  | [] => []
  | (k, part) :: pieces =>
      ⟨k, if k ∈ seen then none else some (heads k), part⟩ ::
        labelledFrom heads (begin seen k) pieces

def labelled (heads : Nat → CallHead) (pieces : List (Nat × String)) : List Fragment :=
  labelledFrom heads [] pieces

def argumentsOf (pieces : List (Nat × String)) (k : Nat) : String :=
  ((pieces.filter (fun piece => piece.1 = k)).map Prod.snd).foldl (· ++ ·) ""

def wholeCalls (heads : Nat → CallHead) (pieces : List (Nat × String)) : List ToolCallAccumulator :=
  (begun pieces).map (fun k => ⟨(heads k).id, (heads k).name, argumentsOf pieces k⟩)

-- A fragment reaches its call only while no later call has begun; one without an id begins none.
def Fits (heads : Nat → CallHead) (seen : List Nat) (k : Nat) (part : String) : Prop :=
  if k ∈ seen then part = "" ∨ seen.getLast? = some k else seen = [] ∨ (heads k).id ≠ ""

def InOrder (heads : Nat → CallHead) (pieces : List (Nat × String)) : Prop :=
  ∀ before k part later, pieces = before ++ (k, part) :: later → Fits heads (begun before) k part

def addFragment (pending : List ToolCallAccumulator) (f : Fragment) : List ToolCallAccumulator :=
  handleToolCall pending f.toJson

def assembled (heads : Nat → CallHead) (pieces : List (Nat × String)) : List ToolCallAccumulator :=
  (labelled heads pieces).foldl addFragment []

variable {heads : Nat → CallHead} {pieces : List (Nat × String)} {k : Nat} {part : String}
  {pending : List ToolCallAccumulator} {change : ToolCallAccumulator → ToolCallAccumulator}

theorem changeLast_concat (change : ToolCallAccumulator → ToolCallAccumulator)
    (accs : List ToolCallAccumulator) (acc : ToolCallAccumulator) :
    changeLast change (accs ++ [acc]) = accs ++ [change acc] := by
  induction accs with
  | nil => rfl
  | cons first accs ih =>
      cases accs with
      | nil => rfl
      | cons next accs => exact congrArg (first :: ·) ih

theorem length_changeLast (change : ToolCallAccumulator → ToolCallAccumulator)
    (accs : List ToolCallAccumulator) : (changeLast change accs).length = accs.length := by
  cases accs using List.reverseRecOn with
  | nil => rfl
  | append_singleton accs acc => rw [changeLast_concat,List.length_append,List.length_append]; rfl

theorem getElem?_changeLast {i : Nat} (h : i + 1 < pending.length) :
    (changeLast change pending)[i]? = pending[i]? := by
  cases pending using List.reverseRecOn with
  | nil => simp at h
  | append_singleton accs acc =>
      rw [List.length_append,List.length_singleton] at h
      rw [changeLast_concat,List.getElem?_append_left (by omega),List.getElem?_append_left (by omega)]

-- A fragment that names its call starts an accumulator when it has an id, or when none is there.
theorem addFragment_head (pending : List ToolCallAccumulator) (index : Nat) (head : CallHead)
    (part : String) : addFragment pending ⟨index, some head, part⟩ =
      if head.id ≠ "" ∨ pending = [] then pending ++ [⟨head.id, head.name, part⟩]
      else changeLast (fun acc =>
        { acc with
          name := if head.name = "" then acc.name else head.name
          arguments := acc.arguments ++ part }) pending := by
  by_cases hid : head.id = ""
  · cases pending with
    | nil =>
        by_cases hname : head.name = "" <;>
          simp [addFragment,handleToolCall,Fragment.toJson,isObject,valueOrDefault,addFunction,
            changeLast,hid,hname]
    | cons acc accs =>
        simp [addFragment,handleToolCall,Fragment.toJson,isObject,valueOrDefault,addFunction,hid]
  · by_cases hname : head.name = "" <;>
      simp [addFragment,handleToolCall,Fragment.toJson,isObject,valueOrDefault,addFunction,
        changeLast_concat,hid,hname]

theorem addFragment_more (pending : List ToolCallAccumulator) (index : Nat) (part : String)
    (hne : pending ≠ []) : addFragment pending ⟨index, none, part⟩ =
      changeLast (fun acc => { acc with arguments := acc.arguments ++ part }) pending := by
  simp [addFragment,handleToolCall,Fragment.toJson,isObject,valueOrDefault,addFunction,hne]

theorem begun_concat (pieces : List (Nat × String)) (k : Nat) (part : String) :
    begun (pieces ++ [(k, part)]) = begin (begun pieces) k := by
  simp [begun]

theorem labelledFrom_append (heads : Nat → CallHead) (seen : List Nat)
    (xs ys : List (Nat × String)) : labelledFrom heads seen (xs ++ ys) =
      labelledFrom heads seen xs ++ labelledFrom heads ((xs.map Prod.fst).foldl begin seen) ys := by
  induction xs generalizing seen with
  | nil => rfl
  | cons x xs ih =>
      rw [List.cons_append,labelledFrom,ih]
      rfl

theorem assembled_concat (heads : Nat → CallHead) (pieces : List (Nat × String)) (k : Nat)
    (part : String) : assembled heads (pieces ++ [(k, part)]) =
      addFragment (assembled heads pieces)
        ⟨k, if k ∈ begun pieces then none else some (heads k), part⟩ := by
  rw [assembled,labelled,labelledFrom_append,List.foldl_append]
  rfl

theorem argumentsOf_same (pieces : List (Nat × String)) (k : Nat) (part : String) :
    argumentsOf (pieces ++ [(k, part)]) k = argumentsOf pieces k ++ part := by
  simp [argumentsOf]

theorem argumentsOf_other (pieces : List (Nat × String)) {k k' : Nat} (part : String)
    (h : k' ≠ k) : argumentsOf (pieces ++ [(k', part)]) k = argumentsOf pieces k := by
  simp [argumentsOf,h]

theorem mem_begin {seen : List Nat} {k k' : Nat} : k' ∈ begin seen k ↔ k' ∈ seen ∨ k' = k := by
  rw [begin]
  split
  · next hk =>
      refine (or_iff_left_of_imp ?_).symm
      rintro rfl
      exact hk
  · simp

theorem nodup_begun (pieces : List (Nat × String)) : (begun pieces).Nodup := by
  induction pieces using List.reverseRecOn with
  | nil => exact List.nodup_nil
  | append_singleton pieces piece ih =>
      rw [begun_concat,begin]
      split
      · exact ih
      · next hk => exact List.nodup_append.mpr ⟨ih,List.nodup_singleton _,by
          intro a ha b hb
          rw [List.mem_singleton.mp hb]
          rintro rfl
          exact hk ha⟩

theorem argumentsOf_fresh (h : k ∉ begun pieces) : argumentsOf pieces k = "" := by
  induction pieces using List.reverseRecOn with
  | nil => rfl
  | append_singleton pieces piece ih =>
      rw [begun_concat,mem_begin,not_or] at h
      rw [argumentsOf_other pieces piece.2 (Ne.symm h.2)]
      exact ih h.1

theorem inOrder_nil (heads : Nat → CallHead) : InOrder heads [] := by
  intro before k part later h
  simp at h

theorem inOrder_concat : InOrder heads (pieces ++ [(k, part)]) ↔
    InOrder heads pieces ∧ Fits heads (begun pieces) k part := by
  constructor
  · intro h
    refine ⟨?_,h pieces k part [] rfl⟩
    rintro before k' part' later rfl
    exact h before k' part' (later ++ [(k, part)]) (by simp)
  · rintro ⟨hbefore,hlast⟩ before k' part' later heq
    rcases List.eq_nil_or_concat later with rfl | ⟨later,last,rfl⟩
    · obtain ⟨rfl,hpiece⟩ := List.append_inj' heq rfl
      obtain ⟨rfl,rfl⟩ := Prod.mk.inj (List.cons.inj hpiece).1
      exact hlast
    · rw [List.concat_eq_append,← List.cons_append,← List.append_assoc] at heq
      exact hbefore before k' part' later (List.append_inj_left' heq rfl)

theorem wholeCalls_begin (h : k ∉ begun pieces) : wholeCalls heads (pieces ++ [(k, part)]) =
    wholeCalls heads pieces ++ [⟨(heads k).id, (heads k).name, part⟩] := by
  have hold : ∀ k' ∈ begun pieces, argumentsOf (pieces ++ [(k, part)]) k' = argumentsOf pieces k' := by
    intro k' hk'
    refine argumentsOf_other pieces part ?_
    rintro rfl
    exact h hk'
  rw [wholeCalls,begun_concat,begin,if_neg h,List.map_append,List.map_singleton,argumentsOf_same,
    argumentsOf_fresh h,wholeCalls]
  congr 1
  exact List.map_congr_left (fun k' hk' => by rw [hold k' hk'])

theorem wholeCalls_same (h : k ∈ begun pieces) (hpart : part = "") :
    wholeCalls heads (pieces ++ [(k, part)]) = wholeCalls heads pieces := by
  rw [wholeCalls,begun_concat,begin,if_pos h,wholeCalls]
  refine List.map_congr_left (fun k' _ => ?_)
  by_cases hk : k = k'
  · rw [hk,argumentsOf_same,hpart,String.append_empty]
  · rw [argumentsOf_other pieces part hk]

theorem wholeCalls_last (h : (begun pieces).getLast? = some k) :
    wholeCalls heads (pieces ++ [(k, part)]) =
      changeLast (fun acc => { acc with arguments := acc.arguments ++ part })
        (wholeCalls heads pieces) := by
  have hmem : k ∈ begun pieces := List.mem_of_getLast? h
  obtain ⟨older,holder⟩ := List.getLast?_eq_some_iff.mp h
  have hfresh : k ∉ older := by
    have hnodup := nodup_begun pieces
    rw [holder,List.nodup_append] at hnodup
    intro hk
    exact hnodup.2.2 k hk k (List.mem_singleton_self k) rfl
  rw [wholeCalls,begun_concat,begin,if_pos hmem,wholeCalls,holder,List.map_append,List.map_append,
    List.map_singleton,List.map_singleton,changeLast_concat,argumentsOf_same]
  congr 1
  refine List.map_congr_left (fun k' hk' => ?_)
  rw [argumentsOf_other pieces part]
  rintro rfl
  exact hfresh hk'

theorem addFragment_ne_nil (pending : List ToolCallAccumulator) (f : Fragment)
    (h : pending ≠ [] ∨ f.head ≠ none) : addFragment pending f ≠ [] := by
  obtain ⟨index,head,part⟩ := f
  cases head with
  | none =>
      have hne := h.resolve_right (fun hn => hn rfl)
      rw [addFragment_more pending index part hne,← List.length_pos_iff_ne_nil,length_changeLast]
      exact List.length_pos_of_ne_nil hne
  | some head =>
      rw [addFragment_head]
      split
      · simp
      · next hcond =>
          rw [← List.length_pos_iff_ne_nil,length_changeLast]
          exact List.length_pos_of_ne_nil (fun hn => hcond (.inr hn))

theorem assembled_ne_nil (heads : Nat → CallHead) (h : pieces ≠ []) :
    assembled heads pieces ≠ [] := by
  induction pieces using List.reverseRecOn with
  | nil => exact absurd rfl h
  | append_singleton pieces piece ih =>
      rw [assembled_concat]
      refine addFragment_ne_nil _ _ ?_
      by_cases hp : pieces = []
      · subst hp
        exact .inr (by simp [begun])
      · exact .inl (ih hp)

theorem assembled_ne_nil_of_mem (heads : Nat → CallHead) (hk : k ∈ begun pieces) :
    assembled heads pieces ≠ [] := by
  refine assembled_ne_nil heads ?_
  rintro rfl
  simp [begun] at hk

theorem assembled_inOrder (h : InOrder heads pieces) :
    assembled heads pieces = wholeCalls heads pieces := by
  induction pieces using List.reverseRecOn with
  | nil => rfl
  | append_singleton pieces piece ih =>
      obtain ⟨k,part⟩ := piece
      obtain ⟨hbefore,hfits⟩ := inOrder_concat.mp h
      have hsame := ih hbefore
      rw [assembled_concat]
      by_cases hk : k ∈ begun pieces
      · rw [if_pos hk]
        rw [Fits,if_pos hk] at hfits
        have hne := assembled_ne_nil_of_mem heads hk
        rw [addFragment_more _ k part hne]
        rcases hfits with rfl | hlast
        · rw [wholeCalls_same hk rfl,hsame]
          have hid : (fun acc : ToolCallAccumulator =>
              { acc with arguments := acc.arguments ++ "" }) = id := by
            funext acc
            simp
          rw [hid]
          obtain ⟨older,acc,holder⟩ := List.eq_nil_or_concat (wholeCalls heads pieces) |>.resolve_left
            (hsame ▸ hne)
          rw [holder,List.concat_eq_append,changeLast_concat]
          rfl
        · rw [wholeCalls_last hlast,hsame]
      · rw [if_neg hk,addFragment_head,wholeCalls_begin hk]
        rw [Fits,if_neg hk] at hfits
        have hcond : (heads k).id ≠ "" ∨ assembled heads pieces = [] := by
          refine hfits.symm.imp_right ?_
          intro hnil
          rw [hsame,wholeCalls,hnil]
          rfl
        rw [if_pos hcond,hsame]

-- What a lost fragment leaves behind: an accumulator too few, or one that stays too short.
def Broken (heads : Nat → CallHead) (pieces : List (Nat × String)) : Prop :=
  (assembled heads pieces).length < (begun pieces).length ∨
    ∃ i acc k, i + 1 < (assembled heads pieces).length ∧ (assembled heads pieces)[i]? = some acc ∧
      (begun pieces)[i]? = some k ∧ acc.arguments.length < (argumentsOf pieces k).length

theorem broken_ne (h : Broken heads pieces) : assembled heads pieces ≠ wholeCalls heads pieces := by
  intro heq
  rcases h with hfew | ⟨i,acc,k,-,hacc,hk,hshort⟩
  · rw [heq,wholeCalls,List.length_map] at hfew
    exact Nat.lt_irrefl _ hfew
  · rw [heq,wholeCalls,List.getElem?_map,hk] at hacc
    obtain rfl := Option.some.inj hacc
    exact Nat.lt_irrefl _ hshort

theorem begin_getElem? {seen : List Nat} {i k' : Nat} (h : seen[i]? = some k') (k : Nat) :
    (begin seen k)[i]? = some k' := by
  rw [begin]
  split
  · exact h
  · rw [List.getElem?_append_left (List.getElem?_eq_some_iff.mp h).1,h]

theorem addFragment_keeps (pending : List ToolCallAccumulator) (f : Fragment) {i : Nat}
    (h : i + 1 < pending.length) : pending.length ≤ (addFragment pending f).length ∧
      (addFragment pending f)[i]? = pending[i]? := by
  obtain ⟨index,head,part⟩ := f
  have hne : pending ≠ [] := by
    rintro rfl
    simp at h
  cases head with
  | none =>
      rw [addFragment_more pending index part hne,length_changeLast]
      exact ⟨le_rfl,getElem?_changeLast h⟩
  | some head =>
      rw [addFragment_head]
      split
      · refine ⟨by simp,?_⟩
        rw [List.getElem?_append_left (by omega)]
      · rw [length_changeLast]
        exact ⟨le_rfl,getElem?_changeLast h⟩

theorem length_addFragment_le (pending : List ToolCallAccumulator) (index : Nat) (head : CallHead)
    (part : String) : (addFragment pending ⟨index, some head, part⟩).length ≤ pending.length + 1 := by
  rw [addFragment_head]
  split
  · simp
  · rw [length_changeLast]
    omega

theorem broken_concat (h : Broken heads pieces) : Broken heads (pieces ++ [(k, part)]) := by
  rw [Broken,assembled_concat,begun_concat]
  rcases h with hfew | ⟨i,acc,k',hi,hacc,hk',hshort⟩
  · refine .inl ?_
    by_cases hk : k ∈ begun pieces
    · have hne := assembled_ne_nil_of_mem heads hk
      rw [if_pos hk,addFragment_more _ k part hne,length_changeLast,begin,if_pos hk]
      exact hfew
    · have hle := length_addFragment_le (assembled heads pieces) k (heads k) part
      rw [if_neg hk,begin,if_neg hk,List.length_append,List.length_singleton]
      omega
  · obtain ⟨hlen,hsame⟩ := addFragment_keeps (assembled heads pieces)
      ⟨k, if k ∈ begun pieces then none else some (heads k), part⟩ hi
    refine .inr ⟨i,acc,k',by omega,hsame.trans hacc,begin_getElem? hk' k,?_⟩
    by_cases hkk : k = k'
    · subst hkk
      rw [argumentsOf_same,String.length_append]
      omega
    · rw [argumentsOf_other pieces part hkk]
      exact hshort

theorem broken_first (h : InOrder heads pieces) (hfits : ¬ Fits heads (begun pieces) k part) :
    Broken heads (pieces ++ [(k, part)]) := by
  have hsame := assembled_inOrder h
  have hlen : (assembled heads pieces).length = (begun pieces).length := by
    rw [hsame,wholeCalls,List.length_map]
  rw [Broken,assembled_concat,begun_concat]
  by_cases hk : k ∈ begun pieces
  · rw [Fits,if_pos hk,not_or] at hfits
    obtain ⟨hpart,hlast⟩ := hfits
    have hne := assembled_ne_nil_of_mem heads hk
    -- The call stands before the last one, which takes the fragment.
    obtain ⟨i,hi,hik⟩ := List.getElem_of_mem hk
    have hget : (begun pieces)[i]? = some k := List.getElem?_eq_some_iff.mpr ⟨hi,hik⟩
    have hnotLast : i + 1 < (begun pieces).length := by
      by_contra hge
      refine hlast ?_
      rw [List.getLast?_eq_getElem?,show (begun pieces).length - 1 = i by omega,hget]
    refine .inr ⟨i,⟨(heads k).id, (heads k).name, argumentsOf pieces k⟩,k,?_,?_,?_,?_⟩
    · rw [if_pos hk,addFragment_more _ k part hne,length_changeLast]
      omega
    · rw [if_pos hk,addFragment_more _ k part hne,getElem?_changeLast (by omega),hsame,wholeCalls,
        List.getElem?_map,hget]
      rfl
    · exact begin_getElem? hget k
    · have hpos : 0 < part.length := by
        refine Nat.pos_of_ne_zero ?_
        intro hzero
        exact hpart (String.length_eq_zero_iff.mp hzero)
      rw [argumentsOf_same,String.length_append]
      dsimp only
      omega
  · rw [Fits,if_neg hk,not_or,not_not] at hfits
    obtain ⟨hbegun,hid⟩ := hfits
    have hne : assembled heads pieces ≠ [] := by
      refine assembled_ne_nil heads ?_
      rintro rfl
      exact hbegun rfl
    refine .inl ?_
    rw [if_neg hk,addFragment_head,if_neg (by simp [hid,hne]),length_changeLast,begin,if_neg hk,
      List.length_append,List.length_singleton]
    omega

theorem broken_of_not_inOrder (h : ¬ InOrder heads pieces) : Broken heads pieces := by
  induction pieces using List.reverseRecOn with
  | nil => exact absurd (inOrder_nil heads) h
  | append_singleton pieces piece ih =>
      obtain ⟨k,part⟩ := piece
      by_cases hbefore : InOrder heads pieces
      · exact broken_first hbefore (fun hfits => h (inOrder_concat.mpr ⟨hbefore,hfits⟩))
      · exact broken_concat (ih hbefore)

theorem assembled_iff (heads : Nat → CallHead) (pieces : List (Nat × String)) :
    assembled heads pieces = wholeCalls heads pieces ↔ InOrder heads pieces := by
  refine ⟨fun h => ?_,assembled_inOrder⟩
  by_contra hnot
  exact broken_ne (broken_of_not_inOrder hnot) h

variable {text : JsonText} {config : Config} {r : Reply} {fragments : List Fragment}

-- What a frame of fragments leaves of the reply's other fields, as far as its end reads them.
structure Fed (r : Reply) (fragments : List Fragment) (r' : Reply) : Prop where
  pending : r'.pendingTools = fragments.foldl addFragment r.pendingTools
  toolCalls : r'.stream.toolCalls = r.stream.toolCalls
  finishReason : r'.finishReason = r.finishReason
  choice : r'.replyChoiceIndex = 0

def deltaJson (fragments : List Fragment) : List (String × Json) :=
  [("tool_calls", .array (fragments.map Fragment.toJson))]

theorem valueOrDefault_delta (fragments : List Fragment) (key : String) :
    (valueOrDefault (.object (deltaJson fragments)) key "" : String) = "" := by
  by_cases h : "tool_calls" = key <;> simp [valueOrDefault,deltaJson,h,FromJson.valueTo]

theorem stringAt_delta (fragments : List Fragment) (field : String) :
    stringAt (.object (deltaJson fragments)) field = none := by
  by_cases h : "tool_calls" = field <;> simp [stringAt,deltaJson,h]

theorem handlePiece_delta (shape : ResponseShape) (r : Reply) (fragments : List Fragment) :
    (handlePiece shape r (.object (deltaJson fragments))).pendingTools =
        fragments.foldl addFragment r.pendingTools ∧
      (handlePiece shape r (.object (deltaJson fragments))).stream = r.stream ∧
      (handlePiece shape r (.object (deltaJson fragments))).finishReason = r.finishReason ∧
      (handlePiece shape r (.object (deltaJson fragments))).replyChoiceIndex = r.replyChoiceIndex := by
  refine ⟨?_,?_,rfl,rfl⟩
  · simp only [handlePiece,deltaJson,get?_object,find_cons,if_true,Option.getD_some,asArray]
    rw [List.foldl_map]
    rfl
  · have hcontent (key : String) :
        r.stream.appendContent (valueOrDefault (.object (deltaJson fragments)) key "") = r.stream := by
      rw [valueOrDefault_delta,Stream.appendContent,if_pos rfl]
    simp only [handlePiece,hcontent,stringAt_delta]

def choiceJson (fragments : List Fragment) : List (String × Json) :=
  [("index", .int64 0), ("delta", .object (deltaJson fragments))]

theorem stringAt_choice (fragments : List Fragment) (field : String) :
    stringAt (.object (choiceJson fragments)) field = none := by
  by_cases hi : "index" = field
  · simp [stringAt,choiceJson,hi]
  · by_cases hd : "delta" = field <;> simp [stringAt,choiceJson,hi,hd]

theorem fed_handleChoice (shape : ResponseShape) (fragments : List Fragment)
    (hr : r.replyChoiceIndex = -1 ∨ r.replyChoiceIndex = 0) :
    Fed r fragments (handleChoice shape r (.object (choiceJson fragments))) := by
  have hindex : (valueOrDefault (.object (choiceJson fragments)) "index" 0 : Int32) = 0 := by
    simp [valueOrDefault,choiceJson,FromJson.valueTo,toInt,toNumber]
  have hpiece : pieceOf (.object (choiceJson fragments)) = some (.object (deltaJson fragments)) := by
    simp [pieceOf,choiceJson]
  have hreply : (if r.replyChoiceIndex < 0 then { r with replyChoiceIndex := 0 } else r) =
      { r with replyChoiceIndex := 0 } := by
    rcases hr with h | h
    · rw [if_pos (by rw [h]; decide)]
    · rw [if_neg (by rw [h]; decide),← h]
  have hfed : Fed r fragments
      (handlePiece shape { r with replyChoiceIndex := 0 } (.object (deltaJson fragments))) := by
    obtain ⟨hpending,hstream,hreason,hchoice⟩ :=
      handlePiece_delta shape { r with replyChoiceIndex := 0 } fragments
    exact ⟨hpending,congrArg Stream.toolCalls hstream,hreason,hchoice⟩
  simp only [handleChoice,isObject,hindex,hreply,hpiece,stringAt_choice]
  simpa using hfed

theorem frameJson_eq (fragments : List Fragment) : frameJson fragments =
    .object [("choices", .array [.object (choiceJson fragments)])] := rfl

theorem fed_handleJsonToken (text : JsonText) (config : Config) (fragments : List Fragment)
    (hr : r.replyChoiceIndex = -1 ∨ r.replyChoiceIndex = 0) :
    ∃ r', handleJsonToken text config r (frameJson fragments) = .ok r' ∧ Fed r fragments r' := by
  let noted : Reply :=
    { noteUnreadFields r (frameJson fragments) kReadKeys with
      seenFields := noteFrame (noteUnreadFields r (frameJson fragments) kReadKeys).seenFields
        (frameJson fragments) }
  have hnoted : noted.pendingTools = r.pendingTools ∧ noted.stream = r.stream ∧
      noted.finishReason = r.finishReason ∧ noted.replyChoiceIndex = r.replyChoiceIndex := by
    simp only [noted,noteUnreadFields,frameJson]
    split <;> exact ⟨rfl,rfl,rfl,rfl⟩
  have hfed := @fed_handleChoice noted config.shape fragments (hnoted.2.2.2 ▸ hr)
  have herror : (frameJson fragments).get? "error" = none := by simp [frameJson_eq]
  have hfinal : isFinal text (frameJson fragments) = .ok false := by simp [isFinal,frameJson_eq]
  have husage (r' : Reply) : handleUsage config r' (frameJson fragments) = r' := by
    simp only [handleUsage,frameJson_eq,get?_object,find_cons,find_nil]
    split
    · next members h =>
        split at h
        · cases h
        · split at h <;> cases h
    · rfl
  have hmodel (r' : Reply) : handleModel r' (frameJson fragments) = r' := by
    simp [handleModel,frameJson_eq]
  refine ⟨handleChoice config.shape noted (.object (choiceJson fragments)),?_,?_⟩
  · have hchoices : ((frameJson fragments).get? "choices").getD .null =
        .array [.object (choiceJson fragments)] := by simp [frameJson_eq]
    simp only [handleJsonToken,herror,hfinal,hchoices,husage,hmodel,asArray,List.foldl_cons,
      List.foldl_nil]
    rfl
  · exact ⟨hfed.pending.trans (by rw [hnoted.1]),
      hfed.toolCalls.trans (congrArg Stream.toolCalls hnoted.2.1),
      hfed.finishReason.trans hnoted.2.2.1,hfed.choice⟩

theorem fed_frames (text : JsonText) (config : Config) (frames : List (List Fragment))
    (hr : r.replyChoiceIndex = -1 ∨ r.replyChoiceIndex = 0) :
    ∃ r', (frames.map frameJson).foldlM (handleJsonToken text config) r = .ok r' ∧
      r'.pendingTools = frames.flatten.foldl addFragment r.pendingTools ∧
      r'.stream.toolCalls = r.stream.toolCalls ∧ r'.finishReason = r.finishReason := by
  induction frames generalizing r with
  | nil => exact ⟨r,rfl,rfl,rfl,rfl⟩
  | cons fragments frames ih =>
      obtain ⟨next,hnext,hfed⟩ := fed_handleJsonToken text config fragments hr
      obtain ⟨last,hlast,hpending,hcalls,hreason⟩ := ih (.inr hfed.choice)
      refine ⟨last,?_,?_,hcalls.trans hfed.toolCalls,hreason.trans hfed.finishReason⟩
      · rw [List.map_cons,List.foldlM_cons,hnext]
        exact hlast
      · rw [hpending,hfed.pending,List.flatten_cons,List.foldl_append]

-- The call a whole argument text settles into while nothing says the reply was cut off.
def settled (text : JsonText) (acc : ToolCallAccumulator) : ToolCall :=
  ⟨acc.id, acc.name,
    if acc.arguments = "" then .null else (text.parse acc.arguments).getD (.string acc.arguments)⟩

theorem settle_whole (text : JsonText) (acc : ToolCallAccumulator) :
    settle text "" acc = .ok (settled text acc) := by
  unfold settle settled
  split
  · rfl
  · cases text.parse acc.arguments <;> rfl

theorem mapM_settle (text : JsonText) (accs : List ToolCallAccumulator) :
    accs.mapM (settle text "") = .ok (accs.map (settled text)) := by
  induction accs with
  | nil => rfl
  | cons acc accs ih =>
      rw [List.mapM_cons,settle_whole,ih]
      rfl

theorem appendToolCall_foldl (s : Stream) (calls : List ToolCall) :
    (calls.foldl Stream.appendToolCall s).toolCalls = s.toolCalls ++ calls := by
  induction calls generalizing s with
  | nil => rw [List.append_nil]; rfl
  | cons call calls ih =>
      rw [List.foldl_cons,ih,Stream.appendToolCall,List.append_assoc]
      rfl

theorem finishStream_whole (text : JsonText) (config : Config) (hr : r.finishReason = "") :
    ∃ result, finishStream text config r = .ok result ∧
      result.toolCalls = r.stream.toolCalls ++ r.pendingTools.map (settled text) := by
  have hflush : flushPendingToolCalls text r = .ok
      { r with
        stream := (r.pendingTools.map (settled text)).foldl Stream.appendToolCall r.stream
        pendingTools := [] } := by
    rw [flushPendingToolCalls,hr,mapM_settle]
    rfl
  rw [finishStream,hflush]
  exact ⟨_,rfl,appendToolCall_foldl _ _⟩

-- The argument texts gathered are the whole ones, and the reply's calls are those settled.
def Reassembled (text : JsonText) (config : Config) (seen : List String) (heads : Nat → CallHead)
    (pieces : List (Nat × String)) (frames : List (List Fragment)) : Prop :=
  ∃ r, readFrames text config seen (frames.map frameJson) = .ok r ∧
    r.pendingTools = wholeCalls heads pieces ∧
    ∃ result, chat text config seen (frames.map frameJson) = .ok result ∧
      result.toolCalls = (wholeCalls heads pieces).map (settled text)

-- An interleaving is lost as soon as a call goes on after the next one has begun.
theorem reassembled_iff (text : JsonText) (config : Config) (seen : List String)
    (heads : Nat → CallHead) (pieces : List (Nat × String)) (frames : List (List Fragment))
    (hframes : frames.flatten = labelled heads pieces) :
    Reassembled text config seen heads pieces frames ↔ InOrder heads pieces := by
  obtain ⟨r,hread,hpending,hcalls,hreason⟩ :=
    @fed_frames { seenFields := seen } text config frames (.inl rfl)
  have hgathered : r.pendingTools = assembled heads pieces := by rw [hpending,hframes]; rfl
  constructor
  · rintro ⟨r',hread',hwhole,-⟩
    obtain rfl := Except.ok.inj (hread.symm.trans hread')
    exact (assembled_iff heads pieces).mp (hgathered.symm.trans hwhole)
  · intro h
    have hwhole := hgathered.trans (assembled_inOrder h)
    obtain ⟨result,hresult,htools⟩ := finishStream_whole text config hreason
    refine ⟨r,hread,hwhole,result,?_,?_⟩
    · rw [chat,readFrames,hread]
      exact hresult
    · rw [htools,hcalls,hwhole]
      rfl

def numbered (k : Nat) : CallHead := if k = 0 then ⟨"call_a", "read"⟩ else ⟨"call_b", "bash"⟩

-- A backend whose argument texts are not JSON keeps each as it stands.
def wordText : JsonText := ⟨fun _ => none, fun _ => "", fun s => s, fun _ => ""⟩

theorem reassembled_inTurn :
    Reassembled wordText {} [] numbered [(0, "ls"), (0, " -l"), (1, "pwd")]
        [labelled numbered [(0, "ls"), (0, " -l"), (1, "pwd")]] ↔
      InOrder numbered [(0, "ls"), (0, " -l"), (1, "pwd")] :=
  reassembled_iff wordText {} [] numbered [(0, "ls"), (0, " -l"), (1, "pwd")]
    [labelled numbered [(0, "ls"), (0, " -l"), (1, "pwd")]] rfl

theorem interleaved_lost :
    ¬ ∀ (text : JsonText) (config : Config) (seen : List String) (heads : Nat → CallHead)
        (pieces : List (Nat × String)) (frames : List (List Fragment)),
      frames.flatten = labelled heads pieces →
      (∀ k ∈ begun pieces, (heads k).id ≠ "") → ((begun pieces).map (fun k => (heads k).id)).Nodup →
      Reassembled text config seen heads pieces frames := by
  intro h
  have hmerged : assembled numbered [(0, "ls"), (1, "pwd"), (0, " -l")] =
      [⟨"call_a", "read", "ls"⟩, ⟨"call_b", "bash", "pwd -l"⟩] := by
    rfl
  obtain ⟨r,hread,hwhole,-⟩ := h wordText {} [] numbered [(0, "ls"), (1, "pwd"), (0, " -l")]
    [labelled numbered [(0, "ls"), (1, "pwd"), (0, " -l")]] rfl (by decide) (by decide)
  obtain ⟨r',hread',hpending,-⟩ := @fed_frames {} wordText {}
    [labelled numbered [(0, "ls"), (1, "pwd"), (0, " -l")]] (.inl rfl)
  obtain rfl := Except.ok.inj (hread.symm.trans hread')
  rw [hwhole] at hpending
  have hlost : wholeCalls numbered [(0, "ls"), (1, "pwd"), (0, " -l")] =
      [⟨"call_a", "read", "ls -l"⟩, ⟨"call_b", "bash", "pwd"⟩] := by
    decide
  have hsame : wholeCalls numbered [(0, "ls"), (1, "pwd"), (0, " -l")] =
      assembled numbered [(0, "ls"), (1, "pwd"), (0, " -l")] := hpending.trans rfl
  rw [hlost,hmerged] at hsame
  exact absurd hsame (by decide)

end OpenAIProtocol

end PuCli
