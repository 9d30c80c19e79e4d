import PuCli.Library.Decimal
import PuCli.Library.Fresh
import PuCli.Tools.ToolResult

namespace PuCli

namespace Tools

variable {τ : Type}

def kUnderscore : UInt8 := 0x5F
def kHyphen : UInt8 := 0x2D

-- `std::isalnum` in the C locale.
def isAlnum (c : UInt8) : Bool :=
  Decimal.isDigit c ∨ (0x41 ≤ c ∧ c ≤ 0x5A) ∨ (0x61 ≤ c ∧ c ≤ 0x7A)

def isAllowedToolNameChar (c : UInt8) : Bool := isAlnum c ∨ c = kUnderscore ∨ c = kHyphen

def LegalName (display : List UInt8) : Prop :=
  display ≠ [] ∧ ∀ c ∈ display, isAllowedToolNameChar c = true

-- `tools_`, in the order of registration: a display name leads to one tool.
structure Toolbox (τ : Type) where
  tools : List (List UInt8 × τ)
  distinct : (tools.map Prod.fst).Nodup
  legal : ∀ entry ∈ tools, LegalName entry.1

namespace Toolbox

def clear : Toolbox τ where
  tools := []
  distinct := .nil
  legal := by simp

def names (box : Toolbox τ) : List (List UInt8) := box.tools.map Prod.fst

def find (box : Toolbox τ) (display : List UInt8) : Option τ := box.tools.lookup display

def sanitizeToolName (name : List UInt8) : List UInt8 :=
  name.map (fun c => if isAllowedToolNameChar c then c else kUnderscore)

def numbered (base : List UInt8) (suffix : Nat) : List UInt8 :=
  base ++ kUnderscore :: Decimal.decimal suffix

-- The loop of `RegisterTool`; `none` where it is still looking when the fuel is out.
def freeName (box : Toolbox τ) (base : List UInt8) : Nat → List UInt8 → Nat → Option (List UInt8)
  | 0, _, _ => none
  | fuel + 1, display, suffix =>
      if display ∈ box.names then freeName box base fuel (numbered base suffix) (suffix + 1)
      else some display

def displayName (box : Toolbox τ) (original : List UInt8) : Option (List UInt8) :=
  let display := sanitizeToolName original
  if display ∈ box.names then freeName box display (box.tools.length + 1) display 1
  else some display

-- The names the loop tries, its `display_name` being the first.
def tried (base : List UInt8) : Nat → List UInt8
  | 0 => base
  | suffix + 1 => numbered base (suffix + 1)

variable {box : Toolbox τ} {base display name original : List UInt8} {tool : τ}

theorem tried_injective (base : List UInt8) : Function.Injective (tried base) := by
  have hlong (suffix : Nat) : base ≠ numbered base suffix := by
    intro h
    have hlen := congrArg List.length h
    rw [numbered,List.length_append,List.length_cons] at hlen
    omega
  intro m n h
  cases m with
  | zero =>
      cases n with
      | zero => rfl
      | succ n => exact absurd h (hlong (n + 1))
  | succ m =>
      cases n with
      | zero => exact absurd h.symm (hlong (m + 1))
      | succ n =>
          have htail := List.append_cancel_left h
          exact Decimal.decimal_injective (List.tail_eq_of_cons_eq htail)

theorem freeName_search (box : Toolbox τ) (base : List UInt8) (fuel suffix : Nat) :
    freeName box base fuel (tried base suffix) (suffix + 1) =
      Fresh.search box.names (tried base) fuel suffix := by
  induction fuel generalizing suffix with
  | zero => rfl
  | succ fuel ih =>
      rw [freeName,Fresh.search]
      split
      · exact ih (suffix + 1)
      · rfl

theorem freeName_ends (box : Toolbox τ) (base : List UInt8) :
    ∃ display, freeName box base (box.tools.length + 1) base 1 = some display := by
  have hlen : box.tools.length = box.names.length := (List.length_map _).symm
  rw [hlen]
  obtain ⟨display,h⟩ := Fresh.search_ends (tried_injective base) box.names
  exact ⟨display,by rw [← h]; exact freeName_search box base _ 0⟩

-- The suffix is an `int` in the source: it stays at or below the number of tools.
structure Chosen (box : Toolbox τ) (base display : List UInt8) : Prop where
  free : display ∉ box.names
  suffix : ∃ suffix ≤ box.tools.length, display = tried base suffix

theorem displayName_chosen (h : displayName box original = some display) :
    Chosen box (sanitizeToolName original) display := by
  unfold displayName at h
  dsimp only at h
  split at h
  · have hsearch := freeName_search box (sanitizeToolName original) (box.tools.length + 1) 0
    rw [show tried (sanitizeToolName original) 0 = sanitizeToolName original from rfl] at hsearch
    rw [hsearch] at h
    obtain ⟨hfree,suffix,-,hname,hbefore⟩ := Fresh.search_sound h
    refine ⟨hfree,suffix,?_,hname⟩
    have hle := Fresh.taken_le_length (tried_injective (sanitizeToolName original))
      (fun earlier hlt => hbefore earlier (Nat.zero_le earlier) hlt)
    rwa [names,List.length_map] at hle
  · next hfree => exact ⟨Option.some.inj h ▸ hfree,0,Nat.zero_le _,(Option.some.inj h).symm⟩

theorem displayName_ends (box : Toolbox τ) (original : List UInt8) :
    ∃ display, displayName box original = some display := by
  unfold displayName
  dsimp only
  split
  · exact freeName_ends box (sanitizeToolName original)
  · exact ⟨_,rfl⟩

theorem legal_sanitizeToolName (h : original ≠ []) : LegalName (sanitizeToolName original) := by
  refine ⟨by simpa [sanitizeToolName] using h,?_⟩
  intro c hc
  obtain ⟨byte,-,rfl⟩ := List.mem_map.mp hc
  split
  · assumption
  · decide

theorem legal_tried (h : LegalName base) (suffix : Nat) : LegalName (tried base suffix) := by
  cases suffix with
  | zero => exact h
  | succ suffix =>
      refine ⟨by simp [tried,numbered],?_⟩
      intro c hc
      rcases List.mem_append.mp hc with hbase | htail
      · exact h.2 c hbase
      · rcases List.mem_cons.mp htail with rfl | hdigit
        · decide
        · have := Decimal.isDigit_of_mem_decimal hdigit
          simp [isAllowedToolNameChar,isAlnum,this]

theorem Chosen.legal (h : Chosen box (sanitizeToolName original) display) (hne : original ≠ []) :
    LegalName display := by
  obtain ⟨suffix,-,rfl⟩ := h.suffix
  exact legal_tried (legal_sanitizeToolName hne) suffix

def put (box : Toolbox τ) (display : List UInt8) (tool : τ) (hfree : display ∉ box.names)
    (hlegal : LegalName display) : Toolbox τ where
  tools := box.tools ++ [(display,tool)]
  distinct := by
    rw [List.map_append]
    exact List.nodup_append.mpr ⟨box.distinct,List.nodup_singleton _,by
      intro a ha b hb
      rw [List.mem_singleton.mp hb]
      rintro rfl
      exact hfree ha⟩
  legal := by
    intro entry hentry
    rcases List.mem_append.mp hentry with hold | hnew
    · exact box.legal entry hold
    · rw [List.mem_singleton.mp hnew]
      exact hlegal

variable (nameOf : τ → List UInt8)

-- `none` for a null pointer. Where the source returns true, the name the tool went under.
def registerTool (box : Toolbox τ) : Option τ → Option (Toolbox τ × Option (List UInt8))
  | none => some (box,none)
  | some tool =>
      if hempty : nameOf tool = [] then some (box,none)
      else match h : displayName box (nameOf tool) with
        | none => none
        | some display =>
            have chosen := displayName_chosen h
            some (box.put display tool chosen.free (chosen.legal hempty),some display)

def registerAll (box : Toolbox τ) :
    List (Option τ) → Option (Toolbox τ × List (Option (List UInt8)))
  | [] => some (box,[])
  | call :: later =>
      (registerTool nameOf box call).bind (fun registered =>
        (registerAll registered.1 later).map (fun rest => (rest.1,registered.2 :: rest.2)))

def executeTool (text : JsonText) (execute : τ → Json → ToolContext → String) (box : Toolbox τ)
    (name : List UInt8) (args : Json) (ctx : ToolContext) : String :=
  match box.find name with
  | none => makeToolResultJson text false [] (Utf8.bytesOf "Tool not found: " ++ name) (-1) false .none []
  | some tool => execute tool args ctx

def Refused (call : Option τ) : Prop := ∀ tool, call = some tool → nameOf tool = []

def Reaches (text : JsonText) (args : Json) (ctx : ToolContext) (box : Toolbox τ)
    (name : List UInt8) (tool : τ) : Prop :=
  ∀ execute, executeTool text execute box name args ctx = execute tool args ctx

def entries (given : List (Option (List UInt8))) (calls : List (Option τ)) : List (List UInt8 × τ) :=
  (given.zip calls).filterMap (fun p => p.1.bind (fun display => p.2.map (fun tool => (display,tool))))

variable {nameOf : τ → List UInt8} {after mid : Toolbox τ} {call : Option τ}
  {given : List (Option (List UInt8))} {calls front back : List (Option τ)} {text : JsonText}
  {args : Json} {ctx : ToolContext}

theorem mem_entries : (display,tool) ∈ entries given calls ↔
    ∃ i : Nat, given[i]? = some (some display) ∧ calls[i]? = some (some tool) := by
  rw [entries,List.mem_filterMap]
  simp only [List.mem_iff_getElem?,List.getElem?_zip_eq_some]
  constructor
  · rintro ⟨⟨name,stored⟩,⟨i,hname,hstored⟩,h⟩
    simp only [Option.bind_eq_some_iff,Option.map_eq_some_iff,Prod.mk.injEq] at h
    obtain ⟨_,rfl,_,rfl,rfl,rfl⟩ := h
    exact ⟨i,hname,hstored⟩
  · rintro ⟨i,hname,hstored⟩
    exact ⟨(some display,some tool),⟨i,hname,hstored⟩,rfl⟩

theorem find_eq_some_iff : box.find display = some tool ↔ (display,tool) ∈ box.tools := by
  rw [find,List.lookup_eq_some_iff]
  constructor
  · rintro ⟨front,back,htools,-⟩
    exact htools ▸ List.mem_append_right _ List.mem_cons_self
  · intro hmem
    obtain ⟨front,back,htools⟩ := List.append_of_mem hmem
    refine ⟨front,back,htools,?_⟩
    intro entry hentry
    have hnodup := box.distinct
    rw [htools,List.map_append,List.map_cons] at hnodup
    have hne := (List.nodup_append.mp hnodup).2.2 entry.1 (List.mem_map_of_mem hentry) display
      List.mem_cons_self
    simpa using Ne.symm hne

theorem find_eq_none_iff : box.find display = none ↔ display ∉ box.names := by
  rw [find,List.lookup_eq_none_iff,names,List.mem_map]
  constructor
  · rintro h ⟨entry,hentry,rfl⟩
    simpa using h entry hentry
  · intro h entry hentry
    simpa using fun heq => h ⟨entry,hentry,heq.symm⟩

theorem reaches_iff : Reaches text args ctx box name tool ↔ box.find name = some tool := by
  classical
  unfold Reaches executeTool
  cases hfind : box.find name with
  | none =>
      simp only [reduceCtorEq,iff_false,not_forall]
      let missing := makeToolResultJson text false [] (Utf8.bytesOf "Tool not found: " ++ name) (-1)
        false .none []
      refine ⟨fun _ _ _ => missing ++ "!",?_⟩
      intro h
      have hlen := congrArg String.length h
      simp [missing] at hlen
  | some stored =>
      constructor
      · intro h
        by_contra hne
        have hdiff := h (fun t _ _ => if t = stored then "" else "!")
        have hother : tool ≠ stored := fun heq => hne (by rw [heq])
        simp [hother] at hdiff
      · intro h execute
        obtain rfl := Option.some.inj h
        rfl

theorem registerTool_ends (nameOf : τ → List UInt8) (box : Toolbox τ) (call : Option τ) :
    ∃ registered, registerTool nameOf box call = some registered := by
  unfold registerTool
  split
  · exact ⟨_,rfl⟩
  · next tool =>
      split
      · exact ⟨_,rfl⟩
      · split
        · next hnone =>
            obtain ⟨display,h⟩ := displayName_ends box (nameOf tool)
            exact absurd (h.symm.trans hnone) (by simp)
        · exact ⟨_,rfl⟩

theorem registerTool_cases {answer : Option (List UInt8)}
    (h : registerTool nameOf box call = some (after,answer)) :
    (Refused nameOf call ∧ after = box ∧ answer = none) ∨
      ∃ tool display, call = some tool ∧ nameOf tool ≠ [] ∧ answer = some display ∧
        after.tools = box.tools ++ [(display,tool)] ∧
        Chosen box (sanitizeToolName (nameOf tool)) display := by
  unfold registerTool at h
  split at h
  · obtain ⟨rfl,rfl⟩ := Prod.mk.inj (Option.some.inj h)
    exact .inl ⟨by simp [Refused],rfl,rfl⟩
  · next tool =>
      split at h
      · next hempty =>
          obtain ⟨rfl,rfl⟩ := Prod.mk.inj (Option.some.inj h)
          exact .inl ⟨fun _ htool => Option.some.inj htool ▸ hempty,rfl,rfl⟩
      · next hne =>
          split at h
          · cases h
          · next display hname =>
              obtain ⟨rfl,rfl⟩ := Prod.mk.inj (Option.some.inj h)
              exact .inr ⟨tool,display,rfl,hne,rfl,rfl,displayName_chosen hname⟩

theorem registerAll_ends (nameOf : τ → List UInt8) (box : Toolbox τ) (calls : List (Option τ)) :
    ∃ after given, registerAll nameOf box calls = some (after,given) := by
  induction calls generalizing box with
  | nil => exact ⟨box,[],rfl⟩
  | cons call later ih =>
      obtain ⟨⟨next,answer⟩,hcall⟩ := registerTool_ends nameOf box call
      obtain ⟨after,given,hlater⟩ := ih next
      refine ⟨after,answer :: given,?_⟩
      rw [registerAll,hcall,Option.bind_some,hlater]
      rfl

theorem registerAll_cons {later : List (Option τ)}
    (h : registerAll nameOf box (call :: later) = some (after,given)) :
    ∃ next answer rest, registerTool nameOf box call = some (next,answer) ∧
      registerAll nameOf next later = some (after,rest) ∧ given = answer :: rest := by
  rw [registerAll,Option.bind_eq_some_iff] at h
  obtain ⟨⟨next,answer⟩,hcall,h⟩ := h
  obtain ⟨⟨_,rest⟩,hlater,h⟩ := Option.map_eq_some_iff.mp h
  obtain ⟨rfl,rfl⟩ := Prod.mk.inj h
  exact ⟨next,answer,rest,hcall,hlater,rfl⟩

theorem registerAll_append (h : registerAll nameOf box (front ++ back) = some (after,given)) :
    ∃ mid before since, registerAll nameOf box front = some (mid,before) ∧
      registerAll nameOf mid back = some (after,since) ∧ given = before ++ since := by
  induction front generalizing box given with
  | nil => exact ⟨box,[],given,rfl,h,rfl⟩
  | cons call front ih =>
      obtain ⟨next,answer,rest,hcall,hlater,rfl⟩ := registerAll_cons h
      obtain ⟨mid,before,since,hfront,hback,rfl⟩ := ih hlater
      refine ⟨mid,answer :: before,since,?_,hback,rfl⟩
      rw [registerAll,hcall,Option.bind_some,hfront]
      rfl

def Answers (nameOf : τ → List UInt8) (answer : Option (List UInt8)) (call : Option τ) : Prop :=
  (answer = none ↔ Refused nameOf call) ∧ (answer.isSome → call.isSome)

theorem registerAll_spec (h : registerAll nameOf box calls = some (after,given)) :
    List.Forall₂ (Answers nameOf) given calls ∧ after.tools = box.tools ++ entries given calls := by
  induction calls generalizing box given with
  | nil =>
      obtain ⟨rfl,rfl⟩ := Prod.mk.inj (Option.some.inj h)
      exact ⟨.nil,(List.append_nil _).symm⟩
  | cons call later ih =>
      obtain ⟨next,answer,rest,hcall,hlater,rfl⟩ := registerAll_cons h
      obtain ⟨hrest,htools⟩ := ih hlater
      rcases registerTool_cases hcall with ⟨hrefused,rfl,rfl⟩ |
        ⟨tool,display,rfl,hne,rfl,hput,-⟩
      · refine ⟨.cons ⟨by simp [hrefused],by simp⟩ hrest,?_⟩
        rw [htools]
        rfl
      · have haccepted : ¬ Refused nameOf (some tool) := fun hr => hne (hr tool rfl)
        refine ⟨.cons ⟨by simp [haccepted],by simp⟩ hrest,?_⟩
        rw [htools,hput,List.append_assoc]
        rfl

theorem registerAll_suffix (h : registerAll nameOf box calls = some (after,given)) {i : Nat}
    (hi : given[i]? = some (some display)) : ∃ tool suffix, calls[i]? = some (some tool) ∧
      suffix ≤ box.tools.length + i ∧ display = tried (sanitizeToolName (nameOf tool)) suffix := by
  induction calls generalizing box given i with
  | nil =>
      obtain ⟨-,rfl⟩ := Prod.mk.inj (Option.some.inj h)
      cases hi
  | cons call later ih =>
      obtain ⟨next,answer,rest,hcall,hlater,rfl⟩ := registerAll_cons h
      rcases registerTool_cases hcall with ⟨-,rfl,rfl⟩ | ⟨stored,shown,rfl,-,rfl,hput,hchosen⟩
      · cases i with
        | zero => cases hi
        | succ i =>
            obtain ⟨tool,suffix,hi,hle,hname⟩ := ih hlater hi
            exact ⟨tool,suffix,hi,by omega,hname⟩
      · cases i with
        | zero =>
            obtain ⟨suffix,hle,hname⟩ := hchosen.suffix
            exact ⟨stored,suffix,rfl,hle,Option.some.inj (Option.some.inj hi) ▸ hname⟩
        | succ i =>
            obtain ⟨tool,suffix,hi,hle,hname⟩ := ih hlater hi
            rw [hput,List.length_append,List.length_singleton] at hle
            exact ⟨tool,suffix,hi,by omega,hname⟩

theorem names_entries (h : List.Forall₂ (Answers nameOf) given calls) :
    (entries given calls).map Prod.fst = given.filterMap id := by
  induction h with
  | nil => rfl
  | @cons answer call given later hcall _ ih =>
      have hzip : entries (answer :: given) (call :: later) =
          ((answer.bind (fun display => call.map (fun tool => (display,tool)))).toList ++
            entries given later) := by
        rw [entries,List.zip_cons_cons,List.filterMap_cons]
        dsimp only
        cases answer.bind (fun display => call.map (fun tool => (display,tool))) <;> rfl
      rw [hzip,List.map_append,ih]
      cases answer with
      | none => rfl
      | some display =>
          obtain ⟨tool,rfl⟩ := Option.isSome_iff_exists.mp (hcall.2 rfl)
          rfl

structure Named (text : JsonText) (args : Json) (ctx : ToolContext) (nameOf : τ → List UInt8)
    (calls : List (Option τ)) (box : Toolbox τ) (given : List (Option (List UInt8))) : Prop where
  answered : ∀ (i : Nat) call, calls[i]? = some call →
    ∃ answer, given[i]? = some answer ∧ (answer = none ↔ Refused nameOf call)
  distinct : (given.filterMap id).Nodup
  legal : ∀ display, some display ∈ given → LegalName display
  suffixed : ∀ (i : Nat) display, given[i]? = some (some display) → ∃ tool suffix,
    calls[i]? = some (some tool) ∧ suffix ≤ i ∧ display = tried (sanitizeToolName (nameOf tool)) suffix
  reached : ∀ display tool, Reaches text args ctx box display tool ↔
    ∃ i : Nat, given[i]? = some (some display) ∧ calls[i]? = some (some tool)
  -- Each `unique_ptr` owns a tool of its own.
  once : ∀ (i : Nat) tool, calls[i]? = some (some tool) →
    (∀ j : Nat, calls[j]? = some (some tool) → j = i) → nameOf tool ≠ [] →
    ∃! display, Reaches text args ctx box display tool

theorem registerAll_named (text : JsonText) (args : Json) (ctx : ToolContext)
    (h : registerAll nameOf clear calls = some (box,given)) :
    Named text args ctx nameOf calls box given := by
  obtain ⟨hanswers,htools⟩ := registerAll_spec h
  rw [clear,List.nil_append] at htools
  have hnames : box.names = given.filterMap id := by rw [names,htools,names_entries hanswers]
  have hreached (display : List UInt8) (tool : τ) : Reaches text args ctx box display tool ↔
      ∃ i : Nat, given[i]? = some (some display) ∧ calls[i]? = some (some tool) := by
    rw [reaches_iff,find_eq_some_iff,htools,mem_entries]
  have hanswered (i : Nat) (call : Option τ) (hi : calls[i]? = some call) :
      ∃ answer, given[i]? = some answer ∧ (answer = none ↔ Refused nameOf call) := by
    obtain ⟨hlt,rfl⟩ := List.getElem?_eq_some_iff.mp hi
    have hg : i < given.length := hanswers.length_eq ▸ hlt
    exact ⟨given[i],List.getElem?_eq_getElem hg,(hanswers.get hg hlt).1⟩
  refine ⟨hanswered,hnames ▸ box.distinct,?_,?_,hreached,?_⟩
  · intro display hmem
    have hname : display ∈ box.names := hnames ▸ List.mem_filterMap.mpr ⟨some display,hmem,rfl⟩
    obtain ⟨entry,hentry,rfl⟩ := List.mem_map.mp hname
    exact box.legal entry hentry
  · intro i display hi
    obtain ⟨tool,suffix,hi,hle,hname⟩ := registerAll_suffix h hi
    rw [clear,List.length_nil,Nat.zero_add] at hle
    exact ⟨tool,suffix,hi,hle,hname⟩
  · intro i tool hi honly hne
    obtain ⟨answer,hg,hiff⟩ := hanswered i (some tool) hi
    cases answer with
    | none => exact absurd (hiff.mp rfl tool rfl) hne
    | some display =>
        refine ⟨display,(hreached display tool).mpr ⟨i,hg,hi⟩,?_⟩
        intro other hother
        obtain ⟨j,hgj,hj⟩ := (hreached other tool).mp hother
        rw [honly j hj,hg] at hgj
        exact (Option.some.inj (Option.some.inj hgj)).symm

theorem registerAll_stable (h : registerAll nameOf mid back = some (after,given))
    (hr : Reaches text args ctx mid display tool) : Reaches text args ctx after display tool := by
  rw [reaches_iff,find_eq_some_iff] at hr ⊢
  rw [(registerAll_spec h).2]
  exact List.mem_append_left _ hr

theorem toolNames_distinct_legal_stable (text : JsonText) (args : Json) (ctx : ToolContext)
    (nameOf : τ → List UInt8) (calls : List (Option τ)) :
    ∃ box given, registerAll nameOf clear calls = some (box,given) ∧
      Named text args ctx nameOf calls box given ∧
      ∀ front back, calls = front ++ back → ∃ early before,
        registerAll nameOf clear front = some (early,before) ∧ before <+: given ∧
        ∀ display tool, Reaches text args ctx early display tool →
          Reaches text args ctx box display tool := by
  obtain ⟨box,given,h⟩ := registerAll_ends nameOf clear calls
  refine ⟨box,given,h,registerAll_named text args ctx h,?_⟩
  rintro front back rfl
  obtain ⟨early,before,since,hfront,hback,rfl⟩ := registerAll_append h
  exact ⟨early,before,hfront,List.prefix_append before since,
    fun _ _ hr => registerAll_stable hback hr⟩

end Toolbox

end Tools

end PuCli
