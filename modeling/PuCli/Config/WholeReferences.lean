import Mathlib.Data.Set.Finite.Basic
import PuCli.Config.EnvExpansion
import PuCli.Library.Loops

namespace PuCli

namespace EnvExpansion

-- Every dollar in the text has a byte behind it there that is no open brace, or an empty pair.
def Inert (text : List UInt8) : Prop :=
  ∀ before after, text = before ++ kDollar :: after →
    ∃ byte rest, after = byte :: rest ∧ (byte = kOpenBrace → rest.head? = some kCloseBrace)

structure Plain where
  bytes : List UInt8
  inert : Inert bytes

structure Name where
  bytes : List UInt8
  proper : IsName bytes

-- What configurations are written in: text, and references that stand whole.
inductive Piece where
  | plain (text : Plain)
  | reference (name : Name)

def Piece.render : Piece → List UInt8
  | .plain text => text.bytes
  | .reference name => referenceTo name.bytes

def render (pieces : List Piece) : List UInt8 := pieces.flatMap Piece.render

abbrev Values := List (List UInt8 × List Piece)

def environment (values : Values) : Environment := values.map (fun p => (p.1,render p.2))

def valueOf (values : Values) (name : Name) : List Piece :=
  (values.lookup (name.bytes.takeWhile (fun byte => byte ≠ 0))).getD []

def Refers (values : Values) (name later : Name) : Prop := .reference later ∈ valueOf values name

inductive Expands (values : Values) : List Piece → Prop where
  | nil : Expands values []
  | plain {text : Plain} {rest : List Piece} :
      Expands values rest → Expands values (.plain text :: rest)
  | reference {name : Name} {rest : List Piece} :
      Expands values (valueOf values name ++ rest) → Expands values (.reference name :: rest)

variable {env : Environment} {values : Values} {text rest : List UInt8} {name : Name}
  {pieces later : List Piece} {fuel : Nat}

theorem Inert.tail {byte : UInt8} (h : Inert (byte :: text)) : Inert text :=
  fun before after htext => h (byte :: before) after (by rw [htext]; rfl)

-- No reference begins in such a text, whatever stands behind it.
theorem Inert.matchHere_eq_none {byte : UInt8} (h : Inert (byte :: text)) :
    matchHere (byte :: (text ++ rest)) = none := by
  cases hmatch : matchHere (byte :: (text ++ rest)) with
  | none => rfl
  | some found =>
      obtain ⟨⟨hsome,hclosed⟩,hwhole⟩ := matchHere_some_iff.mp hmatch
      obtain ⟨rfl,hbehind⟩ := List.cons.inj hwhole
      obtain ⟨next,tail,rfl,hnext⟩ := h [] text rfl
      obtain ⟨rfl,hinside⟩ := List.cons.inj hbehind
      obtain ⟨later,rfl⟩ := List.head?_eq_some_iff.mp (hnext rfl)
      obtain ⟨first,name,hname⟩ := List.exists_cons_of_ne_nil hsome
      rw [hname] at hinside hclosed
      obtain ⟨rfl,-⟩ := List.cons.inj hinside
      exact absurd List.mem_cons_self hclosed

theorem regexSearch_inert (h : Inert text) : regexSearch (text ++ rest)
    = (regexSearch rest).map (fun found => { found with before := text ++ found.before }) := by
  induction text with
  | nil => simp
  | cons byte text ih =>
      rw [List.cons_append,regexSearch,h.matchHere_eq_none,ih h.tail,Option.map_map]
      rfl

theorem expandOnce_inert (h : Inert text) :
    expandOnce env (text ++ rest) = (expandOnce env rest).map (fun next => text ++ next) := by
  rw [expandOnce,expandOnce,regexSearch_inert h,Option.map_map,Option.map_map]
  congr 1
  funext found
  simp

theorem expandOnce_reference : expandOnce env (referenceTo name.bytes ++ rest)
    = some (replacement env name.bytes ++ rest) := by
  have hhere : matchHere (referenceTo name.bytes ++ rest) = some (name.bytes,rest) :=
    matchHere_reference name.proper
  rw [referenceTo,List.cons_append] at hhere ⊢
  rw [expandOnce,regexSearch,hhere]
  rfl

theorem expandEnvVars_inert (h : Inert text) : expandEnvVars env fuel (text ++ rest)
    = (expandEnvVars env fuel rest).map (fun result => text ++ result) := by
  induction fuel generalizing rest with
  | zero => rfl
  | succ fuel ih =>
      rw [expandEnvVars,expandEnvVars,expandOnce_inert h]
      cases expandOnce env rest with
      | none => rfl
      | some next => exact ih

theorem ends_inert_iff (h : Inert text) : Ends env (text ++ rest) ↔ Ends env rest := by
  simp only [Ends,expandEnvVars_inert h,Option.map_eq_some_iff]
  constructor
  · rintro ⟨fuel,-,result,hresult,-⟩
    exact ⟨fuel,result,hresult⟩
  · rintro ⟨fuel,result,hresult⟩
    exact ⟨fuel,_,result,hresult,rfl⟩

theorem render_cons (piece : Piece) : render (piece :: pieces) = piece.render ++ render pieces :=
  List.flatMap_cons

theorem render_append : render (pieces ++ later) = render pieces ++ render later :=
  List.flatMap_append

theorem lookup_environment (key : List UInt8) :
    (environment values).lookup key = (values.lookup key).map render := by
  induction values with
  | nil => rfl
  | cons entry values ih =>
      rw [environment,List.map_cons,List.lookup_cons,List.lookup_cons]
      cases key == entry.1 with
      | true => rfl
      | false => exact ih

theorem replacement_environment :
    replacement (environment values) name.bytes = render (valueOf values name) := by
  rw [replacement,getenv,lookup_environment,valueOf]
  cases values.lookup (name.bytes.takeWhile (fun byte => decide (byte ≠ 0))) with
  | none => rfl
  | some value => rfl

theorem ends_reference_iff :
    Ends (environment values) (render (.reference name :: pieces)) ↔
      Ends (environment values) (render (valueOf values name ++ pieces)) := by
  rw [render_cons,Piece.render,ends_of_some expandOnce_reference,replacement_environment,
    render_append]

theorem expands_of_expandEnvVars {result : List UInt8}
    (h : expandEnvVars (environment values) fuel (render pieces) = some result) :
    Expands values pieces := by
  induction fuel generalizing pieces result with
  | zero => cases h
  | succ fuel ih =>
      induction pieces generalizing result with
      | nil => exact .nil
      | cons piece pieces ihp =>
          rw [render_cons] at h
          cases piece with
          | plain text =>
              rw [Piece.render,expandEnvVars_inert text.inert] at h
              obtain ⟨result,hresult,-⟩ := Option.map_eq_some_iff.mp h
              exact .plain (ihp hresult)
          | reference name =>
              rw [Piece.render,expandEnvVars,expandOnce_reference,replacement_environment,
                ← render_append] at h
              exact .reference (ih h)

theorem ends_iff_expands : Ends (environment values) (render pieces) ↔ Expands values pieces := by
  constructor
  · rintro ⟨fuel,result,h⟩
    exact expands_of_expandEnvVars h
  · intro h
    induction h with
    | nil => exact ends_of_none rfl
    | @plain text rest _ ih =>
        rw [render_cons]
        exact (ends_inert_iff text.inert).mpr ih
    | reference _ ih => exact ends_reference_iff.mpr ih

theorem Expands.append (h : Expands values pieces) (hlater : Expands values later) :
    Expands values (pieces ++ later) := by
  induction h with
  | nil => exact hlater
  | plain _ ih => exact .plain ih
  | reference _ ih =>
      rw [List.append_assoc] at ih
      exact .reference ih

theorem expands_of_acc (h : Acc (fun later name => Refers values name later) name) :
    Expands values [.reference name] := by
  induction h with
  | intro name _ ih =>
      have hall : ∀ pieces : List Piece, pieces ⊆ valueOf values name → Expands values pieces := by
        intro pieces hsub
        induction pieces with
        | nil => exact .nil
        | cons piece pieces ihp =>
            have hrest := ihp (List.subset_of_cons_subset hsub)
            cases piece with
            | plain text => exact .plain hrest
            | reference later => exact (ih later (hsub List.mem_cons_self)).append hrest
      exact .reference (by rw [List.append_nil]; exact hall _ (List.Subset.refl _))

theorem Expands.acc (h : Expands values pieces) (hname : .reference name ∈ pieces) :
    Acc (fun later name => Refers values name later) name := by
  induction h generalizing name with
  | nil => cases hname
  | plain _ ih =>
      rcases List.mem_cons.mp hname with heq | hrest
      · cases heq
      · exact ih hrest
  | reference _ ih =>
      rcases List.mem_cons.mp hname with heq | hrest
      · obtain rfl := Piece.reference.inj heq
        exact Acc.intro _ fun later hlater => ih (List.mem_append_left _ hlater)
      · exact ih (List.mem_append_right _ hrest)

theorem expands_iff_acc : Expands values pieces ↔
    ∀ name, .reference name ∈ pieces → Acc (fun later name => Refers values name later) name := by
  refine ⟨fun h name hname => h.acc hname,fun h => ?_⟩
  induction pieces with
  | nil => exact .nil
  | cons piece pieces ih =>
      have hrest := ih fun name hname => h name (List.mem_cons_of_mem _ hname)
      cases piece with
      | plain text => exact .plain hrest
      | reference name => exact (expands_of_acc (h name List.mem_cons_self)).append hrest

theorem finite_referred (values : Values) : {later | ∃ name, Refers values name later}.Finite := by
  have hinj : Function.Injective Piece.reference := fun _ _ h => Piece.reference.inj h
  refine ((List.finite_toSet (values.flatMap Prod.snd)).preimage hinj.injOn).subset ?_
  rintro later ⟨name,h⟩
  rw [Refers,valueOf] at h
  cases hvalue : values.lookup (name.bytes.takeWhile (fun byte => decide (byte ≠ 0))) with
  | none =>
      rw [hvalue] at h
      cases h
  | some value =>
      rw [hvalue] at h
      obtain ⟨before,after,hvalues,-⟩ := List.lookup_eq_some_iff.mp hvalue
      rw [hvalues]
      exact List.mem_flatMap.mpr
        ⟨_,List.mem_append_right _ List.mem_cons_self,h⟩

theorem ends_iff_no_loop : Ends (environment values) (render pieces) ↔
    ∀ name, .reference name ∈ pieces → ¬ Loops.MeetsLoop (Refers values) name := by
  rw [ends_iff_expands,expands_iff_acc]
  exact forall_congr' fun name => imp_congr_right fun _ =>
    Loops.acc_iff_not_meetsLoop (finite_referred values)

theorem expansion_ends_iff (env : Environment) (input : List UInt8) (values : Values)
    (pieces : List Piece) :
    (Ends env input ↔ ∃ limit, NestedWithin env limit (marked 0 input)) ∧
      (Ends (environment values) (render pieces) ↔
        ∀ name, .reference name ∈ pieces → ¬ Loops.MeetsLoop (Refers values) name) :=
  ⟨ends_iff_nestedWithin,ends_iff_no_loop⟩

-- `X` set to `${X}`.
theorem self_reference_never_ends : ¬ ∀ env input, Ends env input := by
  intro hends
  obtain ⟨fuel,result,h⟩ := hends [([0x58],referenceTo [0x58])] (referenceTo [0x58])
  have hstep : expandOnce [([0x58],referenceTo [0x58])] (referenceTo [0x58])
      = some (referenceTo [0x58]) := by decide
  induction fuel with
  | zero => cases h
  | succ fuel ih =>
      rw [expandEnvVars,hstep] at h
      exact ih h

end EnvExpansion

end PuCli
