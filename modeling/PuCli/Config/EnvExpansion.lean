import Mathlib.Data.List.TakeWhile
import Mathlib.Data.Multiset.DershowitzManna
import Mathlib.Tactic.Abel

namespace PuCli

namespace EnvExpansion

def kDollar : UInt8 := 0x24
def kOpenBrace : UInt8 := 0x7B
def kCloseBrace : UInt8 := 0x7D

structure Found where
  before : List UInt8
  name : List UInt8
  after : List UInt8
  deriving DecidableEq

-- A dollar, an open brace, one byte or more that is no closing brace, and a closing brace.
def matchHere : List UInt8 → Option (List UInt8 × List UInt8)
  | dollar :: brace :: rest =>
      if dollar = kDollar ∧ brace = kOpenBrace then
        match rest.dropWhile (fun byte => byte ≠ kCloseBrace) with
        | [] => none
        | _ :: after =>
            let name := rest.takeWhile (fun byte => byte ≠ kCloseBrace)
            if name.isEmpty then none else some (name,after)
      else none
  | _ => none

-- `regex_search`: the leftmost match.
def regexSearch : List UInt8 → Option Found
  | [] => none
  | byte :: text =>
      match matchHere (byte :: text) with
      | some (name,after) => some ⟨[],name,after⟩
      | none => (regexSearch text).map (fun found => { found with before := byte :: found.before })

abbrev Environment := List (List UInt8 × List UInt8)

-- `getenv` is given the name up to its first zero byte.
def getenv (env : Environment) (name : List UInt8) : Option (List UInt8) :=
  env.lookup (name.takeWhile (fun byte => byte ≠ 0))

def replacement (env : Environment) (name : List UInt8) : List UInt8 := (getenv env name).getD []

def expandOnce (env : Environment) (result : List UInt8) : Option (List UInt8) :=
  (regexSearch result).map (fun found => found.before ++ (replacement env found.name ++ found.after))

-- The loop, and `none` where it is still going when the fuel is out.
def expandEnvVars (env : Environment) : Nat → List UInt8 → Option (List UInt8)
  | 0, _ => none
  | fuel + 1, result =>
      match expandOnce env result with
      | none => some result
      | some next => expandEnvVars env fuel next

def Ends (env : Environment) (input : List UInt8) : Prop :=
  ∃ fuel result, expandEnvVars env fuel input = some result

-- A text whose bytes are marked with the number of values they are nested in.
abbrev Marked := List (UInt8 × Nat)

def plainText (s : Marked) : List UInt8 := s.map Prod.fst

def marked (depth : Nat) (text : List UInt8) : Marked := text.map (fun byte => (byte,depth))

-- A value stands one deeper than the brace that closes its reference.
def markedOnce (env : Environment) (s : Marked) : Option Marked :=
  (regexSearch (plainText s)).map (fun found =>
    let close := found.before.length + found.name.length + 2
    let depth := ((s[close]?).map Prod.snd).getD 0
    s.take found.before.length ++
      (marked (depth + 1) (replacement env found.name) ++ s.drop (close + 1)))

def markedAfter (env : Environment) : Nat → Marked → Option Marked
  | 0, s => some s
  | steps + 1, s => (markedOnce env s).bind (markedAfter env steps)

def NestedWithin (env : Environment) (limit : Nat) (s : Marked) : Prop :=
  ∀ steps t, markedAfter env steps s = some t → ∀ p ∈ t, p.2 ≤ limit

variable {env : Environment} {text before name after : List UInt8} {found : Found} {s t : Marked}
  {limit depth steps fuel : Nat}

def referenceTo (name : List UInt8) : List UInt8 := kDollar :: kOpenBrace :: (name ++ [kCloseBrace])

structure IsName (name : List UInt8) : Prop where
  some : name ≠ []
  closed : kCloseBrace ∉ name

theorem matchHere_reference (h : IsName name) :
    matchHere (referenceTo name ++ after) = some (name,after) := by
  have hin : ∀ byte ∈ name, decide (byte ≠ kCloseBrace) = true := by
    intro byte hb
    exact decide_eq_true fun he => h.closed (he ▸ hb)
  have htext : referenceTo name ++ after
      = kDollar :: kOpenBrace :: (name ++ kCloseBrace :: after) := by simp [referenceTo]
  have hdrop : (name ++ kCloseBrace :: after).dropWhile (fun byte => decide (byte ≠ kCloseBrace))
      = kCloseBrace :: after := by
    rw [List.dropWhile_append_of_pos hin]
    simp
  have htake : (name ++ kCloseBrace :: after).takeWhile (fun byte => decide (byte ≠ kCloseBrace))
      = name := by
    rw [List.takeWhile_append_of_pos hin]
    simp
  simp only [htext,matchHere,hdrop,htake,List.isEmpty_iff,h.some,and_self,if_true,if_false]

theorem matchHere_some_iff : matchHere text = some (name,after) ↔
    IsName name ∧ text = referenceTo name ++ after := by
  constructor
  · intro h
    match text with
    | [] => cases h
    | [byte] => cases h
    | dollar :: brace :: rest =>
        simp only [matchHere] at h
        split at h
        · next hopen =>
            obtain ⟨rfl,rfl⟩ := hopen
            split at h
            · cases h
            · next byte tail hdrop =>
                split at h
                · cases h
                · next hname =>
                    obtain ⟨rfl,rfl⟩ := Prod.mk.inj (Option.some.inj h)
                    have hclose : byte = kCloseBrace := by
                      have hhead := List.head?_dropWhile_not (fun b => decide (b ≠ kCloseBrace)) rest
                      rw [hdrop] at hhead
                      simpa using hhead
                    refine ⟨⟨by simpa using hname,fun hmem => ?_⟩,?_⟩
                    · simpa using List.mem_takeWhile_imp hmem
                    · have hrest := List.takeWhile_append_dropWhile
                        (p := fun b => decide (b ≠ kCloseBrace)) (l := rest)
                      rw [hdrop,hclose] at hrest
                      conv_lhs => rw [← hrest]
                      simp [referenceTo]
        · cases h
  · rintro ⟨hname,rfl⟩
    exact matchHere_reference hname

theorem regexSearch_some (h : regexSearch text = some found) :
    IsName found.name ∧ text = found.before ++ (referenceTo found.name ++ found.after) := by
  induction text generalizing found with
  | nil => cases h
  | cons byte text ih =>
      rw [regexSearch] at h
      split at h
      · next name after hhere =>
          obtain ⟨hname,htext⟩ := matchHere_some_iff.mp hhere
          obtain rfl := Option.some.inj h
          exact ⟨hname,htext⟩
      · obtain ⟨later,hlater,rfl⟩ := Option.map_eq_some_iff.mp h
        obtain ⟨hname,htext⟩ := ih hlater
        exact ⟨hname,by rw [htext]; rfl⟩

theorem plainText_marked : plainText (marked depth text) = text := by
  simp [plainText,marked,Function.comp_def]

theorem plainText_append : plainText (s ++ t) = plainText s ++ plainText t := List.map_append

theorem drop_behind (front opened back : Marked) (close : UInt8 × Nat) :
    (front ++ (opened ++ close :: back)).drop (front.length + opened.length + 1) = back := by
  have hlength : front.length + opened.length + 1 = (front ++ (opened ++ [close])).length := by
    simp
    omega
  have hgroup : front ++ (opened ++ close :: back) = (front ++ (opened ++ [close])) ++ back := by simp
  rw [hlength,hgroup,List.drop_left]

-- What one pass of the loop does to the marks: a reference gives way to its value.
theorem markedOnce_some (h : markedOnce env s = some t) :
    ∃ front opened depth back name, s = front ++ (opened ++ (kCloseBrace,depth) :: back) ∧
      t = front ++ (marked (depth + 1) (replacement env name) ++ back) ∧
      kCloseBrace ∉ plainText opened ∧ expandOnce env (plainText s) = some (plainText t) := by
  obtain ⟨⟨before,name,after⟩,hfound,ht⟩ := Option.map_eq_some_iff.mp h
  obtain ⟨hname,htext⟩ := regexSearch_some hfound
  have hsplit : plainText s = before ++ ((kDollar :: kOpenBrace :: name) ++ kCloseBrace :: after) := by
    rw [htext]
    simp [referenceTo]
  obtain ⟨front,rest,rfl,hbefore,hrest⟩ := List.map_eq_append_iff.mp hsplit
  obtain ⟨opened,tail,rfl,hopened,htail⟩ := List.map_eq_append_iff.mp hrest
  obtain ⟨⟨close,depth⟩,back,rfl,hclose,hback⟩ := List.map_eq_cons_iff.mp htail
  obtain rfl : close = kCloseBrace := hclose
  have hfront : before.length = front.length := by rw [← hbefore,List.length_map]
  have hlen : name.length + 2 = opened.length := by
    rw [← List.length_map (f := Prod.fst),hopened]
    rfl
  have hat : before.length + name.length + 2 = front.length + opened.length := by omega
  simp only [hat] at ht
  rw [hfront] at ht
  have hdepth : (front ++ (opened ++ (kCloseBrace,depth) :: back))[front.length + opened.length]?
      = some (kCloseBrace,depth) := by simp
  rw [hdepth,drop_behind,List.take_left] at ht
  refine ⟨front,opened,depth,back,name,rfl,ht.symm,?_,?_⟩
  · rw [plainText,hopened]
    simpa [kCloseBrace,kDollar,kOpenBrace] using hname.closed
  · rw [expandOnce,hfound,← ht,Option.map_some,plainText_append,plainText_append,Option.map_some,
      Option.getD_some,plainText_marked]
    rw [plainText,plainText,hbefore,hback]

theorem markedOnce_none_iff : markedOnce env s = none ↔ expandOnce env (plainText s) = none := by
  rw [markedOnce,expandOnce,Option.map_eq_none_iff,Option.map_eq_none_iff]

theorem ends_of_none (h : expandOnce env text = none) : Ends env text :=
  ⟨1,text,by rw [expandEnvVars,h]⟩

theorem ends_of_some {next : List UInt8} (h : expandOnce env text = some next) :
    Ends env text ↔ Ends env next := by
  constructor
  · rintro ⟨fuel,result,hf⟩
    cases fuel with
    | zero => cases hf
    | succ fuel =>
        rw [expandEnvVars,h] at hf
        exact ⟨fuel,result,hf⟩
  · rintro ⟨fuel,result,hf⟩
    exact ⟨fuel + 1,result,by rw [expandEnvVars,h]; exact hf⟩

theorem depth_markedAfter (h : markedAfter env steps s = some t) (hs : ∀ p ∈ s, p.2 ≤ depth) :
    ∀ p ∈ t, p.2 ≤ depth + steps := by
  induction steps generalizing s depth with
  | zero =>
      obtain rfl := Option.some.inj h
      exact hs
  | succ steps ih =>
      obtain ⟨next,hnext,hafter⟩ := Option.bind_eq_some_iff.mp h
      obtain ⟨front,opened,level,back,name,rfl,rfl,-,-⟩ := markedOnce_some hnext
      have hlevel : level ≤ depth := hs (kCloseBrace,level) (by simp)
      have hall : ∀ p ∈ front ++ (marked (level + 1) (replacement env name) ++ back),
          p.2 ≤ depth + 1 := by
        intro p hp
        rcases List.mem_append.mp hp with hp | hp
        · exact (hs p (by simp [hp])).trans (by omega)
        rcases List.mem_append.mp hp with hp | hp
        · obtain ⟨byte,-,rfl⟩ := List.mem_map.mp hp
          exact Nat.succ_le_succ hlevel
        · exact (hs p (by simp [hp])).trans (by omega)
      intro p hp
      have hle := ih hafter hall p hp
      omega

theorem steps_lt_fuel {result : List UInt8} (h : expandEnvVars env fuel (plainText s) = some result)
    (hafter : markedAfter env steps s = some t) : steps < fuel := by
  induction steps generalizing s fuel with
  | zero =>
      cases fuel with
      | zero => cases h
      | succ fuel => exact Nat.succ_pos fuel
  | succ steps ih =>
      obtain ⟨next,hnext,hrest⟩ := Option.bind_eq_some_iff.mp hafter
      obtain ⟨-,-,-,-,-,-,-,-,hstep⟩ := markedOnce_some hnext
      cases fuel with
      | zero => cases h
      | succ fuel =>
          rw [expandEnvVars,hstep] at h
          exact Nat.succ_lt_succ (ih h hrest)

-- How far below the limit each closing brace stands. A step takes one of them away and puts
-- braces in its place that all stand lower.
def closers (limit : Nat) (s : Marked) : Multiset Nat :=
  ((s.filter (fun p => p.1 = kCloseBrace)).map (fun p => limit - p.2) : List Nat)

theorem closers_append : closers limit (s ++ t) = closers limit s + closers limit t := by
  simp [closers]

theorem closers_of_closed (h : kCloseBrace ∉ plainText s) : closers limit s = 0 := by
  have hnone : s.filter (fun p => p.1 = kCloseBrace) = [] := by
    rw [List.filter_eq_nil_iff]
    intro p hp hclose
    exact h (List.mem_map.mpr ⟨p,hp,by simpa using hclose⟩)
  simp [closers,hnone]

theorem closers_decrease (h : markedOnce env s = some t) (ht : ∀ p ∈ t, p.2 ≤ limit) :
    Multiset.IsDershowitzMannaLT (closers limit t) (closers limit s) := by
  obtain ⟨front,opened,depth,back,name,rfl,rfl,hopened,-⟩ := markedOnce_some h
  refine ⟨closers limit front + closers limit back,
    closers limit (marked (depth + 1) (replacement env name)),{limit - depth},?_,?_,?_,?_⟩
  · exact Multiset.singleton_ne_zero _
  · rw [closers_append,closers_append]
    abel
  · have hclose : closers limit ((kCloseBrace,depth) :: back) = {limit - depth} + closers limit back := by
      simp [closers]
    rw [closers_append,closers_append,closers_of_closed hopened,hclose]
    abel
  · intro level hlevel
    refine ⟨limit - depth,Multiset.mem_singleton_self _,?_⟩
    obtain ⟨p,hp,rfl⟩ := List.mem_map.mp (Multiset.mem_coe.mp hlevel)
    obtain ⟨hp,-⟩ := List.mem_filter.mp hp
    have hle := ht p (by simp [hp])
    obtain ⟨byte,-,rfl⟩ := List.mem_map.mp hp
    simp only at hle ⊢
    omega

theorem ends_of_nestedWithin (h : NestedWithin env limit s) : Ends env (plainText s) := by
  induction hc : closers limit s using
    (Multiset.wellFounded_isDershowitzMannaLT (α := Nat)).induction generalizing s with
  | h c ih =>
      cases hnext : markedOnce env s with
      | none => exact ends_of_none (markedOnce_none_iff.mp hnext)
      | some next =>
          obtain ⟨-,-,-,-,-,-,-,-,hstep⟩ := markedOnce_some hnext
          have hdeep := h 1 next (by simp [markedAfter,hnext])
          have hrest : NestedWithin env limit next := fun steps t ht =>
            h (steps + 1) t (by rw [markedAfter,hnext]; exact ht)
          rw [ends_of_some hstep]
          exact ih _ (hc ▸ closers_decrease hnext hdeep) hrest rfl

theorem ends_iff_nestedWithin :
    Ends env text ↔ ∃ limit, NestedWithin env limit (marked 0 text) := by
  constructor
  · rintro ⟨fuel,result,h⟩
    refine ⟨fuel,fun steps t ht p hp => ?_⟩
    have hsteps := steps_lt_fuel (by rw [plainText_marked]; exact h) ht
    have hflat : ∀ q ∈ marked 0 text, q.2 ≤ 0 := by simp [marked]
    have hdepth := depth_markedAfter ht hflat p hp
    omega
  · rintro ⟨limit,h⟩
    simpa only [plainText_marked] using ends_of_nestedWithin h

-- `X` set to `a${Y}` and `Y` to `b`.
example : expandEnvVars [([0x58],0x61 :: referenceTo [0x59]),([0x59],[0x62])] 3 (referenceTo [0x58])
    = some [0x61,0x62] := by decide

end EnvExpansion

end PuCli
