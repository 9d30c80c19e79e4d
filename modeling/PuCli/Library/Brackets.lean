import Mathlib.Data.List.Infix
import Mathlib.Tactic.Common

-- Nesting of brackets in a text with quoted parts, read from the front.
namespace Brackets

inductive Mark where
  | opens
  | closes
  | quotes
  | escapes
  | plain
  deriving DecidableEq

inductive Mode where
  | outside
  | inside
  | escaped
  deriving DecidableEq

structure Scan where
  mode : Mode
  depth : Nat
  deriving DecidableEq

variable {α : Type} (mark : α → Mark)

def step (s : Scan) (a : α) : Scan :=
  match s.mode,mark a with
  | .outside,.opens => ⟨.outside,s.depth + 1⟩
  | .outside,.closes => ⟨.outside,s.depth - 1⟩
  | .outside,.quotes => ⟨.inside,s.depth⟩
  | .outside,_ => s
  | .inside,.quotes => ⟨.outside,s.depth⟩
  | .inside,.escapes => ⟨.escaped,s.depth⟩
  | .inside,_ => s
  | .escaped,_ => ⟨.inside,s.depth⟩

def scan (s : Scan) (text : List α) : Scan := text.foldl (step mark) s

structure Balanced (text : List α) : Prop where
  settles : ∀ depth, scan mark ⟨.outside,depth⟩ text = ⟨.outside,depth⟩
  stays : ∀ depth front, front <+: text → depth ≤ (scan mark ⟨.outside,depth⟩ front).depth

structure Quoted (text : List α) : Prop where
  settles : ∀ depth, scan mark ⟨.inside,depth⟩ text = ⟨.inside,depth⟩
  stays : ∀ depth front, front <+: text → (scan mark ⟨.inside,depth⟩ front).depth = depth

variable {mark} {a b : α} {text front back inner : List α}

theorem scan_cons (s : Scan) (a : α) (text : List α) :
    scan mark s (a :: text) = scan mark (step mark s a) text := rfl

theorem scan_append (s : Scan) (front back : List α) :
    scan mark s (front ++ back) = scan mark (scan mark s front) back := List.foldl_append

theorem prefix_append_cases {p : List α} (h : p <+: front ++ back) :
    p <+: front ∨ ∃ q, q <+: back ∧ p = front ++ q := by
  obtain ⟨rest,hrest⟩ := h
  rcases List.append_eq_append_iff.mp hrest with ⟨mid,hfront,-⟩ | ⟨mid,hp,hback⟩
  · exact .inl ⟨mid,hfront.symm⟩
  · exact .inr ⟨mid,⟨rest,hback.symm⟩,hp⟩

theorem balanced_nil : Balanced mark ([] : List α) := by
  refine ⟨fun _ => rfl,?_⟩
  intro depth p hp
  rw [List.prefix_nil.mp hp]
  exact Nat.le_refl _

theorem balanced_append (hf : Balanced mark front) (hb : Balanced mark back) :
    Balanced mark (front ++ back) := by
  constructor
  · intro depth
    rw [scan_append,hf.settles,hb.settles]
  · intro depth p hp
    rcases prefix_append_cases hp with hp | ⟨q,hq,rfl⟩
    · exact hf.stays depth p hp
    · rw [scan_append,hf.settles]
      exact hb.stays depth q hq

theorem balanced_one (h : ∀ depth, step mark ⟨.outside,depth⟩ a = ⟨.outside,depth⟩) :
    Balanced mark [a] := by
  refine ⟨h,?_⟩
  intro depth p hp
  rcases List.prefix_cons_iff.mp hp with rfl | ⟨q,rfl,hq⟩
  · exact Nat.le_refl _
  · rw [List.prefix_nil.mp hq,scan_cons,h]
    exact Nat.le_refl _

theorem step_plain (h : mark a = .plain) (depth : Nat) :
    step mark ⟨.outside,depth⟩ a = ⟨.outside,depth⟩ := by
  simp [step,h]

theorem balanced_plain (h : ∀ a ∈ text, mark a = .plain) : Balanced mark text := by
  induction text with
  | nil => exact balanced_nil
  | cons a text ih =>
      obtain ⟨ha,htext⟩ := List.forall_mem_cons.mp h
      exact balanced_append (balanced_one (step_plain ha)) (ih htext)

theorem quoted_nil : Quoted mark ([] : List α) := by
  refine ⟨fun _ => rfl,?_⟩
  intro depth p hp
  rw [List.prefix_nil.mp hp]
  rfl

theorem quoted_cons (h : ∀ depth, step mark ⟨.inside,depth⟩ a = ⟨.inside,depth⟩)
    (ht : Quoted mark text) : Quoted mark (a :: text) := by
  constructor
  · intro depth
    rw [scan_cons,h,ht.settles]
  · intro depth p hp
    rcases List.prefix_cons_iff.mp hp with rfl | ⟨q,rfl,hq⟩
    · rfl
    · rw [scan_cons,h]
      exact ht.stays depth q hq

theorem quoted_escape (h : mark a = .escapes) (b : α) (ht : Quoted mark text) :
    Quoted mark (a :: b :: text) := by
  have ha (depth : Nat) : step mark ⟨.inside,depth⟩ a = ⟨.escaped,depth⟩ := by simp [step,h]
  have hb (depth : Nat) : step mark ⟨.escaped,depth⟩ b = ⟨.inside,depth⟩ := by simp [step]
  constructor
  · intro depth
    rw [scan_cons,ha,scan_cons,hb,ht.settles]
  · intro depth p hp
    rcases List.prefix_cons_iff.mp hp with rfl | ⟨q,rfl,hq⟩
    · rfl
    · rcases List.prefix_cons_iff.mp hq with rfl | ⟨r,rfl,hr⟩
      · rw [scan_cons,ha]
        rfl
      · rw [scan_cons,ha,scan_cons,hb]
        exact ht.stays depth r hr

theorem balanced_quoted (ha : mark a = .quotes) (hb : mark b = .quotes) (h : Quoted mark inner) :
    Balanced mark (a :: (inner ++ [b])) := by
  have hin (depth : Nat) : step mark ⟨.outside,depth⟩ a = ⟨.inside,depth⟩ := by simp [step,ha]
  have hout (depth : Nat) : step mark ⟨.inside,depth⟩ b = ⟨.outside,depth⟩ := by simp [step,hb]
  constructor
  · intro depth
    rw [scan_cons,hin,scan_append,h.settles]
    exact hout depth
  · intro depth p hp
    rcases List.prefix_cons_iff.mp hp with rfl | ⟨q,rfl,hq⟩
    · exact Nat.le_refl _
    · rw [scan_cons,hin]
      rcases prefix_append_cases hq with hq | ⟨r,hr,rfl⟩
      · rw [h.stays depth q hq]
      · rw [scan_append,h.settles]
        rcases List.prefix_cons_iff.mp hr with rfl | ⟨rest,rfl,hrest⟩
        · exact Nat.le_refl _
        · rw [List.prefix_nil.mp hrest,scan_cons,hout]
          exact Nat.le_refl _

theorem step_opens (h : mark a = .opens) (depth : Nat) :
    step mark ⟨.outside,depth⟩ a = ⟨.outside,depth + 1⟩ := by
  simp [step,h]

-- A front of a bracketed text, short of the closing bracket, has the opening one still open.
theorem open_front (ha : mark a = .opens) (h : Balanced mark inner) {p : List α}
    (hp : p <+: a :: inner) (hne : p ≠ []) (depth : Nat) :
    depth < (scan mark ⟨.outside,depth⟩ p).depth := by
  rcases List.prefix_cons_iff.mp hp with rfl | ⟨q,rfl,hq⟩
  · exact absurd rfl hne
  · rw [scan_cons,step_opens ha]
    exact h.stays (depth + 1) q hq

theorem balanced_bracketed (ha : mark a = .opens) (hb : mark b = .closes)
    (h : Balanced mark inner) : Balanced mark (a :: (inner ++ [b])) := by
  have hclose (depth : Nat) : step mark ⟨.outside,depth + 1⟩ b = ⟨.outside,depth⟩ := by
    simp [step,hb]
  constructor
  · intro depth
    rw [scan_cons,step_opens ha,scan_append,h.settles]
    exact hclose depth
  · intro depth p hp
    rw [← List.cons_append] at hp
    rcases prefix_append_cases hp with hp | ⟨r,hr,rfl⟩
    · by_cases hne : p = []
      · rw [hne]
        exact Nat.le_refl _
      · exact (open_front ha h hp hne depth).le
    · rw [List.cons_append,scan_cons,step_opens ha,scan_append,h.settles]
      rcases List.prefix_cons_iff.mp hr with rfl | ⟨rest,rfl,hrest⟩
      · exact Nat.le_succ _
      · rw [List.prefix_nil.mp hrest,scan_cons,hclose]
        exact Nat.le_refl _

end Brackets
