import Mathlib.Data.List.Infix
import Mathlib.Logic.Function.Basic

namespace FileTree

inductive Entry where
  | dir
  | file (content : String)
  | link (absolute : Bool) (target : List String)
  deriving DecidableEq

def Entry.isLink : Entry → Bool
  | .link _ _ => true
  | _ => false

-- A name that stands for an entry, and not for the place it is read in or the one above.
def Plain (name : String) : Prop := name ≠ "" ∧ name ≠ "." ∧ name ≠ ".."

instance (name : String) : Decidable (Plain name) := inferInstanceAs (Decidable (_ ∧ _))

theorem plain_of_not {name : String} (hsame : ¬ (name = "" ∨ name = ".")) (hup : name ≠ "..") :
    Plain name :=
  ⟨fun he => hsame (.inl he),fun he => hsame (.inr he),hup⟩

theorem name_cases (name : String) : (name = "" ∨ name = ".") ∨ name = ".." ∨ Plain name := by
  by_cases hsame : name = "" ∨ name = "."
  · exact .inl hsame
  · by_cases hup : name = ".."
    · exact .inr (.inl hup)
    · exact .inr (.inr (plain_of_not hsame hup))

-- What stands at each place, a place being the names from the root down to it.
structure Tree where
  entry : List String → Option Entry
  root : entry [] = some .dir
  parent : ∀ p name e, entry (p ++ [name]) = some e → entry p = some .dir
  plain : ∀ p name e, entry (p ++ [name]) = some e → Plain name

inductive Found where
  | place (p : List String)
  | missing
  | tooDeep
  deriving DecidableEq

namespace Tree

def bare : Tree where
  entry p := if p = [] then some .dir else none
  root := rfl
  parent p name e h := by simp at h
  plain p name e h := by simp at h

-- An entry is put only in a directory, and never in the place of one.
def put (t : Tree) (p : List String) (name : String) (e : Entry) : Tree :=
  if h : t.entry p = some .dir ∧ t.entry (p ++ [name]) ≠ some .dir ∧ Plain name then
    { entry := Function.update t.entry (p ++ [name]) (some e)
      root := by
        rw [Function.update_of_ne (by simp)]
        exact t.root
      parent := by
        intro q other e' hq
        have hne : q ≠ p ++ [name] := by
          rintro rfl
          rw [Function.update_of_ne (by simp)] at hq
          exact h.2.1 (t.parent _ _ _ hq)
        rw [Function.update_of_ne hne]
        by_cases heq : q ++ [other] = p ++ [name]
        · obtain ⟨rfl,-⟩ := List.append_inj' heq rfl
          exact h.1
        · rw [Function.update_of_ne heq] at hq
          exact t.parent _ _ _ hq
      plain := by
        intro q other e' hq
        by_cases heq : q ++ [other] = p ++ [name]
        · obtain ⟨-,hname⟩ := List.append_inj' heq rfl
          obtain rfl := List.singleton_inj.mp hname
          exact h.2.2
        · rw [Function.update_of_ne heq] at hq
          exact t.plain _ _ _ hq }
  else t

-- Each name read, and each link followed, takes one step of what a lookup may take.
def walk (t : Tree) : Nat → List String → List String → Found
  | _, cur, [] => .place cur
  | 0, _, _ :: _ => .tooDeep
  | n + 1, cur, name :: names =>
      if name = "" ∨ name = "." then t.walk n cur names
      else if name = ".." then t.walk n cur.dropLast names
      else
        match t.entry (cur ++ [name]) with
        | none => .missing
        | some .dir => t.walk n (cur ++ [name]) names
        | some (.file _) => if names = [] then .place (cur ++ [name]) else .missing
        | some (.link absolute target) => t.walk n (if absolute then [] else cur) (target ++ names)

variable {t t' : Tree} {n m : Nat} {cur p q names : List String} {name : String} {e : Entry}

theorem dir_of_append (h : t.entry (p ++ q) = some e) (hq : q ≠ []) : t.entry p = some .dir := by
  induction q using List.reverseRecOn generalizing e with
  | nil => exact absurd rfl hq
  | append_singleton q name ih =>
      rw [← List.append_assoc] at h
      have hparent := t.parent _ _ _ h
      by_cases hq' : q = []
      · rwa [hq',List.append_nil] at hparent
      · exact ih hparent hq'

theorem dir_above (h : t.entry p = some e) (hq : q <+: p) (hne : q ≠ p) :
    t.entry q = some .dir := by
  obtain ⟨rest,rfl⟩ := hq
  refine dir_of_append h ?_
  rintro rfl
  exact hne (List.append_nil q).symm

theorem dir_dropLast (h : t.entry p = some .dir) : t.entry p.dropLast = some .dir := by
  by_cases hp : p = []
  · rw [hp]
    exact t.root
  · refine dir_above h (List.dropLast_prefix p) ?_
    intro heq
    have hlength := congrArg List.length heq
    rw [List.length_dropLast] at hlength
    have hpos := List.length_pos_iff.mpr hp
    omega

theorem walk_nil (t : Tree) (n : Nat) (cur : List String) : t.walk n cur [] = .place cur := by
  cases n <;> rfl

theorem walk_same (hname : name = "" ∨ name = ".") :
    t.walk (n + 1) cur (name :: names) = t.walk n cur names := by
  rw [walk,if_pos hname]

theorem walk_up : t.walk (n + 1) cur (".." :: names) = t.walk n cur.dropLast names := by
  rw [walk,if_neg (by simp),if_pos rfl]

theorem walk_plain (hname : Plain name) : t.walk (n + 1) cur (name :: names) =
    match t.entry (cur ++ [name]) with
    | none => .missing
    | some .dir => t.walk n (cur ++ [name]) names
    | some (.file _) => if names = [] then .place (cur ++ [name]) else .missing
    | some (.link absolute target) =>
        t.walk n (if absolute then [] else cur) (target ++ names) := by
  rw [walk,if_neg (by simpa using ⟨hname.1,hname.2.1⟩),if_neg hname.2.2]

-- A place that is found is one where something stands, other than a link.
theorem walk_found (hcur : t.entry cur = some .dir) (h : t.walk n cur names = .place p) :
    ∃ e, t.entry p = some e ∧ e.isLink = false := by
  induction n generalizing cur names with
  | zero =>
      cases names with
      | nil =>
          obtain rfl := Found.place.inj ((walk_nil t 0 cur).symm.trans h)
          exact ⟨.dir,hcur,rfl⟩
      | cons name names => cases h
  | succ n ih =>
      cases names with
      | nil =>
          obtain rfl := Found.place.inj ((walk_nil t (n + 1) cur).symm.trans h)
          exact ⟨.dir,hcur,rfl⟩
      | cons name names =>
          rcases name_cases name with hsame | hup | hname
          · rw [walk_same hsame] at h
            exact ih hcur h
          · rw [hup,walk_up] at h
            exact ih (dir_dropLast hcur) h
          · rw [walk_plain hname] at h
            split at h
            · cases h
            · next hdir => exact ih hdir h
            · next content hfile =>
                split at h
                · obtain rfl := Found.place.inj h
                  exact ⟨_,hfile,rfl⟩
                · cases h
            · next absolute target hlink =>
                refine ih ?_ h
                split
                · exact t.root
                · exact hcur

theorem walk_append (h : t.walk n cur names = .place p) (hp : t.entry p = some .dir)
    (hcur : t.entry cur = some .dir) (rest : List String) :
    ∃ m, t.walk n cur (names ++ rest) = t.walk m p rest := by
  induction n generalizing cur names with
  | zero =>
      cases names with
      | nil =>
          obtain rfl := Found.place.inj ((walk_nil t 0 cur).symm.trans h)
          exact ⟨0,rfl⟩
      | cons name names => cases h
  | succ n ih =>
      cases names with
      | nil =>
          obtain rfl := Found.place.inj ((walk_nil t (n + 1) cur).symm.trans h)
          exact ⟨n + 1,rfl⟩
      | cons name names =>
          rw [List.cons_append]
          rcases name_cases name with hsame | hup | hname
          · rw [walk_same hsame] at h ⊢
            exact ih h hcur
          · rw [hup,walk_up] at h ⊢
            exact ih h (dir_dropLast hcur)
          · rw [walk_plain hname] at h ⊢
            split at h
            · cases h
            · next hdir => exact ih h hdir
            · next content hfile =>
                split at h
                · obtain rfl := Found.place.inj h
                  rw [hfile] at hp
                  cases hp
                · cases h
            · next absolute target hlink =>
                rw [← List.append_assoc]
                refine ih h ?_
                split
                · exact t.root
                · exact hcur

-- No place on the way from the root to `p`, itself included, is a link.
def LinkFree (t : Tree) (p : List String) : Prop :=
  ∀ q e, q <+: p → t.entry q = some e → e.isLink = false

theorem linkFree_of_found (h : t.entry p = some e) (he : e.isLink = false) : t.LinkFree p := by
  intro q e' hq he'
  by_cases heq : q = p
  · subst heq
    obtain rfl := Option.some.inj (h.symm.trans he')
    exact he
  · obtain rfl := Option.some.inj ((dir_above h hq heq).symm.trans he')
    rfl

theorem LinkFree.above (h : t.LinkFree p) (hq : q <+: p) : t.LinkFree q :=
  fun r e hr => h r e (hr.trans hq)

theorem linkFree_of_parent (hfree : t.LinkFree p.dropLast)
    (h : ∀ e, t.entry p = some e → e.isLink = false) : t.LinkFree p := by
  intro q e hq he
  by_cases heq : q = p
  · exact h e (heq ▸ he)
  · obtain ⟨rest,rfl⟩ := hq
    have hrest : rest ≠ [] := by
      rintro rfl
      exact heq (List.append_nil q).symm
    rw [List.dropLast_append_of_ne_nil hrest] at hfree
    exact hfree q e (List.prefix_append ..) he

end Tree

end FileTree
