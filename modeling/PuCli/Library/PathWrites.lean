import PuCli.Library.FileTree

namespace FileTree

namespace Tree

-- The directory and the name that opening a file for writing would write: it may be missing.
def locate (t : Tree) : Nat → List String → List String → Option (List String × String)
  | _, _, [] => none
  | 0, _, _ :: _ => none
  | n + 1, cur, name :: names =>
      if name = "" ∨ name = "." then t.locate n cur names
      else if name = ".." then t.locate n cur.dropLast names
      else
        match t.entry (cur ++ [name]) with
        | none => if names = [] then some (cur, name) else none
        | some .dir => t.locate n (cur ++ [name]) names
        | some (.file _) => if names = [] then some (cur, name) else none
        | some (.link absolute target) => t.locate n (if absolute then [] else cur) (target ++ names)

def writeFile (t : Tree) (limit : Nat) (names : List String) (content : String) : Option Tree :=
  (t.locate limit [] names).map (fun (p, name) => t.put p name (.file content))

def createDirectory (t : Tree) (limit : Nat) (parent : List String) (name : String) :
    Option Tree :=
  match t.walk limit [] parent with
  | .place p =>
      if t.entry p = some .dir ∧ t.entry (p ++ [name]) = none ∧ Plain name then
        some (t.put p name .dir)
      else none
  | _ => none

def createDirectories (limit : Nat) : Tree → List String → List String → Tree × Bool
  | t, _, [] => (t, true)
  | t, made, name :: names =>
      match t.walk limit [] (made ++ [name]) with
      | .place p =>
          if t.entry p = some .dir then createDirectories limit t (made ++ [name]) names
          else (t, false)
      | .missing =>
          match t.createDirectory limit made name with
          | some t' => createDirectories limit t' (made ++ [name]) names
          | none => (t, false)
      | .tooDeep => (t, false)

variable {t t' : Tree} {n limit : Nat} {cur p names : List String} {name : String} {e : Entry}

theorem put_entry (hdir : t.entry p = some .dir) (hold : t.entry (p ++ [name]) ≠ some .dir)
    (hname : Plain name) :
    (t.put p name e).entry = Function.update t.entry (p ++ [name]) (some e) := by
  rw [put,dif_pos ⟨hdir,hold,hname⟩]

theorem locate_same (hname : name = "" ∨ name = ".") :
    t.locate (n + 1) cur (name :: names) = t.locate n cur names := by
  rw [locate,if_pos hname]

theorem locate_up : t.locate (n + 1) cur (".." :: names) = t.locate n cur.dropLast names := by
  rw [locate,if_neg (by simp),if_pos rfl]

theorem locate_plain (hname : Plain name) : t.locate (n + 1) cur (name :: names) =
    match t.entry (cur ++ [name]) with
    | none => if names = [] then some (cur, name) else none
    | some .dir => t.locate n (cur ++ [name]) names
    | some (.file _) => if names = [] then some (cur, name) else none
    | some (.link absolute target) =>
        t.locate n (if absolute then [] else cur) (target ++ names) := by
  rw [locate,if_neg (by simpa using ⟨hname.1,hname.2.1⟩),if_neg hname.2.2]

-- What a write opens is a file or nothing yet, in a directory.
theorem locate_spec (hcur : t.entry cur = some .dir) (h : t.locate n cur names = some (p, name)) :
    t.entry p = some .dir ∧ Plain name ∧ ∀ e, t.entry (p ++ [name]) = some e → ∃ c, e = .file c := by
  induction n generalizing cur names with
  | zero => cases names <;> cases h
  | succ n ih =>
      cases names with
      | nil => cases h
      | cons first names =>
          rcases name_cases first with hsame | hup | hfirst
          · rw [locate_same hsame] at h
            exact ih hcur h
          · rw [hup,locate_up] at h
            exact ih (dir_dropLast hcur) h
          · rw [locate_plain hfirst] at h
            split at h
            · next hnone =>
              split at h
              · obtain ⟨rfl,rfl⟩ := Prod.mk.inj (Option.some.inj h)
                refine ⟨hcur,hfirst,?_⟩
                intro e he
                rw [hnone] at he
                cases he
              · cases h
            · next hdir => exact ih hdir h
            · next content hfile =>
              split at h
              · obtain ⟨rfl,rfl⟩ := Prod.mk.inj (Option.some.inj h)
                refine ⟨hcur,hfirst,?_⟩
                intro e he
                exact ⟨content,Option.some.inj (he.symm.trans hfile)⟩
              · cases h
            · refine ih ?_ h
              split
              · exact t.root
              · exact hcur

theorem locate_linkFree (hfree : t.LinkFree (cur ++ names)) (hplain : ∀ name ∈ names, Plain name)
    (h : t.locate n cur names = some (p, name)) : p ++ [name] = cur ++ names := by
  induction n generalizing cur names with
  | zero => cases names <;> cases h
  | succ n ih =>
      cases names with
      | nil => cases h
      | cons first names =>
          have happend : cur ++ first :: names = cur ++ [first] ++ names := List.append_cons ..
          rw [locate_plain (hplain first (List.mem_cons_self ..))] at h
          rw [happend] at hfree ⊢
          have hrest : ∀ name ∈ names, Plain name :=
            fun other hother => hplain other (List.mem_cons_of_mem _ hother)
          split at h
          · split at h
            · next hnil =>
                obtain ⟨rfl,rfl⟩ := Prod.mk.inj (Option.some.inj h)
                rw [hnil,List.append_nil]
            · cases h
          · exact ih hfree hrest h
          · split at h
            · next hnil =>
                obtain ⟨rfl,rfl⟩ := Prod.mk.inj (Option.some.inj h)
                rw [hnil,List.append_nil]
            · cases h
          · next absolute target hlink =>
              have hno := hfree (cur ++ [first]) _ (List.prefix_append ..) hlink
              cases hno

-- A path that ends in a separator names no file to write.
theorem locate_slash (t : Tree) (n : Nat) (cur names : List String) :
    t.locate n cur (names ++ [""]) = none := by
  induction n generalizing cur names with
  | zero => cases names <;> rfl
  | succ n ih =>
      cases names with
      | nil =>
          rw [List.nil_append,locate,if_pos (.inl rfl)]
          cases n <;> rfl
      | cons first names =>
          rw [List.cons_append]
          rcases name_cases first with hsame | hup | hname
          · rw [locate_same hsame]
            exact ih cur names
          · rw [hup,locate_up]
            exact ih cur.dropLast names
          · have hnil : names ++ [""] ≠ [] := by simp
            rw [locate_plain hname]
            split
            · exact if_neg hnil
            · exact ih _ names
            · exact if_neg hnil
            · rw [← List.append_assoc]
              exact ih _ _

theorem walk_linkFree (hfree : t.LinkFree (cur ++ names)) (hplain : ∀ name ∈ names, Plain name)
    (h : t.walk n cur names = .place p) : p = cur ++ names := by
  induction n generalizing cur names with
  | zero =>
      cases names with
      | nil =>
          rw [List.append_nil]
          exact (Found.place.inj h).symm
      | cons first names => cases h
  | succ n ih =>
      cases names with
      | nil =>
          rw [List.append_nil]
          exact (Found.place.inj h).symm
      | cons first names =>
          rw [walk_plain (hplain first (List.mem_cons_self ..))] at h
          rw [List.append_cons] at hfree ⊢
          split at h
          · cases h
          · exact ih hfree (fun other hother => hplain other (List.mem_cons_of_mem _ hother)) h
          · split at h
            · next hnil =>
                rw [hnil,List.append_nil]
                exact (Found.place.inj h).symm
            · cases h
          · next absolute target hlink =>
              have hno := hfree (cur ++ [first]) _ (List.prefix_append ..) hlink
              cases hno

theorem found_linkFree (hfree : t.LinkFree names) (hplain : ∀ name ∈ names, Plain name)
    (h : t.walk n [] names = .place p) : p = names :=
  walk_linkFree (show t.LinkFree ([] ++ names) from hfree) hplain h

-- `t'` is `t` with directories made where nothing stood.
def Grown (t t' : Tree) : Prop :=
  ∀ q, t'.entry q ≠ t.entry q → t.entry q = none ∧ t'.entry q = some .dir

theorem Grown.refl (t : Tree) : t.Grown t := fun _ h => absurd rfl h

theorem Grown.trans {u : Tree} (h : t.Grown t') (h' : t'.Grown u) : t.Grown u := by
  intro q hq
  by_cases hmid : t'.entry q = t.entry q
  · rw [← hmid] at hq ⊢
    exact h' q hq
  · obtain ⟨hnone,hdir⟩ := h q hmid
    refine ⟨hnone,?_⟩
    by_cases hlast : u.entry q = t'.entry q
    · rw [hlast,hdir]
    · exact (h' q hlast).2

theorem createDirectory_spec (h : t.createDirectory limit names name = some t') :
    ∃ p, t.walk limit [] names = .place p ∧ t.entry p = some .dir ∧
      t.entry (p ++ [name]) = none ∧ Plain name ∧
      t'.entry = Function.update t.entry (p ++ [name]) (some .dir) := by
  rw [createDirectory] at h
  split at h
  · next p hwalk =>
    split at h
    · next hcan =>
      obtain rfl := Option.some.inj h
      refine ⟨p,hwalk,hcan.1,hcan.2.1,hcan.2.2,?_⟩
      exact put_entry hcan.1 (by simp [hcan.2.1]) hcan.2.2
    · cases h
  · cases h

theorem createDirectory_grown (h : t.createDirectory limit names name = some t') : t.Grown t' := by
  obtain ⟨p,-,-,hnone,-,hentry⟩ := createDirectory_spec h
  intro q hq
  rw [hentry] at hq ⊢
  by_cases heq : q = p ++ [name]
  · subst heq
    exact ⟨hnone,Function.update_self ..⟩
  · exact absurd (Function.update_of_ne heq ..) hq

theorem createDirectories_grown {made : List String} {ok : Bool}
    (h : createDirectories limit t made names = (t', ok)) : t.Grown t' := by
  induction names generalizing t made with
  | nil =>
      obtain rfl := (Prod.mk.inj h).1
      exact .refl t
  | cons name names ih =>
      rw [createDirectories] at h
      split at h
      · split at h
        · exact ih h
        · obtain rfl := (Prod.mk.inj h).1
          exact .refl t
      · split at h
        · next u hmade => exact (createDirectory_grown hmade).trans (ih h)
        · obtain rfl := (Prod.mk.inj h).1
          exact .refl t
      · obtain rfl := (Prod.mk.inj h).1
        exact .refl t

theorem createDirectories_append {made : List String} (xs ys : List String)
    (h : createDirectories limit t made (xs ++ ys) = (t', true)) :
    ∃ u, createDirectories limit t made xs = (u, true) ∧
      createDirectories limit u (made ++ xs) ys = (t', true) := by
  induction xs generalizing t made with
  | nil =>
      refine ⟨t,rfl,?_⟩
      rwa [List.append_nil]
  | cons name xs ih =>
      have happend : made ++ name :: xs = made ++ [name] ++ xs := List.append_cons ..
      rw [List.cons_append,createDirectories] at h
      rw [happend,createDirectories]
      cases hwalk : t.walk limit [] (made ++ [name]) with
      | place p =>
          rw [hwalk] at h
          dsimp only at h ⊢
          split at h
          · next hdir =>
            rw [if_pos hdir]
            exact ih h
          · cases h
      | missing =>
          rw [hwalk] at h
          dsimp only at h ⊢
          cases hmade : t.createDirectory limit made name with
          | none =>
              rw [hmade] at h
              cases h
          | some u =>
              rw [hmade] at h
              exact ih h
      | tooDeep =>
          rw [hwalk] at h
          cases h

theorem names_plain (h : t.entry p = some e) : ∀ name ∈ p, Plain name := by
  induction p using List.reverseRecOn generalizing e with
  | nil => simp
  | append_singleton p name ih =>
      intro other hother
      rcases List.mem_append.mp hother with hother | hother
      · exact ih (t.parent _ _ _ h) other hother
      · obtain rfl := List.mem_singleton.mp hother
        exact t.plain _ _ _ h

-- Where no link is on the way, directories are made on the way and nowhere else.
theorem createDirectories_places {made : List String} (hfree : t.LinkFree (made ++ names))
    (hplain : ∀ name ∈ made ++ names, Plain name)
    (h : createDirectories limit t made names = (t', true)) :
    ∀ q, t'.entry q ≠ t.entry q → q <+: made ++ names := by
  induction names generalizing t made with
  | nil =>
      obtain rfl := (Prod.mk.inj h).1
      exact fun q hq => absurd rfl hq
  | cons name names ih =>
      have happend : made ++ name :: names = made ++ [name] ++ names := List.append_cons ..
      rw [happend] at hfree hplain ⊢
      have hmade : made <+: made ++ [name] ++ names := by
        rw [List.append_assoc]
        exact List.prefix_append ..
      rw [createDirectories] at h
      split at h
      · split at h
        · exact ih hfree hplain h
        · cases h
      · split at h
        · next u hu =>
          obtain ⟨p,hwalk,-,-,-,hentry⟩ := createDirectory_spec hu
          have hp := found_linkFree (hfree.above hmade)
            (fun other hother => hplain other (hmade.subset hother)) hwalk
          rw [hp] at hentry
          have hfree' : u.LinkFree (made ++ [name] ++ names) := by
            intro q e hq he
            rw [hentry] at he
            by_cases heq : q = made ++ [name]
            · subst heq
              rw [Function.update_self] at he
              obtain rfl := Option.some.inj he
              rfl
            · rw [Function.update_of_ne heq] at he
              exact hfree q e hq he
          intro q hq
          by_cases hlast : t'.entry q = u.entry q
          · rw [hlast,hentry] at hq
            by_cases heq : q = made ++ [name]
            · rw [heq]
              exact List.prefix_append ..
            · exact absurd (Function.update_of_ne heq ..) hq
          · exact ih hfree' hplain h q hlast
        · cases h
      · cases h

theorem Grown.linkFree (h : t.Grown t') (hfree : t.LinkFree p) : t'.LinkFree p := by
  intro q e hq he
  by_cases hsame : t'.entry q = t.entry q
  · rw [hsame] at he
    exact hfree q e hq he
  · obtain rfl := Option.some.inj (he.symm.trans (h q hsame).2)
    rfl

theorem Grown.eq_of_places (h : t.Grown t') (hp : t.entry p = some e)
    (hplaces : ∀ q, t'.entry q ≠ t.entry q → q <+: p) : t' = t := by
  have hentry : t'.entry = t.entry := by
    funext q
    by_contra hq
    have hnone := (h q hq).1
    by_cases heq : q = p
    · rw [heq,hp] at hnone
      cases hnone
    · rw [dir_above hp (hplaces q hq) heq] at hnone
      cases hnone
  cases t
  cases t'
  cases hentry
  rfl

theorem walk_split {xs ys : List String} (h : t.walk n cur (xs ++ ys) = .place p) :
    ∃ m q, t.walk n cur xs = .place q ∧ t.walk m q ys = .place p := by
  induction n generalizing cur xs with
  | zero =>
      cases xs with
      | nil => exact ⟨0,cur,rfl,h⟩
      | cons name xs => cases h
  | succ n ih =>
      cases xs with
      | nil => exact ⟨n + 1,cur,rfl,h⟩
      | cons name xs =>
          rw [List.cons_append] at h
          rcases name_cases name with hsame | hup | hname
          · rw [walk_same hsame] at h ⊢
            exact ih h
          · rw [hup,walk_up] at h ⊢
            exact ih h
          · rw [walk_plain hname] at h ⊢
            split at h
            · cases h
            · exact ih h
            · split at h
              · next hnil =>
                obtain ⟨rfl,rfl⟩ := List.append_eq_nil_iff.mp hnil
                exact ⟨0,_,rfl,h⟩
              · cases h
            · rw [← List.append_assoc] at h
              exact ih h

-- More steps do not find what is missing.
theorem walk_missing {m : Nat} (h : t.walk n cur names = .missing) : t.walk m cur names ≠ .place p := by
  induction n generalizing m cur names with
  | zero => cases names <;> cases h
  | succ n ih =>
      intro hplace
      cases names with
      | nil => cases h
      | cons name names =>
          cases m with
          | zero => cases hplace
          | succ m =>
              rcases name_cases name with hsame | hup | hname
              · rw [walk_same hsame] at h hplace
                exact ih h hplace
              · rw [hup,walk_up] at h hplace
                exact ih h hplace
              · rw [walk_plain hname] at h hplace
                cases hentry : t.entry (cur ++ [name]) with
                | none =>
                    rw [hentry] at hplace
                    cases hplace
                | some e =>
                    rw [hentry] at h hplace
                    cases e with
                    | dir => exact ih h hplace
                    | file content =>
                        dsimp only at h hplace
                        split at h
                        · cases h
                        · next hmore =>
                          rw [if_neg hmore] at hplace
                          cases hplace
                    | link absolute target => exact ih h hplace

theorem writeFile_spec {content : String} (h : t.writeFile limit names content = some t') :
    ∃ p name, t.locate limit [] names = some (p, name) ∧
      (∀ e, t.entry (p ++ [name]) = some e → ∃ c, e = .file c) ∧
      t'.entry = Function.update t.entry (p ++ [name]) (some (.file content)) := by
  obtain ⟨⟨p,name⟩,hlocate,rfl⟩ := Option.map_eq_some_iff.mp h
  obtain ⟨hdir,hname,hfile⟩ := locate_spec t.root hlocate
  refine ⟨p,name,hlocate,hfile,put_entry hdir ?_ hname⟩
  intro hold
  obtain ⟨c,hc⟩ := hfile _ hold
  cases hc

end Tree

end FileTree
