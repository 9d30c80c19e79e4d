import PuCli.Library.PathWrites

namespace FileTree

namespace Tree

-- The longest leading part that stands, as the place it leads to, and what follows it.
def leading (t : Tree) (limit : Nat) (found read : List String) :
    List String → Option (List String × List String)
  | [] => some (found, [])
  | name :: names =>
      match t.walk limit [] (read ++ [name]) with
      | .place p => t.leading limit p (read ++ [name]) names
      | .missing => some (found, name :: names)
      | .tooDeep => none

end Tree

def lexically (place : List String) (name : String) : List String :=
  if name = "" ∨ name = "." then place
  else if name = ".." then place.dropLast
  else place ++ [name]

-- A normal form keeps the separator it ends in, unless it is the root itself.
def lexicallyNormal (place names : List String) : List String :=
  let normal := names.foldl lexically place
  if normal ≠ [] ∧ (names.getLast? = some "" ∨ names.getLast? = some "." ∨
    names.getLast? = some "..") then normal ++ [""] else normal

namespace Tree

def weaklyCanonical (t : Tree) (limit : Nat) (names : List String) : Option (List String) :=
  match t.walk limit [] names with
  | .place p => some p
  | .tooDeep => none
  | .missing => (t.leading limit [] [] names).map (fun (p, rest) => lexicallyNormal p rest)

variable {t : Tree} {limit : Nat} {names : List String}

theorem leading_spec {found read : List String} {r : List String × List String}
    (hread : t.walk limit [] read = .place found)
    (h : t.leading limit found read names = some r) :
    ∃ more, names = more ++ r.2 ∧ t.walk limit [] (read ++ more) = .place r.1 ∧
      ∀ name rest, r.2 = name :: rest → t.walk limit [] (read ++ more ++ [name]) = .missing := by
  induction names generalizing found read with
  | nil =>
      obtain rfl := Option.some.inj h
      refine ⟨[],rfl,?_,?_⟩
      · rw [List.append_nil]
        exact hread
      · intro name rest hnil
        cases hnil
  | cons name names ih =>
      rw [leading] at h
      split at h
      · next p hplace =>
        obtain ⟨more,rfl,hfound,hmissing⟩ := ih hplace h
        refine ⟨name :: more,rfl,?_,?_⟩
        · rwa [List.append_cons]
        · rwa [List.append_cons]
      · next hmissing =>
        obtain rfl := Option.some.inj h
        refine ⟨[],rfl,?_,?_⟩
        · rwa [List.append_nil]
        · intro other rest hcons
          obtain ⟨rfl,rfl⟩ := List.cons.inj hcons
          rwa [List.append_nil]
      · cases h

-- A place that stands, and below it names of which no lookup finds the first.
structure Landed (t : Tree) (target stands below : List String) : Prop where
  shape : target = stands ++ below ∨ target = stands ++ below ++ [""]
  found : ∃ e, t.entry stands = some e ∧ e.isLink = false
  plain : ∀ name ∈ below, Plain name
  unseen : ∀ name rest, below = name :: rest → ∀ m p, t.walk m stands [name] ≠ .place p

end Tree

def kept (names : List String) : List String := names.filter (fun name => name ≠ "" ∧ name ≠ ".")

theorem lexically_kept {names : List String} (hup : ".." ∉ names) (place : List String) :
    names.foldl lexically place = place ++ kept names := by
  induction names generalizing place with
  | nil => exact (List.append_nil place).symm
  | cons name names ih =>
      have hrest : ".." ∉ names := fun h => hup (List.mem_cons_of_mem _ h)
      have hname : name ≠ ".." := fun he => hup (he ▸ List.mem_cons_self ..)
      rw [List.foldl_cons,ih hrest,lexically,kept,kept,List.filter_cons]
      by_cases hsame : name = "" ∨ name = "."
      · rw [if_pos hsame,if_neg]
        rcases hsame with rfl | rfl <;> simp
      · rw [if_neg hsame,if_neg hname,if_pos]
        · exact List.append_assoc ..
        · simpa using hsame

theorem lexicallyNormal_kept {names : List String} (hup : ".." ∉ names) (place : List String) :
    lexicallyNormal place names = place ++ kept names ∨
      lexicallyNormal place names = place ++ kept names ++ [""] := by
  rw [lexicallyNormal,lexically_kept hup]
  split
  · exact .inr rfl
  · exact .inl rfl

theorem kept_plain {names : List String} (hup : ".." ∉ names) : ∀ name ∈ kept names, Plain name := by
  intro name hname
  obtain ⟨hmem,hsame⟩ := List.mem_filter.mp hname
  refine plain_of_not ?_ fun he => hup (he ▸ hmem)
  simpa using hsame

namespace Tree

variable {t t' : Tree} {n limit : Nat} {p names target stands below : List String}
  {name content : String}

-- From a directory the first name is looked up; below anything else nothing is.
theorem unseen_kept {read left : List String} (hread : t.walk limit [] read = .place stands)
    (hmissing : ∀ name rest, left = name :: rest → t.walk limit [] (read ++ [name]) = .missing)
    (hup : ".." ∉ left) (name : String) (rest : List String) (hkept : kept left = name :: rest)
    (m : Nat) (p : List String) : t.walk m stands [name] ≠ .place p := by
  obtain ⟨e,he,-⟩ := walk_found t.root hread
  have hname : Plain name := kept_plain hup name (hkept ▸ List.mem_cons_self ..)
  by_cases hdir : t.entry stands = some .dir
  · cases left with
    | nil => cases hkept
    | cons first left =>
        obtain ⟨k,hk⟩ := walk_append hread hdir t.root [first]
        have hfirst := hmissing first left rfl
        rw [hk] at hfirst
        have hnot : ¬ (first = "" ∨ first = ".") := by
          intro hsame
          cases k with
          | zero => cases hfirst
          | succ k =>
              rw [walk_same hsame,walk_nil] at hfirst
              cases hfirst
        rw [kept,List.filter_cons,if_pos (by simpa using hnot)] at hkept
        obtain ⟨rfl,-⟩ := List.cons.inj hkept
        exact walk_missing hfirst
  · intro hplace
    cases m with
    | zero => cases hplace
    | succ m =>
        have hnone : t.entry (stands ++ [name]) = none := by
          by_contra hsome
          obtain ⟨e',he'⟩ := Option.ne_none_iff_exists'.mp hsome
          exact hdir (t.parent _ _ _ he')
        rw [walk_plain hname,hnone] at hplace
        cases hplace

theorem weaklyCanonical_landed (h : t.weaklyCanonical limit names = some target)
    (hup : ".." ∉ names) : ∃ stands below, t.Landed target stands below := by
  rw [weaklyCanonical] at h
  split at h
  · next p hplace =>
    obtain rfl := Option.some.inj h
    refine ⟨p,[],.inl (List.append_nil p).symm,walk_found t.root hplace,by simp,?_⟩
    intro name rest hnil
    cases hnil
  · cases h
  · next hmissing =>
    obtain ⟨⟨p,left⟩,hleading,rfl⟩ := Option.map_eq_some_iff.mp h
    obtain ⟨read,rfl,hread,hleft⟩ := leading_spec (walk_nil t limit []) hleading
    have hup' : ".." ∉ left := fun hmem => hup (List.mem_append_right _ hmem)
    exact ⟨p,kept left,lexicallyNormal_kept hup' p,walk_found t.root hread,kept_plain hup',
      unseen_kept hread hleft hup'⟩

theorem none_of_append (h : t.entry p = none) (q : List String) :
    t.entry (p ++ q) = none := by
  by_contra hsome
  obtain ⟨e,he⟩ := Option.ne_none_iff_exists'.mp hsome
  by_cases hq : q = []
  · rw [hq,List.append_nil,h] at he
    cases he
  · rw [dir_of_append he hq] at h
    cases h

theorem linkFree_of_none (hfree : t.LinkFree p) (hnone : t.entry (p ++ [name]) = none)
    (rest : List String) : t.LinkFree (p ++ name :: rest) := by
  intro q e hq he
  rcases List.prefix_or_prefix_of_prefix hq (List.prefix_append p (name :: rest)) with hqp | hpq
  · exact hfree q e hqp he
  · obtain ⟨more,rfl⟩ := hpq
    cases more with
    | nil => exact hfree _ e (by simp) he
    | cons other more =>
        have hcons := (List.prefix_append_right_inj p).mp hq
        obtain ⟨rfl,-⟩ := List.cons_prefix_cons.mp hcons
        rw [List.append_cons,none_of_append hnone] at he
        cases he

-- What the way below a standing place is made of is made there, so it holds no link.
theorem Landed.made_linkFree {front : List String} (hl : t.Landed target stands below)
    (hfront : front <+: below)
    (h : createDirectories limit t [] (stands ++ front) = (t', true)) :
    t.LinkFree (stands ++ front) := by
  obtain ⟨e,he,hlink⟩ := hl.found
  have hfree := linkFree_of_found he hlink
  have hstands := names_plain he
  cases front with
  | nil => rwa [List.append_nil]
  | cons name front =>
      obtain ⟨u,hu,hrest⟩ := createDirectories_append _ _ h
      obtain rfl := (createDirectories_grown hu).eq_of_places he (createDirectories_places hfree hstands hu)
      obtain ⟨rest,rfl⟩ := hfront
      have hunseen := hl.unseen name (front ++ rest) rfl
      rw [List.nil_append,createDirectories] at hrest
      split at hrest
      · next p hplace =>
        obtain ⟨m,q,hq,hp⟩ := walk_split hplace
        obtain rfl := found_linkFree hfree hstands hq
        exact absurd hp (hunseen m p)
      · split at hrest
        · next hmade =>
          obtain ⟨p,hwalk,-,hnone,-,-⟩ := createDirectory_spec hmade
          obtain rfl := found_linkFree hfree hstands hwalk
          exact linkFree_of_none hfree hnone front
        · cases hrest
      · cases hrest

theorem Landed.parent_linkFree (hl : t.Landed target stands below)
    (h : createDirectories limit t [] target.dropLast = (t', true)) :
    t.LinkFree target.dropLast := by
  obtain ⟨e,he,hlink⟩ := hl.found
  rcases hl.shape with rfl | rfl
  · by_cases hbelow : below = []
    · rw [hbelow,List.append_nil]
      exact LinkFree.above (linkFree_of_found he hlink) (List.dropLast_prefix stands)
    · rw [List.dropLast_append_of_ne_nil hbelow] at h ⊢
      exact hl.made_linkFree (List.dropLast_prefix below) h
  · rw [List.dropLast_concat] at h ⊢
    exact hl.made_linkFree (List.prefix_refl below) h

theorem lexically_plain (hplace : ∀ name ∈ p, Plain name) :
    ∀ name ∈ names.foldl lexically p, Plain name := by
  induction names generalizing p with
  | nil => exact hplace
  | cons first names ih =>
      rw [List.foldl_cons]
      refine ih ?_
      rw [lexically]
      split
      · exact hplace
      · next hsame =>
        split
        · exact fun name hname => hplace name (List.mem_of_mem_dropLast hname)
        · next hup =>
          intro name hname
          rcases List.mem_append.mp hname with hname | hname
          · exact hplace name hname
          · obtain rfl := List.mem_singleton.mp hname
            exact plain_of_not hsame hup

-- Every name of a target is one to make or write, but for the separator it may end in.
theorem weaklyCanonical_plain (h : t.weaklyCanonical limit names = some target) :
    (∀ name ∈ target, Plain name) ∨
      ∃ front, target = front ++ [""] ∧ ∀ name ∈ front, Plain name := by
  rw [weaklyCanonical] at h
  split at h
  · next p hplace =>
    obtain rfl := Option.some.inj h
    obtain ⟨e,he,-⟩ := walk_found t.root hplace
    exact .inl (names_plain he)
  · cases h
  · obtain ⟨⟨p,left⟩,hleading,rfl⟩ := Option.map_eq_some_iff.mp h
    obtain ⟨read,rfl,hread,-⟩ := leading_spec (walk_nil t limit []) hleading
    obtain ⟨e,he,-⟩ := walk_found t.root hread
    have hnormal : ∀ name ∈ left.foldl lexically p, Plain name := lexically_plain (names_plain he)
    dsimp only
    rw [lexicallyNormal]
    split
    · exact .inr ⟨_,rfl,hnormal⟩
    · exact .inl hnormal

theorem weaklyCanonical_noUp (h : t.weaklyCanonical limit names = some target) :
    ".." ∉ target := by
  intro hup
  rcases weaklyCanonical_plain h with hplain | ⟨front,rfl,hplain⟩
  · exact (hplain _ hup).2.2 rfl
  · rcases List.mem_append.mp hup with hup | hup
    · exact (hplain _ hup).2.2 rfl
    · simp at hup

end Tree

end FileTree
