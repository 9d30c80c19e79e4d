import PuCli.Config.SecurityPolicy
import PuCli.Library.CanonicalPath
import PuCli.Tools.PeerTool

namespace PuCli

namespace WriteFileTool

open FileTree Tools

def name : String := "write_file"

def isAbsolute (path : String) : Bool := decide (path.toList.head? = some '/')

-- The names a path is read as; a separator at its end is read as one that is empty.
def pathNames (path : String) : List String :=
  let names := ((path.toList.splitOn '/').filter (fun name => name ≠ [])).map String.ofList
  if names ≠ [] ∧ path.toList.getLast? = some '/' then names ++ [""] else names

-- `root / path`
def joined (root : List String) (path : String) : List String :=
  if isAbsolute path then pathNames path
  else if root.getLast? = some "" then root.dropLast ++ pathNames path
  else root ++ pathNames path

def within : List String → List String → Bool
  | [], _ => true
  | _ :: _, [] => false
  | r :: root, t :: target => decide (r = t) && within root target

theorem within_iff (root target : List String) : within root target = true ↔ root <+: target := by
  induction root generalizing target with
  | nil => simp [within]
  | cons r root ih =>
      cases target with
      | nil => simp [within]
      | cons t target => simp [within,ih,List.cons_prefix_cons]

structure Refused where
  error : String
  blocked : Bool := false
  deriving DecidableEq

def resolve (t : Tree) (limit : Nat) (sandboxRoot path : String) :
    Except Refused (List String) :=
  match t.weaklyCanonical limit (pathNames sandboxRoot) with
  | none => .error ⟨"cannot resolve sandbox root: " ++ sandboxRoot, false⟩
  | some root =>
      match t.weaklyCanonical limit (joined root path) with
      | none => .error ⟨"invalid path", false⟩
      | some target =>
          if within root target then .ok target
          else .error ⟨"path outside sandbox root (traversal not allowed)", true⟩

def write (t : Tree) (limit : Nat) (path content : String) (target : List String) :
    Tree × Except Refused String :=
  match Tree.createDirectories limit t [] target.dropLast with
  | (t, false) => (t, .error ⟨"cannot create parent directories", false⟩)
  | (t, true) =>
      match t.writeFile limit target content with
      | none => (t, .error ⟨"cannot write to " ++ path, false⟩)
      | some t =>
          (t, .ok ("Successfully wrote " ++ toString content.utf8ByteSize ++ " bytes to " ++ path))

def run (t : Tree) (limit : Nat) (security : Option SecurityPolicy) (path content : String) :
    Tree × Except Refused String :=
  if path = "" then (t, .error ⟨"'path' is required", false⟩)
  else
    match security with
    | none => (t, .error ⟨"security policy not set", false⟩)
    | some policy =>
        match resolve t limit policy.sandboxRoot path with
        | .error refused => (t, .error refused)
        | .ok target => write t limit path content target

def execute (text : JsonText) (t : Tree) (limit : Nat) (security : Option SecurityPolicy)
    (args : Json) : Tree × String :=
  let (t, said) := run t limit security (Json.valueOrDefault args "path" "")
    (Json.valueOrDefault args "content" "")
  (t, match said with
    | .error refused => makeRefusal text refused.error refused.blocked
    | .ok output => makeToolResultJson text true output "" 0 false)

variable {t t' : Tree} {limit : Nat} {security : Option SecurityPolicy} {path content : String}

theorem write_ok {target : List String} {output : String}
    (h : write t limit path content target = (t', .ok output)) :
    ∃ u, Tree.createDirectories limit t [] target.dropLast = (u, true) ∧
      u.writeFile limit target content = some t' := by
  rw [write] at h
  split at h
  · cases h
  · next u hmade =>
    split at h
    · cases h
    · next u' hwrote =>
      obtain ⟨rfl,-⟩ := Prod.mk.inj h
      exact ⟨u,hmade,hwrote⟩

theorem write_refused {target : List String} {refused : Refused}
    (h : write t limit path content target = (t', .error refused)) : t.Grown t' := by
  rw [write] at h
  split at h
  · next hmade =>
    obtain ⟨rfl,-⟩ := Prod.mk.inj h
    exact Tree.createDirectories_grown hmade
  · next hmade =>
    split at h
    · obtain ⟨rfl,-⟩ := Prod.mk.inj h
      exact Tree.createDirectories_grown hmade
    · cases h

theorem run_ok {output : String} (h : run t limit security path content = (t', .ok output)) :
    ∃ policy target, security = some policy ∧
      resolve t limit policy.sandboxRoot path = .ok target ∧
      write t limit path content target = (t', .ok output) := by
  rw [run.eq_def] at h
  split at h
  · cases h
  · split at h
    · cases h
    · next policy =>
      split at h
      · cases h
      · next target hresolve => exact ⟨policy,target,rfl,hresolve,h⟩

-- What the sandbox root and the path were resolved to, before anything is made.
structure Resolved (t : Tree) (limit : Nat) (policy : SecurityPolicy) (path : String)
    (root target : List String) : Prop where
  boxed : t.weaklyCanonical limit (pathNames policy.sandboxRoot) = some root
  named : t.weaklyCanonical limit (joined root path) = some target
  inside : root <+: target

theorem resolve_ok {policy : SecurityPolicy} {target : List String}
    (h : resolve t limit policy.sandboxRoot path = .ok target) :
    ∃ root, Resolved t limit policy path root target := by
  rw [resolve] at h
  split at h
  · cases h
  · next root hroot =>
    split at h
    · cases h
    · next place hplace =>
      split at h
      · next hwithin =>
        obtain rfl := Except.ok.inj h
        exact ⟨root,hroot,hplace,(within_iff _ _).mp hwithin⟩
      · cases h

theorem joined_noUp {names root : List String}
    (h : t.weaklyCanonical limit names = some root) (hup : ".." ∉ pathNames path) :
    ".." ∉ joined root path := by
  have hroot := Tree.weaklyCanonical_noUp h
  rw [joined]
  split
  · exact hup
  · split
    · intro hmem
      rcases List.mem_append.mp hmem with hmem | hmem
      · exact hroot (List.mem_of_mem_dropLast hmem)
      · exact hup hmem
    · intro hmem
      rcases List.mem_append.mp hmem with hmem | hmem
      · exact hroot hmem
      · exact hup hmem

theorem run_refused {refused : Refused}
    (h : run t limit security path content = (t', .error refused)) : t.Grown t' := by
  rw [run.eq_def] at h
  split at h
  · obtain rfl := (Prod.mk.inj h).1
    exact .refl t
  · split at h
    · obtain rfl := (Prod.mk.inj h).1
      exact .refl t
    · split at h
      · obtain rfl := (Prod.mk.inj h).1
        exact .refl t
      · exact write_refused h

-- The file written: nothing or a file stood there, and the directories were made before it.
structure Wrote (t u t' : Tree) (limit : Nat) (target : List String) (content : String)
    (p : List String) (name : String) : Prop where
  made : Tree.createDirectories limit t [] target.dropLast = (u, true)
  located : u.locate limit [] target = some (p, name)
  overwritten : ∀ e, u.entry (p ++ [name]) = some e → ∃ c, e = .file c
  entry : t'.entry = Function.update u.entry (p ++ [name]) (some (.file content))

theorem write_wrote {target : List String} {output : String}
    (h : write t limit path content target = (t', .ok output)) :
    ∃ u p name, Wrote t u t' limit target content p name := by
  obtain ⟨u,hmade,hwrite⟩ := write_ok h
  obtain ⟨p,name,hlocate,hfile,hentry⟩ := Tree.writeFile_spec hwrite
  exact ⟨u,p,name,hmade,hlocate,hfile,hentry⟩

namespace Wrote

variable {u : Tree} {target p : List String} {name : String}

theorem written (hw : Wrote t u t' limit target content p name) :
    t'.entry (p ++ [name]) = some (.file content) := by
  rw [hw.entry]
  exact Function.update_self ..

theorem elsewhere (hw : Wrote t u t' limit target content p name) {q : List String}
    (hq : q ≠ p ++ [name]) : t'.entry q = u.entry q := by
  rw [hw.entry]
  exact Function.update_of_ne hq ..

theorem grown (hw : Wrote t u t' limit target content p name) : t.Grown u :=
  Tree.createDirectories_grown hw.made

theorem stood (hw : Wrote t u t' limit target content p name) (e : Entry)
    (he : t.entry (p ++ [name]) = some e) : ∃ c, e = .file c := by
  refine hw.overwritten e ?_
  by_contra hne
  rw [← he] at hne
  rw [(hw.grown _ hne).1] at he
  cases he

theorem link_stays (hw : Wrote t u t' limit target content p name) {q : List String} {e : Entry}
    (he : t.entry q = some e) (hlink : e.isLink = true) : t'.entry q = some e := by
  have hq : q ≠ p ++ [name] := by
    rintro rfl
    obtain ⟨c,rfl⟩ := hw.stood e he
    cases hlink
  rw [hw.elsewhere hq,← he]
  by_contra hne
  rw [(hw.grown q hne).1] at he
  cases he

theorem linkFree_of_written (hw : Wrote t u t' limit target content p name)
    (h : t'.entry target = some (.file content)) : t.LinkFree target := by
  intro q e hq he
  by_contra hlink
  have hstays := hw.link_stays he (Bool.eq_true_of_not_eq_false hlink)
  exact hlink (Tree.linkFree_of_found h rfl q e hq hstays)

theorem at_target {root : List String} {policy : SecurityPolicy}
    (hw : Wrote t u t' limit target content p name) (hr : Resolved t limit policy path root target)
    (hfree : t.LinkFree target) : p ++ [name] = target := by
  rcases Tree.weaklyCanonical_plain hr.named with hplain | ⟨front,rfl,-⟩
  · have hfree' : u.LinkFree ([] ++ target) := hw.grown.linkFree hfree
    exact Tree.locate_linkFree hfree' hplain hw.located
  · have hnone := Tree.locate_slash u limit [] front
    rw [hw.located] at hnone
    cases hnone

theorem on_the_way {root : List String} {policy : SecurityPolicy}
    (hw : Wrote t u t' limit target content p name) (hr : Resolved t limit policy path root target)
    (hfree : t.LinkFree target) {q : List String} (hq : t'.entry q ≠ t.entry q) : q <+: target := by
  have htarget := hw.at_target hr hfree
  by_cases heq : q = p ++ [name]
  · rw [heq,htarget]
  · rw [hw.elsewhere heq] at hq
    have hplain : ∀ other ∈ target.dropLast, Plain other := by
      rcases Tree.weaklyCanonical_plain hr.named with hplain | ⟨front,rfl,hplain⟩
      · exact fun other hother => hplain other (List.mem_of_mem_dropLast hother)
      · rwa [List.dropLast_concat]
    have hprefix := List.dropLast_prefix target
    exact (Tree.createDirectories_places (hfree.above hprefix) hplain hw.made q hq).trans hprefix

end Wrote

theorem writes_one_file (t : Tree) (limit : Nat) (security : Option SecurityPolicy)
    (path content : String) :
    match run t limit security path content with
    | (t', .error _) => t.Grown t'
    | (t', .ok _) => ∃ p, t'.entry p = some (.file content) ∧
        (∀ e, t.entry p = some e → ∃ c, e = .file c) ∧
        ∀ q, q ≠ p → t'.entry q ≠ t.entry q → t.entry q = none ∧ t'.entry q = some .dir := by
  split
  · next hrun => exact run_refused hrun
  · next hrun =>
    obtain ⟨policy,target,-,-,hwrite⟩ := run_ok hrun
    obtain ⟨u,p,name,hw⟩ := write_wrote hwrite
    refine ⟨p ++ [name],hw.written,hw.stood,?_⟩
    intro q hne hq
    rw [hw.elsewhere hne] at hq ⊢
    exact hw.grown q hq

theorem lands_iff_linkFree {output : String}
    (h : run t limit security path content = (t', .ok output)) :
    ∃ policy root target, security = some policy ∧ Resolved t limit policy path root target ∧
      (t'.entry target = some (.file content) ↔ t.LinkFree target) ∧
      (t.LinkFree target → t.entry root = some .dir →
        ∀ q, t'.entry q ≠ t.entry q → root <+: q ∧ q <+: target) := by
  obtain ⟨policy,target,hpolicy,hresolve,hwrite⟩ := run_ok h
  obtain ⟨root,hr⟩ := resolve_ok hresolve
  obtain ⟨u,p,name,hw⟩ := write_wrote hwrite
  refine ⟨policy,root,target,hpolicy,hr,⟨hw.linkFree_of_written,?_⟩,?_⟩
  · intro hfree
    rw [← hw.at_target hr hfree]
    exact hw.written
  · intro hfree hdir q hq
    have hway := hw.on_the_way hr hfree hq
    refine ⟨?_,hway⟩
    rcases List.prefix_or_prefix_of_prefix hr.inside hway with hin | hout
    · exact hin
    · by_cases heq : q = root
      · rw [heq]
      · have hstood := Tree.dir_above hdir hout heq
        by_cases hfile : q = p ++ [name]
        · obtain ⟨c,hc⟩ := hw.stood .dir (hfile ▸ hstood)
          cases hc
        · rw [hw.elsewhere hfile] at hq
          rw [(hw.grown q hq).1] at hstood
          cases hstood

def home : Tree :=
  (((Tree.bare.put [] "box" .dir).put [] "etc" .dir).put ["box"] "out" (.link true ["etc"])).put
    ["box"] "key" (.link true ["etc", "key"])

def boxPolicy : SecurityPolicy := { sandboxRoot := "/box" }

def day : Tree := (run home 40 (some boxPolicy) "notes/day" "rain").1

theorem run_day : run home 40 (some boxPolicy) "notes/day" "rain" =
    (day, .ok "Successfully wrote 4 bytes to notes/day") := by
  refine Prod.ext rfl ?_
  decide +kernel

theorem lands_iff_linkFree_day :
    ∃ policy root target, some boxPolicy = some policy ∧
      Resolved home 40 policy "notes/day" root target ∧
      (day.entry target = some (.file "rain") ↔ home.LinkFree target) ∧
      (home.LinkFree target → home.entry root = some .dir →
        ∀ q, day.entry q ≠ home.entry q → root <+: q ∧ q <+: target) :=
  lands_iff_linkFree run_day

-- A missing name and `..` after it keep a link from being resolved before it is followed.
example : (run home 40 (some boxPolicy) "new/../out/passwd" "x").1.entry ["etc", "passwd"] =
    some (.file "x") := by
  decide +kernel

theorem lands_unless_link {output : String}
    (h : run t limit security path content = (t', .ok output)) (hup : ".." ∉ pathNames path) :
    ∃ policy root target, security = some policy ∧ Resolved t limit policy path root target ∧
      ((∃ absolute names, t.entry target = some (.link absolute names) ∧
          t'.entry target = some (.link absolute names)) ∨
        t'.entry target = some (.file content) ∧ ∀ q, t'.entry q ≠ t.entry q → q <+: target) := by
  obtain ⟨policy,target,hpolicy,hresolve,hwrite⟩ := run_ok h
  obtain ⟨root,hr⟩ := resolve_ok hresolve
  obtain ⟨u,p,name,hw⟩ := write_wrote hwrite
  refine ⟨policy,root,target,hpolicy,hr,?_⟩
  obtain ⟨stands,below,hl⟩ := Tree.weaklyCanonical_landed hr.named (joined_noUp hr.boxed hup)
  have hparent := hl.parent_linkFree hw.made
  by_cases hlink : ∃ absolute names, t.entry target = some (.link absolute names)
  · obtain ⟨absolute,names,he⟩ := hlink
    exact .inl ⟨absolute,names,he,hw.link_stays he rfl⟩
  · have hfree : t.LinkFree target := by
      refine Tree.linkFree_of_parent hparent ?_
      intro e he
      cases e with
      | dir => rfl
      | file c => rfl
      | link absolute names => exact absurd ⟨absolute,names,he⟩ hlink
    refine .inr ⟨?_,fun q hq => hw.on_the_way hr hfree hq⟩
    rw [← hw.at_target hr hfree]
    exact hw.written

theorem lands_unless_link_day :
    ∃ policy root target, some boxPolicy = some policy ∧
      Resolved home 40 policy "notes/day" root target ∧
      ((∃ absolute names, home.entry target = some (.link absolute names) ∧
          day.entry target = some (.link absolute names)) ∨
        day.entry target = some (.file "rain") ∧
          ∀ q, day.entry q ≠ home.entry q → q <+: target) :=
  lands_unless_link run_day (by decide +kernel)

example : (run home 40 (some boxPolicy) "key" "x").1.entry ["etc", "key"] = some (.file "x") := by
  decide +kernel

end WriteFileTool

end PuCli
