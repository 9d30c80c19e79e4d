import PuCli.Session.GraphSound

namespace PuCli.MessageGraph

variable {g : MessageGraph} {id : MessageId}
variable {marks marks' : MessageId → Mark} {path path' : List MessageId}

def Rooted (g : MessageGraph) (id : MessageId) : Prop :=
  ∃ t, Trail g.parentOf id t ∧ ∀ k ∈ t, (g.find k).isSome

def SoundMarks (g : MessageGraph) (marks : MessageId → Mark) : Prop :=
  ∀ id, marks id = .sound → g.Rooted id

theorem rooted_of_parent {n : MessageNode} (hn : g.find id = some n)
    (hp : n.parent = "" ∨ g.Rooted n.parent) : g.Rooted id := by
  have hs : (g.find id).isSome := Option.isSome_iff_exists.mpr ⟨n,hn⟩
  by_cases he : n.parent = ""
  · have hlast : g.parentOf id = none := by simp [parentOf,hn,he]
    exact ⟨[id],.last hlast,by simpa using hs⟩
  · obtain ⟨t,ht,hst⟩ := hp.resolve_left he
    have hup : g.parentOf id = some n.parent := by simp [parentOf,hn,he]
    refine ⟨id :: t,.more hup ht,?_⟩
    intro k hk
    rcases List.mem_cons.mp hk with rfl | hk
    · exact hs
    · exact hst k hk

theorem climbMarks_sound {n : Nat} (hm : g.SoundMarks marks)
    (hc : g.climbMarks n marks path id = some (marks',path')) :
    (id = "" ∨ g.Rooted id) ∧ g.SoundMarks marks' ∧ ∀ k ∈ path', k ∈ path ∨ g.Rooted k := by
  induction n generalizing marks path id with
  | zero => simp [climbMarks] at hc
  | succ n ih =>
      unfold climbMarks at hc
      split at hc
      · next he =>
          obtain ⟨rfl,rfl⟩ := Prod.mk.inj (Option.some.inj hc)
          exact ⟨.inl he,hm,fun k hk => .inl hk⟩
      · split at hc
        · simp at hc
        · next node hnode =>
            split at hc
            · next hmark =>
                obtain ⟨rfl,rfl⟩ := Prod.mk.inj (Option.some.inj hc)
                exact ⟨.inr (hm id hmark),hm,fun k hk => .inl hk⟩
            · simp at hc
            · have hm' : g.SoundMarks (Function.update marks id .onPath) := by
                intro k hk
                by_cases hki : k = id
                · simp [hki] at hk
                · exact hm k (by simpa [hki] using hk)
              obtain ⟨hup,hsm,hpath⟩ := ih hm' hc
              have hroot := rooted_of_parent hnode hup
              refine ⟨.inr hroot,hsm,?_⟩
              intro k hk
              rcases hpath k hk with hk | hk
              · rcases List.mem_append.mp hk with hk | hk
                · exact .inl hk
                · exact .inr (List.mem_singleton.mp hk ▸ hroot)
              · exact .inr hk

theorem mark_sound_all (path : List MessageId) (marks : MessageId → Mark) (k : MessageId) :
    path.foldl (fun marks id => Function.update marks id .sound) marks k =
      if k ∈ path then .sound else marks k := by
  induction path generalizing marks with
  | nil => simp
  | cons j path ih =>
      rw [List.foldl_cons,ih]
      by_cases hk : k ∈ path
      · simp [hk]
      · by_cases hkj : k = j <;> simp [hk,hkj]

theorem settleEntry_sound (hm : g.SoundMarks marks) (hs : g.settleEntry marks id = some marks') :
    (id = "" ∨ g.Rooted id) ∧ g.SoundMarks marks' := by
  simp only [settleEntry,Option.map_eq_some_iff] at hs
  obtain ⟨⟨found,path⟩,hc,rfl⟩ := hs
  obtain ⟨hid,hsm,hpath⟩ := climbMarks_sound hm hc
  refine ⟨hid,?_⟩
  intro k hk
  dsimp only at hk
  rw [mark_sound_all] at hk
  split at hk
  · next hkp => exact (hpath k hkp).resolve_left List.not_mem_nil
  · exact hsm k hk

theorem foldlM_settleEntry_sound {ids : List MessageId} (hm : g.SoundMarks marks)
    (hs : ids.foldlM g.settleEntry marks = some marks') : ∀ id ∈ ids, id = "" ∨ g.Rooted id := by
  induction ids generalizing marks with
  | nil => simp
  | cons j ids ih =>
      rw [List.foldlM_cons] at hs
      obtain ⟨marks₁,hj,hs⟩ := Option.bind_eq_some_iff.mp hs
      obtain ⟨hroot,hm₁⟩ := settleEntry_sound hm hj
      intro id hid
      rcases List.mem_cons.mp hid with rfl | hid
      · exact hroot
      · exact ih hm₁ hs id hid

theorem climbMarks_complete {n : Nat} {t : List MessageId} (hn : g.find "" = none)
    (ht : Trail g.parentOf id t) (hst : ∀ k ∈ t, (g.find k).isSome) (hl : t.length < n)
    (hoff : ∀ k ∈ t, marks k ≠ .onPath) (hon : ∀ k, marks k = .onPath → k ∈ path) :
    ∃ marks' path', g.climbMarks n marks path id = some (marks',path') ∧
      ∀ k, marks' k = .onPath → k ∈ path' := by
  induction ht generalizing n marks path with
  | @last id hroot =>
      obtain ⟨n,rfl⟩ : ∃ m, n = m + 2 := ⟨n - 2,by simp at hl; omega⟩
      obtain ⟨node,hnode⟩ := Option.isSome_iff_exists.mp (hst id (by simp))
      have hne : id ≠ "" := by
        rintro rfl
        simp [hn] at hnode
      have hpar : node.parent = "" := by
        by_contra hc
        simp [parentOf,hnode,hc] at hroot
      have hid := hoff id (by simp)
      cases hmark : marks id with
      | sound => exact ⟨marks,path,by simp [climbMarks,hne,hnode,hmark],hon⟩
      | onPath => exact absurd hmark hid
      | unvisited =>
          refine ⟨Function.update marks id .onPath,path ++ [id],
            by simp [climbMarks,hne,hnode,hmark,hpar],?_⟩
          intro k hk
          by_cases hki : k = id
          · simp [hki]
          · exact List.mem_append_left _ (hon k (by simpa [hki] using hk))
  | @more id up t hup ht ih =>
      obtain ⟨n,rfl⟩ : ∃ m, n = m + 1 := ⟨n - 1,by simp at hl; omega⟩
      obtain ⟨node,hnode⟩ := Option.isSome_iff_exists.mp (hst id (by simp))
      have hne : id ≠ "" := by
        rintro rfl
        simp [hn] at hnode
      have hpar : node.parent = up := by
        by_cases hc : node.parent = ""
        · simp [parentOf,hnode,hc] at hup
        · simpa [parentOf,hnode,hc] using hup
      have hnd := (Trail.more hup ht).nodup
      have hid := hoff id (by simp)
      cases hmark : marks id with
      | sound => exact ⟨marks,path,by simp [climbMarks,hne,hnode,hmark],hon⟩
      | onPath => exact absurd hmark hid
      | unvisited =>
          simp only [climbMarks,hne,hnode,hmark,hpar,if_false]
          refine ih (fun k hk => hst k (List.mem_cons_of_mem _ hk)) ?_ ?_ ?_
          · simp only [List.length_cons] at hl
            omega
          · intro k hk
            have hki : k ≠ id := by
              rintro rfl
              exact (List.nodup_cons.mp hnd).1 hk
            simpa [hki] using hoff k (List.mem_cons_of_mem _ hk)
          · intro k hk
            by_cases hki : k = id
            · simp [hki]
            · exact List.mem_append_left _ (hon k (by simpa [hki] using hk))

theorem settleEntry_complete (h : g.Sound) (hs : (g.find id).isSome)
    (hoff : ∀ k, marks k ≠ .onPath) :
    ∃ marks', g.settleEntry marks id = some marks' ∧ ∀ k, marks' k ≠ .onPath := by
  obtain ⟨t,ht⟩ := h.ends hs
  have hlen := trail_length_le h ht hs
  have hon : ∀ k, marks k = .onPath → k ∈ ([] : List MessageId) := fun k hk => absurd hk (hoff k)
  obtain ⟨found,path,hc,hon⟩ := climbMarks_complete (n := g.size + 1) h.named ht
    (trail_stored h ht hs) (by omega) (fun k _ => hoff k) hon
  refine ⟨path.foldl (fun marks id => Function.update marks id .sound) found,
    by simp [settleEntry,hc],?_⟩
  intro k
  rw [mark_sound_all]
  split
  · simp
  · next hk => exact fun hc => hk (hon k hc)

theorem foldlM_settleEntry_complete {ids : List MessageId} (h : g.Sound)
    (hs : ∀ id ∈ ids, (g.find id).isSome) (hoff : ∀ k, marks k ≠ .onPath) :
    (ids.foldlM g.settleEntry marks).isSome := by
  induction ids generalizing marks with
  | nil => simp
  | cons j ids ih =>
      obtain ⟨marks₁,hj,hoff₁⟩ := settleEntry_complete h (hs j (by simp)) hoff
      rw [List.foldlM_cons,hj]
      exact ih (fun id hid => hs id (List.mem_cons_of_mem _ hid)) hoff₁

theorem mem_keys_iff : id ∈ g.nodes.keys ↔ (g.find id).isSome := by
  rw [Std.ExtTreeMap.mem_keys,Std.ExtTreeMap.mem_iff_isSome_getElem?]
  rfl

theorem linksResolve_of_sound (h : g.Sound) : g.linksResolve = true := by
  refine foldlM_settleEntry_complete h ?_ (by simp)
  intro id hid
  exact mem_keys_iff.mp hid

theorem sound_of_linksResolve (hk : ∀ {id n}, g.find id = some n → n.id = id)
    (hn : g.find "" = none) (hl : g.leaf = "" ∨ (g.find g.leaf).isSome)
    (hr : g.linksResolve = true) : g.Sound := by
  obtain ⟨marks,hm⟩ := Option.isSome_iff_exists.mp hr
  have hroot : ∀ {id}, (g.find id).isSome → g.Rooted id := by
    intro id hid
    have := foldlM_settleEntry_sound (fun _ he => by simp at he) hm id (mem_keys_iff.mpr hid)
    refine this.resolve_left ?_
    rintro rfl
    simp [hn] at hid
  refine ⟨hk,hn,hl,?_,?_⟩
  · intro id n hid
    by_cases he : n.parent = ""
    · exact .inl he
    · obtain ⟨t,ht,hst⟩ := hroot (Option.isSome_iff_exists.mpr ⟨n,hid⟩)
      have hup : g.parentOf id = some n.parent := by simp [parentOf,hid,he]
      exact .inr (hst _ (ht.next_mem ht.head_mem hup))
  · intro id hid
    obtain ⟨t,ht,_⟩ := hroot hid
    exact ⟨t,ht⟩

end PuCli.MessageGraph
