import PuCli.Library.Trail
import PuCli.Session.Graph

namespace PuCli.MessageGraph

variable {g : MessageGraph} {id k : MessageId} {n : MessageNode} {t : List MessageId}

def parentOf (g : MessageGraph) (id : MessageId) : Option MessageId :=
  match g.find id with
  | none => none
  | some n => if n.parent = "" then none else some n.parent

structure Sound (g : MessageGraph) : Prop where
  keyed : ∀ {id n}, g.find id = some n → n.id = id
  named : g.find "" = none
  leaf : g.leaf = "" ∨ (g.find g.leaf).isSome
  parents : ∀ {id n}, g.find id = some n → n.parent = "" ∨ (g.find n.parent).isSome
  ends : ∀ {id}, (g.find id).isSome → ∃ t, Trail g.parentOf id t

theorem sound_empty : empty.Sound := by
  constructor <;> simp [empty,find]

theorem parentOf_eq_some (h : g.Sound) (hp : g.parentOf id = some k) : (g.find k).isSome := by
  unfold parentOf at hp
  split at hp
  · simp at hp
  · next n hn =>
      split at hp
      · simp at hp
      · next hne =>
          obtain rfl := Option.some.inj hp
          exact (h.parents hn).resolve_left hne

theorem trail_stored (h : g.Sound) (ht : Trail g.parentOf id t) (hs : (g.find id).isSome) :
    ∀ k ∈ t, (g.find k).isSome := by
  induction ht with
  | last _ => simpa using hs
  | more hn _ ih =>
      intro k hk
      rcases List.mem_cons.mp hk with rfl | hk
      · exact hs
      · exact ih (parentOf_eq_some h hn) k hk

theorem trail_length_le (h : g.Sound) (ht : Trail g.parentOf id t) (hs : (g.find id).isSome) :
    t.length ≤ g.size := by
  have hk : t ⊆ g.nodes.keys := by
    intro k hk
    have hks := trail_stored h ht hs k hk
    rw [Std.ExtTreeMap.mem_keys,Std.ExtTreeMap.mem_iff_isSome_getElem?]
    exact hks
  have hl := ht.length_le hk
  rwa [Std.ExtTreeMap.length_keys] at hl

theorem climb_eq (ht : Trail g.parentOf id t) (hs : (g.find id).isSome) {m : Nat}
    (hl : t.length ≤ m) : g.climb m (g.find id) = t.filterMap g.find := by
  obtain ⟨n,hn⟩ := Option.isSome_iff_exists.mp hs
  induction ht generalizing m n with
  | @last id hp =>
      obtain ⟨m,rfl⟩ : ∃ m', m = m' + 1 := ⟨m - 1,by simp at hl; omega⟩
      have hr : n.parent = "" := by
        by_contra hc
        simp [parentOf,hn,hc] at hp
      cases m <;> simp [hn,climb,hr]
  | @more id j t hp ht ih =>
      obtain ⟨m,rfl⟩ : ∃ m', m = m' + 1 := ⟨m - 1,by simp at hl; omega⟩
      obtain ⟨hne,rfl⟩ : n.parent ≠ "" ∧ n.parent = j := by
        by_cases hc : n.parent = ""
        · simp [parentOf,hn,hc] at hp
        · exact ⟨hc,by simpa [parentOf,hn,hc] using hp⟩
      simp only [List.length_cons,Nat.add_le_add_iff_right] at hl
      cases hj : g.find n.parent with
      | none =>
          cases ht with
          | last _ => cases m <;> simp [hn,climb,hne,hj]
          | more hp' _ => simp [parentOf,hj] at hp'
      | some n' =>
          have hc := ih (by simp [hj]) hl n' hj
          rw [hj] at hc
          simp [hn,climb,hne,hj,hc]

theorem chain_eq (h : g.Sound) (hs : (g.find g.leaf).isSome) (ht : Trail g.parentOf g.leaf t) :
    g.chain = (t.filterMap g.find).reverse := by
  rw [chain,climb_eq ht hs (trail_length_le h ht hs)]

theorem chain_of_leaf_eq_empty (h : g.Sound) (hl : g.leaf = "") : g.chain = [] := by
  unfold chain
  rw [hl,h.named]
  cases g.size <;> rfl

theorem filterMap_find_ids (h : g.Sound) (hs : ∀ k ∈ t, (g.find k).isSome) :
    (t.filterMap g.find).map MessageNode.id = t := by
  induction t with
  | nil => rfl
  | cons k t ih =>
      obtain ⟨n,hn⟩ := Option.isSome_iff_exists.mp (hs k (by simp))
      have := ih (fun j hj => hs j (List.mem_cons_of_mem _ hj))
      simp [hn,h.keyed hn,this]

theorem leaf_trail (h : g.Sound) :
    (g.leaf = "" ∧ g.chain = []) ∨
      ∃ t, Trail g.parentOf g.leaf t ∧ (∀ k ∈ t, (g.find k).isSome) ∧
        g.chain = (t.filterMap g.find).reverse ∧ g.chain.map MessageNode.id = t.reverse := by
  rcases h.leaf with hl | hs
  · exact .inl ⟨hl,chain_of_leaf_eq_empty h hl⟩
  · obtain ⟨t,ht⟩ := h.ends hs
    have hst := trail_stored h ht hs
    have hc := chain_eq h hs ht
    refine .inr ⟨t,ht,hst,hc,?_⟩
    rw [hc,List.map_reverse,filterMap_find_ids h hst]

theorem find_of_mem_chain (h : g.Sound) (hn : n ∈ g.chain) : g.find n.id = some n := by
  rcases leaf_trail h with ⟨_,hc⟩ | ⟨t,_,_,hc,_⟩
  · simp [hc] at hn
  · rw [hc,List.mem_reverse,List.mem_filterMap] at hn
    obtain ⟨k,_,hk⟩ := hn
    rwa [h.keyed hk]

theorem id_ne_empty_of_mem_chain (h : g.Sound) (hn : n ∈ g.chain) : n.id ≠ "" := by
  intro hempty
  have hfind := find_of_mem_chain h hn
  rw [hempty,h.named] at hfind
  cases hfind

theorem chain_ids_nodup (h : g.Sound) : (g.chain.map MessageNode.id).Nodup := by
  rcases leaf_trail h with ⟨_,hc⟩ | ⟨t,ht,_,_,hi⟩
  · simp [hc]
  · rw [hi]
    exact List.nodup_reverse.mpr ht.nodup

theorem chain_getLast? (h : g.Sound) : g.chain.getLast? = g.find g.leaf := by
  rcases leaf_trail h with ⟨hl,hc⟩ | ⟨t,ht,hst,hc,_⟩
  · simp [hc,hl,h.named]
  · rw [hc,List.getLast?_reverse]
    obtain ⟨n,hn⟩ := Option.isSome_iff_exists.mp (hst g.leaf ht.head_mem)
    cases ht <;> simp [hn]

end PuCli.MessageGraph
