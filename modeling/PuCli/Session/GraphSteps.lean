import PuCli.Session.GraphAppend

namespace PuCli.MessageGraph

variable {g : MessageGraph} {id : MessageId} {n : MessageNode} {t : List MessageId}

theorem find_keep (reachable ks : List MessageId) (m : NodeMap) (j : MessageId) :
    (ks.foldl (fun nodes id => if id ∈ reachable then nodes else nodes.erase id) m)[j]? =
      if j ∈ ks ∧ j ∉ reachable then none else m[j]? := by
  induction ks generalizing m with
  | nil => simp
  | cons k ks ih =>
      rw [List.foldl_cons,ih]
      by_cases hk : k ∈ reachable
      · have hj : j ∈ k :: ks ∧ j ∉ reachable ↔ j ∈ ks ∧ j ∉ reachable := by
          constructor
          · rintro ⟨hj,hr⟩
            rcases List.mem_cons.mp hj with rfl | hj
            · exact absurd hk hr
            · exact ⟨hj,hr⟩
          · rintro ⟨hj,hr⟩
            exact ⟨List.mem_cons_of_mem _ hj,hr⟩
        simp only [hk,if_true,hj]
      · simp only [hk,if_false,Std.ExtTreeMap.getElem?_erase,compare_eq_iff_eq]
        by_cases hkj : k = j
        · subst hkj
          simp [hk]
        · have hjk : ¬ j = k := fun he => hkj he.symm
          simp [hkj,hjk]

theorem find_dropUnreachable (g : MessageGraph) (j : MessageId) :
    g.dropUnreachable.find j = if j ∈ g.chain.map MessageNode.id then g.find j else none := by
  have hk := find_keep (g.chain.map MessageNode.id) g.nodes.keys g.nodes j
  unfold find dropUnreachable
  rw [hk]
  by_cases hj : j ∈ g.chain.map MessageNode.id
  · simp only [hj,not_true_eq_false,and_false,if_false,if_true]
  · simp only [hj,not_false_eq_true,and_true,if_false,Std.ExtTreeMap.mem_keys]
    split
    · rfl
    · next hn => exact Std.ExtTreeMap.getElem?_eq_none hn

theorem dropUnreachable_spec (h : g.Sound) :
    g.dropUnreachable.Sound ∧ g.dropUnreachable.chain = g.chain := by
  have find_some : ∀ {j m}, g.dropUnreachable.find j = some m →
      j ∈ g.chain.map MessageNode.id ∧ g.find j = some m := by
    intro j m hm
    rw [find_dropUnreachable] at hm
    split at hm
    · next hj => exact ⟨hj,hm⟩
    · simp at hm
  rcases leaf_trail h with ⟨hl,hc⟩ | ⟨t,ht,hst,hc,hi⟩
  · have gone : ∀ j, g.dropUnreachable.find j = none := by
      intro j
      rw [find_dropUnreachable,hc]
      simp
    have hs : g.dropUnreachable.Sound := by
      constructor <;> simp [gone,show g.dropUnreachable.leaf = g.leaf from rfl,hl]
    exact ⟨hs,by rw [chain_of_leaf_eq_empty hs hl,hc]⟩
  · have kept : ∀ j ∈ t, g.dropUnreachable.find j = g.find j := by
      intro j hj
      rw [find_dropUnreachable,hi,if_pos (List.mem_reverse.mpr hj)]
    have same : ∀ j ∈ t, g.parentOf j = g.dropUnreachable.parentOf j := by
      intro j hj
      simp only [parentOf,kept j hj]
    have live : ∀ {j}, (g.dropUnreachable.find j).isSome → j ∈ t := by
      intro j hj
      obtain ⟨m,hm⟩ := Option.isSome_iff_exists.mp hj
      have hjt := (find_some hm).1
      rw [hi] at hjt
      exact List.mem_reverse.mp hjt
    have hleaf : (g.dropUnreachable.find g.leaf).isSome := by
      rw [kept _ ht.head_mem]
      exact hst _ ht.head_mem
    have hs : g.dropUnreachable.Sound := by
      refine ⟨fun hm => h.keyed (find_some hm).2,?_,.inr hleaf,?_,?_⟩
      · rw [find_dropUnreachable,h.named]
        split <;> rfl
      · intro j m hm
        by_cases hp : m.parent = ""
        · exact .inl hp
        · have hjt := live (Option.isSome_iff_exists.mpr ⟨m,hm⟩)
          have hup : g.parentOf j = some m.parent := by simp [parentOf,(find_some hm).2,hp]
          have hpt : m.parent ∈ t := ht.next_mem hjt hup
          exact .inr (by rw [kept _ hpt]; exact hst _ hpt)
      · intro j hj
        obtain ⟨s,hs,hsuf⟩ := ht.of_mem (live hj)
        exact ⟨s,hs.congr (fun k hk => same k (hsuf.subset hk))⟩
    refine ⟨hs,?_⟩
    rw [chain_eq hs hleaf (ht.congr same),hc]
    congr 1
    exact List.filterMap_congr kept

structure Fresh (g : MessageGraph) (id : MessageId) : Prop where
  named : id ≠ ""
  new : g.find id = none

def node (g : MessageGraph) (id : MessageId) (p : MessagePayload) (timestamp : String) :
    MessageNode := ⟨id, timestamp, p, g.leaf⟩

theorem add_spec (h : g.Sound) (hf : g.Fresh id) (p : MessagePayload) (timestamp : String) :
    Refines (g.store (g.node id p timestamp)) (g.add (g.node id p timestamp)) ∧
      (g.add (g.node id p timestamp)).chain = answerIn p g.chain := by
  have hst := sound_store (n := g.node id p timestamp) h hf.new hf.named rfl
  have hc := chain_store (n := g.node id p timestamp) h hf.new hf.named rfl
  obtain ⟨hr,hch⟩ := completeAnsweredRecord_spec hst p
  rw [hc] at hch
  exact ⟨hr,hch⟩

theorem append_before_drop (h : g.Sound) (hf : g.Fresh id) (p : MessagePayload)
    (timestamp : String) :
    (MessageGraph.mk (g.add (g.node id p timestamp)).nodes id).Sound ∧
      (MessageGraph.mk (g.add (g.node id p timestamp)).nodes id).chain =
        answerIn p g.chain ++ [g.node id p timestamp] := by
  obtain ⟨hr,hch⟩ := add_spec h hf p timestamp
  have hsto := sound_store (n := g.node id p timestamp) h hf.new hf.named rfl
  set stored := g.store (g.node id p timestamp) with hstored
  set added := g.add (g.node id p timestamp) with hadded
  have hself : stored.find id = some (g.node id p timestamp) := by
    rw [hstored,find_store (n := g.node id p timestamp) hf.new]
    simp [node]
  have hoff : g.node id p timestamp ∉ stored.chain := by
    rw [hstored,chain_store (n := g.node id p timestamp) h hf.new hf.named rfl]
    intro hm
    have := find_of_mem_chain h hm
    rw [show (g.node id p timestamp).id = id from rfl,hf.new] at this
    simp at this
  have hnode : added.find id = some (g.node id p timestamp) := hr.offChain hself hoff
  have hfind : (MessageGraph.mk added.nodes id).find = added.find := rfl
  have hpar : (MessageGraph.mk added.nodes id).parentOf = added.parentOf := rfl
  have hs : (MessageGraph.mk added.nodes id).Sound :=
    ⟨hr.sound.keyed,hr.sound.named,.inr (by simp [hfind,hnode]),hr.sound.parents,hr.sound.ends⟩
  refine ⟨hs,?_⟩
  have hsome : ((MessageGraph.mk added.nodes id).find id).isSome := by simp [hfind,hnode]
  have hleaf : added.leaf = g.leaf := hr.leaf
  rcases leaf_trail hr.sound with ⟨hl,hc⟩ | ⟨t,ht,hst,hc,_⟩
  · have hroot : added.parentOf id = none := by
      simp [parentOf,hnode,node,← hleaf,hl]
    rw [chain_eq hs hsome (.last hroot),← hch,hc]
    simp [hfind,hnode]
  · have hne : g.leaf ≠ "" := by
      intro he
      have := hst _ ht.head_mem
      rw [hleaf,he,hr.sound.named] at this
      simp at this
    have hup : added.parentOf id = some added.leaf := by
      simp [parentOf,hnode,node,hne,hleaf]
    have htr : Trail (MessageGraph.mk added.nodes id).parentOf id (id :: t) := .more hup ht
    rw [chain_eq hs hsome htr,← hch,hc,hfind]
    simp [hnode]

theorem appendAfterLeaf_eq (g : MessageGraph) (id : MessageId) (p : MessagePayload)
    (timestamp : String) : g.appendAfterLeaf id p timestamp =
      dropUnreachable (MessageGraph.mk (g.add (g.node id p timestamp)).nodes id) := rfl

theorem sound_appendAfterLeaf (h : g.Sound) (hf : g.Fresh id) (p : MessagePayload)
    (timestamp : String) : (g.appendAfterLeaf id p timestamp).Sound := by
  rw [appendAfterLeaf_eq]
  exact (dropUnreachable_spec (append_before_drop h hf p timestamp).1).1

theorem chain_appendAfterLeaf (h : g.Sound) (hf : g.Fresh id) (p : MessagePayload)
    (timestamp : String) : (g.appendAfterLeaf id p timestamp).chain =
      answerIn p g.chain ++ [g.node id p timestamp] := by
  obtain ⟨hs,hc⟩ := append_before_drop h hf p timestamp
  rw [appendAfterLeaf_eq,(dropUnreachable_spec hs).2,hc]

theorem find_appendAfterLeaf (h : g.Sound) (hf : g.Fresh id) (p : MessagePayload)
    (timestamp : String) (j : MessageId) :
    (g.appendAfterLeaf id p timestamp).find j = some n ↔
      n ∈ (g.appendAfterLeaf id p timestamp).chain ∧ n.id = j := by
  have hs := sound_appendAfterLeaf h hf p timestamp
  constructor
  · intro hn
    have hn' := hn
    rw [appendAfterLeaf_eq,find_dropUnreachable] at hn'
    split at hn'
    · next hj =>
        rw [← (dropUnreachable_spec (append_before_drop h hf p timestamp).1).2,
          ← appendAfterLeaf_eq] at hj
        obtain ⟨m,hm,rfl⟩ := List.mem_map.mp hj
        have hm' := find_of_mem_chain hs hm
        rw [hn] at hm'
        obtain rfl := Option.some.inj hm'
        exact ⟨hm,rfl⟩
    · simp at hn'
  · rintro ⟨hm,rfl⟩
    exact find_of_mem_chain hs hm

theorem leaf_appendAfterLeaf (g : MessageGraph) (id : MessageId) (p : MessagePayload)
    (timestamp : String) : (g.appendAfterLeaf id p timestamp).leaf = id := rfl

variable {g' : MessageGraph}

theorem rewindTo_eq (hr : g.rewindTo id = some g') :
    (id = "" ∨ (g.find id).isSome) ∧ g' = { g with leaf := id } := by
  unfold rewindTo at hr
  split at hr
  · simp at hr
  · next hk =>
      refine ⟨?_,(Option.some.inj hr).symm⟩
      rcases not_and_or.mp hk with hid | hid
      · exact .inl (not_not.mp hid)
      · exact .inr (Option.isSome_iff_ne_none.mpr hid)

theorem sound_rewindTo (h : g.Sound) (hr : g.rewindTo id = some g') : g'.Sound := by
  obtain ⟨hid,rfl⟩ := rewindTo_eq hr
  exact ⟨h.keyed,h.named,hid,h.parents,h.ends⟩

theorem chain_rewindTo_mem {pre post : List MessageNode} (h : g.Sound)
    (hc : g.chain = pre ++ n :: post) :
    MessageGraph.chain { g with leaf := n.id } = pre ++ [n] := by
  have hn : n ∈ g.chain := by simp [hc]
  have hf := find_of_mem_chain h hn
  have hs : MessageGraph.Sound { g with leaf := n.id } :=
    ⟨h.keyed,h.named,.inr (by simpa [find] using Option.isSome_iff_exists.mpr ⟨n,hf⟩),
      h.parents,h.ends⟩
  rcases leaf_trail h with ⟨_,hnil⟩ | ⟨t,ht,hst,hct,hi⟩
  · simp [hnil] at hc
  · have hnt : n.id ∈ t := by
      have := List.mem_map_of_mem (f := MessageNode.id) hn
      rwa [hi,List.mem_reverse] at this
    obtain ⟨s,hs',u,hu⟩ := ht.of_mem hnt
    have hsome : ((MessageGraph.mk g.nodes n.id).find n.id).isSome :=
      Option.isSome_iff_exists.mpr ⟨n,hf⟩
    rw [chain_eq hs hsome hs']
    change (s.filterMap g.find).reverse = _
    have hsplit : (s.filterMap g.find).reverse ++ (u.filterMap g.find).reverse =
        pre ++ n :: post := by
      rw [← hc,hct,← hu,List.filterMap_append,List.reverse_append]
    have hlast : (s.filterMap g.find).reverse.getLast? = some n := by
      rw [List.getLast?_reverse]
      cases hs' <;> simp [hf]
    obtain ⟨r,hr⟩ := List.getLast?_eq_some_iff.mp hlast
    have hnd : (pre ++ n :: post).Nodup := by
      rw [← hc]
      exact (chain_ids_nodup h).of_map _
    rw [hr,List.append_assoc,List.singleton_append] at hsplit
    rw [← hsplit] at hnd
    have hnr : n ∉ r := fun hm => (List.nodup_append.mp hnd).2.2 n hm n (by simp) rfl
    have hnu : n ∉ (u.filterMap g.find).reverse :=
      (List.nodup_cons.mp (List.nodup_append.mp hnd).2.1).1
    rw [hr,((List.append_cons_inj_of_notMem hnr hnu).mp hsplit).1]

end PuCli.MessageGraph
