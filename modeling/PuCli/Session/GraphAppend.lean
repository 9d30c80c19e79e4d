import PuCli.Session.GraphSound

namespace PuCli.MessageGraph

variable {g : MessageGraph} {id k : MessageId} {n n' : MessageNode} {t : List MessageId}

def replace (g : MessageGraph) (k : MessageId) (n' : MessageNode) : MessageGraph :=
  { g with nodes := g.nodes.insert k n' }

structure Alike (n n' : MessageNode) : Prop where
  id : n'.id = n.id
  parent : n'.parent = n.parent

theorem find_replace (g : MessageGraph) (k j : MessageId) (n' : MessageNode) :
    (g.replace k n').find j = if k = j then some n' else g.find j := by
  simp [find,replace,Std.ExtTreeMap.getElem?_insert]

theorem find_replace_eq_map (h : g.Sound) (hk : g.find k = some n) (j : MessageId) :
    (g.replace k n').find j = (g.find j).map (fun m => if m.id = k then n' else m) := by
  rw [find_replace]
  cases hj : g.find j with
  | none =>
      have hne : k ≠ j := by
        rintro rfl
        simp [hk] at hj
      simp [hne]
  | some m =>
      have hm := h.keyed hj
      by_cases hkj : k = j
      · simp [hkj,hm]
      · simp [hkj,hm,Ne.symm hkj]

theorem parentOf_replace (hk : g.find k = some n) (ha : Alike n n') :
    (g.replace k n').parentOf = g.parentOf := by
  funext j
  unfold parentOf
  rw [find_replace]
  by_cases hkj : k = j
  · subst hkj
    simp [hk,ha.parent]
  · simp [hkj]

theorem isSome_find_replace (hk : g.find k = some n) (n' : MessageNode) (j : MessageId) :
    ((g.replace k n').find j).isSome = (g.find j).isSome := by
  rw [find_replace]
  by_cases hkj : k = j
  · subst hkj
    simp [hk]
  · simp [hkj]

theorem sound_replace (h : g.Sound) (hk : g.find k = some n) (ha : Alike n n') :
    (g.replace k n').Sound where
  keyed := by
    intro j m hm
    rw [find_replace] at hm
    split at hm
    · next hkj =>
        obtain rfl := Option.some.inj hm
        rw [ha.id,h.keyed hk,hkj]
    · exact h.keyed hm
  named := by
    have hs := isSome_find_replace hk n' ""
    rw [h.named] at hs
    simpa using hs
  leaf := by
    rw [isSome_find_replace hk]
    exact h.leaf
  parents := by
    intro j m hm
    rw [isSome_find_replace hk]
    rw [find_replace] at hm
    split at hm
    · obtain rfl := Option.some.inj hm
      rw [ha.parent]
      exact h.parents hk
    · exact h.parents hm
  ends := by
    intro j hj
    rw [isSome_find_replace hk] at hj
    rw [parentOf_replace hk ha]
    exact h.ends hj

theorem chain_replace (h : g.Sound) (hk : g.find k = some n) (ha : Alike n n') :
    (g.replace k n').chain = g.chain.map (fun m => if m.id = k then n' else m) := by
  have h' := sound_replace h hk ha
  rcases leaf_trail h with ⟨hl,hc⟩ | ⟨t,ht,hst,hc,_⟩
  · rw [hc,chain_of_leaf_eq_empty h' hl]
    rfl
  · rw [← parentOf_replace hk ha] at ht
    have hs : ((g.replace k n').find g.leaf).isSome := by
      rw [isSome_find_replace hk]
      exact hst _ ht.head_mem
    rw [chain_eq h' hs ht,hc,List.map_reverse,List.map_filterMap]
    congr 2
    funext j
    exact find_replace_eq_map h hk j

def store (g : MessageGraph) (node : MessageNode) : MessageGraph :=
  { g with nodes := g.nodes.insertIfNew node.id node }

theorem find_store (hf : g.find n.id = none) (j : MessageId) :
    (g.store n).find j = if n.id = j then some n else g.find j := by
  have hnm : n.id ∉ g.nodes := by
    rw [Std.ExtTreeMap.mem_iff_isSome_getElem?]
    simpa [find] using hf
  simp [find,store,Std.ExtTreeMap.getElem?_insertIfNew,hnm]

theorem find_store_of_isSome (hf : g.find n.id = none) {j : MessageId}
    (hj : (g.find j).isSome) : (g.store n).find j = g.find j := by
  rw [find_store hf]
  have hne : n.id ≠ j := by
    rintro rfl
    simp [hf] at hj
  simp [hne]

theorem parentOf_store_of_isSome (hf : g.find n.id = none) {j : MessageId}
    (hj : (g.find j).isSome) : (g.store n).parentOf j = g.parentOf j := by
  simp only [parentOf,find_store_of_isSome hf hj]

theorem parentOf_store_self (hf : g.find n.id = none) :
    (g.store n).parentOf n.id = if n.parent = "" then none else some n.parent := by
  simp [parentOf,find_store hf]

theorem trail_store (h : g.Sound) (hf : g.find n.id = none) (ht : Trail g.parentOf id t)
    (hs : (g.find id).isSome) : Trail (g.store n).parentOf id t :=
  ht.congr (fun j hj => (parentOf_store_of_isSome hf (trail_stored h ht hs j hj)).symm)

theorem sound_store (h : g.Sound) (hf : g.find n.id = none) (hid : n.id ≠ "")
    (hp : n.parent = g.leaf) : (g.store n).Sound where
  keyed := by
    intro j m hm
    rw [find_store hf] at hm
    split at hm
    · next hj =>
        obtain rfl := Option.some.inj hm
        exact hj
    · exact h.keyed hm
  named := by
    rw [find_store hf]
    simp [hid,h.named]
  leaf := by
    rcases h.leaf with hl | hs
    · exact .inl hl
    · refine .inr ?_
      change ((g.store n).find g.leaf).isSome
      rwa [find_store_of_isSome hf hs]
  parents := by
    intro j m hm
    have lift : ∀ {p : MessageId}, p = "" ∨ (g.find p).isSome →
        p = "" ∨ ((g.store n).find p).isSome := by
      intro p hp
      rcases hp with hp | hp
      · exact .inl hp
      · exact .inr (by rwa [find_store_of_isSome hf hp])
    rw [find_store hf] at hm
    split at hm
    · obtain rfl := Option.some.inj hm
      rw [hp]
      exact lift h.leaf
    · exact lift (h.parents hm)
  ends := by
    intro j hj
    rw [find_store hf] at hj
    by_cases hnj : n.id = j
    · subst hnj
      by_cases hl : g.leaf = ""
      · exact ⟨_,.last (by rw [parentOf_store_self hf]; simp [hp,hl])⟩
      · have hs := h.leaf.resolve_left hl
        obtain ⟨t,ht⟩ := h.ends hs
        exact ⟨_,.more (by rw [parentOf_store_self hf]; simp [hp,hl]) (trail_store h hf ht hs)⟩
    · rw [if_neg hnj] at hj
      obtain ⟨t,ht⟩ := h.ends hj
      exact ⟨t,trail_store h hf ht hj⟩

theorem chain_store (h : g.Sound) (hf : g.find n.id = none) (hid : n.id ≠ "")
    (hp : n.parent = g.leaf) : (g.store n).chain = g.chain := by
  have h' := sound_store h hf hid hp
  rcases leaf_trail h with ⟨hl,hc⟩ | ⟨t,ht,hst,hc,_⟩
  · rw [hc,chain_of_leaf_eq_empty h' hl]
  · have hs := hst _ ht.head_mem
    have hs' : ((g.store n).find (g.store n).leaf).isSome := by
      change ((g.store n).find g.leaf).isSome
      rwa [find_store_of_isSome hf hs]
    rw [chain_eq h' hs' (trail_store h hf ht hs),hc]
    congr 1
    exact List.filterMap_congr (fun j hj => find_store_of_isSome hf (hst j hj))

def completeNearest (callId : String) : List MessageNode → List MessageNode
  | [] => []
  | n :: ns =>
      if hasRecord callId n then completeRecordOf callId n :: ns
      else n :: completeNearest callId ns

theorem alike_completeRecordOf (callId : String) (n : MessageNode) :
    Alike n (completeRecordOf callId n) := by
  unfold completeRecordOf
  split <;> exact ⟨rfl,rfl⟩

theorem completeFrom_empty (g : MessageGraph) (callId : String) (m : Nat) :
    g.completeFrom callId m "" = g.nodes := by
  cases m <;> simp [completeFrom]

theorem completeFrom_eq (h : g.Sound) (ht : Trail g.parentOf id t)
    (hst : ∀ k ∈ t, (g.find k).isSome) {callId : String} {m : Nat} (hl : t.length ≤ m) :
    g.completeFrom callId m id =
      match (t.filterMap g.find).find? (hasRecord callId) with
      | none => g.nodes
      | some node => g.nodes.insert node.id (completeRecordOf callId node) := by
  induction ht generalizing m with
  | @last id hp =>
      obtain ⟨m,rfl⟩ : ∃ m', m = m' + 1 := ⟨m - 1,by simp at hl; omega⟩
      obtain ⟨n,hn⟩ := Option.isSome_iff_exists.mp (hst id (by simp))
      have hne : id ≠ "" := by
        rintro rfl
        simp [h.named] at hn
      have hr : n.parent = "" := by
        by_contra hc
        simp [parentOf,hn,hc] at hp
      cases hrec : hasRecord callId n <;>
        simp [completeFrom,hne,hn,hrec,hr,completeFrom_empty,h.keyed hn]
  | @more id j t hp _ ih =>
      obtain ⟨m,rfl⟩ : ∃ m', m = m' + 1 := ⟨m - 1,by simp at hl; omega⟩
      obtain ⟨n,hn⟩ := Option.isSome_iff_exists.mp (hst id (by simp))
      have hne : id ≠ "" := by
        rintro rfl
        simp [h.named] at hn
      have hr : n.parent = j := by
        by_cases hc : n.parent = ""
        · simp [parentOf,hn,hc] at hp
        · simpa [parentOf,hn,hc] using hp
      simp only [List.length_cons,Nat.add_le_add_iff_right] at hl
      have hi := ih (fun k hk => hst k (List.mem_cons_of_mem _ hk)) hl
      cases hrec : hasRecord callId n with
      | true => simp [completeFrom,hne,hn,hrec,h.keyed hn]
      | false =>
          simp only [completeFrom,hne,hn,hrec,hr,hi]
          simp [hn,hrec]

theorem map_eq_completeNearest {callId : String} {ns : List MessageNode}
    (hd : (ns.map MessageNode.id).Nodup) (hf : ns.find? (hasRecord callId) = some n) :
    ns.map (fun m => if m.id = n.id then completeRecordOf callId n else m) =
      completeNearest callId ns := by
  induction ns with
  | nil => simp at hf
  | cons m ns ih =>
      simp only [List.map_cons,List.nodup_cons,List.mem_map,not_exists,not_and] at hd
      cases hm : hasRecord callId m with
      | true =>
          obtain rfl : m = n := by simpa [hm] using hf
          have hrest : ns.map (fun x => if x.id = m.id then completeRecordOf callId m else x) = ns := by
            refine (List.map_congr_left ?_).trans (List.map_id ns)
            intro x hx
            exact if_neg (hd.1 x hx)
          simp [completeNearest,hm,hrest]
      | false =>
          have hf' : ns.find? (hasRecord callId) = some n := by simpa [hm] using hf
          have hne : m.id ≠ n.id := fun he => hd.1 n (List.mem_of_find?_eq_some hf') he.symm
          simp [completeNearest,hm,hne,ih hd.2 hf']

theorem completeNearest_of_find?_eq_none {callId : String} {ns : List MessageNode}
    (hf : ns.find? (hasRecord callId) = none) : completeNearest callId ns = ns := by
  induction ns with
  | nil => rfl
  | cons m ns ih =>
      simp only [List.find?_eq_none,List.mem_cons,forall_eq_or_imp] at hf
      simp [completeNearest,hf.1,ih (List.find?_eq_none.mpr hf.2)]

theorem completeFor_cases (h : g.Sound) (callId : String) :
    (g.completeFor callId = g ∧
        (callId ≠ "" → completeNearest callId g.chain.reverse = g.chain.reverse)) ∨
      ∃ n, callId ≠ "" ∧ n ∈ g.chain ∧ g.find n.id = some n ∧
        g.completeFor callId = g.replace n.id (completeRecordOf callId n) ∧
        completeNearest callId g.chain.reverse =
          g.chain.reverse.map (fun m => if m.id = n.id then completeRecordOf callId n else m) := by
  by_cases hc : callId = ""
  · exact .inl ⟨by simp [completeFor,hc],fun hn => absurd hc hn⟩
  rcases leaf_trail h with ⟨hl,hch⟩ | ⟨t,ht,hst,hch,hi⟩
  · refine .inl ⟨?_,fun _ => by simp [hch,completeNearest]⟩
    simp only [completeFor,hc,hl,completeFrom_empty,if_false]
    rw [← hl]
  · have he := @completeFrom_eq g g.leaf t h ht hst callId g.size
      (trail_length_le h ht (hst _ ht.head_mem))
    have hrev : g.chain.reverse = t.filterMap g.find := by simp [hch]
    cases hf : (t.filterMap g.find).find? (hasRecord callId) with
    | none =>
        rw [hf] at he
        refine .inl ⟨by simp [completeFor,he],fun _ => ?_⟩
        rw [hrev]
        exact completeNearest_of_find?_eq_none hf
    | some n =>
        rw [hf] at he
        have hmem : n ∈ g.chain := by
          rw [← List.mem_reverse,hrev]
          exact List.mem_of_find?_eq_some hf
        refine .inr ⟨n,hc,hmem,find_of_mem_chain h hmem,by simp [completeFor,hc,he,replace],?_⟩
        rw [hrev]
        refine (map_eq_completeNearest ?_ hf).symm
        rw [filterMap_find_ids h hst]
        exact ht.nodup

def answerIn : MessagePayload → List MessageNode → List MessageNode
  | .tool receipt, chain =>
      if receipt.toolCallId = "" then chain
      else (completeNearest receipt.toolCallId chain.reverse).reverse
  | _, chain => chain

structure Refines (g g' : MessageGraph) : Prop where
  sound : g'.Sound
  leaf : g'.leaf = g.leaf
  parentOf : g'.parentOf = g.parentOf
  stored : ∀ j, (g'.find j).isSome = (g.find j).isSome
  offChain : ∀ {j n}, g.find j = some n → n ∉ g.chain → g'.find j = some n

theorem Refines.refl (h : g.Sound) : Refines g g :=
  ⟨h,rfl,rfl,fun _ => rfl,fun hj _ => hj⟩

theorem completeFor_spec (h : g.Sound) (callId : String) :
    Refines g (g.completeFor callId) ∧ (g.completeFor callId).chain =
      if callId = "" then g.chain else (completeNearest callId g.chain.reverse).reverse := by
  rcases completeFor_cases h callId with ⟨he,hc⟩ | ⟨n,hne,hmem,hn,he,hc⟩
  · rw [he]
    refine ⟨.refl h,?_⟩
    split
    · rfl
    · next hne => rw [hc hne,List.reverse_reverse]
  · have ha := alike_completeRecordOf callId n
    rw [he,chain_replace h hn ha,hc,← List.map_reverse,List.reverse_reverse,if_neg hne]
    refine ⟨⟨sound_replace h hn ha,rfl,parentOf_replace hn ha,isSome_find_replace hn _,?_⟩,rfl⟩
    intro j m hj hm
    rw [find_replace,if_neg ?_]
    · exact hj
    · rintro rfl
      rw [hn] at hj
      exact hm (Option.some.inj hj ▸ hmem)

theorem completeAnsweredRecord_spec (h : g.Sound) (p : MessagePayload) :
    Refines g (g.completeAnsweredRecord p) ∧
      (g.completeAnsweredRecord p).chain = answerIn p g.chain := by
  cases p with
  | tool r => exact completeFor_spec h r.toolCallId
  | _ => exact ⟨.refl h,rfl⟩

end PuCli.MessageGraph
