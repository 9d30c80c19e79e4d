import Mathlib.Data.List.Forall2
import PuCli.Session.GraphCodec

namespace PuCli

open Json

structure Link where
  id : MessageId
  parent : MessageId

def roleNames : List String := ["user", "assistant", "system", "tool"]

structure Names (entry : Json) (link : Link) : Prop where
  object : entry.isObject = true
  id : entry.get? "id" = some (.string link.id)
  named : link.id ≠ ""
  parent : entry.get? "parent" = some (.string link.parent) ∨
    (entry.get? "parent" = none ∧ link.parent = "")
  role : ∃ role ∈ roleNames, entry.get? "role" = some (.string role)

inductive ReachesRoot (links : List Link) : MessageId → Prop
  | root {id : MessageId} : ⟨id, ""⟩ ∈ links → ReachesRoot links id
  | up {id parent : MessageId} : ⟨id, parent⟩ ∈ links → ReachesRoot links parent →
      ReachesRoot links id

structure WellFormed (j : Json) (entries : List Json) (leaf : MessageId) (links : List Link) :
    Prop where
  nodes : j.get? "nodes" = some (.array entries)
  leafName : j.get? "leaf" = some (.string leaf)
  names : List.Forall₂ Names entries links
  distinct : (links.map Link.id).Nodup
  leaf : leaf = "" ∨ leaf ∈ links.map Link.id
  parents : ∀ link ∈ links, link.parent = "" ∨ link.parent ∈ links.map Link.id
  ends : ∀ link ∈ links, ReachesRoot links link.id

def MessageNode.entryLink (n : MessageNode) : Link := ⟨n.id, n.parent⟩

theorem valueOrDefault_eq_iff {j : Json} {key word : String} (h : word ≠ "") :
    (valueOrDefault j key "" : String) = word ↔ j.get? key = some (.string word) := by
  unfold valueOrDefault
  cases hr : j.get? key with
  | none => simp [h.symm]
  | some v =>
      cases v with
      | string s => simp
      | _ => simp [FromJson.valueTo,h.symm]

theorem isObject_of_get? {j v : Json} {key : String} (h : j.get? key = some v) :
    j.isObject = true := by
  cases j with
  | object ms => rfl
  | _ => simp [get?] at h

theorem deserializePayload_isSome_iff (j : Json) :
    (deserializePayload j).isSome ↔ ∃ role ∈ roleNames, j.get? "role" = some (.string role) := by
  simp only [roleNames,List.exists_mem_cons_iff,List.not_mem_nil,false_and,exists_false,or_false]
  rw [← valueOrDefault_eq_iff (show "user" ≠ "" by decide),
    ← valueOrDefault_eq_iff (show "assistant" ≠ "" by decide),
    ← valueOrDefault_eq_iff (show "system" ≠ "" by decide),
    ← valueOrDefault_eq_iff (show "tool" ≠ "" by decide)]
  unfold deserializePayload
  dsimp only
  split
  · next h => simp [h]
  · next h₁ =>
      split
      · next h => simp [h]
      · next h₂ =>
          split
          · next h => simp [h]
          · next h₃ =>
              split
              · next h => simp [h]
              · next h₄ => simp [h₁,h₂,h₃,h₄]

theorem parentMember_eq_some_iff (j : Json) (parent : MessageId) :
    parentMember j = some parent ↔ j.get? "parent" = some (.string parent) ∨
      (j.get? "parent" = none ∧ parent = "") := by
  unfold parentMember
  cases hp : j.get? "parent" with
  | none => simp [eq_comm]
  | some v => cases v <;> simp

theorem deserializeNode_iff_names (entry : Json) (link : Link) :
    (∃ n, deserializeNode entry = some n ∧ n.entryLink = link) ↔ Names entry link := by
  constructor
  · rintro ⟨n,hn,rfl⟩
    unfold deserializeNode at hn
    dsimp only at hn
    split at hn
    · simp at hn
    · next hid =>
        obtain ⟨parent,hparent,hn⟩ := Option.bind_eq_some_iff.mp hn
        obtain ⟨payload,hpayload,hn⟩ := Option.bind_eq_some_iff.mp hn
        obtain rfl := Option.some.inj hn
        have hname := (valueOrDefault_eq_iff hid).mp rfl
        exact ⟨isObject_of_get? hname,hname,hid,(parentMember_eq_some_iff _ _).mp hparent,
          (deserializePayload_isSome_iff _).mp (Option.isSome_iff_exists.mpr ⟨payload,hpayload⟩)⟩
  · intro h
    obtain ⟨payload,hpayload⟩ := Option.isSome_iff_exists.mp
      ((deserializePayload_isSome_iff _).mpr h.role)
    have hid := (valueOrDefault_eq_iff h.named).mpr h.id
    have hparent := (parentMember_eq_some_iff _ _).mpr h.parent
    refine ⟨⟨link.id, valueOrDefault entry "timestamp" "", payload, link.parent⟩,?_,rfl⟩
    simp [deserializeNode,hid,h.named,hparent,hpayload]

theorem forall₂_names {entries : List Json} {links : List Link} :
    List.Forall₂ Names entries links ↔ ∃ ns : List MessageNode,
      List.Forall₂ (fun e n => deserializeNode e = some n) entries ns ∧
        ns.map MessageNode.entryLink = links := by
  constructor
  · intro h
    induction h with
    | nil => exact ⟨[],.nil,rfl⟩
    | @cons entry link entries links hone _ ih =>
        obtain ⟨n,hn,hlink⟩ := (deserializeNode_iff_names entry link).mpr hone
        obtain ⟨ns,hns,hlinks⟩ := ih
        exact ⟨n :: ns,.cons hn hns,by rw [List.map_cons,hlink,hlinks]⟩
  · rintro ⟨ns,h,rfl⟩
    induction h with
    | nil => exact .nil
    | @cons entry n entries ns hone _ ih =>
        exact .cons ((deserializeNode_iff_names entry n.entryLink).mp ⟨n,hone,rfl⟩) ih

namespace MessageGraph

def deserializeInto (j : Json) (out : MessageGraph) : Bool × MessageGraph :=
  match deserialize j with
  | none => (false, out)
  | some graph => (true, graph)

def keep (nodes : NodeMap) (n : MessageNode) : NodeMap := nodes.insert n.id n

theorem getElem?_keep (nodes : NodeMap) (n : MessageNode) (k : MessageId) :
    (keep nodes n)[k]? = if n.id = k then some n else nodes[k]? := by
  rw [keep,Std.ExtTreeMap.getElem?_insert]
  simp only [compare_eq_iff_eq]

theorem loadNode_eq_some_iff {nodes nodes' : NodeMap} {entry : Json} :
    loadNode nodes entry = some nodes' ↔
      ∃ n, deserializeNode entry = some n ∧ nodes[n.id]? = none ∧ nodes' = keep nodes n := by
  unfold loadNode
  cases hn : deserializeNode entry with
  | none => simp
  | some n =>
      have hfree : nodes.contains n.id = (nodes[n.id]?).isSome :=
        Std.ExtTreeMap.contains_eq_isSome_getElem?
      dsimp only
      cases hc : nodes[n.id]? with
      | none =>
          rw [hfree,hc,if_neg (by simp)]
          constructor
          · intro h
            exact ⟨n,rfl,hc,(Option.some.inj h).symm⟩
          · rintro ⟨m,hm,_,rfl⟩
            obtain rfl := Option.some.inj hm
            rfl
      | some m =>
          rw [hfree,hc,Option.isSome_some,if_pos rfl]
          constructor
          · intro h
            cases h
          · rintro ⟨x,hx,hnone,_⟩
            obtain rfl := Option.some.inj hx
            rw [hc] at hnone
            cases hnone

theorem foldlM_loadNode_iff {entries : List Json} {nodes nodes' : NodeMap} :
    entries.foldlM loadNode nodes = some nodes' ↔
      ∃ ns : List MessageNode, List.Forall₂ (fun e n => deserializeNode e = some n) entries ns ∧
        (ns.map MessageNode.id).Nodup ∧ (∀ n ∈ ns, nodes[n.id]? = none) ∧
        nodes' = ns.foldl keep nodes := by
  induction entries generalizing nodes with
  | nil =>
      constructor
      · intro h
        exact ⟨[],.nil,List.nodup_nil,by simp,(Option.some.inj h).symm⟩
      · rintro ⟨ns,hns,_,_,rfl⟩
        cases hns
        rfl
  | cons entry entries ih =>
      rw [List.foldlM_cons,Option.bind_eq_bind,Option.bind_eq_some_iff]
      constructor
      · rintro ⟨mid,hone,hrest⟩
        obtain ⟨n,hn,hfree,rfl⟩ := loadNode_eq_some_iff.mp hone
        obtain ⟨ns,hns,hd,hnew,rfl⟩ := ih.mp hrest
        have hoff : ∀ x ∈ ns, n.id ≠ x.id ∧ nodes[x.id]? = none := by
          intro x hx
          have hx' := hnew x hx
          rw [getElem?_keep] at hx'
          split at hx'
          · simp at hx'
          · next hne => exact ⟨hne,hx'⟩
        refine ⟨n :: ns,.cons hn hns,?_,?_,rfl⟩
        · rw [List.map_cons,List.nodup_cons]
          refine ⟨?_,hd⟩
          intro hmem
          obtain ⟨x,hx,hid⟩ := List.mem_map.mp hmem
          exact (hoff x hx).1 hid.symm
        · exact List.forall_mem_cons.mpr ⟨hfree,fun x hx => (hoff x hx).2⟩
      · rintro ⟨ns,hns,hd,hnew,rfl⟩
        cases hns with
        | @cons _ n _ ns hn hns =>
            rw [List.map_cons,List.nodup_cons] at hd
            obtain ⟨hfree,hnew⟩ := List.forall_mem_cons.mp hnew
            refine ⟨keep nodes n,loadNode_eq_some_iff.mpr ⟨n,hn,hfree,rfl⟩,ih.mpr
              ⟨ns,hns,hd.2,?_,rfl⟩⟩
            intro x hx
            have hne : n.id ≠ x.id := fun he => hd.1 (he ▸ List.mem_map_of_mem hx)
            rw [getElem?_keep,if_neg hne]
            exact hnew x hx

theorem getElem?_foldl_keep {ns : List MessageNode} (hd : (ns.map MessageNode.id).Nodup)
    (nodes : NodeMap) (hnew : ∀ n ∈ ns, nodes[n.id]? = none) (k : MessageId) (n : MessageNode) :
    (ns.foldl keep nodes)[k]? = some n ↔ (n ∈ ns ∧ n.id = k) ∨ nodes[k]? = some n := by
  induction ns generalizing nodes with
  | nil => simp
  | cons m ns ih =>
      rw [List.map_cons,List.nodup_cons] at hd
      obtain ⟨hfree,hnew⟩ := List.forall_mem_cons.mp hnew
      have hne : ∀ x ∈ ns, m.id ≠ x.id := fun x hx he => hd.1 (he ▸ List.mem_map_of_mem hx)
      rw [List.foldl_cons,ih hd.2 (keep nodes m) (by
        intro x hx
        rw [getElem?_keep,if_neg (hne x hx)]
        exact hnew x hx),getElem?_keep]
      by_cases hk : m.id = k
      · subst hk
        rw [if_pos rfl,hfree]
        constructor
        · rintro (⟨hn,hid⟩ | hn)
          · exact absurd hid.symm (hne n hn)
          · exact .inl ⟨by simp [Option.some.inj hn],by rw [Option.some.inj hn]⟩
        · rintro (⟨hn,hid⟩ | hn)
          · rcases List.mem_cons.mp hn with rfl | hn
            · exact .inr rfl
            · exact absurd hid.symm (hne n hn)
          · simp at hn
      · rw [if_neg hk,List.mem_cons]
        constructor
        · rintro (⟨hn,hid⟩ | hn)
          · exact .inl ⟨.inr hn,hid⟩
          · exact .inr hn
        · rintro (⟨rfl | hn,hid⟩ | hn)
          · exact absurd hid hk
          · exact .inl ⟨hn,hid⟩
          · exact .inr hn

section Linked

variable {ns : List MessageNode} {g : MessageGraph}

def Holds (g : MessageGraph) (ns : List MessageNode) : Prop :=
  ∀ k n, g.find k = some n ↔ n ∈ ns ∧ n.id = k

theorem find_isSome_iff (h : Holds g ns) (k : MessageId) :
    (g.find k).isSome ↔ k ∈ (ns.map MessageNode.entryLink).map Link.id := by
  rw [Option.isSome_iff_exists,List.map_map]
  constructor
  · rintro ⟨n,hn⟩
    obtain ⟨hmem,rfl⟩ := (h k n).mp hn
    exact List.mem_map_of_mem hmem
  · intro hk
    obtain ⟨n,hn,hid⟩ := List.mem_map.mp hk
    exact ⟨n,(h k n).mpr ⟨hn,hid⟩⟩

theorem mem_links_iff (h : Holds g ns) (id parent : MessageId) :
    ⟨id, parent⟩ ∈ ns.map MessageNode.entryLink ↔ ∃ n, g.find id = some n ∧ n.parent = parent := by
  constructor
  · intro hl
    obtain ⟨n,hn,hlink⟩ := List.mem_map.mp hl
    obtain ⟨hid,hparent⟩ := Link.mk.inj hlink
    exact ⟨n,(h id n).mpr ⟨hn,hid⟩,hparent⟩
  · rintro ⟨n,hn,rfl⟩
    obtain ⟨hmem,rfl⟩ := (h id n).mp hn
    exact List.mem_map_of_mem hmem

theorem trail_of_reachesRoot (h : Holds g ns) {id : MessageId}
    (hr : ReachesRoot (ns.map MessageNode.entryLink) id) : ∃ t, Trail g.parentOf id t := by
  induction hr with
  | @root id hl =>
      obtain ⟨n,hn,hparent⟩ := (mem_links_iff h id "").mp hl
      exact ⟨[id],.last (by simp [parentOf,hn,hparent])⟩
  | @up id parent hl _ ih =>
      obtain ⟨n,hn,hparent⟩ := (mem_links_iff h id parent).mp hl
      obtain ⟨t,ht⟩ := ih
      by_cases he : parent = ""
      · exact ⟨[id],.last (by simp [parentOf,hn,hparent,he])⟩
      · exact ⟨id :: t,.more (by simp [parentOf,hn,hparent,he]) ht⟩

theorem reachesRoot_of_trail (h : Holds g ns) {id : MessageId} {t : List MessageId}
    (ht : Trail g.parentOf id t) (hs : ∀ k ∈ t, (g.find k).isSome) :
    ReachesRoot (ns.map MessageNode.entryLink) id := by
  induction ht with
  | @last id hlast =>
      obtain ⟨n,hn⟩ := Option.isSome_iff_exists.mp (hs id (by simp))
      refine .root ((mem_links_iff h id "").mpr ⟨n,hn,?_⟩)
      by_contra hne
      simp [parentOf,hn,hne] at hlast
  | @more id parent t hup _ ih =>
      obtain ⟨n,hn⟩ := Option.isSome_iff_exists.mp (hs id (by simp))
      have hparent : n.parent = parent := by
        by_cases he : n.parent = ""
        · simp [parentOf,hn,he] at hup
        · simpa [parentOf,hn,he] using hup
      exact .up ((mem_links_iff h id parent).mpr ⟨n,hn,hparent⟩)
        (ih (fun k hk => hs k (List.mem_cons_of_mem _ hk)))

theorem sound_iff_linked (h : Holds g ns) (hnamed : ∀ n ∈ ns, n.id ≠ "") :
    g.Sound ↔ (g.leaf = "" ∨ g.leaf ∈ (ns.map MessageNode.entryLink).map Link.id) ∧
      (∀ link ∈ ns.map MessageNode.entryLink,
        link.parent = "" ∨ link.parent ∈ (ns.map MessageNode.entryLink).map Link.id) ∧
      ∀ link ∈ ns.map MessageNode.entryLink, ReachesRoot (ns.map MessageNode.entryLink) link.id := by
  constructor
  · intro hs
    refine ⟨?_,?_,?_⟩
    · rw [← find_isSome_iff h]
      exact hs.leaf
    · rintro ⟨id,parent⟩ hl
      obtain ⟨n,hn,rfl⟩ := (mem_links_iff h id parent).mp hl
      rw [← find_isSome_iff h]
      exact hs.parents hn
    · rintro ⟨id,parent⟩ hl
      obtain ⟨n,hn,_⟩ := (mem_links_iff h id parent).mp hl
      have hid : (g.find id).isSome := Option.isSome_iff_exists.mpr ⟨n,hn⟩
      obtain ⟨t,ht⟩ := hs.ends hid
      exact reachesRoot_of_trail h ht (trail_stored hs ht hid)
  · rintro ⟨hleaf,hparents,hends⟩
    refine ⟨?_,?_,?_,?_,?_⟩
    · intro id n hn
      exact ((h id n).mp hn).2
    · by_contra hc
      obtain ⟨n,hn⟩ := Option.ne_none_iff_exists'.mp hc
      obtain ⟨hmem,hid⟩ := (h "" n).mp hn
      exact hnamed n hmem hid
    · rw [find_isSome_iff h]
      exact hleaf
    · intro id n hn
      rw [find_isSome_iff h]
      exact hparents n.entryLink (List.mem_map_of_mem ((h id n).mp hn).1)
    · intro id hid
      obtain ⟨n,hn⟩ := Option.isSome_iff_exists.mp hid
      obtain ⟨hmem,rfl⟩ := (h id n).mp hn
      exact trail_of_reachesRoot h (hends n.entryLink (List.mem_map_of_mem hmem))

end Linked

theorem deserialize_eq_some_iff {j : Json} {g : MessageGraph} :
    deserialize j = some g ↔ ∃ entries, j.get? "nodes" = some (.array entries) ∧
      j.get? "leaf" = some (.string g.leaf) ∧ entries.foldlM loadNode ∅ = some g.nodes ∧
      (g.leaf = "" ∨ (g.find g.leaf).isSome) ∧ (MessageGraph.mk g.nodes "").linksResolve = true := by
  unfold deserialize
  constructor
  · intro h
    split at h
    · next entries leaf hnodes hleaf =>
        split at h
        · cases h
        · next nodes hload =>
            split at h
            · cases h
            · next hin =>
                split at h
                · next hlinks =>
                    obtain rfl := Option.some.inj h
                    refine ⟨entries,hnodes,hleaf,hload,?_,hlinks⟩
                    rw [not_and_or,not_not] at hin
                    exact hin.imp_right Option.isSome_iff_ne_none.mpr
                · cases h
    · cases h
  · rintro ⟨entries,hnodes,hleaf,hload,hin,hlinks⟩
    have hok : ¬ (g.leaf ≠ "" ∧ g.nodes[g.leaf]? = none) := by
      rintro ⟨hne,hnone⟩
      exact Option.isSome_iff_ne_none.mp (hin.resolve_left hne) hnone
    simp only [hnodes,hleaf,hload,if_neg hok,hlinks,if_true]

theorem loads_iff_wellFormed (j : Json) :
    (deserialize j).isSome ↔ ∃ entries leaf links, WellFormed j entries leaf links := by
  have hholds : ∀ {ns : List MessageNode} (leaf : MessageId), (ns.map MessageNode.id).Nodup →
      Holds ⟨ns.foldl keep ∅, leaf⟩ ns := by
    intro ns leaf hd k n
    have hget := getElem?_foldl_keep hd ∅ (by simp) k n
    simpa [find] using hget
  have hnamed : ∀ {entries : List Json} {ns : List MessageNode},
      List.Forall₂ (fun e n => deserializeNode e = some n) entries ns → ∀ n ∈ ns, n.id ≠ "" := by
    intro entries ns hns
    induction hns with
    | nil => simp
    | cons hone _ ih => exact List.forall_mem_cons.mpr ⟨(deserializeNode_spec hone).1,ih⟩
  rw [Option.isSome_iff_exists]
  constructor
  · rintro ⟨g,hg⟩
    have hsound := (deserialize_spec hg).1
    obtain ⟨entries,hnodes,hleaf,hload,_,_⟩ := deserialize_eq_some_iff.mp hg
    obtain ⟨ns,hns,hd,_,hfold⟩ := foldlM_loadNode_iff.mp hload
    have hh : Holds g ns := by
      have h := hholds g.leaf hd
      rwa [← hfold] at h
    obtain ⟨hl,hp,he⟩ := (sound_iff_linked hh (hnamed hns)).mp hsound
    refine ⟨entries,g.leaf,ns.map MessageNode.entryLink,hnodes,hleaf,forall₂_names.mpr ⟨ns,hns,rfl⟩,?_,
      hl,hp,he⟩
    rw [List.map_map]
    exact hd
  · rintro ⟨entries,leaf,links,h⟩
    obtain ⟨ns,hns,rfl⟩ := forall₂_names.mp h.names
    have hd : (ns.map MessageNode.id).Nodup := by
      have hdistinct := h.distinct
      rwa [List.map_map] at hdistinct
    have hsound : ∀ tip, tip = "" ∨ tip ∈ (ns.map MessageNode.entryLink).map Link.id →
        (MessageGraph.mk (ns.foldl keep ∅) tip).Sound := fun tip htip =>
      (sound_iff_linked (hholds tip hd) (hnamed hns)).mpr ⟨htip,h.parents,h.ends⟩
    exact ⟨⟨ns.foldl keep ∅, leaf⟩,deserialize_eq_some_iff.mpr ⟨entries,h.nodes,h.leafName,
      foldlM_loadNode_iff.mpr ⟨ns,hns,hd,by simp,rfl⟩,(hsound leaf h.leaf).leaf,
      linksResolve_of_sound (hsound "" (.inl rfl))⟩⟩

theorem graph_loader_accepts_exactly_well_formed (j : Json) (out : MessageGraph) :
    ((deserializeInto j out).1 = true ↔ ∃ entries leaf links, WellFormed j entries leaf links) ∧
      ((deserializeInto j out).1 = false → (deserializeInto j out).2 = out) := by
  rw [← loads_iff_wellFormed]
  unfold deserializeInto
  cases deserialize j with
  | none => exact ⟨by simp,fun _ => rfl⟩
  | some g => exact ⟨by simp,by simp⟩

end MessageGraph

end PuCli
