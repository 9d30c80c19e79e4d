import Mathlib.Algebra.Ring.Nat
import PuCli.Library.Run
import PuCli.Library.Window
import PuCli.Paging.Walks

namespace PuCli

namespace Paging

variable {budget : Budget} {buffers : List Buffer} {buffer : Buffer}

def totalBytes (buffers : List Buffer) : Nat := (buffers.map Buffer.bytes).sum

def overBudget (budget : Budget) (buffers : List Buffer) : Bool :=
  max 1 budget.retainBuffers < buffers.length ∨
    (budget.retainBytes < totalBytes buffers ∧ 1 < buffers.length)

-- No step of the eviction takes more off the counter than it holds.
def EvictsExactly (budget : Budget) : Nat → List Buffer → Prop
  | _, [] => True
  | retainedBytes, oldest :: rest =>
      (max 1 budget.retainBuffers < rest.length + 1 ∨
          (budget.retainBytes < retainedBytes ∧ 1 < rest.length + 1)) →
        oldest.bytes ≤ retainedBytes ∧ EvictsExactly budget (retainedBytes - oldest.bytes) rest

theorem totalBytes_cons (oldest : Buffer) (rest : List Buffer) :
    totalBytes (oldest :: rest) = oldest.bytes + totalBytes rest := by
  rw [totalBytes,List.map_cons,List.sum_cons,totalBytes]

theorem totalBytes_concat (buffers : List Buffer) (buffer : Buffer) :
    totalBytes (buffers ++ [buffer]) = totalBytes buffers + buffer.bytes := by
  simp [totalBytes]

theorem overBudget_single (budget : Budget) (buffer : Buffer) :
    overBudget budget [buffer] = false := by
  refine decide_eq_false ?_
  simp

theorem evict_trims (budget : Budget) (buffers : List Buffer) :
    Pager.evict budget (totalBytes buffers) buffers =
      (Window.trim (overBudget budget) buffers,
        totalBytes (Window.trim (overBudget budget) buffers)) := by
  induction buffers with
  | nil => rfl
  | cons oldest rest ih =>
      have hover : overBudget budget (oldest :: rest) = true ↔
          max 1 budget.retainBuffers < rest.length + 1 ∨
            (budget.retainBytes < totalBytes (oldest :: rest) ∧ 1 < rest.length + 1) :=
        decide_eq_true_iff
      rw [Pager.evict,Window.trim]
      by_cases h : overBudget budget (oldest :: rest) = true
      · rw [if_pos (hover.mp h),if_pos h,totalBytes_cons,Nat.add_sub_cancel_left,ih]
      · rw [if_neg (mt hover.mpr h),if_neg h]

theorem evicts_exactly (budget : Budget) (buffers : List Buffer) :
    EvictsExactly budget (totalBytes buffers) buffers := by
  induction buffers with
  | nil => trivial
  | cons oldest rest ih =>
      intro _
      rw [totalBytes_cons,Nat.add_sub_cancel_left]
      exact ⟨Nat.le_add_right _ _,ih⟩

namespace Pager

inductive Op where
  | store (captured : Exec.Captured) (verdict : Exec.Verdict) (sourceKey : String)
  | setBudget (budget : Budget)
  | continueRankingFrom (lastRank : Nat)
  | find (id : String)

def step (p : Pager) : Op → Pager
  | .store captured verdict sourceKey => (p.store captured verdict sourceKey).2
  | .setBudget budget => p.setBudget budget
  | .continueRankingFrom lastRank => p.continueRankingFrom lastRank
  | .find _ => p

-- The counters of 64 bits do not wrap.
def Counts (p : Pager) : Op → Prop
  | .store _ _ _ => p.nextOrdinal + 1 < kSizeLimit ∧ p.nextRank + 1 < kSizeLimit
  | .continueRankingFrom lastRank => lastRank + 1 < kSizeLimit
  | _ => True

def stored (p : Pager) : List Op → List Buffer
  | [] => []
  | .store captured verdict sourceKey :: ops =>
      (p.store captured verdict sourceKey).1 :: stored (step p (.store captured verdict sourceKey)) ops
  | op :: ops => stored (step p op) ops

def start (generation : String) (budget : Budget) : Pager :=
  { generation := generation, budget := budget }

def bufferId (generation : String) (ordinal : Nat) : String :=
  "o" ++ generation ++ "-" ++ toString ordinal

theorem bufferId_injective (generation : String) {m n : Nat}
    (h : bufferId generation m = bufferId generation n) : m = n := by
  have hdigits (k : Nat) : (bufferId generation k).toList =
      ("o" ++ generation ++ "-").toList ++ Nat.toDigits 10 k := by
    rw [bufferId,String.toList_append]
    exact congrArg _ Nat.toList_repr
  have hlist := congrArg String.toList h
  rw [hdigits,hdigits] at hlist
  have hsame := List.append_cancel_left hlist
  have hm := parseDigits_toDigits m
  rw [hsame,parseDigits_toDigits n] at hm
  exact (Option.some.inj hm).symm

structure Kept (generation : String) (history : List Buffer) (p : Pager) : Prop where
  named : p.generation = generation
  bytes : p.retainedBytes = totalBytes p.buffers
  recent : p.buffers <:+ history
  ids : (history.map Buffer.id).Nodup
  ranks : history.Pairwise (fun a b => a.rank < b.rank)
  ordinals : ∀ b ∈ history, ∃ k < p.nextOrdinal, b.id = bufferId generation k
  below : ∀ b ∈ history, b.rank < p.nextRank

structure AfterStore (p : Pager) (buffer : Buffer) (p' : Pager) : Prop where
  exact : EvictsExactly p.budget (p.retainedBytes + buffer.bytes) (p.buffers ++ [buffer])
  count : p'.buffers.length ≤ max 1 p'.budget.retainBuffers
  total : p'.retainedBytes ≤ p'.budget.retainBytes ∨ p'.buffers = [buffer]
  newest : ∃ older, p'.buffers = older ++ [buffer]
  found : p'.find buffer.id = some buffer

variable {generation : String} {history : List Buffer} {p : Pager} {captured : Exec.Captured}
  {verdict : Exec.Verdict} {sourceKey : String}

theorem store_buffers (hb : p.retainedBytes = totalBytes p.buffers) :
    (p.store captured verdict sourceKey).2.buffers =
        Window.trim (overBudget p.budget) (p.buffers ++ [(p.store captured verdict sourceKey).1]) ∧
      (p.store captured verdict sourceKey).2.retainedBytes =
        totalBytes (p.store captured verdict sourceKey).2.buffers := by
  have h := evict_trims p.budget (p.buffers ++ [(p.store captured verdict sourceKey).1])
  rw [totalBytes_concat,← hb] at h
  exact ⟨congrArg Prod.fst h,(congrArg Prod.snd h).trans (congrArg totalBytes (congrArg Prod.fst h).symm)⟩

theorem Kept.store (h : Kept generation history p)
    (hc : Counts p (.store captured verdict sourceKey)) :
    Kept generation (history ++ [(p.store captured verdict sourceKey).1])
      (p.store captured verdict sourceKey).2 := by
  obtain ⟨htrim,hbytes⟩ := @store_buffers p captured verdict sourceKey h.bytes
  have hid : (p.store captured verdict sourceKey).1.id = bufferId generation p.nextOrdinal := by
    rw [← h.named]
    rfl
  have hrank : (p.store captured verdict sourceKey).1.rank = p.nextRank := rfl
  have hordinal : (p.store captured verdict sourceKey).2.nextOrdinal = p.nextOrdinal + 1 :=
    Nat.mod_eq_of_lt hc.1
  have hnext : (p.store captured verdict sourceKey).2.nextRank = p.nextRank + 1 :=
    Nat.mod_eq_of_lt hc.2
  generalize (p.store captured verdict sourceKey).1 = buffer at htrim hid hrank ⊢
  refine ⟨h.named,hbytes,?_,?_,?_,?_,?_⟩
  · rw [htrim]
    obtain ⟨older,hsplit⟩ := h.recent
    refine (Window.trim_suffix _ _).trans ⟨older,?_⟩
    rw [← List.append_assoc,hsplit]
  · rw [List.map_append,List.nodup_append]
    refine ⟨h.ids,List.nodup_singleton _,?_⟩
    intro id hmem id' hid' heq
    obtain ⟨b,hb,rfl⟩ := List.mem_map.mp hmem
    obtain ⟨k,hk,hbk⟩ := h.ordinals b hb
    rw [List.map_singleton,List.mem_singleton] at hid'
    rw [hid',hid,hbk] at heq
    exact hk.ne (bufferId_injective generation heq)
  · rw [List.pairwise_append]
    refine ⟨h.ranks,List.pairwise_singleton _ _,?_⟩
    intro b hb b' hb'
    rw [List.mem_singleton.mp hb',hrank]
    exact h.below b hb
  · intro b hb
    rw [hordinal]
    rcases List.mem_append.mp hb with hb | hb
    · obtain ⟨k,hk,hbk⟩ := h.ordinals b hb
      exact ⟨k,by omega,hbk⟩
    · rw [List.mem_singleton.mp hb]
      exact ⟨p.nextOrdinal,Nat.lt_succ_self _,hid⟩
  · intro b hb
    rw [hnext]
    rcases List.mem_append.mp hb with hb | hb
    · exact Nat.lt_succ_of_lt (h.below b hb)
    · rw [List.mem_singleton.mp hb,hrank]
      exact Nat.lt_succ_self _

theorem Kept.next (h : Kept generation history p) {op : Op} (hc : Counts p op) :
    Kept generation (history ++ stored p [op]) (step p op) := by
  cases op with
  | store captured verdict sourceKey => exact h.store hc
  | setBudget budget =>
      rw [show history ++ stored p [.setBudget budget] = history from List.append_nil history]
      exact ⟨h.named,h.bytes,h.recent,h.ids,h.ranks,h.ordinals,h.below⟩
  | continueRankingFrom lastRank =>
      rw [show history ++ stored p [.continueRankingFrom lastRank] = history from
        List.append_nil history]
      refine ⟨h.named,h.bytes,h.recent,h.ids,h.ranks,h.ordinals,?_⟩
      intro b hb
      exact (h.below b hb).trans_le (le_max_left _ _)
  | find id =>
      rw [show history ++ stored p [.find id] = history from List.append_nil history]
      exact h

theorem stored_cons (p : Pager) (op : Op) (ops : List Op) :
    stored p (op :: ops) = stored p [op] ++ stored (step p op) ops := by
  cases op <;> rfl

theorem Kept.run (h : Kept generation history p) {ops : List Op}
    (hc : Run.Along step Counts p ops) :
    Kept generation (history ++ stored p ops) (ops.foldl step p) := by
  induction ops generalizing p history with
  | nil =>
      rw [stored,List.append_nil]
      exact h
  | cons op ops ih =>
      rw [stored_cons,← List.append_assoc]
      exact ih (h.next hc.1) hc.2

theorem kept_start (generation : String) (budget : Budget) :
    Kept generation [] (start generation budget) :=
  ⟨rfl,rfl,List.suffix_refl [],List.nodup_nil,.nil,List.forall_mem_nil _,List.forall_mem_nil _⟩

theorem find_newest {older history : List Buffer} {buffer : Buffer}
    (hs : older ++ [buffer] <:+ history) (hids : (history.map Buffer.id).Nodup)
    (hp : p.buffers = older ++ [buffer]) : p.find buffer.id = some buffer := by
  have hnodup : ((older ++ [buffer]).map Buffer.id).Nodup := hids.sublist (hs.sublist.map _)
  rw [List.map_append,List.map_singleton,List.nodup_append] at hnodup
  have hnone : older.find? (fun b => decide (b.id = buffer.id)) = none := by
    rw [List.find?_eq_none]
    intro b hb hsame
    exact hnodup.2.2 _ (List.mem_map_of_mem hb) _ (List.mem_singleton_self _)
      (of_decide_eq_true hsame)
  rw [Pager.find,hp,List.find?_append,hnone]
  simp

theorem Kept.after_store (h : Kept generation history p)
    (hc : Counts p (.store captured verdict sourceKey)) :
    AfterStore p (p.store captured verdict sourceKey).1 (p.store captured verdict sourceKey).2 := by
  obtain ⟨htrim,hbytes⟩ := @store_buffers p captured verdict sourceKey h.bytes
  have hkept := h.store hc
  have hbudget : (p.store captured verdict sourceKey).2.budget = p.budget := rfl
  generalize (p.store captured verdict sourceKey).1 = buffer at htrim hkept ⊢
  generalize (p.store captured verdict sourceKey).2 = p' at htrim hbytes hkept hbudget ⊢
  obtain ⟨older,holder⟩ := Window.trim_concat p.buffers (overBudget_single p.budget buffer)
  rw [holder] at htrim
  have hfits : overBudget p.budget p'.buffers = false := by
    have hnot := (Window.trim_fits (overBudget p.budget) (p.buffers ++ [buffer])).resolve_left
      (by rw [holder]; exact List.append_ne_nil_of_right_ne_nil _ (List.cons_ne_nil _ _))
    rwa [holder,← htrim] at hnot
  obtain ⟨hcount,htotal⟩ := not_or.mp (of_decide_eq_false hfits)
  refine ⟨?_,?_,?_,⟨older,htrim⟩,?_⟩
  · rw [h.bytes,← totalBytes_concat]
    exact evicts_exactly _ _
  · rw [hbudget]
    exact Nat.le_of_not_lt hcount
  · rw [hbudget,hbytes]
    rcases not_and_or.mp htotal with hle | hone
    · exact .inl (Nat.le_of_not_lt hle)
    · refine .inr ?_
      rw [htrim,List.length_append,List.length_singleton] at hone
      rw [htrim,List.eq_nil_of_length_eq_zero (show older.length = 0 by omega),List.nil_append]
  · exact find_newest (htrim ▸ hkept.recent) hkept.ids htrim

-- Every history of a pager, and what each store then leaves.
theorem pager_keeps_newest (generation : String) (budget : Budget) (ops : List Op)
    (hc : Run.Along step Counts (start generation budget) ops) :
    Kept generation (stored (start generation budget) ops)
        (ops.foldl step (start generation budget)) ∧
      ∀ captured verdict sourceKey,
        Counts (ops.foldl step (start generation budget)) (.store captured verdict sourceKey) →
          AfterStore (ops.foldl step (start generation budget))
            ((ops.foldl step (start generation budget)).store captured verdict sourceKey).1
            ((ops.foldl step (start generation budget)).store captured verdict sourceKey).2 := by
  have hkept : Kept generation (stored (start generation budget) ops)
      (ops.foldl step (start generation budget)) := (kept_start generation budget).run hc
  refine ⟨hkept,?_⟩
  intro captured verdict sourceKey hstore
  exact hkept.after_store hstore

def twoRuns : List Op :=
  [.store ⟨[0x61, 0x0A], {}⟩ { command := "a" } "a", .continueRankingFrom 4, .setBudget { retainBuffers := 0 },
    .store ⟨[0x62, 0x62], {}⟩ { command := "b" } "b"]

theorem twoRuns_kept :
    Kept "c0de" (stored (start "c0de" {}) twoRuns) (twoRuns.foldl step (start "c0de" {})) ∧
      ((twoRuns.foldl step (start "c0de" {})).buffers.map Buffer.id,
        (twoRuns.foldl step (start "c0de" {})).buffers.map Buffer.rank,
        (twoRuns.foldl step (start "c0de" {})).retainedBytes) = (["oc0de-2"], [5], 2) :=
  ⟨(pager_keeps_newest "c0de" {} twoRuns
    ⟨⟨by decide,by decide⟩,show 4 + 1 < kSizeLimit by decide,trivial,⟨by decide,by decide⟩,trivial⟩).1,
    by decide +kernel⟩

end Pager

end Paging

end PuCli
