import PuCli.Library.Framing
import PuCli.Library.Lines

namespace Lines

open Framing

variable {α : Type} [DecidableEq α] {sep : α} {raw front tail buffer text more : List α}

theorem findIdx?_absent (h : sep ∉ raw) : raw.findIdx? (fun a => a = sep) = none := by
  rw [List.findIdx?_eq_none_iff]
  intro a ha
  refine decide_eq_false ?_
  rintro rfl
  exact h ha

theorem findIdx?_first (h : sep ∉ raw) (rest : List α) :
    (raw ++ sep :: rest).findIdx? (fun a => a = sep) = some raw.length := by
  simp [List.findIdx?_append,findIdx?_absent h,List.findIdx?_cons]

def nextLine (sep : α) (buffer : List α) : Option (List α × List α) :=
  match buffer.findIdx? (fun a => a = sep) with
  | none => none
  | some pos => some (buffer.take pos,buffer.drop (pos + 1))

theorem nextLine_open (h : sep ∉ buffer) : nextLine sep buffer = none := by
  rw [nextLine,findIdx?_absent h]

theorem nextLine_closed (h : sep ∉ raw) (rest : List α) :
    nextLine sep (raw ++ sep :: rest) = some (raw,rest) := by
  rw [nextLine,findIdx?_first h]
  dsimp only
  rw [List.take_left,List.append_cons,List.drop_left' (by simp)]

theorem nextLine_some_iff {rest : List α} :
    nextLine sep buffer = some (raw,rest) ↔ buffer = raw ++ sep :: rest ∧ sep ∉ raw := by
  constructor
  · intro h
    by_cases hmem : sep ∈ buffer
    · obtain ⟨raw,rest,rfl,hraw⟩ := List.eq_append_cons_of_mem hmem
      rw [nextLine_closed hraw] at h
      obtain ⟨rfl,rfl⟩ := Prod.mk.inj (Option.some.inj h)
      exact ⟨rfl,hraw⟩
    · rw [nextLine_open hmem] at h
      cases h
  · rintro ⟨rfl,hraw⟩
    exact nextLine_closed hraw rest

def lineFraming (sep : α) : Framing α (List α) where
  next := nextLine sep
  shrinks := by
    intro buffer line rest h
    obtain ⟨rfl,-⟩ := nextLine_some_iff.mp h
    simp only [List.length_append,List.length_cons]
    omega
  grows := by
    intro buffer line rest h more
    obtain ⟨rfl,hraw⟩ := nextLine_some_iff.mp h
    exact nextLine_some_iff.mpr ⟨by rw [List.append_assoc,List.cons_append],hraw⟩

theorem frames_open (h : sep ∉ buffer) : (lineFraming sep).frames buffer = ([],buffer) :=
  frames_none (nextLine_open h)

theorem frames_closed (h : sep ∉ raw) (rest : List α) : (lineFraming sep).frames (raw ++ sep :: rest) =
    (raw :: ((lineFraming sep).frames rest).1,((lineFraming sep).frames rest).2) :=
  frames_some (nextLine_closed h rest)

theorem frames_cut (hc : Closed sep front) (ht : sep ∉ tail) :
    (lineFraming sep).frames (front ++ tail) = (split sep front,tail) := by
  induction hn : front.length using Nat.strongRecOn generalizing front with
  | ind n ih =>
      by_cases hne : front = []
      · subst hne
        exact frames_open ht
      · have hlast := hc.resolve_left hne
        obtain ⟨raw,rest,rfl,hraw⟩ := List.eq_append_cons_of_mem (List.mem_of_getLast? hlast)
        have hrest : Closed sep rest := by
          cases rest with
          | nil => exact .inl rfl
          | cons a rest => exact .inr (by simpa using hlast)
        have hshort : rest.length < n := by
          rw [← hn,List.length_append,List.length_cons]
          omega
        rw [List.append_assoc,List.cons_append,frames_closed hraw,ih rest.length hshort hrest rfl,
          split_cons hraw]

theorem left_not_mem (sep : α) (text : List α) : sep ∉ ((lineFraming sep).frames text).2 := by
  obtain ⟨front,tail,rfl,hc,ht⟩ := exists_open_tail sep text
  rw [frames_cut hc ht]
  exact ht

theorem left_eq_nil_iff : ((lineFraming sep).frames text).2 = [] ↔ Closed sep text := by
  obtain ⟨front,tail,rfl,hc,ht⟩ := exists_open_tail sep text
  rw [frames_cut hc ht]
  constructor
  · rintro rfl
    rwa [List.append_nil]
  · rintro (hnil | hlast)
    · exact (List.append_eq_nil_iff.mp hnil).2
    · by_contra hne
      rw [List.getLast?_append_of_ne_nil _ hne] at hlast
      exact ht (List.mem_of_getLast? hlast)

theorem split_frames (sep : α) (text : List α) : split sep text =
    ((lineFraming sep).frames text).1 ++
      if ((lineFraming sep).frames text).2 = [] then [] else [((lineFraming sep).frames text).2] := by
  obtain ⟨front,tail,rfl,hc,ht⟩ := exists_open_tail sep text
  rw [frames_cut hc ht,split_closed hc]
  dsimp only
  split
  · next hnil =>
      rw [hnil]
      rfl
  · next hne => rw [split_of_not_mem hne ht]

end Lines
