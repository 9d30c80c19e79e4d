import Mathlib.Data.List.Basic
import Mathlib.Tactic.Common

-- Frames taken off the front of a buffer that only ever grows at its end: a frame found stays the
-- one that more input finds.
structure Framing (α β : Type) where
  next : List α → Option (β × List α)
  shrinks : ∀ {buffer frame rest}, next buffer = some (frame,rest) → rest.length < buffer.length
  grows : ∀ {buffer frame rest}, next buffer = some (frame,rest) →
    ∀ more, next (buffer ++ more) = some (frame,rest ++ more)

namespace Framing

variable {α β σ ρ : Type} {f : Framing α β} {buffer rest : List α} {frame : β}

def framesFrom (f : Framing α β) : Nat → List α → List β × List α
  | 0, buffer => ([],buffer)
  | fuel + 1, buffer =>
      match f.next buffer with
      | none => ([],buffer)
      | some (frame,rest) =>
          (frame :: (framesFrom f fuel rest).1,(framesFrom f fuel rest).2)

def frames (f : Framing α β) (buffer : List α) : List β × List α :=
  f.framesFrom buffer.length buffer

theorem framesFrom_none (h : f.next buffer = none) (fuel : Nat) :
    f.framesFrom fuel buffer = ([],buffer) := by
  cases fuel with
  | zero => rfl
  | succ fuel => rw [framesFrom,h]

theorem framesFrom_fuel (f : Framing α β) (fuel : Nat) {more : Nat} {buffer : List α}
    (h : buffer.length ≤ fuel) (hm : buffer.length ≤ more) :
    f.framesFrom fuel buffer = f.framesFrom more buffer := by
  induction fuel generalizing buffer more with
  | zero =>
      have hnone : f.next buffer = none := by
        cases hn : f.next buffer with
        | none => rfl
        | some found =>
            have := f.shrinks hn
            omega
      rw [framesFrom_none hnone,framesFrom_none hnone]
  | succ fuel ih =>
      cases hn : f.next buffer with
      | none => rw [framesFrom_none hn,framesFrom_none hn]
      | some found =>
          have := f.shrinks hn
          obtain ⟨more,rfl⟩ : ∃ n, more = n + 1 := ⟨more - 1,by omega⟩
          rw [framesFrom,framesFrom,hn]
          dsimp only
          rw [ih (show found.2.length ≤ fuel by omega) (show found.2.length ≤ more by omega)]

theorem frames_none (h : f.next buffer = none) : f.frames buffer = ([],buffer) :=
  framesFrom_none h buffer.length

theorem frames_some (h : f.next buffer = some (frame,rest)) :
    f.frames buffer = (frame :: (f.frames rest).1,(f.frames rest).2) := by
  have hlen := f.shrinks h
  unfold frames
  obtain ⟨n,hn⟩ : ∃ n, buffer.length = n + 1 := ⟨buffer.length - 1,by omega⟩
  rw [hn,framesFrom,h]
  dsimp only
  rw [framesFrom_fuel f n (by omega) (Nat.le_refl _)]

theorem frames_append (f : Framing α β) (front back : List α) :
    f.frames (front ++ back) =
      ((f.frames front).1 ++ (f.frames ((f.frames front).2 ++ back)).1,
        (f.frames ((f.frames front).2 ++ back)).2) := by
  induction hn : front.length using Nat.strongRecOn generalizing front with
  | _ n ih =>
      cases hf : f.next front with
      | none => rw [frames_none hf,List.nil_append]
      | some found =>
          obtain ⟨frame,rest⟩ := found
          have hlen := f.shrinks hf
          rw [frames_some (f.grows hf back),frames_some hf,ih rest.length (by omega) rest rfl]
          rfl

def handleAll (handle : σ → β → σ × List ρ) (s : σ) : List β → σ × List ρ
  | [] => (s,[])
  | frame :: later =>
      ((handleAll handle (handle s frame).1 later).1,
        (handle s frame).2 ++ (handleAll handle (handle s frame).1 later).2)

theorem handleAll_append (handle : σ → β → σ × List ρ) (s : σ) (xs ys : List β) :
    handleAll handle s (xs ++ ys) =
      ((handleAll handle (handleAll handle s xs).1 ys).1,
        (handleAll handle s xs).2 ++ (handleAll handle (handleAll handle s xs).1 ys).2) := by
  induction xs generalizing s with
  | nil => rfl
  | cons frame later ih => rw [List.cons_append,handleAll,ih,handleAll,List.append_assoc]

end Framing
