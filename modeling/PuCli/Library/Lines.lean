import Mathlib.Data.List.Basic
import Mathlib.Data.List.Induction
import Mathlib.Tactic.Common

namespace Lines

variable {α : Type}

def offsets : Nat → List (List α) → List Nat
  | _, [] => []
  | start, piece :: later => start :: offsets (start + piece.length) later

theorem length_offsets (start : Nat) (ps : List (List α)) : (offsets start ps).length = ps.length := by
  induction ps generalizing start with
  | nil => rfl
  | cons piece later ih => rw [offsets,List.length_cons,List.length_cons,ih]

theorem getD_offsets (start : Nat) (ps : List (List α)) {index : Nat} (h : index ≤ ps.length) :
    (offsets start ps).getD index (start + ps.flatten.length) =
      start + (ps.take index).flatten.length := by
  induction ps generalizing start index with
  | nil =>
      obtain rfl := Nat.le_zero.mp h
      rfl
  | cons piece later ih =>
      cases index with
      | zero => rfl
      | succ index =>
          have hi := ih (start + piece.length) (Nat.le_of_succ_le_succ h)
          simp only [offsets,List.getD_cons_succ,List.take_succ_cons,List.flatten_cons,
            List.length_append] at hi ⊢
          rw [← Nat.add_assoc,hi]
          omega

theorem drop_take_flatten (ps : List (List α)) {index : Nat} (h : index < ps.length) :
    (ps.flatten.drop (ps.take index).flatten.length).take ps[index].length = ps[index] := by
  have hflat : ps.flatten = (ps.take index).flatten ++ (ps.drop index).flatten := by
    rw [← List.flatten_append,List.take_append_drop]
  rw [hflat,List.drop_left' rfl,List.drop_eq_getElem_cons h,List.flatten_cons,List.take_left' rfl]

theorem intercalate_cons (sep : α) (line : List α) (lines : List (List α)) :
    [sep].intercalate (line :: lines) = line ++ lines.flatMap (sep :: ·) := by
  induction lines generalizing line with
  | nil => simp [List.intercalate]
  | cons next lines ih =>
      have hstep : [sep].intercalate (line :: next :: lines) =
          line ++ sep :: [sep].intercalate (next :: lines) := by simp [List.intercalate]
      rw [hstep,ih,List.flatMap_cons,List.cons_append]

variable [DecidableEq α]

def pieces (sep : α) : List α → List (List α)
  | [] => []
  | a :: rest =>
      if a = sep then [a] :: pieces sep rest
      else match pieces sep rest with
        | [] => [[a]]
        | piece :: later => (a :: piece) :: later

def chop (sep : α) (piece : List α) : List α :=
  if piece.getLast? = some sep then piece.dropLast else piece

def split (sep : α) (text : List α) : List (List α) := (pieces sep text).map (chop sep)

def Closed (sep : α) (text : List α) : Prop := text = [] ∨ text.getLast? = some sep

instance (sep : α) (text : List α) : Decidable (Closed sep text) :=
  inferInstanceAs (Decidable (_ ∨ _))

variable {sep a : α} {text front rest piece : List α} {later : List (List α)}

theorem pieces_sep (sep : α) (rest : List α) :
    pieces sep (sep :: rest) = [sep] :: pieces sep rest := by
  rw [pieces,if_pos rfl]

theorem pieces_cons (ha : a ≠ sep) (hr : pieces sep rest = piece :: later) :
    pieces sep (a :: rest) = (a :: piece) :: later := by
  rw [pieces,if_neg ha,hr]

theorem pieces_eq_nil_iff : pieces sep text = [] ↔ text = [] := by
  cases text with
  | nil => simp [pieces]
  | cons a rest =>
      unfold pieces
      split
      · simp
      · split <;> simp

theorem exists_pieces (h : text ≠ []) : ∃ piece later, pieces sep text = piece :: later :=
  List.exists_cons_of_ne_nil (mt pieces_eq_nil_iff.mp h)

theorem flatten_pieces (sep : α) (text : List α) : (pieces sep text).flatten = text := by
  induction text with
  | nil => rfl
  | cons a rest ih =>
      unfold pieces
      split
      · rw [List.flatten_cons,ih]
        rfl
      · cases hr : pieces sep rest with
        | nil =>
            obtain rfl := pieces_eq_nil_iff.mp hr
            rfl
        | cons piece later =>
            rw [hr] at ih
            simpa using ih

-- A part without a separator goes in front of the first piece behind it.
theorem pieces_open (hf : sep ∉ front) (hr : pieces sep rest = piece :: later) :
    pieces sep (front ++ rest) = (front ++ piece) :: later := by
  induction front with
  | nil => exact hr
  | cons a front ih =>
      obtain ⟨ha,hf⟩ := List.ne_and_not_mem_of_not_mem_cons hf
      exact pieces_cons ha.symm (ih hf)

theorem pieces_of_not_mem (hne : text ≠ []) (h : sep ∉ text) : pieces sep text = [text] := by
  induction text with
  | nil => exact absurd rfl hne
  | cons a rest ih =>
      obtain ⟨ha,hr⟩ := List.ne_and_not_mem_of_not_mem_cons h
      cases rest with
      | nil => simp [pieces,ha.symm]
      | cons b rest => exact pieces_cons ha.symm (ih (by simp) hr)

theorem pieces_closed (hc : Closed sep front) (rest : List α) :
    pieces sep (front ++ rest) = pieces sep front ++ pieces sep rest := by
  induction front with
  | nil => rfl
  | cons a front ih =>
      have hlast := hc.resolve_left (by simp)
      by_cases ha : a = sep
      · subst ha
        have hclosed : Closed a front := by
          cases front with
          | nil => exact .inl rfl
          | cons b front => exact .inr (by simpa using hlast)
        rw [List.cons_append,pieces_sep,pieces_sep,ih hclosed,List.cons_append]
      · have hne : front ≠ [] := by
          rintro rfl
          exact ha (by simpa using hlast)
        have hclosed : Closed sep front := by
          obtain ⟨b,front,rfl⟩ := List.exists_cons_of_ne_nil hne
          exact .inr (by simpa using hlast)
        obtain ⟨piece,later,hp⟩ := @exists_pieces _ _ sep _ hne
        have hwhole : pieces sep (front ++ rest) = piece :: (later ++ pieces sep rest) := by
          rw [ih hclosed,hp]
          rfl
        rw [List.cons_append,pieces_cons ha hp,pieces_cons ha hwhole]
        rfl

theorem length_pieces (sep : α) (text : List α) :
    (pieces sep text).length = text.count sep + if Closed sep text then 0 else 1 := by
  induction text with
  | nil => simp [pieces,Closed]
  | cons a rest ih =>
      by_cases ha : a = sep
      · subst ha
        have hclosed : Closed a (a :: rest) ↔ Closed a rest := by
          cases rest with
          | nil => simp [Closed]
          | cons b rest => simp [Closed]
        rw [pieces_sep,List.length_cons,ih,List.count_cons_self]
        simp only [hclosed]
        omega
      · rw [List.count_cons_of_ne ha]
        cases rest with
        | nil => simp [pieces,ha,Closed]
        | cons b rest =>
            obtain ⟨piece,later,hp⟩ := @exists_pieces _ _ sep _ (List.cons_ne_nil b rest)
            have hclosed : Closed sep (a :: b :: rest) ↔ Closed sep (b :: rest) := by simp [Closed]
            rw [pieces_cons ha hp,List.length_cons]
            rw [hp,List.length_cons] at ih
            simp only [hclosed,ih]

theorem ne_nil_of_mem_pieces (h : piece ∈ pieces sep text) : piece ≠ [] := by
  induction text generalizing piece with
  | nil => simp [pieces] at h
  | cons a rest ih =>
      unfold pieces at h
      split at h
      · rcases List.mem_cons.mp h with rfl | h
        · simp
        · exact ih h
      · split at h
        · rw [List.mem_singleton.mp h]
          simp
        · next first later hr =>
            rcases List.mem_cons.mp h with rfl | h
            · simp
            · exact ih (hr ▸ List.mem_cons_of_mem _ h)

theorem chop_of_not_mem (h : sep ∉ piece) : chop sep piece = piece :=
  if_neg (fun hl => h (List.mem_of_getLast? hl))

theorem chop_append (front : List α) (h : piece ≠ []) :
    chop sep (front ++ piece) = front ++ chop sep piece := by
  unfold chop
  rw [List.getLast?_append_of_ne_nil _ h]
  split
  · rw [List.dropLast_append_of_ne_nil h]
  · rfl

theorem length_split (sep : α) (text : List α) :
    (split sep text).length = (pieces sep text).length := List.length_map _

theorem split_closed (hc : Closed sep front) (rest : List α) :
    split sep (front ++ rest) = split sep front ++ split sep rest := by
  rw [split,pieces_closed hc,List.map_append]
  rfl

theorem split_of_not_mem (hne : text ≠ []) (h : sep ∉ text) : split sep text = [text] := by
  rw [split,pieces_of_not_mem hne h,List.map_singleton,chop_of_not_mem h]

theorem split_open (hf : sep ∉ front) (hr : pieces sep rest = piece :: later) :
    split sep (front ++ rest) = (front ++ chop sep piece) :: later.map (chop sep) := by
  have hne : piece ≠ [] := ne_nil_of_mem_pieces (hr ▸ List.mem_cons_self)
  rw [split,pieces_open hf hr,List.map_cons,chop_append front hne]

theorem split_cons (hf : sep ∉ front) (rest : List α) :
    split sep (front ++ sep :: rest) = front :: split sep rest := by
  have hclosed : Closed sep (front ++ [sep]) := .inr List.getLast?_concat
  have hone : split sep (front ++ [sep]) = [front] := by
    have hchop : chop sep [sep] = [] := by simp [chop]
    rw [split_open hf (pieces_sep sep []),hchop,List.append_nil]
    rfl
  rw [List.append_cons,split_closed hclosed,hone,List.singleton_append]

-- A text that is not closed by a separator is its lines with separators between them.
theorem split_joins (text : List α) (hopen : ¬ Closed sep text) : ∃ line lines,
    split sep text = line :: lines ∧ text = line ++ lines.flatMap (sep :: ·) := by
  induction hn : text.length using Nat.strongRecOn generalizing text with
  | ind n ih =>
      have hne : text ≠ [] := fun h => hopen (.inl h)
      by_cases hmem : sep ∈ text
      · obtain ⟨front,rest,rfl,hf⟩ := List.eq_append_cons_of_mem hmem
        have hrest : ¬ Closed sep rest := by
          rintro (rfl | hlast)
          · exact hopen (.inr List.getLast?_concat)
          · refine hopen (.inr ?_)
            rw [List.append_cons,List.getLast?_append_of_ne_nil _ (List.ne_nil_of_mem (List.mem_of_getLast? hlast))]
            exact hlast
        have hshort : rest.length < n := by
          rw [← hn,List.length_append,List.length_cons]
          omega
        obtain ⟨line,lines,hsplit,hjoin⟩ := ih rest.length hshort rest hrest rfl
        refine ⟨front,line :: lines,by rw [split_cons hf,hsplit],?_⟩
        rw [List.flatMap_cons,List.cons_append,← hjoin]
      · exact ⟨text,[],split_of_not_mem hne hmem,(List.append_nil text).symm⟩

theorem intercalate_split (hopen : ¬ Closed sep text) : [sep].intercalate (split sep text) = text := by
  obtain ⟨line,lines,hsplit,hjoin⟩ := split_joins text hopen
  rw [hsplit,intercalate_cons,← hjoin]

theorem exists_open_tail (sep : α) (text : List α) :
    ∃ front tail, text = front ++ tail ∧ Closed sep front ∧ sep ∉ tail := by
  induction text using List.reverseRecOn with
  | nil => exact ⟨[],[],rfl,.inl rfl,List.not_mem_nil⟩
  | append_singleton text a ih =>
      by_cases ha : a = sep
      · exact ⟨text ++ [a],[],by simp,.inr (by simp [ha]),List.not_mem_nil⟩
      · obtain ⟨front,tail,rfl,hc,hf⟩ := ih
        exact ⟨front,tail ++ [a],by simp,hc,by simp [hf,Ne.symm ha]⟩

end Lines
