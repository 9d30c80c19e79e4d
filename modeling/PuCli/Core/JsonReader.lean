import PuCli.Core.Depth

namespace PuCli

-- A reader of JSON texts by recursive descent: what it makes of one scalar is `decode`.
namespace JsonReader

def isBlank (c : Char) : Bool := c = ' ' ∨ c = '\t' ∨ c = '\n' ∨ c = '\r'

def isMark (c : Char) : Bool :=
  c = '"' ∨ c = ',' ∨ c = ':' ∨ c = '[' ∨ c = ']' ∨ c = '\x7b' ∨ c = '\x7d'

def isPlain (c : Char) : Bool := !isBlank c && !isMark c

def skip (t : List Char) : List Char := t.dropWhile isBlank

-- A string behind its first quote, up to the quote that no backslash stands before.
def stringRest : List Char → Option (List Char × List Char)
  | [] => none
  | '\\' :: [] => none
  | '\\' :: c :: rest => (stringRest rest).map (fun p => ('\\' :: c :: p.1,p.2))
  | c :: rest =>
      if c = '"' then some (['"'],rest) else (stringRest rest).map (fun p => (c :: p.1,p.2))

def token : List Char → Option (List Char × List Char)
  | [] => none
  | c :: rest =>
      if c = '"' then (stringRest rest).map (fun p => ('"' :: p.1,p.2))
      else if isPlain c then
        some ((c :: rest).takeWhile isPlain,(c :: rest).dropWhile isPlain)
      else none

variable (decode : List Char → Option Json)

def scalar (t : List Char) : Option (Json × List Char) :=
  (token t).bind (fun p => (decode p.1).map (fun j => (j,p.2)))

def name (t : List Char) : Option (String × List Char) :=
  match scalar decode (skip t) with
  | some (.string key,rest) =>
      match skip rest with
      | ':' :: rest => some (key,rest)
      | _ => none
  | _ => none

mutual

-- `levels` more arrays and objects may be opened inside each other.
def value : Nat → Nat → List Char → Option (Json × List Char)
  | 0, _, _ => none
  | fuel + 1, levels, t =>
      match skip t, levels with
      | '[' :: _, 0 => none
      | '\x7b' :: _, 0 => none
      | '[' :: rest, levels + 1 =>
          match skip rest with
          | ']' :: rest => some (.array [],rest)
          | _ => (items fuel levels rest).map (fun p => (.array p.1,p.2))
      | '\x7b' :: rest, levels + 1 =>
          match skip rest with
          | '\x7d' :: rest => some (.object [],rest)
          | _ => (members fuel levels [] rest).map (fun p => (.object p.1,p.2))
      | t, _ => scalar decode t

def items : Nat → Nat → List Char → Option (List Json × List Char)
  | 0, _, _ => none
  | fuel + 1, levels, t =>
      match value fuel levels t with
      | none => none
      | some (first,rest) =>
          match skip rest with
          | ',' :: rest => (items fuel levels rest).map (fun p => (first :: p.1,p.2))
          | ']' :: rest => some ([first],rest)
          | _ => none

-- A name given twice keeps its place and takes the later value.
def members : Nat → Nat → List (String × Json) → List Char → Option (List (String × Json) × List Char)
  | 0, _, _, _ => none
  | fuel + 1, levels, soFar, t =>
      match name decode t with
      | none => none
      | some (key,rest) =>
          match value fuel levels rest with
          | none => none
          | some (v,rest) =>
              match skip rest with
              | ',' :: rest => members fuel levels (Json.assign soFar key v) rest
              | '\x7d' :: rest => some (Json.assign soFar key v,rest)
              | _ => none

end

def read (text : String) : Option Json :=
  match value decode (text.toList.length + 1) kMaxDepth text.toList with
  | some (j,rest) => if skip rest = [] then some j else none
  | none => none

def OneToken (t : List Char) : Prop :=
  (∃ body, t = '"' :: body ∧ stringRest body = some (body,[])) ∨
    (t ≠ [] ∧ ∀ c ∈ t, isPlain c = true)

def Ends (rest : List Char) : Prop := ∀ c, rest.head? = some c → isPlain c = false

variable {decode : List Char → Option Json} {t body rest more : List Char} {c : Char}

theorem stringRest_append {found : List Char × List Char} (h : stringRest t = some found)
    (more : List Char) : stringRest (t ++ more) = some (found.1,found.2 ++ more) := by
  fun_induction stringRest t generalizing found with
  | case1 => cases h
  | case2 => cases h
  | case3 c rest ih =>
      obtain ⟨p,hp,rfl⟩ := Option.map_eq_some_iff.mp h
      simp [stringRest,ih hp]
  | case4 rest =>
      cases h
      simp [stringRest]
  | case5 c rest hlast hback hquote ih =>
      obtain ⟨p,hp,rfl⟩ := Option.map_eq_some_iff.mp h
      have hc : c ≠ '\\' := by
        rintro rfl
        cases rest with
        | nil => exact hlast rfl rfl
        | cons d rest => exact hback d rest rfl rfl
      simp [stringRest,hc,hquote,ih hp]

theorem token_of_oneToken (h : OneToken t) (he : Ends rest) : token (t ++ rest) = some (t,rest) := by
  rcases h with ⟨body,rfl,hbody⟩ | ⟨hne,hplain⟩
  · rw [List.cons_append,token,if_pos rfl,stringRest_append hbody]
    rfl
  · obtain ⟨c,later,rfl⟩ := List.exists_cons_of_ne_nil hne
    have hc := hplain c List.mem_cons_self
    have hquote : c ≠ '"' := by
      rintro rfl
      exact absurd hc (by decide)
    have htail : rest.takeWhile isPlain = [] ∧ rest.dropWhile isPlain = rest := by
      cases rest with
      | nil => exact ⟨rfl,rfl⟩
      | cons d rest =>
          have hd := he d rfl
          rw [List.takeWhile_cons_of_neg (by simp [hd]),List.dropWhile_cons_of_neg (by simp [hd])]
          exact ⟨rfl,rfl⟩
    rw [List.cons_append,token,if_neg hquote,if_pos hc,← List.cons_append,
      List.takeWhile_append_of_pos hplain,List.dropWhile_append_of_pos hplain,htail.1,htail.2,
      List.append_nil]

theorem skip_blanks {blanks : List Char} (h : ∀ c ∈ blanks, isBlank c = true) (t : List Char) :
    skip (blanks ++ t) = skip t := List.dropWhile_append_of_pos h

theorem skip_cons (h : isBlank c = false) (t : List Char) : skip (c :: t) = c :: t :=
  List.dropWhile_cons_of_neg (by simp [h])

end JsonReader

end PuCli
