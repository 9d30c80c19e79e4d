import PuCli.Core.JsonReader

namespace PuCli

namespace Json

mutual

-- The scalars of a value, its member names among them as strings.
def scalars : Json → List Json
  | .array xs => scalarsAll xs
  | .object ms => scalarsMembers ms
  | j => [j]

def scalarsAll : List Json → List Json
  | [] => []
  | x :: xs => scalars x ++ scalarsAll xs

def scalarsMembers : List (String × Json) → List Json
  | [] => []
  | (k, v) :: ms => .string k :: (scalars v ++ scalarsMembers ms)

end

mutual

def Keyed : Json → Prop
  | .array xs => KeyedAll xs
  | .object ms => (ms.map Prod.fst).Nodup ∧ KeyedMembers ms
  | _ => True

def KeyedAll : List Json → Prop
  | [] => True
  | x :: xs => Keyed x ∧ KeyedAll xs

def KeyedMembers : List (String × Json) → Prop
  | [] => True
  | (_, v) :: ms => Keyed v ∧ KeyedMembers ms

end

end Json

open Json JsonReader

-- A scalar other than a double that is printed as one token, and whose token reads back.
structure Spelled (text : JsonText) (decode : List Char → Option Json) (j : Json) : Prop where
  whole : j.isDouble = false
  token : OneToken (text.serialize j).toList
  decoded : decode (text.serialize j).toList = some (j.reread .plain)

namespace PrettyRead

variable {text : JsonText} {chars : ToChars} {decode : List Char → Option Json}
  {indent depth fuel levels : Nat} {t later rest blanks : List Char} {c : Char} {j : Json}

def joined (parts : List String) : List Char := [',','\n'].intercalate (parts.map String.toList)

theorem joined_one (s : String) : joined [s] = s.toList := by simp [joined,List.intercalate]

theorem joined_cons (s u : String) (parts : List String) :
    joined (s :: u :: parts) = s.toList ++ ',' :: '\n' :: joined (u :: parts) := by
  simp [joined,List.intercalate]

theorem toList_intercalate (parts : List String) :
    (String.intercalate ",\n" parts).toList = joined parts := String.toList_intercalate

def spaces (n : Nat) : List Char := List.replicate n ' '

theorem toList_padding (indent depth : Nat) : (padding indent depth).toList = spaces (depth * indent) :=
  String.toList_ofList

theorem blank_spaces (n : Nat) : ∀ c ∈ spaces n, isBlank c = true := by
  intro c hc
  rw [List.eq_of_mem_replicate hc]
  decide

theorem toList_array (x : Json) (xs : List Json) :
    ((Json.array (x :: xs)).appendPretty text chars indent depth).toList =
      '[' :: '\n' :: (joined (prettyItems text chars indent (depth + 1) (x :: xs)) ++
        '\n' :: (spaces (depth * indent) ++ [']'])) := by
  simp only [appendPretty,String.toList_append,toList_intercalate,toList_padding]
  simp

theorem toList_object (m : String × Json) (ms : List (String × Json)) :
    ((Json.object (m :: ms)).appendPretty text chars indent depth).toList =
      '\x7b' :: '\n' :: (joined (prettyMembers text chars indent (depth + 1) (m :: ms)) ++
        '\n' :: (spaces (depth * indent) ++ ['\x7d'])) := by
  simp only [appendPretty,String.toList_append,toList_intercalate,toList_padding]
  simp

theorem value_array (h : skip t = '[' :: rest) (hne : ∀ more, skip rest ≠ ']' :: more) :
    value decode (fuel + 1) (levels + 1) t =
      (items decode fuel levels rest).map (fun p => (.array p.1,p.2)) := by
  simp only [value,h]

theorem value_object (h : skip t = '\x7b' :: rest) (hne : ∀ more, skip rest ≠ '\x7d' :: more) :
    value decode (fuel + 1) (levels + 1) t =
      (members decode fuel levels [] rest).map (fun p => (.object p.1,p.2)) := by
  simp only [value,h]

theorem value_scalar (h : skip t = c :: rest) (ha : c ≠ '[') (ho : c ≠ '\x7b') :
    value decode (fuel + 1) levels t = scalar decode (c :: rest) := by
  unfold value
  rw [h]
  split <;> simp_all

theorem oneToken_head (h : OneToken t) : ∃ c later, t = c :: later ∧ isBlank c = false ∧
    c ≠ '[' ∧ c ≠ '\x7b' ∧ c ≠ ']' ∧ c ≠ '\x7d' := by
  rcases h with ⟨body,rfl,-⟩ | ⟨hne,hplain⟩
  · exact ⟨'"',body,rfl,by decide⟩
  · obtain ⟨c,later,rfl⟩ := List.exists_cons_of_ne_nil hne
    have hc := hplain c List.mem_cons_self
    refine ⟨c,later,rfl,?_⟩
    simp only [isPlain,isMark,Bool.and_eq_true,Bool.not_eq_true',decide_eq_false_iff_not,not_or] at hc
    tauto

theorem scalar_spelled (h : Spelled text decode j) (he : Ends rest) :
    scalar decode ((text.serialize j).toList ++ rest) = some (j.reread .plain,rest) := by
  rw [scalar,token_of_oneToken h.token he,Option.bind_some,h.decoded]
  rfl

theorem value_spelled (h : Spelled text decode j) (hb : ∀ c ∈ blanks, isBlank c = true)
    (he : Ends rest) : value decode (fuel + 1) levels (blanks ++ ((text.serialize j).toList ++ rest)) =
      some (j.reread .plain,rest) := by
  obtain ⟨c,later,heq,hblank,ha,ho,-⟩ := oneToken_head h.token
  have hskip : skip (blanks ++ ((text.serialize j).toList ++ rest)) = c :: (later ++ rest) := by
    rw [skip_blanks hb,heq,List.cons_append,skip_cons hblank]
  rw [value_scalar hskip ha ho,← List.cons_append,← heq,scalar_spelled h he]

theorem ends_mark (h : isPlain c = false) (t : List Char) : Ends (c :: t) := by
  intro d hd
  obtain rfl := Option.some.inj hd
  exact h

-- The text of a value opens with what neither blanks nor a closing bracket begin with.
theorem pretty_head (hs : ∀ s ∈ scalars j, Spelled text decode s) : ∃ c later,
    (j.appendPretty text chars indent depth).toList = c :: later ∧ isBlank c = false ∧
      c ≠ ']' ∧ c ≠ '\x7d' := by
  have hscalar (s : Json) (h : Spelled text decode s) : ∃ c later,
      (text.serialize s).toList = c :: later ∧ isBlank c = false ∧ c ≠ ']' ∧ c ≠ '\x7d' := by
    obtain ⟨c,later,heq,hblank,-,-,hclose⟩ := oneToken_head h.token
    exact ⟨c,later,heq,hblank,hclose⟩
  match j, hs with
  | .array [], _ => exact ⟨'[',[']'],by simp [appendPretty],by decide⟩
  | .array (x :: xs), _ => exact ⟨'[',_,toList_array x xs,by decide⟩
  | .object [], _ => exact ⟨'\x7b',['\x7d'],by simp [appendPretty],by decide⟩
  | .object (m :: ms), _ => exact ⟨'\x7b',_,toList_object m ms,by decide⟩
  | .double q, hs => exact absurd (hs _ (List.mem_singleton_self _)).whole (by simp [isDouble])
  | .null, hs => simpa only [appendPretty] using hscalar _ (hs _ (List.mem_singleton_self _))
  | .bool b, hs => simpa only [appendPretty] using hscalar _ (hs _ (List.mem_singleton_self _))
  | .int64 i, hs => simpa only [appendPretty] using hscalar _ (hs _ (List.mem_singleton_self _))
  | .uint64 n, hs => simpa only [appendPretty] using hscalar _ (hs _ (List.mem_singleton_self _))
  | .string s, hs => simpa only [appendPretty] using hscalar _ (hs _ (List.mem_singleton_self _))

theorem name_spelled {k : String} (h : Spelled text decode (.string k))
    (hb : ∀ c ∈ blanks, isBlank c = true) (rest : List Char) :
    name decode (blanks ++ ((text.serialize (.string k)).toList ++ ':' :: rest)) = some (k,rest) := by
  obtain ⟨c,later,heq,hblank,-⟩ := oneToken_head h.token
  have hskip : skip (blanks ++ ((text.serialize (.string k)).toList ++ ':' :: rest)) =
      (text.serialize (.string k)).toList ++ ':' :: rest := by
    rw [skip_blanks hb,heq,List.cons_append,skip_cons hblank]
  have hcolon : skip (':' :: rest) = ':' :: rest := skip_cons (by decide) rest
  rw [name,hskip,scalar_spelled h (ends_mark (by decide) rest)]
  simp only [reread_string,hcolon]

theorem blank_gap : ∀ c ∈ [' '], isBlank c = true := List.all_eq_true.mp rfl

theorem blank_line (n : Nat) : ∀ c ∈ '\n' :: spaces n, isBlank c = true :=
  List.forall_mem_cons.mpr ⟨by decide,blank_spaces n⟩

theorem skip_line (n : Nat) (h : isBlank c = false) (rest : List Char) :
    skip ('\n' :: (spaces n ++ c :: rest)) = c :: rest := by
  have hskip := skip_blanks (blank_line n) (c :: rest)
  rw [List.cons_append] at hskip
  rw [hskip,skip_cons h]

theorem ends_line (t : List Char) : Ends ('\n' :: t) := ends_mark (by decide) t

theorem value_pretty_scalar (h : Spelled text decode j)
    (hp : j.appendPretty text chars indent depth = text.serialize j)
    (hf : (j.appendPretty text chars indent depth).toList.length ≤ fuel)
    (hb : ∀ c ∈ blanks, isBlank c = true) (he : Ends rest) :
    value decode fuel levels (blanks ++ ((j.appendPretty text chars indent depth).toList ++ rest)) =
      some (j.reread .plain,rest) := by
  obtain ⟨c,later,heq,-⟩ := oneToken_head h.token
  rw [hp] at hf ⊢
  obtain ⟨fuel,rfl⟩ : ∃ n, fuel = n + 1 := by
    rw [heq,List.length_cons] at hf
    exact ⟨fuel - 1,by omega⟩
  exact value_spelled h hb he

section Lines

variable (text chars indent depth)

theorem items_line (x : Json) (rest : List Char) :
    '\n' :: (joined (prettyItems text chars indent depth [x]) ++ rest) =
      ('\n' :: spaces (depth * indent)) ++ ((x.appendPretty text chars indent depth).toList ++ rest) := by
  simp only [prettyItems,joined_one,String.toList_append,toList_padding]
  simp

theorem items_lines (x y : Json) (ys : List Json) (rest : List Char) :
    '\n' :: (joined (prettyItems text chars indent depth (x :: y :: ys)) ++ rest) =
      ('\n' :: spaces (depth * indent)) ++ ((x.appendPretty text chars indent depth).toList ++
        ',' :: '\n' :: (joined (prettyItems text chars indent depth (y :: ys)) ++ rest)) := by
  simp only [prettyItems,joined_cons,String.toList_append,toList_padding]
  simp

theorem members_line (m : String × Json) (rest : List Char) :
    '\n' :: (joined (prettyMembers text chars indent depth [m]) ++ rest) =
      ('\n' :: spaces (depth * indent)) ++ ((text.serialize (.string m.1)).toList ++
        ':' :: ([' '] ++ ((m.2.appendPretty text chars indent depth).toList ++ rest))) := by
  simp only [prettyMembers,joined_one,String.toList_append,toList_padding]
  simp

theorem members_lines (m o : String × Json) (os : List (String × Json)) (rest : List Char) :
    '\n' :: (joined (prettyMembers text chars indent depth (m :: o :: os)) ++ rest) =
      ('\n' :: spaces (depth * indent)) ++ ((text.serialize (.string m.1)).toList ++
        ':' :: ([' '] ++ ((m.2.appendPretty text chars indent depth).toList ++
          ',' :: '\n' :: (joined (prettyMembers text chars indent depth (o :: os)) ++ rest)))) := by
  simp only [prettyMembers,joined_cons,String.toList_append,toList_padding]
  simp

end Lines

theorem items_close {v : Json} {more : List Char} (h : value decode fuel levels t = some (v,more))
    (hm : skip more = ']' :: rest) : items decode (fuel + 1) levels t = some ([v],rest) := by
  simp only [items,h,hm]

theorem items_next {v : Json} {vs : List Json} {more next : List Char}
    (h : value decode fuel levels t = some (v,more)) (hm : skip more = ',' :: next)
    (hi : items decode fuel levels next = some (vs,rest)) :
    items decode (fuel + 1) levels t = some (v :: vs,rest) := by
  simp only [items,h,hm,hi,Option.map_some]

theorem members_close {k : String} {v : Json} {soFar : List (String × Json)} {more next : List Char}
    (hn : name decode t = some (k,more)) (h : value decode fuel levels more = some (v,next))
    (hm : skip next = '\x7d' :: rest) :
    members decode (fuel + 1) levels soFar t = some (assign soFar k v,rest) := by
  simp only [members,hn,h,hm]

theorem members_next {k : String} {v : Json} {soFar : List (String × Json)} {more next last : List Char}
    (hn : name decode t = some (k,more)) (h : value decode fuel levels more = some (v,next))
    (hm : skip next = ',' :: last) : members decode (fuel + 1) levels soFar t =
      members decode fuel levels (assign soFar k v) last := by
  simp only [members,hn,h,hm]

theorem value_empty_array (hb : ∀ c ∈ blanks, isBlank c = true) (rest : List Char) :
    value decode (fuel + 1) (levels + 1) (blanks ++ '[' :: ']' :: rest) = some (.array [],rest) := by
  have hopen : skip (blanks ++ '[' :: ']' :: rest) = '[' :: ']' :: rest := by
    rw [skip_blanks hb,skip_cons (by decide)]
  have hclose : skip (']' :: rest) = ']' :: rest := skip_cons (by decide) rest
  simp only [value,hopen,hclose]

theorem value_empty_object (hb : ∀ c ∈ blanks, isBlank c = true) (rest : List Char) :
    value decode (fuel + 1) (levels + 1) (blanks ++ '\x7b' :: '\x7d' :: rest) = some (.object [],rest) := by
  have hopen : skip (blanks ++ '\x7b' :: '\x7d' :: rest) = '\x7b' :: '\x7d' :: rest := by
    rw [skip_blanks hb,skip_cons (by decide)]
  have hclose : skip ('\x7d' :: rest) = '\x7d' :: rest := skip_cons (by decide) rest
  simp only [value,hopen,hclose]

-- An array whose items are read is read, for what its first line opens with does not close it.
theorem value_items {x : Json} {xs vs : List Json} (hb : ∀ c ∈ blanks, isBlank c = true)
    (hs : ∀ s ∈ scalars x, Spelled text decode s)
    (h : items decode fuel levels ('\n' :: (joined (prettyItems text chars indent (depth + 1) (x :: xs)) ++
      '\n' :: (spaces (depth * indent) ++ ']' :: rest))) = some (vs,rest)) :
    value decode (fuel + 1) (levels + 1)
      (blanks ++ (((Json.array (x :: xs)).appendPretty text chars indent depth).toList ++ rest)) =
      some (.array vs,rest) := by
  have hopen : skip (blanks ++ (((Json.array (x :: xs)).appendPretty text chars indent depth).toList ++
      rest)) = '[' :: ('\n' :: (joined (prettyItems text chars indent (depth + 1) (x :: xs)) ++
        '\n' :: (spaces (depth * indent) ++ ']' :: rest))) := by
    rw [skip_blanks hb,toList_array,List.cons_append,skip_cons (by decide)]
    simp
  have hhead : ∃ c later, (x.appendPretty text chars indent (depth + 1)).toList = c :: later ∧
      isBlank c = false ∧ c ≠ ']' ∧ c ≠ '\x7d' := pretty_head hs
  obtain ⟨c,later,heq,hblank,hclose,-⟩ := hhead
  have hfirst : ∃ more, skip ('\n' :: (joined (prettyItems text chars indent (depth + 1) (x :: xs)) ++
      '\n' :: (spaces (depth * indent) ++ ']' :: rest))) = c :: more := by
    cases xs with
    | nil => exact ⟨_,by rw [items_line,skip_blanks (blank_line _),heq,List.cons_append,skip_cons hblank]⟩
    | cons y ys =>
        exact ⟨_,by rw [items_lines,skip_blanks (blank_line _),heq,List.cons_append,skip_cons hblank]⟩
  obtain ⟨more,hmore⟩ := hfirst
  rw [value_array hopen,h]
  · rfl
  · intro other hother
    rw [hmore] at hother
    exact hclose (List.cons.inj hother).1

theorem value_members {m : String × Json} {ms vs : List (String × Json)}
    (hb : ∀ c ∈ blanks, isBlank c = true) (hk : Spelled text decode (.string m.1))
    (h : members decode fuel levels [] ('\n' :: (joined (prettyMembers text chars indent (depth + 1) (m :: ms)) ++
      '\n' :: (spaces (depth * indent) ++ '\x7d' :: rest))) = some (vs,rest)) :
    value decode (fuel + 1) (levels + 1)
      (blanks ++ (((Json.object (m :: ms)).appendPretty text chars indent depth).toList ++ rest)) =
      some (.object vs,rest) := by
  have hopen : skip (blanks ++ (((Json.object (m :: ms)).appendPretty text chars indent depth).toList ++
      rest)) = '\x7b' :: ('\n' :: (joined (prettyMembers text chars indent (depth + 1) (m :: ms)) ++
        '\n' :: (spaces (depth * indent) ++ '\x7d' :: rest))) := by
    rw [skip_blanks hb,toList_object,List.cons_append,skip_cons (by decide)]
    simp
  obtain ⟨c,later,heq,hblank,-,-,-,hclose⟩ := oneToken_head hk.token
  have hfirst : ∃ more, skip ('\n' :: (joined (prettyMembers text chars indent (depth + 1) (m :: ms)) ++
      '\n' :: (spaces (depth * indent) ++ '\x7d' :: rest))) = c :: more := by
    cases ms with
    | nil => exact ⟨_,by rw [members_line,skip_blanks (blank_line _),heq,List.cons_append,skip_cons hblank]⟩
    | cons o os =>
        exact ⟨_,by rw [members_lines,skip_blanks (blank_line _),heq,List.cons_append,skip_cons hblank]⟩
  obtain ⟨more,hmore⟩ := hfirst
  rw [value_object hopen,h]
  · rfl
  · intro other hother
    rw [hmore] at hother
    exact hclose (List.cons.inj hother).1

mutual

theorem value_pretty (chars : ToChars) (indent : Nat) : ∀ (j : Json),
    (∀ s ∈ scalars j, Spelled text decode s) → Keyed j →
    ∀ (fuel levels depth : Nat) (blanks rest : List Char),
      (j.appendPretty text chars indent depth).toList.length ≤ fuel → j.depth ≤ levels →
      (∀ c ∈ blanks, isBlank c = true) → Ends rest →
      value decode fuel levels (blanks ++ ((j.appendPretty text chars indent depth).toList ++ rest)) =
        some (j.reread .plain,rest)
  | .null, hs, _, _, _, _, _, _, hf, _, hb, he =>
      value_pretty_scalar (hs _ (List.mem_singleton_self _)) (by simp only [appendPretty]) hf hb he
  | .bool _, hs, _, _, _, _, _, _, hf, _, hb, he =>
      value_pretty_scalar (hs _ (List.mem_singleton_self _)) (by simp only [appendPretty]) hf hb he
  | .int64 _, hs, _, _, _, _, _, _, hf, _, hb, he =>
      value_pretty_scalar (hs _ (List.mem_singleton_self _)) (by simp only [appendPretty]) hf hb he
  | .uint64 _, hs, _, _, _, _, _, _, hf, _, hb, he =>
      value_pretty_scalar (hs _ (List.mem_singleton_self _)) (by simp only [appendPretty]) hf hb he
  | .string _, hs, _, _, _, _, _, _, hf, _, hb, he =>
      value_pretty_scalar (hs _ (List.mem_singleton_self _)) (by simp only [appendPretty]) hf hb he
  | .double q, hs, _, _, _, _, _, _, _, _, _, _ =>
      absurd (hs _ (List.mem_singleton_self _)).whole (by simp [isDouble])
  | .array [], _, _, fuel, levels, depth, blanks, rest, hf, hd, hb, _ => by
      have htext : ((Json.array []).appendPretty text chars indent depth).toList = ['[',']'] := by
        simp [appendPretty]
      rw [htext] at hf ⊢
      obtain ⟨fuel,rfl⟩ : ∃ n, fuel = n + 1 := ⟨fuel - 1,by simp at hf; omega⟩
      obtain ⟨levels,rfl⟩ : ∃ n, levels = n + 1 := ⟨levels - 1,by rw [Json.depth] at hd; omega⟩
      rw [reread_array]
      exact value_empty_array hb rest
  | .array (x :: xs), hs, hk, fuel, levels, depth, blanks, rest, hf, hd, hb, _ => by
      rw [toList_array] at hf
      simp only [List.length_cons,List.length_append] at hf
      obtain ⟨fuel,rfl⟩ : ∃ n, fuel = n + 1 := ⟨fuel - 1,by omega⟩
      rw [Json.depth] at hd
      obtain ⟨levels,rfl⟩ : ∃ n, levels = n + 1 := ⟨levels - 1,by omega⟩
      have hx : ∀ s ∈ scalars x, Spelled text decode s := fun s hmem =>
        hs s (List.mem_append_left _ hmem)
      rw [reread_array]
      exact value_items hb hx (items_pretty chars indent (x :: xs) (List.cons_ne_nil x xs) hs hk fuel
        levels (depth + 1) (depth * indent) rest (by omega) (by omega))
  | .object [], _, _, fuel, levels, depth, blanks, rest, hf, hd, hb, _ => by
      have htext : ((Json.object []).appendPretty text chars indent depth).toList = ['\x7b','\x7d'] := by
        simp [appendPretty]
      rw [htext] at hf ⊢
      obtain ⟨fuel,rfl⟩ : ∃ n, fuel = n + 1 := ⟨fuel - 1,by simp at hf; omega⟩
      obtain ⟨levels,rfl⟩ : ∃ n, levels = n + 1 := ⟨levels - 1,by rw [Json.depth] at hd; omega⟩
      rw [reread_object]
      exact value_empty_object hb rest
  | .object (m :: ms), hs, hk, fuel, levels, depth, blanks, rest, hf, hd, hb, _ => by
      rw [toList_object] at hf
      simp only [List.length_cons,List.length_append] at hf
      obtain ⟨fuel,rfl⟩ : ∃ n, fuel = n + 1 := ⟨fuel - 1,by omega⟩
      rw [Json.depth] at hd
      obtain ⟨levels,rfl⟩ : ∃ n, levels = n + 1 := ⟨levels - 1,by omega⟩
      rw [reread_object]
      exact value_members hb (hs _ List.mem_cons_self) (members_pretty chars indent (m :: ms)
        (List.cons_ne_nil m ms) hs hk.1 hk.2 fuel levels (depth + 1) (depth * indent) [] rest (by simp)
        (by omega) (by omega))

theorem items_pretty (chars : ToChars) (indent : Nat) : ∀ (xs : List Json), xs ≠ [] →
    (∀ s ∈ scalarsAll xs, Spelled text decode s) → KeyedAll xs →
    ∀ (fuel levels depth n : Nat) (rest : List Char),
      (joined (prettyItems text chars indent depth xs)).length + 1 ≤ fuel → depthAll xs ≤ levels →
      items decode fuel levels ('\n' :: (joined (prettyItems text chars indent depth xs) ++
          '\n' :: (spaces n ++ ']' :: rest))) = some (xs.map (reread .plain),rest)
  | [], hne, _, _, _, _, _, _, _, _, _ => absurd rfl hne
  | [x], _, hs, hk, fuel, levels, depth, n, rest, hf, hd => by
      have hlen := congrArg List.length (items_line text chars indent depth x [])
      simp only [List.length_cons,List.length_append,List.length_nil] at hlen
      obtain ⟨fuel,rfl⟩ : ∃ n, fuel = n + 1 := ⟨fuel - 1,by omega⟩
      rw [depthAll] at hd
      have hx := value_pretty chars indent x (fun s hmem => hs s (List.mem_append_left _ hmem)) hk.1
        fuel levels depth ('\n' :: spaces (depth * indent)) ('\n' :: (spaces n ++ ']' :: rest))
        (by omega) (by omega) (blank_line _) (ends_line _)
      rw [items_line]
      exact items_close hx (skip_line n (by decide) rest)
  | x :: y :: ys, _, hs, hk, fuel, levels, depth, n, rest, hf, hd => by
      have hlen := congrArg List.length (items_lines text chars indent depth x y ys [])
      simp only [List.length_cons,List.length_append,List.length_nil] at hlen
      obtain ⟨fuel,rfl⟩ : ∃ n, fuel = n + 1 := ⟨fuel - 1,by omega⟩
      rw [depthAll] at hd
      have hx := value_pretty chars indent x (fun s hmem => hs s (List.mem_append_left _ hmem)) hk.1
        fuel levels depth ('\n' :: spaces (depth * indent))
        (',' :: '\n' :: (joined (prettyItems text chars indent depth (y :: ys)) ++
          '\n' :: (spaces n ++ ']' :: rest)))
        (by omega) (by omega) (blank_line _) (ends_mark (by decide) _)
      have hys := items_pretty chars indent (y :: ys) (List.cons_ne_nil y ys)
        (fun s hmem => hs s (List.mem_append_right _ hmem)) hk.2 fuel levels depth n rest
        (by omega) (by omega)
      rw [items_lines]
      exact items_next hx (skip_cons (by decide) _) hys

theorem members_pretty (chars : ToChars) (indent : Nat) : ∀ (ms : List (String × Json)), ms ≠ [] →
    (∀ s ∈ scalarsMembers ms, Spelled text decode s) → (ms.map Prod.fst).Nodup → KeyedMembers ms →
    ∀ (fuel levels depth n : Nat) (soFar : List (String × Json)) (rest : List Char),
      (∀ k ∈ ms.map Prod.fst, k ∉ soFar.map Prod.fst) →
      (joined (prettyMembers text chars indent depth ms)).length + 1 ≤ fuel → depthMembers ms ≤ levels →
      members decode fuel levels soFar ('\n' :: (joined (prettyMembers text chars indent depth ms) ++
          '\n' :: (spaces n ++ '\x7d' :: rest))) =
        some (soFar ++ ms.map (fun m => (m.1, m.2.reread .plain)),rest)
  | [], hne, _, _, _, _, _, _, _, _, _, _, _, _ => absurd rfl hne
  | [(k,v)], _, hs, hn, hk, fuel, levels, depth, n, soFar, rest, hnew, hf, hd => by
      have hlen := congrArg List.length (members_line text chars indent depth (k,v) [])
      simp only [List.length_cons,List.length_append,List.length_nil] at hlen
      obtain ⟨fuel,rfl⟩ : ∃ n, fuel = n + 1 := ⟨fuel - 1,by omega⟩
      rw [depthMembers] at hd
      have hkey := name_spelled (hs (.string k) List.mem_cons_self) (blank_line (depth * indent))
        ([' '] ++ ((v.appendPretty text chars indent depth).toList ++ '\n' :: (spaces n ++ '\x7d' :: rest)))
      have hv := value_pretty chars indent v
        (fun s hmem => hs s (List.mem_cons_of_mem _ (List.mem_append_left _ hmem))) hk.1
        fuel levels depth [' '] ('\n' :: (spaces n ++ '\x7d' :: rest))
        (by omega) (by omega) blank_gap (ends_line _)
      rw [members_line,members_close hkey hv (skip_line n (by decide) rest),
        assign_fresh _ (hnew k List.mem_cons_self)]
      rfl
  | (k,v) :: o :: os, _, hs, hn, hk, fuel, levels, depth, n, soFar, rest, hnew, hf, hd => by
      have hlen := congrArg List.length (members_lines text chars indent depth (k,v) o os [])
      simp only [List.length_cons,List.length_append,List.length_nil] at hlen
      obtain ⟨fuel,rfl⟩ : ∃ n, fuel = n + 1 := ⟨fuel - 1,by omega⟩
      rw [depthMembers] at hd
      have hkey := name_spelled (hs (.string k) List.mem_cons_self) (blank_line (depth * indent))
        ([' '] ++ ((v.appendPretty text chars indent depth).toList ++
          ',' :: '\n' :: (joined (prettyMembers text chars indent depth (o :: os)) ++
            '\n' :: (spaces n ++ '\x7d' :: rest))))
      have hv := value_pretty chars indent v
        (fun s hmem => hs s (List.mem_cons_of_mem _ (List.mem_append_left _ hmem))) hk.1
        fuel levels depth [' '] (',' :: '\n' :: (joined (prettyMembers text chars indent depth (o :: os)) ++
          '\n' :: (spaces n ++ '\x7d' :: rest)))
        (by omega) (by omega) blank_gap (ends_mark (by decide) _)
      have hcomma : skip (',' :: '\n' :: (joined (prettyMembers text chars indent depth (o :: os)) ++
          '\n' :: (spaces n ++ '\x7d' :: rest))) = _ := skip_cons (by decide) _
      obtain ⟨hfresh,hn⟩ := List.nodup_cons.mp hn
      have hapart : ∀ l ∈ (o :: os).map Prod.fst,
          l ∉ (soFar ++ [(k,v.reread .plain)]).map Prod.fst := by
        intro l hl hmem
        rw [List.map_append,List.mem_append] at hmem
        rcases hmem with hold | hlast
        · exact hnew l (List.mem_cons_of_mem _ hl) hold
        · exact hfresh (List.mem_singleton.mp hlast ▸ hl)
      have hos := members_pretty chars indent (o :: os) (List.cons_ne_nil o os)
        (fun s hmem => hs s (List.mem_cons_of_mem _ (List.mem_append_right _ hmem))) hn hk.2
        fuel levels depth n (soFar ++ [(k,v.reread .plain)]) rest hapart (by omega) (by omega)
      rw [members_lines,members_next hkey hv hcomma,assign_fresh _ (hnew k List.mem_cons_self),hos,
        List.append_assoc]
      rfl

end

end PrettyRead

namespace Json

mutual

-- Equality as boost has it, where a number is the same in either kind of integer, and with the
-- members in their order.
def alike : Json → Json → Bool
  | .int64 i, .uint64 n => decide (i = n)
  | .uint64 n, .int64 i => decide (i = n)
  | .array xs, .array ys => alikeAll xs ys
  | .object ms, .object ns => alikeMembers ms ns
  | a, b => same a b

def alikeAll : List Json → List Json → Bool
  | [], [] => true
  | x :: xs, y :: ys => alike x y && alikeAll xs ys
  | _, _ => false

def alikeMembers : List (String × Json) → List (String × Json) → Bool
  | [], [] => true
  | (k, v) :: ms, (l, w) :: ns => decide (k = l) && alike v w && alikeMembers ms ns
  | _, _ => false

end

mutual

theorem alike_reread : ∀ j : Json, alike (j.reread .plain) j = true
  | .null => by simp [alike,same]
  | .bool _ => by simp [alike,same]
  | .int64 _ => by simp [alike,same]
  | .string _ => by simp [alike,same]
  | .double x => by simp [reread,Doubles.reread_plain,alike,same]
  | .uint64 n => by
      simp only [reread]
      split <;> simp [alike,same]
  | .array xs => by
      rw [reread_array,alike]
      exact alikeAll_reread xs
  | .object ms => by
      rw [reread_object,alike]
      exact alikeMembers_reread ms

theorem alikeAll_reread : ∀ xs : List Json, alikeAll (xs.map (reread .plain)) xs = true
  | [] => by simp [alikeAll]
  | x :: xs => by
      rw [List.map_cons,alikeAll,alike_reread x,alikeAll_reread xs]
      rfl

theorem alikeMembers_reread : ∀ ms : List (String × Json),
    alikeMembers (ms.map (fun m => (m.1, m.2.reread .plain))) ms = true
  | [] => by simp [alikeMembers]
  | (k, v) :: ms => by
      rw [List.map_cons,alikeMembers,alike_reread v,alikeMembers_reread ms]
      simp

end

mutual

theorem reread_whole {d : Doubles} : ∀ j : Json, (∀ s ∈ scalars j, s.isDouble = false) →
    j.reread d = j.reread .plain
  | .null, _ => rfl
  | .bool _, _ => rfl
  | .int64 _, _ => rfl
  | .uint64 _, _ => rfl
  | .string _, _ => rfl
  | .double _, h => absurd (h _ (List.mem_singleton_self _)) (by simp [isDouble])
  | .array xs, h => by
      rw [reread_array,reread_array,rereadAll_whole xs h]
  | .object ms, h => by
      rw [reread_object,reread_object,rereadMembers_whole ms h]

theorem rereadAll_whole {d : Doubles} : ∀ xs : List Json, (∀ s ∈ scalarsAll xs, s.isDouble = false) →
    xs.map (reread d) = xs.map (reread .plain)
  | [], _ => rfl
  | x :: xs, h => by
      rw [List.map_cons,List.map_cons,reread_whole x (fun s hs => h s (List.mem_append_left _ hs)),
        rereadAll_whole xs (fun s hs => h s (List.mem_append_right _ hs))]

theorem rereadMembers_whole {d : Doubles} : ∀ ms : List (String × Json),
    (∀ s ∈ scalarsMembers ms, s.isDouble = false) →
    ms.map (fun m => (m.1, m.2.reread d)) = ms.map (fun m => (m.1, m.2.reread .plain))
  | [], _ => rfl
  | (k, v) :: ms, h => by
      rw [List.map_cons,List.map_cons,
        reread_whole v (fun s hs => h s (List.mem_cons_of_mem _ (List.mem_append_left _ hs))),
        rereadMembers_whole ms (fun s hs => h s (List.mem_cons_of_mem _ (List.mem_append_right _ hs)))]

end

end Json

section

variable {text : JsonText} {decode : List Char → Option Json} {v : Json}

theorem read_pretty (chars : ToChars) (hs : ∀ s ∈ scalars v, Spelled text decode s) (hk : v.Keyed)
    (hd : v.depth ≤ kMaxDepth) (indent : Nat) :
    JsonReader.read decode (v.appendPretty text chars indent 0) = some (v.reread .plain) := by
  have hv := PrettyRead.value_pretty chars indent v hs hk
    ((v.appendPretty text chars indent 0).toList.length + 1) kMaxDepth 0 [] [] (Nat.le_succ _) hd
    (by simp) (by simp [Ends])
  rw [List.nil_append,List.append_nil] at hv
  rw [JsonReader.read,hv]
  rfl

-- The parser need only read what the reader reads.
theorem prettyPrint_faithful (hparse : ∀ s j, JsonReader.read decode s = some j → text.parse s = some j)
    (chars : ToChars) (hs : ∀ s ∈ scalars v, Spelled text decode s) (hk : v.Keyed)
    (hd : v.depth ≤ kMaxDepth) (indent : Nat) :
    text.parse (v.appendPretty text chars indent 0) = some (v.reread .plain) ∧
      alike (v.reread .plain) v = true :=
  ⟨hparse _ _ (read_pretty chars hs hk hd indent),alike_reread v⟩

-- So the session file reads back, as far as it holds no doubles.
theorem readsPretty_of_spelled (hparse : ∀ s j, JsonReader.read decode s = some j → text.parse s = some j)
    (chars : ToChars) (hs : ∀ s ∈ scalars v, Spelled text decode s) (hk : v.Keyed)
    (hd : v.depth ≤ kMaxDepth) : text.ReadsPretty chars v := by
  rw [JsonText.ReadsPretty,prettyPrint,hparse _ _ (read_pretty chars hs hk hd 2),
    reread_whole (d := chars.toDoubles) v (fun s hmem => (hs s hmem).whole)]

end

def quoteText (s : String) : String := "\"" ++ s ++ "\""

def tableText (decode : List Char → Option Json) : JsonText where
  parse := JsonReader.read decode
  serialize
    | .null => "null"
    | .string s => quoteText s
    | _ => "1"
  parseError := id
  kindError := fun _ => ""

def tableDecode (t : List Char) : Option Json :=
  if t = "null".toList then some .null
  else if t = "1".toList then some (.int64 1)
  else if t = (quoteText "a").toList then some (.string "a")
  else if t = (quoteText "b").toList then some (.string "b")
  else none

def nested : Json :=
  .object [("a", .array [.null, .uint64 1, .array []]), ("b", .object [("a", .string "a")])]

theorem spelled_nested : ∀ s ∈ scalars nested, Spelled (tableText tableDecode) tableDecode s := by
  have hnull : Spelled (tableText tableDecode) tableDecode .null :=
    ⟨rfl,.inr ⟨by decide,List.all_eq_true.mp (by decide)⟩,by decide⟩
  have hone : Spelled (tableText tableDecode) tableDecode (.uint64 1) :=
    ⟨rfl,.inr ⟨by decide,List.all_eq_true.mp (by decide)⟩,by decide⟩
  have ha : Spelled (tableText tableDecode) tableDecode (.string "a") :=
    ⟨rfl,.inl ⟨['a','"'],by decide,by decide⟩,by decide⟩
  have hb : Spelled (tableText tableDecode) tableDecode (.string "b") :=
    ⟨rfl,.inl ⟨['b','"'],by decide,by decide⟩,by decide⟩
  intro s hs
  simp only [nested,scalars,scalarsAll,scalarsMembers,List.mem_cons,List.mem_append,List.not_mem_nil,
    or_false] at hs
  rcases hs with rfl | (rfl | rfl) | rfl | rfl | rfl
  · exact ha
  · exact hnull
  · exact hone
  · exact hb
  · exact ha
  · exact ha

theorem prettyPrint_faithful_nested :
    (tableText tableDecode).parse (nested.appendPretty (tableText tableDecode) ⟨.plain,fun _ => ""⟩ 3 0) =
        some (nested.reread .plain) ∧ alike (nested.reread .plain) nested = true :=
  prettyPrint_faithful (fun _ _ h => h) ⟨.plain,fun _ => ""⟩ spelled_nested
    (by simp [nested,Keyed,KeyedAll,KeyedMembers]) (by decide) 3

end PuCli
