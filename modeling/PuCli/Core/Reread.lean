import PuCli.Core.Json

namespace PuCli

structure Doubles where
  whole : Rat → Bool
  integral : ∀ {q}, whole q = true → q.den = 1

def Doubles.plain : Doubles := ⟨fun _ => false, by simp⟩

def Doubles.reread (d : Doubles) : Double → Json
  | .finite q => if d.whole q then .int64 q.num else .double (.finite q)
  | x => .double x

theorem Doubles.reread_plain (x : Double) : Doubles.plain.reread x = .double x := by
  cases x <;> rfl

theorem Doubles.reread_cases (d : Doubles) (x : Double) :
    (∃ q : Rat, q.den = 1 ∧ x = .finite q ∧ d.reread x = .int64 q.num) ∨
      d.reread x = .double x := by
  cases x with
  | finite q =>
      rw [Doubles.reread]
      split
      · next hw => exact .inl ⟨q,d.integral hw,rfl,rfl⟩
      · exact .inr rfl
  | _ => exact .inr rfl

namespace Json

mutual

def reread (d : Doubles) : Json → Json
  | .uint64 n => if n < 2 ^ 63 then .int64 n else .uint64 n
  | .double x => d.reread x
  | .array xs => .array (rereadAll d xs)
  | .object ms => .object (rereadMembers d ms)
  | .null => .null
  | .bool b => .bool b
  | .int64 i => .int64 i
  | .string s => .string s

def rereadAll (d : Doubles) : List Json → List Json
  | [] => []
  | x :: xs => reread d x :: rereadAll d xs

def rereadMembers (d : Doubles) : List (String × Json) → List (String × Json)
  | [] => []
  | (k, v) :: ms => (k, reread d v) :: rereadMembers d ms

end

variable {d : Doubles}

@[simp] theorem rereadAll_eq_map (xs : List Json) : rereadAll d xs = xs.map (reread d) := by
  induction xs with
  | nil => rfl
  | cons x xs ih => simp [rereadAll,ih]

@[simp] theorem rereadMembers_eq_map (ms : List (String × Json)) :
    rereadMembers d ms = ms.map (fun m => (m.1, m.2.reread d)) := by
  induction ms with
  | nil => rfl
  | cons m ms ih => simp [rereadMembers,ih]

@[simp] theorem reread_null : Json.null.reread d = .null := rfl

@[simp] theorem reread_bool (b : Bool) : (Json.bool b).reread d = .bool b := rfl

@[simp] theorem reread_string (s : String) : (Json.string s).reread d = .string s := rfl

@[simp] theorem reread_int64 (i : Int) : (Json.int64 i).reread d = .int64 i := rfl

@[simp] theorem reread_array (xs : List Json) :
    (Json.array xs).reread d = .array (xs.map (reread d)) := by
  simp [reread]

@[simp] theorem reread_object (ms : List (String × Json)) :
    (Json.object ms).reread d = .object (ms.map (fun m => (m.1, m.2.reread d))) := by
  simp [reread]

theorem find_reread (ms : List (String × Json)) (key : String) :
    find (ms.map (fun m => (m.1, m.2.reread d))) key = (find ms key).map (reread d) := by
  induction ms with
  | nil => rfl
  | cons m ms ih => by_cases h : m.1 = key <;> simp [h,ih]

inductive Number : Json → Prop
  | int64 (i : Int) : Number (.int64 i)
  | uint64 (n : Nat) : Number (.uint64 n)
  | double (x : Double) : Number (.double x)

theorem Number.reread {j : Json} (h : Number j) : Number (j.reread d) := by
  cases h with
  | int64 i => exact .int64 i
  | uint64 n =>
      simp only [Json.reread]
      split
      · exact .int64 _
      · exact .uint64 n
  | double x =>
      rw [Json.reread]
      obtain ⟨q,-,-,hq⟩ | hx := d.reread_cases x
      · rw [hq]
        exact .int64 _
      · rw [hx]
        exact .double x

@[simp] theorem get?_reread (j : Json) (key : String) :
    (j.reread d).get? key = (j.get? key).map (reread d) := by
  have hnone : ∀ {k : Json}, Number k → k.get? key = none := by
    intro k hk
    cases hk <;> rfl
  cases j with
  | object ms => simp [find_reread]
  | array xs => simp [get?]
  | int64 i => rfl
  | uint64 n => rw [hnone (Number.reread (.uint64 n)),hnone (.uint64 n),Option.map_none]
  | double q => rw [hnone (Number.reread (.double q)),hnone (.double q),Option.map_none]
  | _ => rfl

@[simp] theorem isObject_reread (j : Json) : (j.reread d).isObject = j.isObject := by
  have hnot : ∀ {k : Json}, Number k → k.isObject = false := by
    intro k hk
    cases hk <;> rfl
  cases j with
  | object ms => simp [isObject]
  | array xs => simp [isObject]
  | uint64 n => rw [hnot (Number.reread (.uint64 n)),hnot (.uint64 n)]
  | double q => rw [hnot (Number.reread (.double q)),hnot (.double q)]
  | _ => rfl

@[simp] theorem hasKey_reread (j : Json) (key : String) :
    (j.reread d).hasKey key = j.hasKey key := by
  simp [hasKey]

@[simp] theorem toNumber_reread (j : Json) : (j.reread d).toNumber = j.toNumber := by
  cases j with
  | uint64 n =>
      simp only [reread]
      split
      · exact congrArg (some ∘ Double.finite) (Rat.intCast_natCast n)
      · rfl
  | double x =>
      rw [reread]
      obtain ⟨q,hden,rfl,hq⟩ | hx := d.reread_cases x
      · rw [hq]
        exact congrArg (some ∘ Double.finite) (Rat.coe_int_num_of_den_eq_one hden)
      · rw [hx]
  | object ms => simp [toNumber]
  | array xs => simp [toNumber]
  | _ => rfl

@[simp] theorem asArray_reread (j : Json) : (j.reread d).asArray = j.asArray.map (reread d) := by
  have hnil : ∀ {k : Json}, Number k → k.asArray = [] := by
    intro k hk
    cases hk <;> rfl
  cases j with
  | object ms => simp [asArray]
  | array xs => simp [asArray]
  | uint64 n => rw [hnil (Number.reread (.uint64 n)),hnil (.uint64 n),List.map_nil]
  | double q => rw [hnil (Number.reread (.double q)),hnil (.double q),List.map_nil]
  | _ => rfl

class Steady (α : Type) [FromJson α] : Prop where
  valueTo_reread : ∀ (d : Doubles) (j : Json),
    (FromJson.valueTo (j.reread d) : Option α) = FromJson.valueTo j

theorem valueTo_string_number {j : Json} (h : Number j) :
    (FromJson.valueTo j : Option String) = none := by
  cases h <;> rfl

instance : Steady String := ⟨by
  intro d j
  cases j with
  | object ms => simp [FromJson.valueTo]
  | array xs => simp [FromJson.valueTo]
  | uint64 n =>
      rw [valueTo_string_number (Number.reread (.uint64 n)),valueTo_string_number (.uint64 n)]
  | double q =>
      rw [valueTo_string_number (Number.reread (.double q)),valueTo_string_number (.double q)]
  | _ => rfl⟩

instance : Steady Int32 := ⟨by
  intro d j
  simp [FromJson.valueTo,toInt]⟩

instance : Steady Double := ⟨fun _ => toNumber_reread⟩

@[simp] theorem valueOrDefault_reread {α : Type} [FromJson α] [Steady α] (j : Json) (key : String)
    (dflt : α) : valueOrDefault (j.reread d) key dflt = valueOrDefault j key dflt := by
  unfold valueOrDefault
  rw [get?_reread]
  cases j.get? key with
  | none => rfl
  | some v => simp [Steady.valueTo_reread]

theorem valueOrDefault_json_reread (j : Json) (key : String) (dflt : Json) :
    valueOrDefault (j.reread d) key (dflt.reread d) = (valueOrDefault j key dflt).reread d := by
  unfold valueOrDefault
  rw [get?_reread]
  cases j.get? key <;> simp

mutual

theorem reread_reread : ∀ j : Json, (j.reread d).reread d = j.reread d
  | .null => rfl
  | .bool _ => rfl
  | .int64 _ => rfl
  | .string _ => rfl
  | .uint64 n => by
      simp only [reread]
      split
      · rfl
      · next h => simp only [reread,if_neg h]
  | .double x => by
      rw [reread]
      obtain ⟨q,-,-,hq⟩ | hx := d.reread_cases x
      · rw [hq,reread_int64]
      · rw [hx,reread,hx]
  | .array xs => by
      have h := rereadAll_rereadAll xs
      simp only [rereadAll_eq_map] at h
      simpa only [reread_array] using congrArg Json.array h
  | .object ms => by
      have h := rereadMembers_rereadMembers ms
      simp only [rereadMembers_eq_map] at h
      simpa only [reread_object] using congrArg Json.object h

theorem rereadAll_rereadAll : ∀ xs : List Json,
    rereadAll d (rereadAll d xs) = rereadAll d xs
  | [] => rfl
  | x :: xs => by simp only [rereadAll,reread_reread x,rereadAll_rereadAll xs]

theorem rereadMembers_rereadMembers :
    ∀ ms : List (String × Json), rereadMembers d (rereadMembers d ms) = rereadMembers d ms
  | [] => rfl
  | (k, v) :: ms => by
      simp only [rereadMembers,reread_reread v,rereadMembers_rereadMembers ms]

end

mutual

-- What one reading leaves, a reading that keeps every double leaves as it is.
theorem reread_plain : ∀ j : Json, (j.reread d).reread .plain = j.reread d
  | .null => rfl
  | .bool _ => rfl
  | .int64 _ => rfl
  | .string _ => rfl
  | .uint64 n => by
      simp only [reread]
      split
      · rfl
      · next h => simp only [reread,if_neg h]
  | .double x => by
      rw [reread]
      obtain ⟨q,-,-,hq⟩ | hx := d.reread_cases x
      · rw [hq,reread_int64]
      · rw [hx,reread,Doubles.reread_plain]
  | .array xs => by
      have h := rereadAll_plain xs
      simp only [rereadAll_eq_map] at h
      simpa only [reread_array] using congrArg Json.array h
  | .object ms => by
      have h := rereadMembers_plain ms
      simp only [rereadMembers_eq_map] at h
      simpa only [reread_object] using congrArg Json.object h

theorem rereadAll_plain : ∀ xs : List Json, rereadAll .plain (rereadAll d xs) = rereadAll d xs
  | [] => rfl
  | x :: xs => by simp only [rereadAll,reread_plain x,rereadAll_plain xs]

theorem rereadMembers_plain :
    ∀ ms : List (String × Json), rereadMembers .plain (rereadMembers d ms) = rereadMembers d ms
  | [] => rfl
  | (k, v) :: ms => by simp only [rereadMembers,reread_plain v,rereadMembers_plain ms]

end

end Json

structure JsonText.Reads (text : JsonText) (j : Json) : Prop where
  reread : text.parse (text.serialize j) = some (j.reread .plain)
  brace : j.isObject = true → (text.serialize j).toList.head? = some '\x7b'

structure ToChars extends Doubles where
  spell : Rat → String

-- std::to_chars gives what is not a finite number a name, which no JSON reader takes.
def ToChars.toChars (chars : ToChars) : Double → String
  | .finite q => chars.spell q
  | .infinite negative => if negative then "-inf" else "inf"
  | .nan => "nan"

namespace Json

def padding (indent depth : Nat) : String := String.ofList (List.replicate (depth * indent) ' ')

mutual

def appendPretty (text : JsonText) (chars : ToChars) (indent depth : Nat) : Json → String
  | .object [] => "\x7b\x7d"
  | .object ms =>
      "\x7b\n" ++ String.intercalate ",\n" (prettyMembers text chars indent (depth + 1) ms) ++
        "\n" ++ padding indent depth ++ "\x7d"
  | .array [] => "[]"
  | .array xs =>
      "[\n" ++ String.intercalate ",\n" (prettyItems text chars indent (depth + 1) xs) ++
        "\n" ++ padding indent depth ++ "]"
  | .double x => chars.toChars x
  | j => text.serialize j

def prettyItems (text : JsonText) (chars : ToChars) (indent depth : Nat) : List Json → List String
  | [] => []
  | x :: xs =>
      (padding indent depth ++ appendPretty text chars indent depth x) ::
        prettyItems text chars indent depth xs

def prettyMembers (text : JsonText) (chars : ToChars) (indent depth : Nat) :
    List (String × Json) → List String
  | [] => []
  | (k, v) :: ms =>
      (padding indent depth ++ text.serialize (.string k) ++ ": " ++
        appendPretty text chars indent depth v) :: prettyMembers text chars indent depth ms

end

def prettyPrint (text : JsonText) (chars : ToChars) (j : Json) : String :=
  appendPretty text chars 2 0 j

mutual

theorem appendPretty_congr {text text' : JsonText} (h : text.serialize = text'.serialize)
    (chars : ToChars) (indent depth : Nat) :
    ∀ j : Json, appendPretty text chars indent depth j = appendPretty text' chars indent depth j
  | .null => by simp only [appendPretty,h]
  | .bool _ => by simp only [appendPretty,h]
  | .int64 _ => by simp only [appendPretty,h]
  | .uint64 _ => by simp only [appendPretty,h]
  | .double _ => by simp only [appendPretty]
  | .string _ => by simp only [appendPretty,h]
  | .array [] => by simp only [appendPretty]
  | .array (x :: xs) => by
      simp only [appendPretty,prettyItems_congr h chars indent (depth + 1) (x :: xs)]
  | .object [] => by simp only [appendPretty]
  | .object (m :: ms) => by
      simp only [appendPretty,prettyMembers_congr h chars indent (depth + 1) (m :: ms)]

theorem prettyItems_congr {text text' : JsonText} (h : text.serialize = text'.serialize)
    (chars : ToChars) (indent depth : Nat) :
    ∀ xs : List Json, prettyItems text chars indent depth xs = prettyItems text' chars indent depth xs
  | [] => rfl
  | x :: xs => by
      simp only [prettyItems,appendPretty_congr h chars indent depth x,
        prettyItems_congr h chars indent depth xs]

theorem prettyMembers_congr {text text' : JsonText} (h : text.serialize = text'.serialize)
    (chars : ToChars) (indent depth : Nat) :
    ∀ ms : List (String × Json),
      prettyMembers text chars indent depth ms = prettyMembers text' chars indent depth ms
  | [] => rfl
  | (k, v) :: ms => by
      simp only [prettyMembers,h,appendPretty_congr h chars indent depth v,
        prettyMembers_congr h chars indent depth ms]

end

theorem prettyPrint_congr {text text' : JsonText} (h : text.serialize = text'.serialize)
    (chars : ToChars) (j : Json) : j.prettyPrint text chars = j.prettyPrint text' chars :=
  appendPretty_congr h chars 2 0 j

theorem toList_prettyPrint_object (text : JsonText) (chars : ToChars) (m : String × Json)
    (ms : List (String × Json)) :
    ∃ rest, ((Json.object (m :: ms)).prettyPrint text chars).toList = '\x7b' :: '\n' :: rest := by
  simp only [prettyPrint,appendPretty,String.toList_append]
  exact ⟨_,rfl⟩

end Json

def JsonText.ReadsPretty (text : JsonText) (chars : ToChars) (j : Json) : Prop :=
  text.parse (j.prettyPrint text chars) = some (j.reread chars.toDoubles)

namespace Json

def escaped (s : String) : List Char :=
  s.toList.flatMap (fun c =>
    if c = '"' ∨ c = '\\' then ['\\',c] else if c = '\n' then ['\\','n'] else [c])

def quoted (s : String) : String := "\"" ++ String.ofList (escaped s) ++ "\""

mutual

-- What `boost::json::serialize` makes of a value; of the finite doubles, of the whole ones.
def compact : Json → String
  | .null => "null"
  | .bool b => if b then "true" else "false"
  | .int64 i => toString i
  | .uint64 n => toString n
  | .double (.finite q) => toString q.num ++ "E0"
  | .double (.infinite negative) => if negative then "-1e99999" else "1e99999"
  | .double .nan => "null"
  | .string s => quoted s
  | .array xs => "[" ++ compactItems xs ++ "]"
  | .object ms => "\x7b" ++ compactMembers ms ++ "\x7d"

def compactItems : List Json → String
  | [] => ""
  | [x] => compact x
  | x :: xs => compact x ++ "," ++ compactItems xs

def compactMembers : List (String × Json) → String
  | [] => ""
  | [(k, v)] => quoted k ++ ":" ++ compact v
  | (k, v) :: ms => quoted k ++ ":" ++ compact v ++ "," ++ compactMembers ms

end

theorem toList_compact_object (k : String) (v : Json) (ms : List (String × Json)) :
    ∃ rest, (compact (.object ((k, v) :: ms))).toList = '\x7b' :: '"' :: rest := by
  cases ms with
  | nil =>
      simp only [compact,compactMembers,quoted,String.toList_append]
      exact ⟨_,rfl⟩
  | cons m ms =>
      simp only [compact,compactMembers,quoted,String.toList_append]
      exact ⟨_,rfl⟩

def printing : JsonText := ⟨fun _ => none, compact, fun _ => "", fun _ => ""⟩

-- A library that reads back one file and some objects.
def reading (chars : ToChars) (file : Json) (objects : List (List (String × Json))) : JsonText where
  parse s :=
    match s.toList with
    | '\x7b' :: '\n' :: _ =>
        if s = file.prettyPrint printing chars then some (file.reread chars.toDoubles) else none
    | _ =>
        (objects.find? (fun members => s = compact (.object members))).map
          (fun members => (Json.object members).reread .plain)
  serialize := compact
  parseError _ := "syntax error"
  kindError _ := "value is not an object"

variable {chars : ToChars} {file : Json} {objects : List (List (String × Json))}

theorem readsPretty_reading (m : String × Json) (ms : List (String × Json)) :
    (reading chars (.object (m :: ms)) objects).ReadsPretty chars (.object (m :: ms)) := by
  obtain ⟨rest,hrest⟩ := toList_prettyPrint_object printing chars m ms
  have hprint := @prettyPrint_congr (reading chars (.object (m :: ms)) objects) printing rfl chars
    (.object (m :: ms))
  rw [JsonText.ReadsPretty,hprint]
  simp only [reading,hrest,if_true]

theorem reads_reading {members : List (String × Json)} (hne : members ≠ [])
    (h : objects.find? (fun other => compact (.object members) = compact (.object other)) =
      some members) : (reading chars file objects).Reads (.object members) := by
  obtain ⟨⟨k,v⟩,ms,rfl⟩ := List.exists_cons_of_ne_nil hne
  obtain ⟨rest,hrest⟩ := toList_compact_object k v ms
  refine ⟨?_,fun _ => congrArg List.head? hrest⟩
  change (reading chars file objects).parse (compact (.object ((k, v) :: ms))) = _
  simp only [reading,hrest]
  rw [h]
  rfl

end Json

end PuCli
