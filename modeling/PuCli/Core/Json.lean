import Mathlib.Data.String.Basic
import Mathlib.Data.List.Basic
import Mathlib.Tactic.Common
import PuCli.Library.Double

namespace PuCli

theorem bind_eq_ok {ε α β : Type} {x : Except ε α} {f : α → Except ε β} {b : β}
    (h : x >>= f = .ok b) : ∃ a, x = .ok a ∧ f a = .ok b := by
  cases x with
  | error e => simp [bind,Except.bind] at h
  | ok a => exact ⟨a,rfl,h⟩

inductive Json where
  | null
  | bool (b : Bool)
  | int64 (i : Int)
  | uint64 (n : Nat)
  | double (x : Double)
  | string (s : String)
  | array (xs : List Json)
  | object (members : List (String × Json))
  deriving Inhabited

namespace Json

mutual

def same : Json → Json → Bool
  | .null, .null => true
  | .bool a, .bool b => a == b
  | .int64 a, .int64 b => decide (a = b)
  | .uint64 a, .uint64 b => decide (a = b)
  | .double a, .double b => decide (a = b)
  | .string a, .string b => decide (a = b)
  | .array xs, .array ys => sameAll xs ys
  | .object ms, .object ns => sameMembers ms ns
  | _, _ => false

def sameAll : List Json → List Json → Bool
  | [], [] => true
  | x :: xs, y :: ys => same x y && sameAll xs ys
  | _, _ => false

def sameMembers : List (String × Json) → List (String × Json) → Bool
  | [], [] => true
  | (k, v) :: ms, (l, w) :: ns => decide (k = l) && same v w && sameMembers ms ns
  | _, _ => false

end

mutual

theorem same_iff : ∀ a b : Json, same a b = true ↔ a = b
  | .null, b => by cases b <;> simp [same]
  | .bool _, b => by cases b <;> simp [same]
  | .int64 _, b => by cases b <;> simp [same]
  | .uint64 _, b => by cases b <;> simp [same]
  | .double _, b => by cases b <;> simp [same]
  | .string _, b => by cases b <;> simp [same]
  | .array xs, b => by
      cases b with
      | array ys => simpa [same] using sameAll_iff xs ys
      | _ => simp [same]
  | .object ms, b => by
      cases b with
      | object ns => simpa [same] using sameMembers_iff ms ns
      | _ => simp [same]

theorem sameAll_iff : ∀ xs ys : List Json, sameAll xs ys = true ↔ xs = ys
  | [], ys => by cases ys <;> simp [sameAll]
  | x :: xs, ys => by
      cases ys with
      | nil => simp [sameAll]
      | cons y ys => simp [sameAll,same_iff x y,sameAll_iff xs ys]

theorem sameMembers_iff : ∀ ms ns : List (String × Json), sameMembers ms ns = true ↔ ms = ns
  | [], ns => by cases ns <;> simp [sameMembers]
  | (k, v) :: ms, ns => by
      cases ns with
      | nil => simp [sameMembers]
      | cons n ns =>
          obtain ⟨l,w⟩ := n
          simp [sameMembers,same_iff v w,sameMembers_iff ms ns]

end

instance : DecidableEq Json := fun a b => decidable_of_iff (same a b = true) (same_iff a b)

def isNull : Json → Bool
  | .null => true
  | _ => false

def isString : Json → Bool
  | .string _ => true
  | _ => false

def isObject : Json → Bool
  | .object _ => true
  | _ => false

def isArray : Json → Bool
  | .array _ => true
  | _ => false

def isDouble : Json → Bool
  | .double _ => true
  | _ => false

@[simp] theorem isNull_iff {j : Json} : j.isNull = true ↔ j = .null := by
  cases j <;> simp [isNull]

@[simp] theorem isNull_eq_false {j : Json} : j.isNull = false ↔ j ≠ .null := by
  cases j <;> simp [isNull]

def find (members : List (String × Json)) (key : String) : Option Json :=
  (members.find? (fun m => m.1 = key)).map Prod.snd

def get? (j : Json) (key : String) : Option Json :=
  match j with
  | .object members => find members key
  | _ => none

def hasKey (j : Json) (key : String) : Bool := (j.get? key).isSome

def asArray : Json → List Json
  | .array xs => xs
  | _ => []

def asObject : Json → List (String × Json)
  | .object ms => ms
  | _ => []

def assign (members : List (String × Json)) (key : String) (v : Json) : List (String × Json) :=
  if (find members key).isSome then members.map (fun m => if m.1 = key then (key, v) else m)
  else members ++ [(key, v)]

-- boost's erase puts the last member where the erased one stood.
def erase (key : String) : List (String × Json) → List (String × Json)
  | [] => []
  | m :: ms =>
      if m.1 = key then
        match ms.getLast? with
        | none => []
        | some last => last :: ms.dropLast
      else m :: erase key ms

theorem mem_of_mem_erase {key : String} {m : String × Json} :
    ∀ {ms : List (String × Json)}, m ∈ erase key ms → m ∈ ms
  | [], h => by cases h
  | first :: ms, h => by
      rw [erase] at h
      split at h
      · split at h
        · cases h
        · next last hlast =>
            rcases List.mem_cons.mp h with rfl | h
            · exact List.mem_cons_of_mem _ (List.mem_of_getLast? hlast)
            · exact List.mem_cons_of_mem _ (List.dropLast_subset _ h)
      · rcases List.mem_cons.mp h with rfl | h
        · exact List.mem_cons_self
        · exact List.mem_cons_of_mem _ (mem_of_mem_erase h)

@[simp] theorem find_nil (key : String) : find [] key = none := rfl

@[simp] theorem find_cons (m : String × Json) (ms : List (String × Json)) (key : String) :
    find (m :: ms) key = if m.1 = key then some m.2 else find ms key := by
  by_cases h : m.1 = key <;> simp [find,h]

@[simp] theorem find_append (ms ns : List (String × Json)) (key : String) :
    find (ms ++ ns) key = (find ms key).or (find ns key) := by
  induction ms with
  | nil => simp
  | cons m ms ih => by_cases h : m.1 = key <;> simp [h,ih]

@[simp] theorem get?_object (ms : List (String × Json)) (key : String) :
    (Json.object ms).get? key = find ms key := rfl

theorem find_eq_none_iff {ms : List (String × Json)} {key : String} :
    find ms key = none ↔ key ∉ ms.map Prod.fst := by
  induction ms with
  | nil => simp
  | cons m ms ih =>
      by_cases h : m.1 = key
      · simp [h]
      · simp [h,ih,Ne.symm h]

theorem assign_fresh {ms : List (String × Json)} {key : String} (v : Json)
    (h : key ∉ ms.map Prod.fst) : assign ms key v = ms ++ [(key, v)] := by
  simp [assign,find_eq_none_iff.mpr h]

theorem find_assign_self (ms : List (String × Json)) (key : String) (v : Json) :
    find (assign ms key v) key = some v := by
  unfold assign
  split
  case isTrue h =>
    induction ms with
    | nil => simp at h
    | cons m ms ih =>
        by_cases hm : m.1 = key
        · simp [hm]
        · simp only [find_cons,hm,if_false] at h
          simp [hm,ih h]
  case isFalse h => simp [Option.not_isSome_iff_eq_none.mp h]

class FromJson (α : Type) where
  valueTo : Json → Option α

def toNumber : Json → Option Double
  | .int64 i => some (.finite i)
  | .uint64 n => some (.finite n)
  | .double x => some x
  | _ => none

def toInt (j : Json) : Option Int :=
  match j.toNumber with
  | some (.finite q) =>
      if q.den = 1 ∧ -2147483648 ≤ q.num ∧ q.num ≤ 2147483647 then some q.num else none
  | _ => none

instance : FromJson String := ⟨fun | .string s => some s | _ => none⟩
instance : FromJson Bool := ⟨fun | .bool b => some b | _ => none⟩
instance : FromJson Json := ⟨some⟩
instance : FromJson Int32 := ⟨fun j => j.toInt.map Int32.ofInt⟩
instance : FromJson Double := ⟨toNumber⟩
-- std::size_t: a number that is a whole one in range.
instance : FromJson Nat :=
  ⟨fun j =>
    match toNumber j with
    | some (.finite q) =>
        if q.den = 1 ∧ 0 ≤ q.num ∧ q.num < 18446744073709551616 then some q.num.toNat else none
    | _ => none⟩

def valueOrDefault {α : Type} [FromJson α] (j : Json) (key : String) (dflt : α) : α :=
  ((j.get? key).bind FromJson.valueTo).getD dflt

def optionalOrDefault {α : Type} [FromJson α] (j : Json) (key : String) : Option α :=
  (j.get? key).bind FromJson.valueTo

@[simp] theorem valueTo_string (s : String) :
    FromJson.valueTo (Json.string s) = some s := rfl

@[simp] theorem valueTo_json (j : Json) : (FromJson.valueTo j : Option Json) = some j := rfl

@[simp] theorem valueTo_double (x : Double) :
    (FromJson.valueTo (Json.double x) : Option Double) = some x := rfl

@[simp] theorem valueTo_int32 (i : Int32) :
    (FromJson.valueTo (Json.int64 i.toInt) : Option Int32) = some i := by
  have hlow := i.le_toInt
  have hhigh := i.toInt_lt
  have hrange : -2147483648 ≤ i.toInt ∧ i.toInt ≤ 2147483647 := by omega
  simp [FromJson.valueTo,toInt,toNumber,hrange]

end Json

structure JsonText where
  parse : String → Option Json
  serialize : Json → String
  parseError : String → String
  kindError : Json → String

end PuCli
