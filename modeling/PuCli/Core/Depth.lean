import PuCli.Core.Reread

namespace PuCli

def kMaxDepth : Nat := 32

namespace Json

mutual

def depth : Json → Nat
  | .array xs => depthAll xs + 1
  | .object ms => depthMembers ms + 1
  | .null => 0
  | .bool _ => 0
  | .int64 _ => 0
  | .uint64 _ => 0
  | .double _ => 0
  | .string _ => 0

def depthAll : List Json → Nat
  | [] => 0
  | x :: xs => max (depth x) (depthAll xs)

def depthMembers : List (String × Json) → Nat
  | [] => 0
  | (_, v) :: ms => max (depth v) (depthMembers ms)

end

variable {n : Nat}

@[simp] theorem depth_null : Json.null.depth = 0 := rfl

@[simp] theorem depth_string (s : String) : (Json.string s).depth = 0 := rfl

@[simp] theorem depth_int64 (i : Int) : (Json.int64 i).depth = 0 := rfl

@[simp] theorem depth_uint64 (n : Nat) : (Json.uint64 n).depth = 0 := rfl

@[simp] theorem depth_double (x : Double) : (Json.double x).depth = 0 := rfl

theorem depthAll_le_iff (xs : List Json) : depthAll xs ≤ n ↔ ∀ x ∈ xs, x.depth ≤ n := by
  induction xs with
  | nil => simp [depthAll]
  | cons x xs ih => simp [depthAll,ih]

theorem depthMembers_le_iff (ms : List (String × Json)) :
    depthMembers ms ≤ n ↔ ∀ m ∈ ms, m.2.depth ≤ n := by
  induction ms with
  | nil => simp [depthMembers]
  | cons m ms ih =>
      rw [List.forall_mem_cons,← ih]
      exact Nat.max_le

@[simp] theorem depth_array_le (xs : List Json) :
    (Json.array xs).depth ≤ n + 1 ↔ ∀ x ∈ xs, x.depth ≤ n := by
  rw [depth,Nat.add_le_add_iff_right]
  exact depthAll_le_iff xs

@[simp] theorem depth_object_le (ms : List (String × Json)) :
    (Json.object ms).depth ≤ n + 1 ↔ ∀ m ∈ ms, m.2.depth ≤ n := by
  rw [depth,Nat.add_le_add_iff_right]
  exact depthMembers_le_iff ms

mutual

def finite : Json → Bool
  | .array xs => finiteAll xs
  | .object ms => finiteMembers ms
  | .double x => x.isFinite
  | .null => true
  | .bool _ => true
  | .int64 _ => true
  | .uint64 _ => true
  | .string _ => true

def finiteAll : List Json → Bool
  | [] => true
  | x :: xs => finite x && finiteAll xs

def finiteMembers : List (String × Json) → Bool
  | [] => true
  | (_, v) :: ms => finite v && finiteMembers ms

end

theorem finiteAll_iff (xs : List Json) : finiteAll xs = true ↔ ∀ x ∈ xs, x.finite = true := by
  induction xs with
  | nil => simp [finiteAll]
  | cons x xs ih => simp [finiteAll,ih]

theorem finiteMembers_iff (ms : List (String × Json)) :
    finiteMembers ms = true ↔ ∀ m ∈ ms, m.2.finite = true := by
  induction ms with
  | nil => simp [finiteMembers]
  | cons m ms ih => simp [finiteMembers,ih]

-- What a file is read back from: a value within the levels, its doubles all finite.
def Readable (n : Nat) (j : Json) : Prop := j.depth ≤ n ∧ j.finite = true

instance (n : Nat) (j : Json) : Decidable (j.Readable n) := inferInstanceAs (Decidable (_ ∧ _))

theorem Readable.mono {m : Nat} {j : Json} (h : j.Readable n) (hle : n ≤ m) : j.Readable m :=
  ⟨Nat.le_trans h.1 hle,h.2⟩

@[simp] theorem readable_null : Json.null.Readable n := ⟨Nat.zero_le n,rfl⟩

@[simp] theorem readable_string (s : String) : (Json.string s).Readable n := ⟨Nat.zero_le n,rfl⟩

@[simp] theorem readable_int64 (i : Int) : (Json.int64 i).Readable n := ⟨Nat.zero_le n,rfl⟩

@[simp] theorem readable_uint64 (m : Nat) : (Json.uint64 m).Readable n := ⟨Nat.zero_le n,rfl⟩

@[simp] theorem readable_double (x : Double) : (Json.double x).Readable n ↔ x.isFinite = true := by
  simp [Readable,finite]

@[simp] theorem readable_array (xs : List Json) :
    (Json.array xs).Readable (n + 1) ↔ ∀ x ∈ xs, x.Readable n := by
  rw [Readable,depth_array_le,finite,finiteAll_iff]
  exact ⟨fun h x hx => ⟨h.1 x hx,h.2 x hx⟩,fun h => ⟨fun x hx => (h x hx).1,fun x hx => (h x hx).2⟩⟩

@[simp] theorem readable_object (ms : List (String × Json)) :
    (Json.object ms).Readable (n + 1) ↔ ∀ m ∈ ms, m.2.Readable n := by
  rw [Readable,depth_object_le,finite,finiteMembers_iff]
  exact ⟨fun h m hm => ⟨h.1 m hm,h.2 m hm⟩,fun h => ⟨fun m hm => (h m hm).1,fun m hm => (h m hm).2⟩⟩

end Json

-- The serializer writes an infinity as a number too large for a double, which reads as one.
structure JsonText.Limits (text : JsonText) (j : Json) : Prop where
  reads : j.depth ≤ kMaxDepth → (text.parse (text.serialize j)).isSome = true
  refuses : kMaxDepth < j.depth → text.parse (text.serialize j) = none

structure JsonText.LimitsPretty (text : JsonText) (chars : ToChars) (j : Json) : Prop where
  reads : j.Readable kMaxDepth → text.ReadsPretty chars j
  refuses : ¬ j.Readable kMaxDepth → text.parse (j.prettyPrint text chars) = none

end PuCli
