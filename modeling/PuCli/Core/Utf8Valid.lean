import PuCli.Core.Utf8

namespace PuCli

namespace Utf8

def isValidFrom : Nat → List UInt8 → Bool
  | 0, _ => true
  | fuel + 1, text =>
      if text.isEmpty then true
      else match validSequenceLength text with
        | none => false
        | some length => isValidFrom fuel (text.drop length)

def isValidUtf8 (text : List UInt8) : Bool := isValidFrom text.length text

def kUtf8ReplacementCharacter : List UInt8 := [0xEF,0xBF,0xBD]

def repairFrom : Nat → List UInt8 → List UInt8
  | 0, _ => []
  | fuel + 1, text =>
      if text.isEmpty then []
      else match validSequenceLength text with
        | none => kUtf8ReplacementCharacter ++ repairFrom fuel text.tail
        | some length => text.take length ++ repairFrom fuel (text.drop length)

-- `SanitizeUtf8` as bytes; `sanitizeUtf8` gives the same text decoded.
def repair (text : List UInt8) : List UInt8 := repairFrom text.length text

def encode (cs : List Char) : List UInt8 := cs.flatMap String.utf8EncodeChar

@[simp] theorem encode_nil : encode [] = [] := rfl

@[simp] theorem encode_cons (c : Char) (cs : List Char) :
    encode (c :: cs) = String.utf8EncodeChar c ++ encode cs := rfl

theorem encode_append (xs ys : List Char) : encode (xs ++ ys) = encode xs ++ encode ys :=
  List.flatMap_append

theorem all_bytes {P : UInt8 → Prop} (h : ∀ n < 256, P (UInt8.ofNat n)) (byte : UInt8) :
    P byte := by
  have hb := h byte.toNat byte.toNat_lt
  rwa [UInt8.ofNat_toNat] at hb

theorem lead_one_back : ∀ byte, sequenceLength byte = 1 →
    byte = UInt8.ofNat (byte &&& leadPayloadMask 1).toNat ∧
      (byte &&& leadPayloadMask 1).toNat < 128 :=
  all_bytes (by decide +kernel)

theorem lead_two_back : ∀ byte, sequenceLength byte = 2 →
    byte = UInt8.ofNat ((byte &&& leadPayloadMask 2).toNat + 0xc0) ∧
      (byte &&& leadPayloadMask 2).toNat < 32 :=
  all_bytes (by decide +kernel)

theorem lead_three_back : ∀ byte, sequenceLength byte = 3 →
    byte = UInt8.ofNat ((byte &&& leadPayloadMask 3).toNat + 0xe0) ∧
      (byte &&& leadPayloadMask 3).toNat < 16 :=
  all_bytes (by decide +kernel)

theorem lead_four_back : ∀ byte, sequenceLength byte = 4 →
    byte = UInt8.ofNat ((byte &&& leadPayloadMask 4).toNat + 0xf0) ∧
      (byte &&& leadPayloadMask 4).toNat < 8 :=
  all_bytes (by decide +kernel)

theorem continuation_back : ∀ byte, isContinuationByte byte = true →
    byte = UInt8.ofNat ((byte &&& 0x3F).toNat + 0x80) ∧ (byte &&& 0x3F).toNat < 64 :=
  all_bytes (by decide +kernel)

theorem sequenceLength_le : ∀ byte, sequenceLength byte ≤ 4 := all_bytes (by decide +kernel)

-- What the checks of `validSequenceLength` establish once they all pass.
theorem validSequenceLength_some {text : List UInt8} {n : Nat}
    (h : validSequenceLength text = some n) :
    ∃ lead more rest, text = lead :: (more ++ rest) ∧ n = more.length + 1 ∧
      sequenceLength lead = more.length + 1 ∧ (∀ byte ∈ more, isContinuationByte byte = true) ∧
      isOverlong (more.length + 1) (decodeCodePoint (lead :: more)) = false ∧
      isSurrogate (decodeCodePoint (lead :: more)) = false ∧
      decodeCodePoint (lead :: more) ≤ kMaxCodePoint := by
  cases text with
  | nil => cases h
  | cons lead rest =>
      simp only [validSequenceLength] at h
      split at h
      · cases h
      · next hlen =>
          split at h
          · cases h
          · next hcont =>
              split at h
              · cases h
              · next hval =>
                  cases h
                  have htake : (rest.take (sequenceLength lead - 1)).length + 1 =
                      sequenceLength lead := by
                    rw [List.length_take]
                    omega
                  refine ⟨lead,rest.take (sequenceLength lead - 1),rest.drop (sequenceLength lead - 1),
                    by rw [List.take_append_drop],htake.symm,htake.symm,?_,?_,?_,?_⟩
                  · simpa using hcont
                  · rw [htake]
                    simpa using fun ho => hval (.inl ho)
                  · simpa using fun hs => hval (.inr (.inl hs))
                  · exact not_lt.mp fun hm => hval (.inr (.inr hm))

theorem exists_char {v : Nat} (hs : isSurrogate v = false) (hm : v ≤ kMaxCodePoint) :
    ∃ c : Char, c.val.toNat = v := by
  have hs' := of_decide_eq_false hs
  simp only [kSurrogateFirst,kSurrogateLast,kMaxCodePoint] at hs' hm
  have hv : v.isValidChar := by
    unfold Nat.isValidChar
    omega
  exact ⟨Char.ofNatAux v hv,rfl⟩

theorem encodeChar_of_valid {lead : UInt8} {more : List UInt8}
    (hl : sequenceLength lead = more.length + 1) (hc : ∀ byte ∈ more, isContinuationByte byte = true)
    (ho : isOverlong (more.length + 1) (decodeCodePoint (lead :: more)) = false)
    (hs : isSurrogate (decodeCodePoint (lead :: more)) = false)
    (hm : decodeCodePoint (lead :: more) ≤ kMaxCodePoint) :
    ∃ c : Char, lead :: more = String.utf8EncodeChar c := by
  obtain ⟨c,hv⟩ := exists_char hs hm
  refine ⟨c,?_⟩
  have ho' := of_decide_eq_false ho
  rw [← hv] at ho'
  have hle := sequenceLength_le lead
  unfold String.utf8EncodeChar
  dsimp only
  match more, hl, hc, hv, ho' with
  | [],hl,_,hv,_ =>
      obtain ⟨hlead,hbound⟩ := lead_one_back lead hl
      have hd : (lead &&& leadPayloadMask 1).toNat = c.val.toNat := by
        rw [hv]
        rfl
      rw [hd] at hlead hbound
      rw [if_pos (by omega),← hlead]
  | [low],hl,hc,hv,ho' =>
      obtain ⟨hlead,hbound⟩ := lead_two_back lead hl
      obtain ⟨hlow,hlowBound⟩ := continuation_back low (hc low (by simp))
      simp only [decodeCodePoint,List.foldl_cons,List.foldl_nil,List.length_cons,
        List.length_nil,Nat.reduceAdd] at hv
      rw [shift_or hlowBound] at hv
      simp only [List.length_cons,List.length_nil,Nat.reduceAdd,true_and] at ho'
      rw [if_neg (by omega),if_pos (by omega)]
      rw [show c.val.toNat / 64 % 32 = (lead &&& leadPayloadMask 2).toNat by omega,
        show c.val.toNat % 64 = (low &&& 0x3F).toNat by omega,← hlead,← hlow]
  | [mid,low],hl,hc,hv,ho' =>
      obtain ⟨hlead,hbound⟩ := lead_three_back lead hl
      obtain ⟨hmid,hmidBound⟩ := continuation_back mid (hc mid (by simp))
      obtain ⟨hlow,hlowBound⟩ := continuation_back low (hc low (by simp))
      simp only [decodeCodePoint,List.foldl_cons,List.foldl_nil,List.length_cons,
        List.length_nil,Nat.reduceAdd] at hv
      rw [shift_or hmidBound,shift_or hlowBound] at hv
      simp only [List.length_cons,List.length_nil,Nat.reduceAdd,true_and] at ho'
      rw [if_neg (by omega),if_neg (by omega),if_pos (by omega)]
      rw [show c.val.toNat / 4096 % 16 = (lead &&& leadPayloadMask 3).toNat by omega,
        show c.val.toNat / 64 % 64 = (mid &&& 0x3F).toNat by omega,
        show c.val.toNat % 64 = (low &&& 0x3F).toNat by omega,← hlead,← hmid,← hlow]
  | [high,mid,low],hl,hc,hv,ho' =>
      obtain ⟨hlead,hbound⟩ := lead_four_back lead hl
      obtain ⟨hhigh,hhighBound⟩ := continuation_back high (hc high (by simp))
      obtain ⟨hmid,hmidBound⟩ := continuation_back mid (hc mid (by simp))
      obtain ⟨hlow,hlowBound⟩ := continuation_back low (hc low (by simp))
      simp only [decodeCodePoint,List.foldl_cons,List.foldl_nil,List.length_cons,
        List.length_nil,Nat.reduceAdd] at hv
      rw [shift_or hhighBound,shift_or hmidBound,shift_or hlowBound] at hv
      simp only [List.length_cons,List.length_nil,Nat.reduceAdd,true_and] at ho'
      rw [if_neg (by omega),if_neg (by omega),if_neg (by omega)]
      rw [show c.val.toNat / 262144 % 8 = (lead &&& leadPayloadMask 4).toNat by omega,
        show c.val.toNat / 4096 % 64 = (high &&& 0x3F).toNat by omega,
        show c.val.toNat / 64 % 64 = (mid &&& 0x3F).toNat by omega,
        show c.val.toNat % 64 = (low &&& 0x3F).toNat by omega,← hlead,← hhigh,← hmid,← hlow]
  | _ :: _ :: _ :: _ :: rest,hl,_,_,_ =>
      simp only [List.length_cons] at hl
      omega

-- The whole of `ValidSequenceLength`: a sequence is valid when it encodes a character.
theorem validSequenceLength_iff (text : List UInt8) (n : Nat) :
    validSequenceLength text = some n ↔ ∃ (c : Char) (rest : List UInt8),
      text = String.utf8EncodeChar c ++ rest ∧ n = (String.utf8EncodeChar c).length := by
  constructor
  · intro h
    obtain ⟨lead,more,rest,htext,hn,hl,hc,ho,hs,hm⟩ := validSequenceLength_some h
    obtain ⟨c,henc⟩ := encodeChar_of_valid hl hc ho hs hm
    refine ⟨c,rest,?_,?_⟩
    · rw [htext,← henc,List.cons_append]
    · rw [hn,← henc,List.length_cons]
  · rintro ⟨c,rest,rfl,rfl⟩
    obtain ⟨lead,more,henc,_,hlen⟩ := encoded_decodes c
    rw [henc,List.cons_append,hlen,List.length_cons]

theorem validSequenceLength_encoded (c : Char) (rest : List UInt8) :
    validSequenceLength (String.utf8EncodeChar c ++ rest) =
      some (String.utf8EncodeChar c).length :=
  (validSequenceLength_iff _ _).mpr ⟨c,rest,rfl,rfl⟩

theorem encodeChar_ne_nil (c : Char) : String.utf8EncodeChar c ≠ [] :=
  String.utf8EncodeChar_ne_nil

theorem isValidFrom_iff (fuel : Nat) (text : List UInt8) (hf : text.length ≤ fuel) :
    isValidFrom fuel text = true ↔ ∃ cs, text = encode cs := by
  induction fuel generalizing text with
  | zero =>
      have hnil : text = [] := List.length_eq_zero_iff.mp (by omega)
      exact ⟨fun _ => ⟨[],hnil⟩,fun _ => rfl⟩
  | succ fuel ih =>
      rw [isValidFrom]
      split
      · next hempty => exact ⟨fun _ => ⟨[],List.isEmpty_iff.mp hempty⟩,fun _ => rfl⟩
      · next hne =>
          constructor
          · intro h
            split at h
            · cases h
            · next n hn =>
                obtain ⟨c,rest,rfl,rfl⟩ := (validSequenceLength_iff _ _).mp hn
                rw [List.drop_left] at h
                have hpos := List.length_pos_of_ne_nil (encodeChar_ne_nil c)
                rw [List.length_append] at hf
                obtain ⟨cs,hcs⟩ := (ih rest (by omega)).mp h
                exact ⟨c :: cs,by rw [hcs,encode_cons]⟩
          · rintro ⟨cs,rfl⟩
            cases cs with
            | nil => exact absurd rfl hne
            | cons c cs =>
                rw [encode_cons] at hf ⊢
                have hpos := List.length_pos_of_ne_nil (encodeChar_ne_nil c)
                rw [List.length_append] at hf
                rw [validSequenceLength_encoded]
                dsimp only
                rw [List.drop_left]
                exact (ih _ (by omega)).mpr ⟨cs,rfl⟩

theorem isValidUtf8_iff (text : List UInt8) :
    isValidUtf8 text = true ↔ ∃ cs, text = encode cs :=
  isValidFrom_iff text.length text le_rfl

theorem isValidUtf8_encode (cs : List Char) : isValidUtf8 (encode cs) = true :=
  (isValidUtf8_iff _).mpr ⟨cs,rfl⟩

theorem validSequenceLength_le {text : List UInt8} {n : Nat}
    (h : validSequenceLength text = some n) : 0 < n ∧ n ≤ text.length := by
  obtain ⟨c,rest,rfl,rfl⟩ := (validSequenceLength_iff _ _).mp h
  rw [List.length_append]
  exact ⟨List.length_pos_of_ne_nil (encodeChar_ne_nil c),by omega⟩

theorem encoded_char {text : List UInt8} {n : Nat} (h : validSequenceLength text = some n) :
    String.utf8EncodeChar (Char.ofNat (decodeCodePoint (text.take n))) = text.take n := by
  obtain ⟨c,rest,rfl,rfl⟩ := (validSequenceLength_iff _ _).mp h
  obtain ⟨lead,more,henc,hd,_⟩ := encoded_decodes c
  rw [List.take_left]
  conv =>
    lhs
    rw [henc,hd]
  rw [Char.ofNat_toNat]

theorem repairFrom_encodes (fuel : Nat) (text : List UInt8) :
    repairFrom fuel text = encode (sanitizeFrom fuel text) := by
  induction fuel generalizing text with
  | zero => rfl
  | succ fuel ih =>
      rw [repairFrom,sanitizeFrom]
      split
      · rfl
      · cases hn : validSequenceLength text with
        | none =>
            dsimp only
            rw [encode_cons,ih]
            rfl
        | some n =>
            dsimp only
            rw [encode_cons,encoded_char hn,ih]

theorem bytesOf_sanitizeUtf8 (text : List UInt8) : bytesOf (sanitizeUtf8 text) = repair text := by
  rw [bytesOf,sanitizeUtf8,String.toList_ofList,repair,repairFrom_encodes]
  rfl

theorem repairFrom_fuel (fuel : Nat) {more : Nat} {text : List UInt8} (h : text.length ≤ fuel)
    (hm : text.length ≤ more) : repairFrom fuel text = repairFrom more text := by
  induction fuel generalizing text more with
  | zero =>
      have hnil : text = [] := List.length_eq_zero_iff.mp (by omega)
      subst hnil
      cases more <;> rfl
  | succ fuel ih =>
      cases text with
      | nil => cases more <;> rfl
      | cons byte rest =>
          cases more with
          | zero => simp at hm
          | succ more =>
              rw [repairFrom,repairFrom]
              simp only [List.isEmpty_cons,Bool.false_eq_true,if_false]
              rw [List.length_cons] at h hm
              split
              · exact congrArg (kUtf8ReplacementCharacter ++ ·) (ih (by simpa using h) (by simpa using hm))
              · next n hn =>
                  have hle := validSequenceLength_le hn
                  rw [List.length_cons] at hle
                  have hdrop : ((byte :: rest).drop n).length ≤ rest.length := by
                    rw [List.length_drop,List.length_cons]
                    omega
                  exact congrArg (List.take n (byte :: rest) ++ ·) (ih (by omega) (by omega))

theorem repair_char_append (c : Char) (rest : List UInt8) :
    repair (String.utf8EncodeChar c ++ rest) = String.utf8EncodeChar c ++ repair rest := by
  obtain ⟨lead,more,henc,_,hlen⟩ := encoded_decodes c
  have hn := validSequenceLength_encoded c rest
  have hle := validSequenceLength_le hn
  have hempty : (String.utf8EncodeChar c ++ rest).isEmpty = false := by
    rw [henc]
    rfl
  obtain ⟨fuel,hf⟩ : ∃ fuel, (String.utf8EncodeChar c ++ rest).length = fuel + 1 :=
    ⟨_,(Nat.succ_pred (by omega)).symm⟩
  rw [repair,hf,repairFrom,hempty,if_neg Bool.false_ne_true,hn]
  dsimp only
  rw [List.take_left,List.drop_left]
  rw [List.length_append] at hf
  rw [repairFrom_fuel fuel (by omega) le_rfl,repair]

theorem repair_encode_append (cs : List Char) (rest : List UInt8) :
    repair (encode cs ++ rest) = encode cs ++ repair rest := by
  induction cs with
  | nil => rfl
  | cons c cs ih => rw [encode_cons,List.append_assoc,repair_char_append,ih,List.append_assoc]

theorem repair_valid (text : List UInt8) : isValidUtf8 (repair text) = true := by
  rw [repair,repairFrom_encodes]
  exact isValidUtf8_encode _

theorem repair_append {valid : List UInt8} (h : isValidUtf8 valid = true) (rest : List UInt8) :
    repair (valid ++ rest) = valid ++ repair rest := by
  obtain ⟨cs,rfl⟩ := (isValidUtf8_iff valid).mp h
  exact repair_encode_append cs rest

theorem repair_id {text : List UInt8} (h : isValidUtf8 text = true) : repair text = text := by
  have hr := repair_append h []
  rwa [List.append_nil,show repair [] = [] from rfl,List.append_nil] at hr

theorem validated_and_repaired (text : List UInt8) :
    (isValidUtf8 text = true ↔ ∃ cs : List Char, text = cs.flatMap String.utf8EncodeChar) ∧
      isValidUtf8 (repair text) = true ∧ (isValidUtf8 text = true ↔ repair text = text) ∧
      repair (repair text) = repair text ∧
      ∀ valid, isValidUtf8 valid = true → repair (valid ++ text) = valid ++ repair text := by
  refine ⟨isValidUtf8_iff text,repair_valid text,⟨repair_id,?_⟩,repair_id (repair_valid text),?_⟩
  · intro h
    rw [← h]
    exact repair_valid text
  · intro valid hv
    exact repair_append hv text

end Utf8

end PuCli
