import PuCli.Core.Json

namespace PuCli

structure Origin where
  source : String
  buffer : String
  rank : Nat
  deriving DecidableEq

namespace Origin

open Json

def rankIn (j : Json) : Nat :=
  match j.get? "rank" with
  | some (.uint64 n) => n
  | some (.int64 i) => if 0 < i then i.toNat else 0
  | _ => 0

def originOf (text : JsonText) (receipt : String) : Option Origin :=
  if receipt.toList.head? ≠ some '\x7b' then none
  else match text.parse receipt with
    | some (.object result) =>
        match find result "buffer" with
        | some (.object fields) =>
            match find fields "source", find fields "id" with
            | some (.string source), some (.string buffer) =>
                if source = "" ∨ buffer = "" then none
                else some ⟨source, buffer, rankIn (.object fields)⟩
            | _, _ => none
        | _ => none
    | _ => none

def originToJson (o : Origin) : Json :=
  .object [("source", .string o.source), ("buffer", .string o.buffer), ("rank", .uint64 o.rank)]

def originFromJson (j : Json) : Option Origin :=
  if j.isObject then
    let source := valueOrDefault j "source" ""
    let buffer := valueOrDefault j "buffer" ""
    if source = "" ∨ buffer = "" then none else some ⟨source, buffer, rankIn j⟩
  else none

def Named (o : Origin) : Prop := o.source ≠ "" ∧ o.buffer ≠ ""

instance (o : Origin) : Decidable o.Named := inferInstanceAs (Decidable (_ ∧ _))

theorem originOf_named {text : JsonText} {receipt : String} {o : Origin}
    (h : originOf text receipt = some o) : o.Named := by
  unfold originOf at h
  split at h
  · simp at h
  · split at h
    · split at h
      · split at h
        · split at h
          · simp at h
          · next hne =>
              obtain rfl := Option.some.inj h
              exact not_or.mp hne
        · simp at h
      · simp at h
    · simp at h

theorem originOf_of_members {text : JsonText} {receipt : String} {members fields : List (String × Json)}
    {o : Origin} (hbrace : receipt.toList.head? = some '\x7b')
    (hparse : text.parse receipt = some (.object members))
    (hbuffer : find members "buffer" = some (.object fields))
    (hsource : find fields "source" = some (.string o.source))
    (hid : find fields "id" = some (.string o.buffer)) (hn : o.Named)
    (hrank : rankIn (.object fields) = o.rank) : originOf text receipt = some o := by
  obtain ⟨hs,hb⟩ := hn
  have hnot : ¬ (o.source = "" ∨ o.buffer = "") := not_or.mpr ⟨hs,hb⟩
  simp only [originOf,hbrace,hparse,hbuffer,hsource,hid,hrank,if_neg hnot]
  simp

theorem originOf_fields {text : JsonText} {receipt : String} {o : Origin}
    (h : originOf text receipt = some o) : ∃ members fields,
      text.parse receipt = some (.object members) ∧
      find members "buffer" = some (.object fields) ∧
      find fields "source" = some (.string o.source) ∧
      find fields "id" = some (.string o.buffer) ∧ rankIn (.object fields) = o.rank := by
  unfold originOf at h
  split at h
  · simp at h
  · split at h
    · next members hm =>
        split at h
        · next fields hf =>
            split at h
            · next source buffer hs hb =>
                split at h
                · simp at h
                · obtain rfl := Option.some.inj h
                  exact ⟨members,fields,hm,hf,hs,hb,rfl⟩
            · simp at h
        · simp at h
    · simp at h

theorem originFromJson_named {j : Json} {o : Origin} (h : originFromJson j = some o) :
    o.Named := by
  unfold originFromJson at h
  split at h
  · dsimp only at h
    split at h
    · simp at h
    · next hne =>
        obtain rfl := Option.some.inj h
        exact not_or.mp hne
  · simp at h

theorem originFromJson_originToJson {o : Origin} (h : o.Named) :
    originFromJson (originToJson o) = some o := by
  obtain ⟨hs,hb⟩ := h
  simp [originFromJson,originToJson,isObject,valueOrDefault,rankIn,hs,hb]

def supersededReceipt (text : JsonText) (receipt supersededBy : String) : Except String String :=
  match text.parse receipt with
  | some (.object result) =>
      let result := assign result "output" (.string "")
      let result := assign result "superseded_by" (.string supersededBy)
      .ok (text.serialize (.object result))
  | some other => .error (text.kindError other)
  | none => .error (text.parseError receipt)

end Origin

end PuCli
