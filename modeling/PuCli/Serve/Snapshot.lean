import PuCli.Serve.Owed

namespace PuCli.Serve

def kOfflineAfter : Int := 45

def renderPresence (clock : Clock) (offlineAfter : Int) (presence : PeerPresence) : Json :=
  .object ([("name", .string presence.name), ("last_seen", .string presence.lastSeen),
      ("seen_seconds", .int64 (clock.ageSeconds presence.lastSeen)),
      ("online", .bool (decide (clock.ageSeconds presence.lastSeen ≤ offlineAfter))),
      ("state", .string presence.state)] ++
    (if presence.job = "" then [] else [("job", .string presence.job)]))

namespace Board

def snapshot (clock : Clock) (offlineAfter : Int) (b : Board) : Json :=
  .object [("success", .bool true), ("jobs", .array (b.jobs.map (render clock))),
    ("peers", .array (b.peers.map (renderPresence clock offlineAfter))),
    ("audit", .array (b.audit.map renderEntry))]

def heard (b : Board) : List String := b.peers.map PeerPresence.name

section Heard

variable {b b' : Board} {v : Tick × Verb} {r : ActionResult}

theorem heard_accepted (h : Accepted b v r b') : b'.heard = b.heard := by
  cases h with
  | post h =>
      obtain ⟨_,_,_,_,_,hb⟩ := post_ok h
      rw [hb]
      rfl
  | @update tick request r b' h =>
      obtain ⟨_,_,_,_,_,_,_,_,_,_,hb⟩ := update_ok h
      rw [hb]
      change (b.peers.map (present r.job (request.sender.getD ""))).map PeerPresence.name = _
      rw [List.map_map]
      refine List.map_congr_left (fun p _ => ?_)
      unfold Function.comp present
      split <;> rfl
  | answer h =>
      obtain ⟨_,_,_,_,_,hb⟩ := answer_ok h
      rw [hb]
      rfl
  | chase h =>
      obtain ⟨_,_,_,_,hb⟩ := chase_ok h
      rw [hb]
      rfl
  | drop h =>
      obtain ⟨_,_,_,_,hb⟩ := drop_ok h
      rw [hb]
      rfl

theorem heard_serve (hv : ∀ peer state, v.2 ≠ .touch peer state) : (b.serve v).heard = b.heard := by
  rcases outcome_cases b v with ⟨_,hsame⟩ | ⟨r,_,haccepted⟩ | ⟨peer,state,htouch,_⟩
  · rw [hsame]
  · exact heard_accepted haccepted
  · exact absurd htouch (hv peer state)

theorem heard_touchPeer {peer : String} (tick : Tick) (state : String)
    (h : b.heard = [] ∨ b.heard = [peer]) :
    (b.touchPeer tick peer state).heard = [] ∨ (b.touchPeer tick peer state).heard = [peer] := by
  unfold touchPeer
  split
  · exact h
  · refine .inr ?_
    unfold heard at h ⊢
    rcases h with h | h
    · rw [List.map_eq_nil_iff.mp h]
      rfl
    · obtain ⟨p,hpeers,hname⟩ := List.map_eq_singleton_iff.mp h
      rw [hpeers,touchAmong,if_pos hname,List.map_singleton,hname]

end Heard

end Board

def BoardPage.toJson (page : BoardPage) : Json :=
  .object [("success", .bool true), ("open", .array page.opened), ("settled", .array page.settled),
    ("audit", .array page.audit)]

def renderOutcome (outcome : JobOutcome) : Json :=
  .object ([("id", .string outcome.id), ("state", .string outcome.state)] ++
    told "result" outcome.result)

def renderResult (clock : Clock) (result : ActionResult) : Json :=
  .object ([("success", .bool true), ("job", render clock result.job)] ++
    (match result.outcome with
    | none => []
    | some outcome => [("outcome", renderOutcome outcome)]))

end PuCli.Serve
