import PuCli.App.Serving

namespace PuCli

namespace Serving

def OwnTurn (client : Nat → String) (conn : Nat) (job : ServeJob) : Prop :=
  ∃ c, job.conn = some c ∧ (c = conn ∨ Wire.samePage client c conn = true)

def OnlyOwn (client : Nat → String) (s : Serving) : Prop :=
  ∀ p ∈ s.abandoned, OwnTurn client p.1 p.2

-- A page that goes away with nobody in its place leaves no turn running but its own.
def LeavesOwn (client : Nat → String) (s : Serving) (e : ServeEvent) : Prop :=
  ∀ conn job, e = .abandon → s.wire.io = .left conn → s.token = some false →
    s.worker.inFlight = some job → OwnTurn client conn job

variable {client : Nat → String} {s s' : Serving} {e : ServeEvent}

theorem abandoned_did (hd : Did client s e s') : s'.abandoned = s.abandoned ∨
    ∃ conn job, e = .abandon ∧ s.wire.io = .left conn ∧ s.token = some false ∧
      s.worker.inFlight = some job ∧ s'.token = some true ∧
      s'.abandoned = s.abandoned ++ [(conn, job)] := by
  cases hd with
  | abandon conn job hio ht hj => exact .inr ⟨conn,job,rfl,hio,ht,hj,rfl,rfl⟩
  | _ => exact .inl rfl

theorem abandoned_abandon {conn : Nat} {job : ServeJob} (hio : s.wire.io = .left conn)
    (ht : s.token = some false) (hj : s.worker.inFlight = some job) :
    (step client s .abandon).abandoned = s.abandoned ++ [(conn, job)] := by
  simp only [step,Serving.abandon,hio,ht,hj]
  rfl

-- The token of a turn in flight is only ever set by Stop, by a page's cancel, or as the log says.
theorem token_set_did (hd : Did client s e s') {job : ServeJob} (hj : s.worker.inFlight = some job)
    (ht : s.token = some false) (hset : s'.token = some true) :
    e = .halt ∨ (∃ conn, e = .cancel conn ∧ s.reads conn = true) ∨
      ∃ conn, s.wire.io = .left conn ∧ s'.abandoned = s.abandoned ++ [(conn, job)] := by
  have hkept : s'.token = s.token → False := by
    intro hsame
    rw [hsame,ht] at hset
    cases hset
  cases hd with
  | halt hs hh => exact .inl rfl
  | cancel conn set hr hs => exact .inr (.inl ⟨conn,rfl,hr⟩)
  | leaveSet conn set hio hs hn =>
      rw [ht] at hs
      cases hs
      rw [hn rfl] at hj
      cases hj
  | abandon conn other hio hs ho =>
      rw [hj] at ho
      cases ho
      exact .inr (.inr ⟨conn,hio,rfl⟩)
  | arm job hw => cases hset
  | release job asked frames hw => cases hset
  | _ => exact absurd rfl hkept

theorem onlyOwn_step (h : OnlyOwn client s) :
    OnlyOwn client (step client s e) ↔ LeavesOwn client s e := by
  constructor
  · rintro hnext conn job rfl hio ht hj
    refine hnext (conn,job) ?_
    rw [abandoned_abandon hio ht hj]
    simp
  · intro hleaves
    rcases abandoned_did (did_step client s e) with hsame | ⟨conn,job,he,hio,ht,hj,_,hlog⟩
    · rw [OnlyOwn,hsame]
      exact h
    · intro p hp
      rw [hlog] at hp
      rcases List.mem_append.mp hp with hp | hp
      · exact h p hp
      · rw [List.mem_singleton.mp hp]
        exact hleaves conn job he hio ht hj

theorem page_cancels_only_own_turn_iff (client : Nat → String) (os : List ServeEvent) :
    (∀ t ∈ Run.visited (step client) {} os, OnlyOwn client t) ↔
      Run.Along (step client) (LeavesOwn client) {} os := by
  have hgood : ∀ s e, True → True → OnlyOwn client s →
      (OnlyOwn client (step client s e) ↔ LeavesOwn client s e) := fun s e _ _ h => onlyOwn_step h
  have hstart : OnlyOwn client ({} : Serving) := fun p hp => by cases hp
  exact Run.visited_good_iff (fun _ _ _ _ => trivial) hgood trivial hstart (Run.along_true _ os)

-- A page reads along while a peer's turn runs, and closes.
def peerTurnWatched : List ServeEvent :=
  [.attach 0, .snapshot, .enter, .submitFromPeer "A" "j1", .take, .openTurn, .arm, .finish 0, .unflag,
    .detach, .abandon]

theorem peer_turn_cancelled_by_leaving_page :
    (peerTurnWatched.foldl (step (fun _ => "tab")) {}).abandoned =
        [(0, { peerOrigin := "A", boardJob := "j1" })] ∧
      ¬ OnlyOwn (fun _ => "tab") (peerTurnWatched.foldl (step (fun _ => "tab")) {}) := by
  have hlog : (peerTurnWatched.foldl (step (fun _ => "tab")) {}).abandoned =
      [(0, { peerOrigin := "A", boardJob := "j1" })] := by rfl
  refine ⟨hlog,fun h => ?_⟩
  obtain ⟨c,hc,_⟩ := h (0,{ peerOrigin := "A", boardJob := "j1" }) (by rw [hlog]; simp)
  cases hc

end Serving

end PuCli
