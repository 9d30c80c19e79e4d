import PuCli.App.Serving

namespace PuCli

namespace Serving

def Blocked (s : Serving) : Prop :=
  ∃ job, s.worker = .waiting job ∧ s.wire.hand = .rest ∧ s.gate.answered = false

def Unwatched (s : Serving) : Prop := s.token = some true ∨ s.wire.attached = none

def NeverStuck (s : Serving) : Prop := Unwatched s → ¬ Blocked s

-- The turn thread's own steps.
def own : ServeEvent → Bool
  | .take => true
  | .openTurn => true
  | .arm => true
  | .say _ => true
  | .aim => true
  | .send => true
  | .ask _ => true
  | .announce => true
  | .wake => true
  | .fail _ => true
  | .collect _ _ => true
  | .release => true
  | .look => true
  | .speak => true
  | .closeBoard _ => true
  | .finishTurn => true
  | _ => false

def Spared (s : Serving) : ServeEvent → Prop
  | .send => ∀ job, s.worker = .waiting job → s.gate.answered = false →
      (∃ f target, s.wire.hand = .aimed f target) → ¬ Unwatched s
  | .cancel conn => s.reads conn = true → ¬ Blocked s
  | .detach => ∀ conn, s.wire.io = .unflagged conn → s.wire.attached = some conn → ¬ Blocked s
  | .abandon => ∀ conn, s.wire.io = .left conn → ¬ Blocked s
  | .halt => s.stopping = true → s.halted = false → ¬ Blocked s
  | _ => True

variable {client : Nat → String} {s s' : Serving} {e : ServeEvent}

theorem blocked_iff_stuck {job : ServeJob} (hw : s.worker = .waiting job)
    (hr : s.wire.hand = .rest) :
    Blocked s ↔ ∀ e, own e = true → step client s e = s := by
  constructor
  · rintro ⟨_,_,_,hg⟩ e he
    cases e with
    | aim => simp [step,Wire.aim,hr]
    | send => simp [step,Wire.send,hr]
    | wake => simp [step,Serving.wake,hw,hg]
    | closeBoard refusal => simp [step,Serving.closeBoard,hw]
    | take => simp [step,Serving.take,hw]
    | openTurn => simp [step,Serving.openTurn,hw]
    | arm => simp [step,Serving.arm,hw]
    | say frame => simp [step,Serving.say,hw]
    | ask command => simp [step,Serving.ask,hw]
    | announce => simp [step,Serving.announce,hw]
    | fail what => simp [step,Serving.fail,hw]
    | collect rt result => simp [step,Serving.collect,hw]
    | release => simp [step,Serving.release,hw]
    | look => simp [step,Serving.look,hw]
    | speak => simp [step,Serving.speak,hw]
    | finishTurn => simp [step,Serving.finishTurn,hw]
    | _ => cases he
  · intro hstuck
    refine ⟨job,hw,hr,?_⟩
    cases hg : s.gate.answered with
    | false => rfl
    | true =>
        have hwake := congrArg Serving.worker (hstuck .wake rfl)
        simp [step,Serving.wake,hw,hg,ready,hr] at hwake

-- Where the wait, what the worker holds and the page's seat did not move, nothing moved.
theorem neverStuck_same (h : NeverStuck s) (hworker : s'.worker = s.worker)
    (hhand : s'.wire.hand = .rest → s.wire.hand = .rest) (hgate : s'.gate.answered = s.gate.answered)
    (htoken : s'.token = some true → s.token = some true)
    (hattached : s'.wire.attached = none → s.wire.attached = none) : NeverStuck s' := by
  rintro hun ⟨job,hw,hr,hg⟩
  refine h (hun.imp htoken hattached) ⟨job,?_,hhand hr,?_⟩
  · rw [← hworker,hw]
  · rw [← hgate,hg]

theorem neverStuck_moved (h : ∀ job, s'.worker ≠ .waiting job) : NeverStuck s' := by
  rintro _ ⟨job,hw,_⟩
  exact h job hw

theorem neverStuck_unblocked (hworker : s'.worker = s.worker) (hhand : s'.wire.hand = s.wire.hand)
    (hgate : s'.gate = s.gate) (h : ¬ Blocked s) : NeverStuck s' := by
  rintro _ ⟨job,hw,hr,hg⟩
  exact h ⟨job,hworker ▸ hw,hhand ▸ hr,hgate ▸ hg⟩

theorem neverStuck_wire (h : NeverStuck s) (hs : Spared s e) {we : WireEvent}
    (he : wireEvent e = some we) : NeverStuck { s with wire := Wire.step client s.wire we } := by
  have hd := Wire.did_step client s.wire we
  generalize Wire.step client s.wire we = w' at hd
  cases hd with
  | begin _ => cases e <;> cases he
  | record frame _ => exact absurd rfl (wireEvent_quiet he frame)
  | aim f hh hio => exact neverStuck_same h rfl (fun hr => by cases hr) rfl id id
  | send f conn hh =>
      obtain rfl : e = .send := by cases e <;> cases he; rfl
      rintro hun ⟨job,hw,_,hg⟩
      exact hs job hw hg ⟨f,some conn,hh⟩ hun
  | keep f hh =>
      obtain rfl : e = .send := by cases e <;> cases he; rfl
      rintro hun ⟨job,hw,_,hg⟩
      exact hs job hw hg ⟨f,none,hh⟩ hun
  | claim conn hio hnew ha => exact neverStuck_same h rfl id rfl id (fun hn => by cases hn)
  | detach conn hio ha =>
      obtain rfl : e = .detach := by cases e <;> cases he; rfl
      exact neverStuck_unblocked rfl rfl rfl (hs conn hio ha)
  | _ => exact neverStuck_same h rfl id rfl id id

theorem neverStuck_did (hserved : Served s) (h : NeverStuck s) (hs : Spared s e)
    (hd : Did client s e s') : NeverStuck s' := by
  cases hd with
  | idle e => exact h
  | submit conn => exact neverStuck_same h rfl id rfl id id
  | submitFromPeer sender boardJob => exact neverStuck_same h rfl id rfl id id
  | cancelNothing conn hr ht => exact neverStuck_same h rfl id rfl id id
  | cancel conn set hr ht => exact neverStuck_unblocked rfl rfl rfl (hs hr)
  | resolve conn allow note hr =>
      rintro _ ⟨job,_,_,hg⟩
      cases hg
  | wire e we he => exact neverStuck_wire h hs he
  | enter conn hio =>
      have hwire : s.wire.enter.hand = s.wire.hand ∧ s.wire.enter.attached = s.wire.attached := by
        simp [Wire.enter,hio]
      exact neverStuck_same h rfl (fun hr => hwire.1 ▸ hr) rfl id (fun hn => hwire.2 ▸ hn)
  | leave conn hio ht =>
      have hwire : s.wire.settle.hand = s.wire.hand := by simp [Wire.settle,hio]
      exact neverStuck_unblocked (s := s) rfl hwire rfl (hs conn hio)
  | leaveSet conn set hio ht hj =>
      have hwire : s.wire.settle.hand = s.wire.hand := by simp [Wire.settle,hio]
      exact neverStuck_unblocked (s := s) rfl hwire rfl (hs conn hio)
  | abandon conn job hio ht hj =>
      have hwire : s.wire.settle.hand = s.wire.hand := by simp [Wire.settle,hio]
      exact neverStuck_unblocked (s := s) rfl hwire rfl (hs conn hio)
  | stop => exact neverStuck_same h rfl id rfl id id
  | halt hstop hh => exact neverStuck_unblocked rfl rfl rfl (hs hstop hh)
  | say job frame hw hr ht =>
      refine neverStuck_moved (fun other hother => ?_)
      rw [show _ = s.worker from rfl,hw] at hother
      cases hother
  | announce job command hw =>
      rintro _ ⟨_,_,hr,_⟩
      have hrest := hserved.quiet (by rw [hw]; rfl)
      simp [Wire.record,hrest] at hr
  | openTurn job hw =>
      refine neverStuck_moved (fun other hother => ?_)
      dsimp only at hother
      split at hother <;> cases hother
  | look job asked cancelled frames hw =>
      refine neverStuck_moved (fun other hother => ?_)
      dsimp only at hother
      split at hother <;> cases hother
  | refused job what hw hr =>
      refine neverStuck_moved (fun other hother => ?_)
      dsimp only at hother
      split at hother <;> cases hother
  | _ => exact neverStuck_moved (fun other hother => by cases hother)

theorem Blocked.token (hserved : Served s) (h : Blocked s) : ∃ set, s.token = some set := by
  obtain ⟨job,hw,_⟩ := h
  exact Option.ne_none_iff_exists'.mp (hserved.armed (by rw [hw]; intro hn; cases hn))

theorem watched_of_blocked (hnext : NeverStuck s') (hb : Blocked s) (hworker : s'.worker = s.worker)
    (hhand : s'.wire.hand = s.wire.hand) (hgate : s'.gate = s.gate) : ¬ Unwatched s' := by
  obtain ⟨job,hw,hr,hg⟩ := hb
  exact fun hun => hnext hun ⟨job,hworker.trans hw,hhand.trans hr,by rw [hgate,hg]⟩

theorem spared_of_next (hserved : Served s) (hnext : NeverStuck (step client s e)) :
    Spared s e := by
  cases e with
  | send =>
      rintro job hw hg ⟨f,target,hh⟩ hun
      have hwire : s.wire.send.hand = .rest ∧ s.wire.send.attached = s.wire.attached := by
        cases target <;> simp [Wire.send,hh,Wire.post]
      refine hnext (hun.imp id (fun hn => hwire.2.trans hn)) ⟨job,hw,hwire.1,hg⟩
  | cancel conn =>
      intro hr hb
      obtain ⟨set,ht⟩ := hb.token hserved
      have hstep : step client s (.cancel conn) = { s with
          asked := s.heardFrom conn, cancelRequested := s.cancelRequested || true, token := some true } := by
        simp [step,Serving.cancel,hr,requestCancel,ht]
      rw [hstep] at hnext
      exact watched_of_blocked hnext hb rfl rfl rfl (.inl rfl)
  | detach =>
      intro conn hio ha hb
      have hwire : s.wire.detach = { s.wire with attached := none, io := .left conn } := by
        simp [Wire.detach,hio,ha]
      simp only [step,hwire] at hnext
      exact watched_of_blocked hnext hb rfl rfl rfl (.inr rfl)
  | abandon =>
      intro conn hio hb
      obtain ⟨set,ht⟩ := hb.token hserved
      obtain ⟨job,hw,hr,hg⟩ := hb
      have hwire : s.wire.settle.hand = s.wire.hand := by simp [Wire.settle,hio]
      refine hnext (.inl ?_) ⟨job,?_,?_,?_⟩
      · cases set <;> simp [step,Serving.abandon,hio,ht,hw,WorkerAt.inFlight,requestCancel]
      · cases set <;> simp [step,Serving.abandon,hio,ht,hw,WorkerAt.inFlight,requestCancel]
      · cases set <;> simp [step,Serving.abandon,hio,ht,hw,WorkerAt.inFlight,requestCancel,hwire,hr]
      · cases set <;> simp [step,Serving.abandon,hio,ht,hw,WorkerAt.inFlight,requestCancel,hg]
  | halt =>
      intro hstop hh hb
      obtain ⟨set,ht⟩ := hb.token hserved
      have hstep :
          step client s .halt = { s with halted := true, token := s.token.map (fun _ => true) } := by
        simp [step,Serving.halt,hstop,hh]
      rw [hstep] at hnext
      exact watched_of_blocked hnext hb rfl rfl rfl (.inl (by simp [ht]))
  | _ => trivial

theorem neverStuck_step (hserved : Served s) (h : NeverStuck s) :
    NeverStuck (step client s e) ↔ Spared s e :=
  ⟨spared_of_next hserved,fun hs => neverStuck_did hserved h hs (did_step client s e)⟩

theorem waits_only_watched_iff (client : Nat → String) (os : List ServeEvent) :
    (∀ t ∈ Run.visited (step client) {} os, NeverStuck t) ↔
      Run.Along (step client) Spared {} os := by
  have hinv : ∀ s e, Served s → True → Served (step client s e) := fun s e h _ => served_step h e
  have hgood : ∀ s e, Served s → True → NeverStuck s →
      (NeverStuck (step client s e) ↔ Spared s e) := fun s e hs _ h => neverStuck_step hs h
  have hstart : NeverStuck ({} : Serving) := neverStuck_moved (fun job hw => by cases hw)
  exact Run.visited_good_iff hinv hgood served_start hstart (Run.along_true _ os)

-- The page answers an open question with the stop button.
def cancelledQuestion : List ServeEvent :=
  [.attach 0, .snapshot, .enter, .submit 0, .take, .openTurn, .arm, .ask "rm a", .announce, .aim, .send,
    .cancel 0]

theorem cancelled_turn_waits_on :
    (cancelledQuestion.foldl (step (fun _ => "tab")) {}).token = some true ∧
      Blocked (cancelledQuestion.foldl (step (fun _ => "tab")) {}) := by
  exact ⟨rfl,{ conn := some 0 },rfl,rfl,rfl⟩

end Serving

end PuCli
