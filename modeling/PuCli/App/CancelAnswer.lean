import PuCli.App.Serving

namespace PuCli

namespace Serving

def SameClient (client : Nat → String) (conn other : Nat) : Prop :=
  conn = other ∨ Wire.samePage client conn other = true

-- Sent already, in the replay the socket is being handed, or in the snapshot it is about to take.
def Delivered (w : Wire) (conn : Nat) (f : WireFrame) : Prop :=
  (conn, f) ∈ w.posted ∨ f ∈ w.due conn ∨ w.io = .claimed conn

def Answered (client : Nat → String) (t : TurnEnd) : Prop :=
  ∀ conn, t.wire.attached = some conn → conn ∉ t.wire.closed →
    (∃ asker ∈ t.asked, SameClient client asker conn) →
      ∃ f, t.wire.current.getLast? = some f ∧ f.frame.ends = true ∧ Delivered t.wire conn f

def AllAnswered (client : Nat → String) (s : Serving) : Prop := ∀ t ∈ s.ends, Answered client t

-- A turn whose token was set answers when a page's cancel was there to collect and the socket that
-- submitted it is still the page's.
def MayAnswer (s : Serving) : Prop := s.stopped = true → s.heard = true ∧ s.held = true

def HeardInTime (client : Nat → String) (s : Serving) (e : ServeEvent) : Prop :=
  ∀ job conn, e = .finishTurn → s.worker = .ending job → s.wire.attached = some conn →
    conn ∉ s.wire.closed → (∃ asker ∈ s.asked, SameClient client asker conn) → MayAnswer s

def Closes (frames : List Frame) : Prop := ∃ f, frames.getLast? = some f ∧ f.ends = true

def Spoken (s : Serving) : Prop := ∃ f, s.wire.current.getLast? = some f ∧ f.frame.ends = true

def Unspoken (s : Serving) : Prop := ∀ f ∈ s.wire.current, f.frame.ends = false

def Running (s : Serving) : Prop := s.wire.turns ≠ [] ∧ Unspoken s

def Speaking (s : Serving) (frames : List Frame) : Prop :=
  s.wire.turns ≠ [] ∧ MayAnswer s ∧ (frames = [] → Spoken s) ∧ (frames ≠ [] → Closes frames)

def PhaseAt (s : Serving) : WorkerAt → Prop
  | .idle => True
  | .picked _ => True
  | .began _ => Running s ∧ s.stopped = false
  | .talking _ => Running s ∧ s.stopped = false
  | .asking _ _ => Running s ∧ s.stopped = false
  | .waiting _ => Running s ∧ s.stopped = false
  | .collected _ asked frames => Running s ∧ s.heard = asked ∧ Closes frames
  | .released _ asked cancelled frames =>
      Running s ∧ s.heard = asked ∧ s.stopped = cancelled ∧ Closes frames
  | .closing _ frames => Speaking s frames
  | .failing _ frames => Speaking s frames
  | .ending _ => (MayAnswer s → Spoken s) ∧ (¬ MayAnswer s → Unspoken s)

def Phase (s : Serving) : Prop := PhaseAt s s.worker

variable {client : Nat → String} {s s' : Serving} {e : ServeEvent}

theorem closes_closingFrames (rt : Runtime) (result : ExecutionResult) :
    Closes (SessionRunner.closingFrames rt result) := by
  refine ⟨SessionRunner.endFrame result,?_,?_⟩
  · simp [SessionRunner.closingFrames]
  · unfold SessionRunner.endFrame
    split <;> rfl

theorem closes_failed (what : String) : Closes (failed what) := ⟨.done "",rfl,rfl⟩

structure SameTurn (s s' : Serving) : Prop where
  turns : s'.wire.turns = s.wire.turns
  stopped : s'.stopped = s.stopped
  heard : s'.heard = s.heard
  held : s'.held = s.held

theorem SameTurn.phaseAt (hs : SameTurn s s') {place : WorkerAt} (h : PhaseAt s place) :
    PhaseAt s' place := by
  have hcurrent : s'.wire.current = s.wire.current := by simp [Wire.current,hs.turns]
  have hrunning : Running s → Running s' := by
    intro hr
    rw [Running,Unspoken,hcurrent,hs.turns]
    exact hr
  have hspoken : Spoken s' ↔ Spoken s := by rw [Spoken,Spoken,hcurrent]
  have hunspoken : Unspoken s' ↔ Unspoken s := by rw [Unspoken,Unspoken,hcurrent]
  have hmay : MayAnswer s' ↔ MayAnswer s := by rw [MayAnswer,MayAnswer,hs.stopped,hs.heard,hs.held]
  cases place with
  | idle => trivial
  | picked job => trivial
  | began job => exact ⟨hrunning h.1,hs.stopped.trans h.2⟩
  | talking job => exact ⟨hrunning h.1,hs.stopped.trans h.2⟩
  | asking job command => exact ⟨hrunning h.1,hs.stopped.trans h.2⟩
  | waiting job => exact ⟨hrunning h.1,hs.stopped.trans h.2⟩
  | collected job asked frames => exact ⟨hrunning h.1,hs.heard.trans h.2.1,h.2.2⟩
  | released job asked cancelled frames =>
      exact ⟨hrunning h.1,hs.heard.trans h.2.1,hs.stopped.trans h.2.2.1,h.2.2.2⟩
  | closing job frames =>
      exact ⟨hs.turns ▸ h.1,hmay.mpr h.2.1,fun hf => hspoken.mpr (h.2.2.1 hf),h.2.2.2⟩
  | failing job frames =>
      exact ⟨hs.turns ▸ h.1,hmay.mpr h.2.1,fun hf => hspoken.mpr (h.2.2.1 hf),h.2.2.2⟩
  | ending job =>
      exact ⟨fun hm => hspoken.mpr (h.1 (hmay.mp hm)),
        fun hm => hunspoken.mpr (h.2 (fun hn => hm (hmay.mpr hn)))⟩

theorem phase_same (h : Phase s) (hworker : s'.worker = s.worker) (hs : SameTurn s s') :
    Phase s' := by
  rw [Phase,hworker]
  exact hs.phaseAt h

theorem turns_step {w : Wire} {we : WireEvent} (hb : we ≠ .begin)
    (hr : ∀ frame, we ≠ .record frame) :
    (Wire.step client w we).turns = w.turns :=
  (Wire.sameTurns_did (Wire.did_step client w we) hb hr).turns

theorem current_record {w : Wire} (hh : w.hand = .rest) (hne : w.turns ≠ []) (frame : Frame) :
    (w.record frame).current = w.current ++ [⟨w.turn, w.said, frame⟩] ∧
      (w.record frame).turns ≠ [] := by
  obtain ⟨hcurrent,_,hnil⟩ := Wire.record_turns hh frame
  rw [if_neg hne] at hcurrent
  exact ⟨hcurrent,fun hn => hne (hnil.mp hn)⟩

theorem running_record (h : Running s) (hh : s.wire.hand = .rest) {frame : Frame}
    (hf : frame.ends = false) (hw : s'.wire = s.wire.record frame) : Running s' := by
  obtain ⟨hcurrent,hne⟩ := current_record hh h.1 frame
  rw [Running,Unspoken,hw,hcurrent]
  refine ⟨hne,fun f hmem => ?_⟩
  rcases List.mem_append.mp hmem with hmem | hmem
  · exact h.2 f hmem
  · rw [List.mem_singleton.mp hmem]
    exact hf

theorem speaking_record {frame : Frame} {frames : List Frame} (h : Speaking s (frame :: frames))
    (hh : s.wire.hand = .rest) (hw : s'.wire = s.wire.record frame) (hmay : MayAnswer s') :
    Speaking s' frames := by
  obtain ⟨hcurrent,hne⟩ := current_record hh h.1 frame
  obtain ⟨last,hlast,hends⟩ := h.2.2.2 (by simp)
  refine ⟨hw ▸ hne,hmay,?_,?_⟩
  · rintro rfl
    obtain rfl : frame = last := by simpa using hlast
    exact ⟨⟨s.wire.turn,s.wire.said,frame⟩,by rw [hw,hcurrent]; simp,hends⟩
  · intro hframes
    refine ⟨last,?_,hends⟩
    rw [← hlast,List.getLast?_cons_of_ne_nil hframes]

theorem closes_ne_nil {frames : List Frame} (h : Closes frames) : frames ≠ [] := by
  rintro rfl
  obtain ⟨f,hf,_⟩ := h
  cases hf

theorem speaking_closes {frames : List Frame} (hne : s.wire.turns ≠ []) (hmay : MayAnswer s)
    (h : Closes frames) : Speaking s frames :=
  ⟨hne,hmay,fun hnil => absurd hnil (closes_ne_nil h),fun _ => h⟩

theorem running_begin (hh : s.wire.hand = .rest) (hw : s'.wire = s.wire.begin) : Running s' := by
  obtain ⟨k,hk⟩ := Wire.keepNewest_concat s.wire.turns []
  have hturns : s.wire.begin.turns = s.wire.turns.drop k ++ [[]] := by simp [Wire.begin,hh,hk]
  rw [Running,Unspoken,hw,Wire.current,hturns]
  refine ⟨by simp,fun f hf => ?_⟩
  simp at hf

theorem phase_look (h : Phase s) {job : ServeJob} {asked cancelled : Bool} {frames : List Frame}
    (hw : s.worker = .released job asked cancelled frames) :
    PhaseAt { s with held := s.pageIsHere job } (if cancelled ∧ ¬ (asked ∧ s.pageIsHere job)
      then .ending job else .closing job frames) := by
  rw [Phase,hw] at h
  obtain ⟨hrunning,hheard,hstopped,hcloses⟩ := h
  split
  · next hsilent =>
      refine ⟨fun hmay => absurd (hmay (hstopped.trans hsilent.1)) (fun hboth => hsilent.2 ?_),
        fun _ => hrunning.2⟩
      exact ⟨hheard.symm.trans hboth.1,hboth.2⟩
  · next hanswers =>
      refine speaking_closes hrunning.1 (fun hs => ?_) hcloses
      have hboth := Classical.not_not.mp (fun hn => hanswers ⟨hstopped.symm.trans hs,hn⟩)
      exact ⟨hheard.trans hboth.1,hboth.2⟩

theorem phase_did (hserved : Served s) (h : Phase s) (hd : Did client s e s') : Phase s' := by
  have hplace : ∀ {place}, s.worker = place → PhaseAt s place := fun hw => hw ▸ h
  cases hd with
  | idle e => exact h
  | submit conn => exact phase_same h rfl ⟨rfl,rfl,rfl,rfl⟩
  | submitFromPeer sender boardJob => exact phase_same h rfl ⟨rfl,rfl,rfl,rfl⟩
  | cancelNothing conn hr ht => exact phase_same h rfl ⟨rfl,rfl,rfl,rfl⟩
  | cancel conn set hr ht => exact phase_same h rfl ⟨rfl,rfl,rfl,rfl⟩
  | resolve conn allow note hr => exact phase_same h rfl ⟨rfl,rfl,rfl,rfl⟩
  | wire e we he =>
      have hb : we ≠ .begin := by
        rintro rfl
        cases e <;> cases he
      exact phase_same h rfl ⟨turns_step hb (wireEvent_quiet he),rfl,rfl,rfl⟩
  | enter conn hio => exact phase_same h rfl ⟨by simp [Wire.enter,hio],rfl,rfl,rfl⟩
  | leave conn hio ht => exact phase_same h rfl ⟨by simp [Wire.settle,hio],rfl,rfl,rfl⟩
  | leaveSet conn set hio ht hj => exact phase_same h rfl ⟨by simp [Wire.settle,hio],rfl,rfl,rfl⟩
  | abandon conn job hio ht hj => exact phase_same h rfl ⟨by simp [Wire.settle,hio],rfl,rfl,rfl⟩
  | stop => exact phase_same h rfl ⟨rfl,rfl,rfl,rfl⟩
  | halt hs hh => exact phase_same h rfl ⟨rfl,rfl,rfl,rfl⟩
  | take job jobs hw hj => trivial
  | openTurn job hw =>
      have hrest := hserved.quiet (by rw [hw]; rfl)
      unfold Phase
      dsimp only
      split
      · trivial
      · exact ⟨running_begin hrest rfl,rfl⟩
  | arm job hw => exact SameTurn.phaseAt (s := s) ⟨rfl,rfl,rfl,rfl⟩ (hplace hw)
  | say job frame hw hr hf =>
      have hends : frame.ends = false := by cases frame <;> first | rfl | cases hf
      have hp := hplace hw
      unfold Phase
      rw [show _ = WorkerAt.talking job from hw]
      exact ⟨running_record hp.1 hr hends rfl,hp.2⟩
  | ask job command hw hr => exact SameTurn.phaseAt (s := s) ⟨rfl,rfl,rfl,rfl⟩ (hplace hw)
  | announce job command hw =>
      have hp := hplace hw
      exact ⟨running_record hp.1 (hserved.quiet (by rw [hw]; rfl)) rfl rfl,hp.2⟩
  | wake job hw hr hg => exact SameTurn.phaseAt (s := s) ⟨rfl,rfl,rfl,rfl⟩ (hplace hw)
  | fail job what hw hr =>
      have hp := hplace hw
      refine speaking_closes hp.1.1 (fun hs => ?_) (closes_failed what)
      rw [show _ = s.stopped from rfl,hp.2] at hs
      cases hs
  | collect job rt result hw hr => exact ⟨(hplace hw).1,rfl,closes_closingFrames rt result⟩
  | release job asked frames hw =>
      have hp := hplace hw
      exact ⟨hp.1,hp.2.1,rfl,hp.2.2⟩
  | look job asked cancelled frames hw => exact phase_look h hw
  | speak job frame frames hw hr =>
      have hp := hplace hw
      exact speaking_record hp hr rfl hp.2.1
  | report job frame frames hw hr =>
      have hp := hplace hw
      exact speaking_record hp hr rfl hp.2.1
  | refused job what hw hr =>
      have hp := hplace hw
      unfold Phase
      dsimp only
      split
      · exact ⟨fun _ => hp.2.2.1 rfl,fun hn => absurd hp.2.1 hn⟩
      · exact speaking_closes hp.1 hp.2.1 (closes_failed what)
  | close job hw hr =>
      have hp := hplace hw
      exact ⟨fun _ => hp.2.2.1 rfl,fun hn => absurd hp.2.1 hn⟩
  | reported job refusal hw hr =>
      have hp := hplace hw
      exact ⟨fun _ => hp.2.2.1 rfl,fun hn => absurd hp.2.1 hn⟩
  | finishTurn job hw => trivial

theorem ends_did (hd : Did client s e s') : s'.ends = s.ends ∨
    ∃ job, e = .finishTurn ∧ s.worker = .ending job ∧ s'.ends = s.ends ++ [⟨s.asked, s.wire⟩] := by
  cases hd with
  | finishTurn job hw => exact .inr ⟨job,rfl,hw,rfl⟩
  | _ => exact .inl rfl

theorem delivered_ending (hserved : Served s) {job : ServeJob} (hw : s.worker = .ending job)
    {conn : Nat} (ha : s.wire.attached = some conn) (hopen : conn ∉ s.wire.closed) {f : WireFrame}
    (hf : f ∈ s.wire.current) : Delivered s.wire conn f := by
  by_cases hio : s.wire.io = .claimed conn
  · exact .inr (.inr hio)
  · have hrest := hserved.quiet (by rw [hw]; rfl)
    rcases hserved.wired.noLoss conn ha hopen hio f hf with hp | hd | hb
    · exact .inl hp
    · exact .inr (.inl hd)
    · simp [Wire.bound,hrest] at hb

theorem answered_ending_iff (hserved : Served s) (h : Phase s) {job : ServeJob}
    (hw : s.worker = .ending job) : Answered client ⟨s.asked, s.wire⟩ ↔
      ∀ conn, s.wire.attached = some conn → conn ∉ s.wire.closed →
        (∃ asker ∈ s.asked, SameClient client asker conn) → MayAnswer s := by
  rw [Phase,hw] at h
  refine forall₄_congr (fun conn ha hopen hasked => ?_)
  constructor
  · rintro ⟨f,hlast,hends,_⟩
    refine Classical.not_not.mp (fun hn => ?_)
    have hnot := h.2 hn f (List.mem_of_getLast? hlast)
    rw [hends] at hnot
    cases hnot
  · intro hmay
    obtain ⟨f,hlast,hends⟩ := h.1 hmay
    exact ⟨f,hlast,hends,delivered_ending hserved hw ha hopen (List.mem_of_getLast? hlast)⟩

theorem allAnswered_step (hserved : Served s) (hphase : Phase s) (h : AllAnswered client s) :
    AllAnswered client (step client s e) ↔ HeardInTime client s e := by
  constructor
  · rintro hnext job conn rfl hw
    have hends : (step client s .finishTurn).ends = s.ends ++ [⟨s.asked, s.wire⟩] := by
      simp [step,Serving.finishTurn,hw]
    have hlast := hnext ⟨s.asked, s.wire⟩ (by rw [hends]; simp)
    exact (answered_ending_iff hserved hphase hw).mp hlast conn
  · intro hheard
    rcases ends_did (did_step client s e) with hsame | ⟨job,he,hw,hlog⟩
    · rw [AllAnswered,hsame]
      exact h
    · intro t ht
      rw [hlog] at ht
      rcases List.mem_append.mp ht with ht | ht
      · exact h t ht
      · rw [List.mem_singleton.mp ht]
        exact (answered_ending_iff hserved hphase hw).mpr (fun conn => hheard job conn he hw)

theorem cancel_answered_iff (client : Nat → String) (os : List ServeEvent) :
    (∀ t ∈ Run.visited (step client) {} os, AllAnswered client t) ↔
      Run.Along (step client) (HeardInTime client) {} os := by
  have hinv :
      ∀ s e, Served s ∧ Phase s → True → Served (step client s e) ∧ Phase (step client s e) :=
    fun s e h _ => ⟨served_step h.1 e,phase_did h.1 h.2 (did_step client s e)⟩
  have hgood : ∀ s e, Served s ∧ Phase s → True → AllAnswered client s →
      (AllAnswered client (step client s e) ↔ HeardInTime client s e) :=
    fun s e h _ => allAnswered_step h.1 h.2
  have hstart : AllAnswered client ({} : Serving) := fun t ht => by cases ht
  exact Run.visited_good_iff hinv hgood ⟨served_start,trivial⟩ hstart (Run.along_true _ os)

def bareRuntime : Runtime := { agents := ⟨"", [], []⟩, toolbox := ⟨none, []⟩ }

-- The page reopens its socket mid-turn and presses stop on the new one.
def cancelledAfterReopening : List ServeEvent :=
  [.attach 0, .snapshot, .enter, .submit 0, .take, .openTurn, .arm, .attach 1, .snapshot, .enter,
    .cancel 1, .collect bareRuntime {}, .release, .look, .finishTurn]

theorem cancel_after_reopening_unanswered :
    ¬ AllAnswered (fun _ => "tab") (cancelledAfterReopening.foldl (step (fun _ => "tab")) {}) := by
  have hends : ∃ w : Wire, (cancelledAfterReopening.foldl (step (fun _ => "tab")) {}).ends = [⟨[1], w⟩] ∧
      w.attached = some 1 ∧ w.closed = [] ∧ w.current = [] := ⟨_,rfl,rfl,rfl,rfl⟩
  obtain ⟨w,hends,hattached,hclosed,hcurrent⟩ := hends
  intro h
  obtain ⟨f,hlast,_⟩ := h ⟨[1],w⟩ (by rw [hends]; simp) 1 hattached (by simp [hclosed])
    ⟨1,by simp,.inl rfl⟩
  simp [hcurrent] at hlast

end Serving

end PuCli
