import PuCli.Library.Run
import PuCli.App.SessionRunner

namespace PuCli

-- A frame with the turn that produced it and its place in the order frames were produced.
structure WireFrame where
  turn : Nat
  serial : Nat
  frame : Frame
  deriving DecidableEq

inductive Hand where
  | rest
  | recorded (f : WireFrame)
  | aimed (f : WireFrame) (target : Option Nat)
  deriving DecidableEq

inductive IoThread where
  | free
  | claimed (conn : Nat)
  | replaying (conn : Nat) (pending : List WireFrame)
  | closing (conn : Nat)
  | unflagged (conn : Nat)
  | left (conn : Nat)
  deriving DecidableEq

structure Wire where
  turns : List (List WireFrame) := []
  turn : Nat := 0
  said : Nat := 0
  attached : Option Nat := none
  seen : List Nat := []
  closed : List Nat := []
  onPage : List Nat := []
  posted : List (Nat × WireFrame) := []
  hand : Hand := .rest
  io : IoThread := .free

inductive WireEvent where
  | begin
  | record (frame : Frame)
  | aim
  | send
  | attach (conn : Nat)
  | snapshot
  | replay
  | enter
  | finish (conn : Nat)
  | unflag
  | detach
  | settle
  deriving DecidableEq

namespace Wire

def kTurnsKept : Nat := 8

def keepNewest (turns : List (List WireFrame)) : List (List WireFrame) :=
  turns.drop (turns.length - kTurnsKept)

def begin (w : Wire) : Wire :=
  match w.hand with
  | .rest => { w with turns := keepNewest (w.turns ++ [[]]), turn := w.turn + 1 }
  | _ => w

def pushBack (f : WireFrame) : List (List WireFrame) → List (List WireFrame)
  | [] => []
  | [frames] => [frames ++ [f]]
  | frames :: turns => frames :: pushBack f turns

-- AppendFrame: the record takes the frame, then the attached socket is read, then it is sent to.
def record (w : Wire) (frame : Frame) : Wire :=
  match w.hand with
  | .rest =>
      let f : WireFrame := ⟨w.turn, w.said, frame⟩
      { w with turns := pushBack f w.turns, said := w.said + 1, hand := .recorded f }
  | _ => w

def aim (w : Wire) : Wire :=
  match w.hand, w.io with
  | .recorded _, .claimed _ => w
  | .recorded f, _ => { w with hand := .aimed f w.attached }
  | _, _ => w

def post (w : Wire) (conn : Nat) (f : WireFrame) : Wire :=
  { w with posted := if conn ∈ w.closed then w.posted else w.posted ++ [(conn, f)] }

def send (w : Wire) : Wire :=
  match w.hand with
  | .aimed f (some conn) => { w.post conn f with hand := .rest }
  | .aimed _ none => { w with hand := .rest }
  | _ => w

variable (client : Nat → String)

def samePage (conn other : Nat) : Bool := client conn ≠ "" && client conn = client other

def live (w : Wire) (conn : Nat) : Bool := conn ∉ w.closed && conn ∈ w.onPage

def accepts (w : Wire) (conn : Nat) : Bool :=
  match w.attached with
  | none => true
  | some current => current = conn || !w.live current || samePage client conn current

def dropFlag (w : Wire) : Option Nat → List Nat
  | none => w.onPage
  | some current => w.onPage.filter (fun c => c ≠ current)

-- Attach holds attach_mutex_ from here to its snapshot.
def attach (w : Wire) (conn : Nat) : Wire :=
  if w.io = .free ∧ conn ∉ w.seen then
    let w := { w with seen := w.seen ++ [conn] }
    if w.accepts client conn then
      { w with onPage := w.dropFlag w.attached, attached := some conn, io := .claimed conn }
    else w
  else w

def framesForNextPage (w : Wire) : List WireFrame := (w.turns.drop (w.turns.length - 2)).flatten

def snapshot (w : Wire) : Wire :=
  match w.io with
  | .claimed conn => { w with io := .replaying conn w.framesForNextPage }
  | _ => w

def replay (w : Wire) : Wire :=
  match w.io with
  | .replaying conn (f :: pending) => { w.post conn f with io := .replaying conn pending }
  | _ => w

def enter (w : Wire) : Wire :=
  match w.io with
  | .replaying conn [] => { w with onPage := w.onPage ++ [conn], io := .free }
  | _ => w

def finish (w : Wire) (conn : Nat) : Wire :=
  if w.io = .free ∧ conn ∈ w.seen ∧ conn ∉ w.closed then
    { w with closed := w.closed ++ [conn], io := .closing conn }
  else w

def unflag (w : Wire) : Wire :=
  match w.io with
  | .closing conn => { w with onPage := w.dropFlag (some conn), io := .unflagged conn }
  | _ => w

def detach (w : Wire) : Wire :=
  match w.io with
  | .unflagged conn =>
      if w.attached = some conn then { w with attached := none, io := .left conn }
      else { w with io := .free }
  | _ => w

def settle (w : Wire) : Wire :=
  match w.io with
  | .left _ => { w with io := .free }
  | _ => w

def step (w : Wire) : WireEvent → Wire
  | .begin => w.begin
  | .record frame => w.record frame
  | .aim => w.aim
  | .send => w.send
  | .attach conn => w.attach client conn
  | .snapshot => w.snapshot
  | .replay => w.replay
  | .enter => w.enter
  | .finish conn => w.finish conn
  | .unflag => w.unflag
  | .detach => w.detach
  | .settle => w.settle

def current (w : Wire) : List WireFrame := w.turns.getLast?.getD []

def inbox (w : Wire) (conn : Nat) : List WireFrame :=
  (w.posted.filter (fun p => p.1 = conn)).map Prod.snd

def due (w : Wire) (conn : Nat) : List WireFrame :=
  match w.io with
  | .replaying c pending => if c = conn then pending else []
  | _ => []

def bound (w : Wire) (conn : Nat) : List WireFrame :=
  match w.hand with
  | .rest => []
  | .recorded f => if w.attached = some conn then [f] else []
  | .aimed f target => if target = some conn then [f] else []

def ofTurn (turn : Nat) (frames : List WireFrame) : List WireFrame :=
  frames.filter (fun f => f.turn = turn)

def read (w : Wire) (conn : Nat) : List WireFrame := ofTurn w.turn (w.inbox conn)

def onWay (w : Wire) (conn : Nat) : List WireFrame :=
  ofTurn w.turn (w.inbox conn ++ w.due conn ++ w.bound conn)

def held : Hand → Option WireFrame
  | .rest => none
  | .recorded f => some f
  | .aimed f _ => some f

structure Kept (w : Wire) : Prop where
  sorted : w.current.Pairwise (fun a b => a.serial < b.serial)
  tags : ∀ f ∈ w.current, f.turn = w.turn ∧ f.serial < w.said
  older : ∀ frames ∈ w.turns.dropLast, ∀ f ∈ frames, f.turn < w.turn
  hand : ∀ f, held w.hand = some f → f.turn = w.turn ∧ (w.turns ≠ [] → f ∈ w.current) ∧
    ∀ g ∈ w.current, g.serial ≤ f.serial

variable {client : Nat → String} {w w' : Wire} {e : WireEvent}

inductive Did (client : Nat → String) (w : Wire) : WireEvent → Wire → Prop where
  | idle (e : WireEvent) : Did client w e w
  | begin : w.hand = .rest →
      Did client w .begin { w with turns := keepNewest (w.turns ++ [[]]), turn := w.turn + 1 }
  | record (frame : Frame) : w.hand = .rest →
      Did client w (.record frame) { w with
        turns := pushBack ⟨w.turn, w.said, frame⟩ w.turns
        said := w.said + 1
        hand := .recorded ⟨w.turn, w.said, frame⟩ }
  | aim (f : WireFrame) : w.hand = .recorded f → (∀ conn, w.io ≠ .claimed conn) →
      Did client w .aim { w with hand := .aimed f w.attached }
  | send (f : WireFrame) (conn : Nat) : w.hand = .aimed f (some conn) →
      Did client w .send { w.post conn f with hand := .rest }
  | keep (f : WireFrame) : w.hand = .aimed f none → Did client w .send { w with hand := .rest }
  | refuse (conn : Nat) : w.io = .free → conn ∉ w.seen → w.accepts client conn = false →
      Did client w (.attach conn) { w with seen := w.seen ++ [conn] }
  | claim (conn : Nat) : w.io = .free → conn ∉ w.seen → w.accepts client conn = true →
      Did client w (.attach conn) { w with
        seen := w.seen ++ [conn]
        onPage := w.dropFlag w.attached
        attached := some conn
        io := .claimed conn }
  | snapshot (conn : Nat) : w.io = .claimed conn →
      Did client w .snapshot { w with io := .replaying conn w.framesForNextPage }
  | replay (conn : Nat) (f : WireFrame) (pending : List WireFrame) : w.io = .replaying conn (f :: pending) →
      Did client w .replay { w.post conn f with io := .replaying conn pending }
  | enter (conn : Nat) : w.io = .replaying conn [] →
      Did client w .enter { w with onPage := w.onPage ++ [conn], io := .free }
  | finish (conn : Nat) : w.io = .free → conn ∈ w.seen → conn ∉ w.closed →
      Did client w (.finish conn) { w with closed := w.closed ++ [conn], io := .closing conn }
  | unflag (conn : Nat) : w.io = .closing conn →
      Did client w .unflag { w with onPage := w.dropFlag (some conn), io := .unflagged conn }
  | detach (conn : Nat) : w.io = .unflagged conn → w.attached = some conn →
      Did client w .detach { w with attached := none, io := .left conn }
  | outlive (conn : Nat) : w.io = .unflagged conn → w.attached ≠ some conn →
      Did client w .detach { w with io := .free }
  | settle (conn : Nat) : w.io = .left conn → Did client w .settle { w with io := .free }

theorem did_step (client : Nat → String) (w : Wire) (e : WireEvent) :
    Did client w e (step client w e) := by
  cases e with
  | begin =>
      simp only [step,Wire.begin]
      split
      · next hh => exact .begin hh
      · exact .idle _
  | record frame =>
      simp only [step,Wire.record]
      split
      · next hh => exact .record frame hh
      · exact .idle _
  | aim =>
      simp only [step,Wire.aim]
      split
      · exact .idle _
      · next io f hh hio => exact .aim f hh (fun conn hc => hio conn hc)
      · exact .idle _
  | send =>
      simp only [step,Wire.send]
      split
      · next f conn hh => exact .send f conn hh
      · next f hh => exact .keep f hh
      · exact .idle _
  | attach conn =>
      simp only [step,Wire.attach]
      split
      · next hfree =>
          split
          · next ha => exact .claim conn hfree.1 hfree.2 ha
          · next ha => exact .refuse conn hfree.1 hfree.2 (Bool.eq_false_iff.mpr ha)
      · exact .idle _
  | snapshot =>
      simp only [step,Wire.snapshot]
      split
      · next conn hio => exact .snapshot conn hio
      · exact .idle _
  | replay =>
      simp only [step,Wire.replay]
      split
      · next conn f pending hio => exact .replay conn f pending hio
      · exact .idle _
  | enter =>
      simp only [step,Wire.enter]
      split
      · next conn hio => exact .enter conn hio
      · exact .idle _
  | finish conn =>
      simp only [step,Wire.finish]
      split
      · next hfree => exact .finish conn hfree.1 hfree.2.1 hfree.2.2
      · exact .idle _
  | unflag =>
      simp only [step,Wire.unflag]
      split
      · next conn hio => exact .unflag conn hio
      · exact .idle _
  | detach =>
      simp only [step,Wire.detach]
      split
      · next conn hio =>
          split
          · next ha => exact .detach conn hio ha
          · next ha => exact .outlive conn hio ha
      · exact .idle _
  | settle =>
      simp only [step,Wire.settle]
      split
      · next conn hio => exact .settle conn hio
      · exact .idle _

structure SameTurns (w w' : Wire) : Prop where
  turns : w'.turns = w.turns
  turn : w'.turn = w.turn
  said : w'.said = w.said
  hand : ∀ f, held w'.hand = some f → held w.hand = some f

theorem sameTurns_did (hd : Did client w e w') (hb : e ≠ .begin) (hr : ∀ frame, e ≠ .record frame) :
    SameTurns w w' := by
  cases hd with
  | begin _ => exact absurd rfl hb
  | record frame _ => exact absurd rfl (hr frame)
  | aim f hh _ => exact ⟨rfl,rfl,rfl,fun g hg => by rw [hh]; exact hg⟩
  | send f conn _ => exact ⟨rfl,rfl,rfl,fun g hg => by cases hg⟩
  | keep f _ => exact ⟨rfl,rfl,rfl,fun g hg => by cases hg⟩
  | _ => exact ⟨rfl,rfl,rfl,fun _ => id⟩

theorem Kept.same (h : Kept w) (hs : SameTurns w w') : Kept w' := by
  have hcurrent : w'.current = w.current := by simp [current,hs.turns]
  refine ⟨by rw [hcurrent]; exact h.sorted,?_,?_,?_⟩
  · rw [hcurrent,hs.turn,hs.said]
    exact h.tags
  · rw [hs.turns,hs.turn]
    exact h.older
  · intro f hf
    rw [hcurrent,hs.turns,hs.turn]
    exact h.hand f (hs.hand f hf)

theorem pushBack_concat (f : WireFrame) (turns : List (List WireFrame)) (frames : List WireFrame) :
    pushBack f (turns ++ [frames]) = turns ++ [frames ++ [f]] := by
  induction turns with
  | nil => rfl
  | cons first turns ih =>
      cases turns with
      | nil => rfl
      | cons second turns =>
          rw [List.cons_append,List.cons_append,pushBack]
          · exact congrArg (first :: ·) ih
          · intro h
            cases h

theorem record_turns (hh : w.hand = .rest) (frame : Frame) :
    (w.record frame).current = w.current ++ (if w.turns = [] then [] else [⟨w.turn, w.said, frame⟩]) ∧
      (w.record frame).turns.dropLast = w.turns.dropLast ∧
      ((w.record frame).turns = [] ↔ w.turns = []) := by
  simp only [record,hh,current]
  rcases List.eq_nil_or_concat w.turns with ht | ⟨turns,frames,ht⟩
  · simp [ht,pushBack]
  · rw [List.concat_eq_append] at ht
    simp [ht,pushBack_concat]

theorem keepNewest_concat (turns : List (List WireFrame)) (frames : List WireFrame) :
    ∃ k, keepNewest (turns ++ [frames]) = turns.drop k ++ [frames] := by
  refine ⟨turns.length + 1 - kTurnsKept,?_⟩
  rw [keepNewest,List.length_append,List.length_singleton,List.drop_append_of_le_length]
  simp only [kTurnsKept]
  omega

theorem older_or_current {frames : List WireFrame} (hf : frames ∈ w.turns) :
    frames ∈ w.turns.dropLast ∨ frames = w.current := by
  rcases List.eq_nil_or_concat w.turns with ht | ⟨turns,last,ht⟩
  · rw [ht] at hf
    cases hf
  · rw [List.concat_eq_append] at ht
    rw [ht] at hf
    rcases List.mem_append.mp hf with hf | hf
    · exact .inl (by simpa [ht] using hf)
    · exact .inr (by simpa [current,ht] using hf)

theorem Kept.turn_le (h : Kept w) : ∀ frames ∈ w.turns, ∀ f ∈ frames, f.turn ≤ w.turn := by
  intro frames hf f hmem
  rcases older_or_current hf with hf | rfl
  · exact Nat.le_of_lt (h.older frames hf f hmem)
  · exact Nat.le_of_eq (h.tags f hmem).1

theorem kept_begin (h : Kept w) : Kept w.begin := by
  unfold begin
  split
  · next hh =>
      obtain ⟨k,hk⟩ := keepNewest_concat w.turns []
      have hcurrent :
          Wire.current { w with turns := keepNewest (w.turns ++ [[]]), turn := w.turn + 1 } = [] := by
        simp [current,hk]
      refine ⟨?_,?_,?_,?_⟩
      · rw [hcurrent]
        exact .nil
      · rw [hcurrent]
        intro f hf
        cases hf
      · intro frames hf f hmem
        simp only [hk,List.dropLast_concat] at hf
        exact Nat.lt_succ_of_le (h.turn_le frames (List.mem_of_mem_drop hf) f hmem)
      · intro f hf
        simp only [hh,held] at hf
        cases hf
  · exact h

theorem kept_record (h : Kept w) (frame : Frame) : Kept (w.record frame) := by
  by_cases hh : w.hand = .rest
  · obtain ⟨hcurrent,hlast,hnil⟩ := record_turns hh frame
    have hturn : (w.record frame).turn = w.turn := by simp [record,hh]
    have hsaid : (w.record frame).said = w.said + 1 := by simp [record,hh]
    have hhand : (w.record frame).hand = .recorded ⟨w.turn, w.said, frame⟩ := by simp [record,hh]
    have hnew : ∀ f ∈ (w.record frame).current, f ∈ w.current ∨ f = ⟨w.turn, w.said, frame⟩ := by
      intro f hf
      rw [hcurrent] at hf
      rcases List.mem_append.mp hf with hf | hf
      · exact .inl hf
      · split at hf
        · cases hf
        · exact .inr (List.mem_singleton.mp hf)
    refine ⟨?_,?_,?_,?_⟩
    · rw [hcurrent,List.pairwise_append]
      refine ⟨h.sorted,?_,?_⟩
      · split <;> simp
      · intro f hf g hg
        split at hg
        · cases hg
        · rw [List.mem_singleton.mp hg]
          exact (h.tags f hf).2
    · rw [hturn,hsaid]
      intro f hf
      rcases hnew f hf with hf | rfl
      · exact ⟨(h.tags f hf).1,Nat.lt_succ_of_lt (h.tags f hf).2⟩
      · exact ⟨rfl,Nat.lt_succ_self _⟩
    · rw [hlast,hturn]
      exact h.older
    · intro f hf
      rw [hhand] at hf
      obtain rfl := (Option.some.inj hf).symm
      refine ⟨hturn.symm,?_,?_⟩
      · intro hne
        rw [hcurrent,if_neg (fun he => hne (hnil.mpr he))]
        simp
      · intro g hg
        rcases hnew g hg with hg | rfl
        · exact Nat.le_of_lt (h.tags g hg).2
        · exact Nat.le_refl _
  · unfold record
    split
    · next hr => exact absurd hr hh
    · exact h

theorem kept_step (h : Kept w) (e : WireEvent) : Kept (step client w e) := by
  by_cases hb : e = .begin
  · rw [hb]
    exact kept_begin h
  · by_cases hr : ∃ frame, e = .record frame
    · obtain ⟨frame,rfl⟩ := hr
      exact kept_record h frame
    · exact h.same (sameTurns_did (did_step client w e) hb (fun frame he => hr ⟨frame,he⟩))

def Known (w : Wire) (f : WireFrame) : Prop :=
  f.turn ≤ w.turn ∧ (f.turn = w.turn → w.turns ≠ [] → f ∈ w.current)

theorem Known.same {w' : Wire} {f : WireFrame} (hs : SameTurns w w') (h : Known w f) :
    Known w' f := by
  unfold Known current
  rw [hs.turns,hs.turn]
  exact h

theorem known_begin {f : WireFrame} (h : Known w f) : Known w.begin f := by
  unfold begin
  split
  · exact ⟨Nat.le_succ_of_le h.1,fun hf => absurd hf (Nat.ne_of_lt (Nat.lt_succ_of_le h.1))⟩
  · exact h

theorem known_record {f : WireFrame} (h : Known w f) (frame : Frame) :
    Known (w.record frame) f := by
  by_cases hh : w.hand = .rest
  · obtain ⟨hcurrent,_,hnil⟩ := record_turns hh frame
    have hturn : (w.record frame).turn = w.turn := by simp [record,hh]
    rw [Known,hturn,hcurrent]
    exact ⟨h.1,fun ht hne => List.mem_append_left _ (h.2 ht (fun he => hne (hnil.mpr he)))⟩
  · unfold record
    split
    · next hr => exact absurd hr hh
    · exact h

theorem known_step {f : WireFrame} (h : Known w f) (e : WireEvent) : Known (step client w e) f := by
  by_cases hb : e = .begin
  · rw [hb]
    exact known_begin h
  · by_cases hr : ∃ frame, e = .record frame
    · obtain ⟨frame,rfl⟩ := hr
      exact known_record h frame
    · exact h.same (sameTurns_did (did_step client w e) hb (fun frame he => hr ⟨frame,he⟩))

theorem Kept.known (h : Kept w) {frames : List WireFrame} (hf : frames ∈ w.turns) {f : WireFrame}
    (hmem : f ∈ frames) : Known w f := by
  refine ⟨h.turn_le frames hf f hmem,fun hturn _ => ?_⟩
  rcases older_or_current hf with hf | rfl
  · exact absurd hturn (Nat.ne_of_lt (h.older frames hf f hmem))
  · exact hmem

structure Carried (w : Wire) : Prop where
  posted : ∀ p ∈ w.posted, Known w p.2
  pending : ∀ conn pending, w.io = .replaying conn pending → ∀ f ∈ pending, Known w f

theorem posted_post (w : Wire) (conn : Nat) (f : WireFrame) (p : Nat × WireFrame)
    (hp : p ∈ (w.post conn f).posted) : p ∈ w.posted ∨ p = (conn, f) := by
  simp only [post] at hp
  split at hp
  · exact .inl hp
  · exact (List.mem_append.mp hp).imp_right List.mem_singleton.mp

-- What a step posts: a frame the worker aimed, or the next one to be replayed.
theorem posted_did (hd : Did client w e w') (p : Nat × WireFrame) (hp : p ∈ w'.posted) :
    p ∈ w.posted ∨ w.hand = .aimed p.2 (some p.1) ∨ ∃ pending, w.io = .replaying p.1 (p.2 :: pending) := by
  cases hd with
  | send f conn hh =>
      rcases posted_post w conn f p hp with hp | rfl
      · exact .inl hp
      · exact .inr (.inl hh)
  | replay conn f pending hio =>
      rcases posted_post w conn f p hp with hp | rfl
      · exact .inl hp
      · exact .inr (.inr ⟨pending,hio⟩)
  | _ => exact .inl hp

theorem replaying_did (hd : Did client w e w') {conn : Nat} {pending : List WireFrame}
    (hio : w'.io = .replaying conn pending) :
    w.io = .replaying conn pending ∨ (∃ f, w.io = .replaying conn (f :: pending)) ∨
      w.io = .claimed conn ∧ pending = w.framesForNextPage := by
  cases hd with
  | replay c f rest hr =>
      cases hio
      exact .inr (.inl ⟨f,hr⟩)
  | snapshot c hc =>
      cases hio
      exact .inr (.inr ⟨hc,rfl⟩)
  | idle e => exact .inl hio
  | begin _ => exact .inl hio
  | record frame _ => exact .inl hio
  | aim f _ _ => exact .inl hio
  | send f c _ => exact .inl hio
  | keep f _ => exact .inl hio
  | refuse c _ _ _ => exact .inl hio
  | _ => cases hio

theorem carried_step (hk : Kept w) (h : Carried w) (e : WireEvent) : Carried (step client w e) := by
  have hd := did_step client w e
  have hknown : ∀ f, Known w f → Known (step client w e) f := fun f hf => known_step hf e
  refine ⟨fun p hp => hknown p.2 ?_,fun conn pending hio f hf => hknown f ?_⟩
  · rcases posted_did hd p hp with hp | hh | ⟨pending,hio⟩
    · exact h.posted p hp
    · have hf := hk.hand p.2 (by rw [hh]; rfl)
      exact ⟨Nat.le_of_eq hf.1,fun _ => hf.2.1⟩
    · exact h.pending p.1 _ hio p.2 (by simp)
  · rcases replaying_did hd hio with hr | ⟨g,hr⟩ | ⟨_,rfl⟩
    · exact h.pending conn pending hr f hf
    · exact h.pending conn _ hr f (List.mem_cons_of_mem _ hf)
    · obtain ⟨frames,hframes,hf⟩ := List.mem_flatten.mp hf
      exact hk.known (List.mem_of_mem_drop hframes) hf

structure Seated (w : Wire) : Prop where
  attached : ∀ conn, w.attached = some conn → conn ∈ w.seen
  posted : ∀ p ∈ w.posted, p.1 ∈ w.seen
  replaying : ∀ conn pending, w.io = .replaying conn pending → conn ∈ w.seen
  aimed : ∀ f conn, w.hand = .aimed f (some conn) → conn ∈ w.seen
  claimed : ∀ conn, w.io = .claimed conn → w.attached = some conn ∧ (∀ p ∈ w.posted, p.1 ≠ conn) ∧
    ∀ f, w.hand ≠ .aimed f (some conn)

theorem Seated.posted_seen (h : Seated w) (hd : Did client w e w') :
    ∀ p ∈ w'.posted, p.1 ∈ w.seen := by
  intro p hp
  rcases posted_did hd p hp with hp | hh | ⟨pending,hio⟩
  · exact h.posted p hp
  · exact h.aimed p.2 p.1 hh
  · exact h.replaying p.1 _ hio

-- Steps after which the io thread holds no claim, and no socket is newly attached or aimed at.
theorem seated_settled (h : Seated w) (hposted : ∀ p ∈ w'.posted, p.1 ∈ w.seen)
    (hseen : ∀ conn ∈ w.seen, conn ∈ w'.seen)
    (hattached : ∀ conn, w'.attached = some conn → w.attached = some conn)
    (hhand : ∀ f conn, w'.hand = .aimed f (some conn) → conn ∈ w.seen)
    (hreplaying : ∀ conn pending, w'.io = .replaying conn pending → conn ∈ w.seen)
    (hfree : ∀ conn, w'.io ≠ .claimed conn) : Seated w' :=
  ⟨fun conn hc => hseen conn (h.attached conn (hattached conn hc)),
    fun p hp => hseen p.1 (hposted p hp),
    fun conn pending hio => hseen conn (hreplaying conn pending hio),
    fun f conn hh => hseen conn (hhand f conn hh),fun conn hc => absurd hc (hfree conn)⟩

theorem seated_did (h : Seated w) (hd : Did client w e w') : Seated w' := by
  have hposted := h.posted_seen hd
  cases hd with
  | idle e => exact h
  | begin hh => exact ⟨h.attached,h.posted,h.replaying,h.aimed,h.claimed⟩
  | record frame hh =>
      exact ⟨h.attached,h.posted,h.replaying,fun f conn hf => (by cases hf),fun conn hc =>
        ⟨(h.claimed conn hc).1,(h.claimed conn hc).2.1,fun f hf => by cases hf⟩⟩
  | aim f hh hio =>
      refine seated_settled h hposted (fun _ => id) (fun _ => id) ?_ h.replaying hio
      intro g conn hg
      exact h.attached conn (Hand.aimed.inj hg).2
  | send f conn hh =>
      refine ⟨h.attached,hposted,h.replaying,fun g c hg => (by cases hg),?_⟩
      intro c hc
      refine ⟨(h.claimed c hc).1,?_,fun g hg => by cases hg⟩
      intro p hp hsame
      rcases posted_post w conn f p hp with hp | rfl
      · exact (h.claimed c hc).2.1 p hp hsame
      · exact (h.claimed c hc).2.2 f (by rw [← hsame]; exact hh)
  | keep f hh =>
      exact ⟨h.attached,h.posted,h.replaying,fun g conn hg => (by cases hg),fun conn hc =>
        ⟨(h.claimed conn hc).1,(h.claimed conn hc).2.1,fun f hf => by cases hf⟩⟩
  | refuse conn hio hs ha =>
      exact seated_settled h hposted (fun c hc => List.mem_append_left _ hc) (fun _ => id) h.aimed
        h.replaying (fun c hc => by rw [hio] at hc; cases hc)
  | claim conn hio hs ha =>
      refine ⟨?_,?_,fun c pending hc => (by cases hc),?_,?_⟩
      · intro c hc
        cases hc
        simp
      · exact fun p hp => List.mem_append_left _ (h.posted p hp)
      · exact fun f c hc => List.mem_append_left _ (h.aimed f c hc)
      · intro c hc
        cases hc
        exact ⟨rfl,fun p hp hsame => hs (hsame ▸ h.posted p hp),fun f hf => hs (h.aimed f conn hf)⟩
  | snapshot conn hio =>
      refine seated_settled h hposted (fun _ => id) (fun _ => id) h.aimed ?_ (fun c hc => by cases hc)
      intro c pending hc
      cases hc
      exact h.attached conn (h.claimed conn hio).1
  | replay conn f pending hio =>
      refine seated_settled h hposted (fun _ => id) (fun _ => id) h.aimed ?_ (fun c hc => by cases hc)
      intro c rest hc
      cases hc
      exact h.replaying conn _ hio
  | detach conn hio ha =>
      exact seated_settled h hposted (fun _ => id) (fun c hc => by cases hc) h.aimed
        (fun c pending hc => by cases hc) (fun c hc => by cases hc)
  | _ =>
      exact seated_settled h hposted (fun _ => id) (fun _ => id) h.aimed
        (fun c pending hc => by cases hc) (fun c hc => by cases hc)

theorem mem_inbox {conn : Nat} {f : WireFrame} : f ∈ w.inbox conn ↔ (conn, f) ∈ w.posted := by
  simp [inbox]

theorem mem_post {conn c : Nat} {f g : WireFrame} (hopen : conn ∉ w.closed) :
    (conn, g) ∈ (w.post c f).posted ↔ (conn, g) ∈ w.posted ∨ conn = c ∧ g = f := by
  simp only [post]
  split
  · next hc =>
      refine ⟨.inl,?_⟩
      rintro (h | ⟨rfl,rfl⟩)
      · exact h
      · exact absurd hc hopen
  · simp

def Lands (w : Wire) (conn : Nat) (f : WireFrame) : Prop :=
  (conn, f) ∈ w.posted ∨ f ∈ w.due conn ∨ f ∈ w.bound conn

theorem mem_onWay {conn : Nat} {f : WireFrame} :
    f ∈ w.onWay conn ↔ w.Lands conn f ∧ f.turn = w.turn := by
  simp only [onWay,ofTurn,Lands,List.mem_filter,List.mem_append,mem_inbox,or_assoc,decide_eq_true_eq]

-- Whatever the turn has said is with the attached socket, in its replay, or in the worker's hand.
def NoLoss (w : Wire) : Prop :=
  ∀ conn, w.attached = some conn → conn ∉ w.closed → w.io ≠ .claimed conn →
    ∀ f ∈ w.current, w.Lands conn f

theorem current_subset_framesForNextPage {f : WireFrame} (hf : f ∈ w.current) :
    f ∈ w.framesForNextPage := by
  rcases List.eq_nil_or_concat w.turns with ht | ⟨turns,last,ht⟩
  · simp [current,ht] at hf
  · rw [List.concat_eq_append] at ht
    have hlast : f ∈ last := by simpa [current,ht] using hf
    rw [framesForNextPage,ht,List.drop_append_of_le_length (by simp)]
    simp [hlast]

theorem lands_idle {conn : Nat} {f : WireFrame} (hdue : w.due conn = [])
    (hposted : w'.posted = w.posted)
    (hhand : w'.hand = w.hand) (hattached : w'.attached = w.attached) (h : w.Lands conn f) :
    w'.Lands conn f := by
  rcases h with hp | hd | hb
  · exact .inl (hposted ▸ hp)
  · rw [hdue] at hd
    cases hd
  · refine .inr (.inr ?_)
    simpa only [bound,hhand,hattached] using hb

theorem noLoss_did (hs : Seated w) (h : NoLoss w) (hd : Did client w e w') : NoLoss w' := by
  intro conn hattached hopen hio f hf
  cases hd with
  | idle e => exact h conn hattached hopen hio f hf
  | begin hh =>
      obtain ⟨k,hk⟩ := keepNewest_concat w.turns []
      simp [current,hk] at hf
  | record frame hh =>
      have hrec := (record_turns hh frame).1
      simp only [Wire.record,hh] at hrec
      rw [hrec] at hf
      rcases List.mem_append.mp hf with hf | hf
      · rcases h conn hattached hopen hio f hf with hp | hd | hb
        · exact .inl hp
        · exact .inr (.inl hd)
        · simp [bound,hh] at hb
      · refine .inr (.inr ?_)
        split at hf
        · cases hf
        · simp only [bound]
          rw [if_pos hattached]
          exact hf
  | aim g hh hfree =>
      rcases h conn hattached hopen hio f hf with hp | hd | hb
      · exact .inl hp
      · exact .inr (.inl hd)
      · refine .inr (.inr ?_)
        simpa [bound,hh] using hb
  | send g c hh =>
      rcases h conn hattached hopen hio f hf with hp | hd | hb
      · exact .inl ((mem_post (w := w) hopen).mpr (.inl hp))
      · exact .inr (.inl hd)
      · refine .inl ((mem_post (w := w) hopen).mpr (.inr ?_))
        simp only [bound,hh] at hb
        split at hb
        · next hc => exact ⟨(Option.some.inj hc).symm,List.mem_singleton.mp hb⟩
        · cases hb
  | keep g hh =>
      rcases h conn hattached hopen hio f hf with hp | hd | hb
      · exact .inl hp
      · exact .inr (.inl hd)
      · simp [bound,hh] at hb
  | refuse c _ _ _ => exact h conn hattached hopen hio f hf
  | claim c hfree hnew ha =>
      cases hattached
      exact absurd rfl hio
  | snapshot c hc =>
      have hsame : conn = c := Option.some.inj (hattached.symm.trans (hs.claimed c hc).1)
      refine .inr (.inl ?_)
      simp only [due]
      rw [if_pos hsame.symm]
      exact current_subset_framesForNextPage hf
  | replay c g pending hr =>
      rcases h conn hattached hopen (by rw [hr]; simp) f hf with hp | hd | hb
      · exact .inl ((mem_post (w := w) hopen).mpr (.inl hp))
      · simp only [due,hr] at hd
        split at hd
        · next hc =>
            rcases List.mem_cons.mp hd with rfl | hd
            · exact .inl ((mem_post (w := w) hopen).mpr (.inr ⟨hc.symm,rfl⟩))
            · refine .inr (.inl ?_)
              simp only [due]
              rw [if_pos hc]
              exact hd
        · cases hd
      · exact .inr (.inr hb)
  | detach c _ _ => cases hattached
  | finish c hfree _ _ =>
      have hbefore : conn ∉ w.closed := fun hc => hopen (List.mem_append_left _ hc)
      exact lands_idle (w := w) (by simp [due,hfree]) rfl rfl rfl
        (h conn hattached hbefore (by rw [hfree]; simp) f hf)
  | enter c hr =>
      exact lands_idle (w := w) (by simp [due,hr]) rfl rfl rfl
        (h conn hattached hopen (by rw [hr]; simp) f hf)
  | unflag c hc =>
      exact lands_idle (w := w) (by simp [due,hc]) rfl rfl rfl
        (h conn hattached hopen (by rw [hc]; simp) f hf)
  | outlive c hc _ =>
      exact lands_idle (w := w) (by simp [due,hc]) rfl rfl rfl
        (h conn hattached hopen (by rw [hc]; simp) f hf)
  | settle c hc =>
      exact lands_idle (w := w) (by simp [due,hc]) rfl rfl rfl
        (h conn hattached hopen (by rw [hc]; simp) f hf)

structure Finishing (w : Wire) : Prop where
  closed : ∀ conn ∈ w.closed, conn ∈ w.seen
  finishing : ∀ conn, w.io = .closing conn ∨ w.io = .unflagged conn → conn ∈ w.closed

theorem finishing_did (h : Finishing w) (hd : Did client w e w') : Finishing w' := by
  cases hd with
  | finish conn hio hs hc =>
      refine ⟨?_,?_⟩
      · intro c hmem
        rcases List.mem_append.mp hmem with hmem | hmem
        · exact h.closed c hmem
        · exact List.mem_singleton.mp hmem ▸ hs
      · rintro c (hc | hc)
        · cases hc
          simp
        · cases hc
  | unflag conn hio =>
      refine ⟨h.closed,?_⟩
      rintro c (hc | hc)
      · cases hc
      · cases hc
        exact h.finishing conn (.inl hio)
  | refuse conn hio hs ha => exact ⟨fun c hc => List.mem_append_left _ (h.closed c hc),h.finishing⟩
  | claim conn hio hs ha =>
      refine ⟨fun c hc => List.mem_append_left _ (h.closed c hc),?_⟩
      rintro c (hc | hc) <;> cases hc
  | idle e => exact h
  | begin _ => exact ⟨h.closed,h.finishing⟩
  | record frame _ => exact ⟨h.closed,h.finishing⟩
  | aim f _ _ => exact ⟨h.closed,h.finishing⟩
  | send f conn _ => exact ⟨h.closed,h.finishing⟩
  | keep f _ => exact ⟨h.closed,h.finishing⟩
  | _ =>
      refine ⟨h.closed,?_⟩
      rintro c (hc | hc) <;> cases hc

structure Wired (w : Wire) : Prop where
  kept : Kept w
  carried : Carried w
  seated : Seated w
  finishing : Finishing w
  noLoss : NoLoss w

theorem wired_start : Wired {} := by
  refine ⟨⟨.nil,?_,?_,?_⟩,⟨?_,?_⟩,⟨?_,?_,?_,?_,?_⟩,⟨?_,?_⟩,?_⟩
  all_goals simp [current,held,NoLoss]

theorem wired_step (h : Wired w) (e : WireEvent) : Wired (step client w e) :=
  ⟨kept_step h.kept e,carried_step h.kept h.carried e,seated_did h.seated (did_step client w e),
    finishing_did h.finishing (did_step client w e),noLoss_did h.seated h.noLoss (did_step client w e)⟩

def Joins (conn : Nat) : WireEvent → Prop
  | .begin => False
  | .attach c => c = conn
  | .finish c => c ≠ conn
  | _ => True

structure Joining (conn : Nat) (w : Wire) : Prop where
  wired : Wired w
  turns : w.turns ≠ []
  opened : conn ∉ w.closed
  outside : w.attached ≠ some conn → (∀ p ∈ w.posted, p.1 ≠ conn) ∧
    (∀ pending, w.io ≠ .replaying conn pending) ∧ ∀ f, w.hand ≠ .aimed f (some conn)

variable {conn : Nat}

theorem joining_of_new (h : Wired w) (hturns : w.turns ≠ []) (hnew : conn ∉ w.seen) :
    Joining conn w :=
  ⟨h,hturns,fun hc => hnew (h.finishing.closed conn hc),fun _ =>
    ⟨fun p hp hsame => hnew (hsame ▸ h.seated.posted p hp),
      fun pending hio => hnew (h.seated.replaying conn pending hio),
      fun f hf => hnew (h.seated.aimed f conn hf)⟩⟩

theorem turns_did (h : w.turns ≠ []) (hd : Did client w e w') : w'.turns ≠ [] := by
  cases hd with
  | begin hh =>
      obtain ⟨k,hk⟩ := keepNewest_concat w.turns []
      simp [hk]
  | record frame hh =>
      have hnil := (record_turns hh frame).2.2
      simp only [Wire.record,hh] at hnil
      exact fun ht => h (hnil.mp ht)
  | _ => exact h

theorem joining_did (h : Joining conn w) (hj : Joins conn e) (hd : Did client w e w')
    (hw : Wired w') : Joining conn w' := by
  refine ⟨hw,turns_did h.turns hd,?_,?_⟩
  · cases hd with
    | finish c hio hs hc =>
        intro hmem
        rcases List.mem_append.mp hmem with hmem | hmem
        · exact h.opened hmem
        · exact hj (List.mem_singleton.mp hmem).symm
    | _ => exact h.opened
  · intro hout
    cases hd with
    | idle e => exact h.outside hout
    | begin hh => exact hj.elim
    | record frame hh =>
        obtain ⟨hp,hr,_⟩ := h.outside hout
        exact ⟨hp,hr,fun f hf => by cases hf⟩
    | aim f hh hio =>
        obtain ⟨hp,hr,_⟩ := h.outside hout
        exact ⟨hp,hr,fun g hg => hout (Hand.aimed.inj hg).2⟩
    | send f c hh =>
        obtain ⟨hp,hr,ha⟩ := h.outside hout
        refine ⟨fun p hmem hsame => ?_,hr,fun g hg => by cases hg⟩
        rcases posted_post w c f p hmem with hmem | rfl
        · exact hp p hmem hsame
        · exact ha f (by rw [hh,← hsame])
    | keep f hh =>
        obtain ⟨hp,hr,_⟩ := h.outside hout
        exact ⟨hp,hr,fun g hg => by cases hg⟩
    | claim c hio hs ha => exact absurd (congrArg some hj) hout
    | snapshot c hio =>
        obtain ⟨hp,_,ha⟩ := h.outside hout
        refine ⟨hp,fun pending hr => ?_,ha⟩
        cases hr
        exact hout (h.wired.seated.claimed conn hio).1
    | replay c f pending hio =>
        obtain ⟨hp,hr,ha⟩ := h.outside hout
        refine ⟨fun p hmem hsame => ?_,fun rest hrest => ?_,ha⟩
        · rcases posted_post w c f p hmem with hmem | rfl
          · exact hp p hmem hsame
          · exact hr _ (by rw [hio,← hsame])
        · cases hrest
          exact hr _ hio
    | detach c hio ha =>
        have hother : w.attached ≠ some conn := by
          rw [ha]
          intro hsame
          cases hsame
          exact h.opened (h.wired.finishing.finishing conn (.inr hio))
        obtain ⟨hp,_,hh⟩ := h.outside hother
        exact ⟨hp,fun pending hr => (by cases hr),hh⟩
    | refuse c _ _ _ => exact h.outside hout
    | _ =>
        obtain ⟨hp,_,ha⟩ := h.outside hout
        exact ⟨hp,fun pending hr => (by cases hr),ha⟩

theorem joining_step (h : Joining conn w) (hj : Joins conn e) : Joining conn (step client w e) :=
  joining_did h hj (did_step client w e) (wired_step h.wired e)

def InOrder (conn : Nat) (w : Wire) : Prop :=
  (w.onWay conn).Pairwise (fun a b => a.serial < b.serial)

-- The replay and the live frames of one turn keep out of each other's way.
def Undisturbed (conn : Nat) (w : Wire) (e : WireEvent) : Prop :=
  (e = .snapshot → w.io = .claimed conn → ∀ f, w.hand ≠ .recorded f) ∧
    (e = .send → ∀ f, w.hand = .aimed f (some conn) → ofTurn w.turn (w.due conn) = [])

theorem onWay_eq (w : Wire) (conn : Nat) : w.onWay conn =
    ofTurn w.turn (w.inbox conn) ++ ofTurn w.turn (w.due conn) ++ ofTurn w.turn (w.bound conn) := by
  simp [onWay,ofTurn]

theorem ofTurn_current (h : Kept w) : ofTurn w.turn w.current = w.current :=
  List.filter_eq_self.mpr (fun f hf => decide_eq_true (h.tags f hf).1)

theorem ofTurn_framesForNextPage (h : Kept w) : ofTurn w.turn w.framesForNextPage = w.current := by
  rcases List.eq_nil_or_concat w.turns with ht | ⟨turns,last,ht⟩
  · simp [framesForNextPage,current,ht,ofTurn]
  · rw [List.concat_eq_append] at ht
    have hlast : w.current = last := by simp [current,ht]
    have holder : ∀ k, ofTurn w.turn (turns.drop k).flatten = [] := by
      intro k
      refine List.filter_eq_nil_iff.mpr (fun f hf => ?_)
      obtain ⟨frames,hframes,hf⟩ := List.mem_flatten.mp hf
      have hlt := h.older frames (by rw [ht]; simpa using List.mem_of_mem_drop hframes) f hf
      simpa using Nat.ne_of_lt hlt
    have hown := ofTurn_current h
    rw [hlast] at hown ⊢
    rw [framesForNextPage,ht,List.drop_append_of_le_length (by simp)]
    simp only [ofTurn,List.flatten_append,List.filter_append,List.flatten_singleton] at holder hown ⊢
    rw [holder,hown,List.nil_append]

theorem bound_length (w : Wire) (conn : Nat) : (w.bound conn).length ≤ 1 := by
  unfold bound
  split
  · simp
  · split <;> simp
  · split <;> simp

theorem inOrder_of_length (h : (w.onWay conn).length ≤ 1) : InOrder conn w := by
  unfold InOrder
  rcases hl : w.onWay conn with _ | ⟨f,_ | ⟨g,rest⟩⟩
  · exact .nil
  · simp
  · rw [hl] at h
    simp at h

theorem inbox_of_none (h : ∀ p ∈ w.posted, p.1 ≠ conn) : w.inbox conn = [] := by
  simp only [inbox,List.map_eq_nil_iff,List.filter_eq_nil_iff,decide_eq_true_eq]
  exact h

theorem onWay_length (hposted : ∀ p ∈ w.posted, p.1 ≠ conn) (hdue : w.due conn = []) :
    (w.onWay conn).length ≤ 1 := by
  rw [onWay_eq,inbox_of_none hposted,hdue]
  exact Nat.le_trans (List.length_filter_le _ _) (bound_length w conn)

theorem inOrder_snapshot (h : Joining conn w) (hio : w.io = .claimed conn) :
    InOrder conn w.snapshot ↔ InOrder conn w ∧ ∀ f, w.hand ≠ .recorded f := by
  obtain ⟨hattached,hposted,haimed⟩ := h.wired.seated.claimed conn hio
  have hbefore : InOrder conn w := inOrder_of_length (onWay_length hposted (by simp [due,hio]))
  have hafter : w.snapshot.onWay conn = w.current ++ ofTurn w.turn (w.bound conn) := by
    have hsnap : w.snapshot = { w with io := .replaying conn w.framesForNextPage } := by
      simp [snapshot,hio]
    rw [hsnap,onWay_eq]
    simp only [due,if_pos]
    rw [ofTurn_framesForNextPage h.wired.kept]
    change ofTurn w.turn (w.inbox conn) ++ w.current ++ ofTurn w.turn (w.bound conn) = _
    rw [inbox_of_none hposted]
    rfl
  rw [InOrder,hafter,List.pairwise_append]
  constructor
  · rintro ⟨_,_,hcross⟩
    refine ⟨hbefore,fun f hf => ?_⟩
    have hhand := h.wired.kept.hand f (by rw [hf]; rfl)
    have hmem : f ∈ ofTurn w.turn (w.bound conn) := by
      simp [ofTurn,bound,hf,hattached,hhand.1]
    exact Nat.lt_irrefl _ (hcross f (hhand.2.1 h.turns) f hmem)
  · rintro ⟨_,hrest⟩
    have hbound : w.bound conn = [] := by
      unfold bound
      split
      · rfl
      · next f hf => exact absurd hf (hrest f)
      · next f target hf =>
          refine if_neg (fun ht => haimed f ?_)
          rw [hf,ht]
    rw [hbound]
    exact ⟨h.wired.kept.sorted,.nil,fun f _ g hg => by cases hg⟩

theorem inbox_post_self (hopen : conn ∉ w.closed) (f : WireFrame) :
    (w.post conn f).inbox conn = w.inbox conn ++ [f] := by
  simp [inbox,post,hopen]

theorem inOrder_send (h : Joining conn w) {f : WireFrame} (hh : w.hand = .aimed f (some conn)) :
    InOrder conn w.send ↔ InOrder conn w ∧ ofTurn w.turn (w.due conn) = [] := by
  have hhand := h.wired.kept.hand f (by rw [hh]; rfl)
  have hfilter : ofTurn w.turn [f] = [f] := by simp [ofTurn,hhand.1]
  have hbefore : w.onWay conn =
      ofTurn w.turn (w.inbox conn) ++ ofTurn w.turn (w.due conn) ++ [f] := by
    rw [onWay_eq]
    simp [bound,hh,hfilter]
  have hafter : w.send.onWay conn =
      ofTurn w.turn (w.inbox conn) ++ [f] ++ ofTurn w.turn (w.due conn) := by
    have hsend : w.send = { w.post conn f with hand := .rest } := by simp [send,hh]
    rw [hsend,onWay_eq]
    change ofTurn w.turn ((w.post conn f).inbox conn) ++ ofTurn w.turn (w.due conn) ++ [] = _
    rw [inbox_post_self h.opened,List.append_nil,← hfilter]
    simp [ofTurn]
  have hpast : ∀ d ∈ ofTurn w.turn (w.due conn), d.serial ≤ f.serial := by
    intro d hd
    obtain ⟨hmem,hturn⟩ := List.mem_filter.mp hd
    unfold due at hmem
    split at hmem
    · next c pending hio =>
        split at hmem
        · exact hhand.2.2 d ((h.wired.carried.pending c pending hio d hmem).2 (by simpa using hturn)
            h.turns)
        · cases hmem
    · cases hmem
  rw [InOrder,InOrder,hafter,hbefore]
  constructor
  · intro hp
    have hnone : ofTurn w.turn (w.due conn) = [] := by
      refine List.eq_nil_iff_forall_not_mem.mpr (fun d hd => ?_)
      have hlt := (List.pairwise_append.mp hp).2.2 f (by simp) d hd
      exact Nat.lt_irrefl _ (Nat.lt_of_lt_of_le hlt (hpast d hd))
    rw [hnone] at hp ⊢
    exact ⟨by simpa using hp,rfl⟩
  · rintro ⟨hp,hnone⟩
    rw [hnone] at hp ⊢
    simpa using hp

theorem lt_said (h : Joining conn w) : ∀ g ∈ w.onWay conn, g.serial < w.said := by
  intro g hg
  obtain ⟨hland,hturn⟩ := mem_onWay.mp hg
  refine (h.wired.kept.tags g ?_).2
  rcases hland with hp | hd | hb
  · exact (h.wired.carried.posted _ hp).2 hturn h.turns
  · unfold due at hd
    split at hd
    · next c pending hio =>
        split at hd
        · exact (h.wired.carried.pending c pending hio g hd).2 hturn h.turns
        · cases hd
    · cases hd
  · have hheld : held w.hand = some g := by
      unfold bound at hb
      split at hb
      · cases hb
      · next f hh =>
          split at hb
          · rw [List.mem_singleton.mp hb,hh]
            rfl
          · cases hb
      · next f target hh =>
          split at hb
          · rw [List.mem_singleton.mp hb,hh]
            rfl
          · cases hb
    exact (h.wired.kept.hand g hheld).2.1 h.turns

theorem inOrder_record (h : Joining conn w) (hh : w.hand = .rest) (frame : Frame) :
    InOrder conn (w.record frame) ↔ InOrder conn w := by
  have hbefore : w.onWay conn = ofTurn w.turn (w.inbox conn) ++ ofTurn w.turn (w.due conn) := by
    rw [onWay_eq]
    simp [bound,hh,ofTurn]
  have hafter : (w.record frame).onWay conn = w.onWay conn ++
      if w.attached = some conn then [⟨w.turn, w.said, frame⟩] else [] := by
    rw [hbefore,onWay_eq]
    simp only [Wire.record,hh]
    change _ ++ _ ++ ofTurn w.turn (if w.attached = some conn then [⟨w.turn, w.said, frame⟩] else []) =
      _ ++ _ ++ _
    congr 1
    split <;> simp [ofTurn]
  rw [InOrder,hafter,List.pairwise_append,InOrder]
  constructor
  · exact fun hp => hp.1
  · intro hp
    refine ⟨hp,?_,fun g hg k hk => ?_⟩
    · split <;> simp
    · split at hk
      · rw [List.mem_singleton.mp hk]
        exact lt_said h g hg
      · cases hk

theorem onWay_congr (hturn : w'.turn = w.turn) (hinbox : w'.inbox conn = w.inbox conn)
    (hdue : w'.due conn = w.due conn) (hbound : w'.bound conn = w.bound conn) :
    w'.onWay conn = w.onWay conn := by
  rw [onWay,onWay,hturn,hinbox,hdue,hbound]

theorem inbox_post_ne {c : Nat} (hne : c ≠ conn) (f : WireFrame) :
    (w.post c f).inbox conn = w.inbox conn := by
  simp only [inbox,post]
  split
  · rfl
  · simp [hne]

theorem onWay_replay (hopen : conn ∉ w.closed) {f : WireFrame} {pending : List WireFrame}
    (hio : w.io = .replaying conn (f :: pending)) :
    Wire.onWay { w.post conn f with io := .replaying conn pending } conn = w.onWay conn := by
  have hcons : ofTurn w.turn (f :: pending) = ofTurn w.turn [f] ++ ofTurn w.turn pending := by
    rw [ofTurn,ofTurn,ofTurn,← List.filter_append,List.singleton_append]
  rw [onWay_eq,onWay_eq]
  change ofTurn w.turn ((w.post conn f).inbox conn) ++ ofTurn w.turn (if conn = conn then pending else []) ++
    ofTurn w.turn (w.bound conn) = _
  simp only [inbox_post_self hopen,due,hio,if_pos,hcons]
  simp [ofTurn]

-- The other steps leave the list of what is on its way to the socket as it is.
theorem onWay_did (h : Joining conn w) (hj : Joins conn e) (hd : Did client w e w')
    (hrecord : ∀ frame, e ≠ .record frame) (hsnap : w.io ≠ .claimed conn ∨ e ≠ .snapshot)
    (hsend : ∀ f, w.hand = .aimed f (some conn) → e ≠ .send) :
    w'.onWay conn = w.onWay conn ∨ (w.onWay conn).length ≤ 1 ∧ (w'.onWay conn).length ≤ 1 := by
  cases hd with
  | idle e => exact .inl rfl
  | begin _ => exact hj.elim
  | record frame _ => exact absurd rfl (hrecord frame)
  | aim f hh hio => exact .inl (onWay_congr rfl rfl rfl (by simp [bound,hh]))
  | send f c hh =>
      have hne : c ≠ conn := fun hc => hsend f (by rw [hh,hc]) rfl
      exact .inl (onWay_congr rfl (inbox_post_ne hne f) rfl (by simp [bound,hh,hne]))
  | keep f hh => exact .inl (onWay_congr rfl rfl rfl (by simp [bound,hh]))
  | refuse c hio hs ha => exact .inl rfl
  | claim c hio hs ha =>
      obtain rfl : c = conn := hj
      have hout : w.attached ≠ some c := fun hc => hs (h.wired.seated.attached c hc)
      obtain ⟨hp,_,_⟩ := h.outside hout
      exact .inr ⟨onWay_length hp (by simp [due,hio]),onWay_length hp rfl⟩
  | snapshot c hio =>
      have hne : c ≠ conn := by
        rintro rfl
        exact hsnap.elim (fun hn => hn hio) (fun hn => hn rfl)
      exact .inl (onWay_congr rfl rfl (by simp [due,hio,hne]) rfl)
  | replay c f pending hio =>
      refine .inl ?_
      by_cases hc : c = conn
      · subst hc
        exact onWay_replay h.opened hio
      · exact onWay_congr rfl (inbox_post_ne hc f) (by simp [due,hio,hc]) rfl
  | detach c hio ha =>
      have hne : c ≠ conn := by
        rintro rfl
        exact h.opened (h.wired.finishing.finishing c (.inr hio))
      exact .inl (onWay_congr rfl rfl (by simp [due,hio]) (by simp [bound,ha,hne]))
  | enter c hio => exact .inl (onWay_congr rfl rfl (by simp [due,hio]) rfl)
  | finish c hio _ _ => exact .inl (onWay_congr rfl rfl (by simp [due,hio]) rfl)
  | unflag c hio => exact .inl (onWay_congr rfl rfl (by simp [due,hio]) rfl)
  | outlive c hio _ => exact .inl (onWay_congr rfl rfl (by simp [due,hio]) rfl)
  | settle c hio => exact .inl (onWay_congr rfl rfl (by simp [due,hio]) rfl)

theorem inOrder_step (h : Joining conn w) (hj : Joins conn e) :
    InOrder conn (step client w e) ↔ InOrder conn w ∧ Undisturbed conn w e := by
  by_cases hsnap : e = .snapshot ∧ w.io = .claimed conn
  · obtain ⟨rfl,hio⟩ := hsnap
    refine (inOrder_snapshot h hio).trans (and_congr_right (fun _ => ?_))
    exact ⟨fun hf => ⟨fun _ _ => hf,fun hne => (by cases hne)⟩,fun hu => hu.1 rfl hio⟩
  by_cases hsend : ∃ f, e = .send ∧ w.hand = .aimed f (some conn)
  · obtain ⟨f,rfl,hh⟩ := hsend
    refine (inOrder_send h hh).trans (and_congr_right (fun _ => ?_))
    exact ⟨fun hd => ⟨fun hne => (by cases hne),fun _ _ _ => hd⟩,fun hu => hu.2 rfl f hh⟩
  have hu : Undisturbed conn w e :=
    ⟨fun he hio => absurd ⟨he,hio⟩ hsnap,fun he f hf => absurd ⟨f,he,hf⟩ hsend⟩
  rw [and_iff_left hu]
  by_cases hrecord : ∃ frame, e = .record frame
  · obtain ⟨frame,rfl⟩ := hrecord
    by_cases hh : w.hand = .rest
    · exact inOrder_record h hh frame
    · have hidle : step client w (.record frame) = w := by
        unfold step Wire.record
        dsimp only
        split
        · next hr => exact absurd hr hh
        · rfl
      rw [hidle]
  · rcases onWay_did h hj (did_step client w e) (fun frame he => hrecord ⟨frame,he⟩)
      ((em (w.io = .claimed conn)).symm.imp_right (fun hio he => hsnap ⟨he,hio⟩))
      (fun f hf he => hsend ⟨f,he,hf⟩) with hsame | ⟨hbefore,hafter⟩
    · rw [InOrder,hsame]
      rfl
    · exact ⟨fun _ => inOrder_of_length hbefore,fun _ => inOrder_of_length hafter⟩

-- The socket is open and attached, and nothing of this turn is still under way to it.
structure Settled (conn : Nat) (w : Wire) : Prop where
  attached : w.attached = some conn
  hand : w.hand = .rest
  io : w.io = .free

theorem read_eq_current_iff (h : Joining conn w) (hs : Settled conn w) :
    w.read conn = w.current ↔ InOrder conn w := by
  have hway : w.onWay conn = w.read conn := by
    rw [onWay_eq]
    simp [due,bound,hs.hand,hs.io,read,ofTurn]
  have hmem : ∀ f, f ∈ w.read conn ↔ f ∈ w.current := by
    intro f
    rw [← hway,mem_onWay]
    constructor
    · rintro ⟨hp | hd | hb,hturn⟩
      · exact (h.wired.carried.posted _ hp).2 hturn h.turns
      · simp [due,hs.io] at hd
      · simp [bound,hs.hand] at hb
    · intro hf
      exact ⟨h.wired.noLoss conn hs.attached h.opened (by rw [hs.io]; simp) f hf,
        (h.wired.kept.tags f hf).1⟩
  rw [InOrder,hway]
  constructor
  · intro heq
    rw [heq]
    exact h.wired.kept.sorted
  · intro hp
    have hnodup : ∀ l : List WireFrame, l.Pairwise (fun a b => a.serial < b.serial) → l.Nodup := by
      intro l hl
      refine hl.imp (fun {a b} hlt heq => ?_)
      rw [heq] at hlt
      exact Nat.lt_irrefl _ hlt
    refine List.Perm.eq_of_pairwise ?_ hp h.wired.kept.sorted
      ((List.perm_ext_iff_of_nodup (hnodup _ hp) (hnodup _ h.wired.kept.sorted)).mpr hmem)
    intro a b _ _ hab hba
    exact absurd (Nat.lt_trans hab hba) (Nat.lt_irrefl _)

theorem wired_run (before : List WireEvent) : Wired (before.foldl (step client) {}) := by
  have hstep : ∀ w e, Wired w → True → Wired (step client w e) := fun w e h _ => wired_step h e
  exact Run.end_inv hstep wired_start (Run.along_true _ before)

theorem inOrder_new (h : Wired w) (hnew : conn ∉ w.seen) : InOrder conn w := by
  refine inOrder_of_length (onWay_length (fun p hp hsame => hnew (hsame ▸ h.seated.posted p hp)) ?_)
  unfold due
  split
  · next c pending hio =>
      refine if_neg (fun hc => hnew ?_)
      rw [hc] at hio
      exact h.seated.replaying conn pending hio
  · rfl

-- The page reopens its socket while the worker has recorded a frame and not yet read whom to send it to.
def reopened : List WireEvent :=
  [.record (.chunk "a"), .attach 0, .snapshot, .aim, .send, .replay, .enter]

def reopenedQuietly : List WireEvent :=
  [.record (.chunk "a"), .aim, .send, .attach 0, .snapshot, .record (.chunk "b"), .replay, .enter, .aim,
    .send]

end Wire

end PuCli
