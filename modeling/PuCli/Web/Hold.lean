import Mathlib.Data.List.Basic
import PuCli.Library.Run

namespace PuCli

namespace Hold

variable {φ : Type}

-- The fields of `PU` that make up the hold, the frames given to `dispatchFrame`, and the rebuilds
-- in the order they began: the `gen` each has captured, and those that have settled.
structure Page (φ : Type) where
  loading : Bool := false
  loadingFrames : List φ := []
  loadingTimer : Bool := false
  resyncing : Bool := false
  loadGen : Nat := 0
  dispatched : List φ := []
  gens : List Nat := []
  settled : List Nat := []
  deriving DecidableEq

namespace Page

def beginLoad (s : Page φ) : Page φ :=
  { s with loading := true, loadingFrames := [], loadingTimer := true }

def endLoad (s : Page φ) (replay : Bool) : Page φ :=
  { s with
    loadingTimer := false
    loading := false
    resyncing := false
    loadGen := s.loadGen + 1
    loadingFrames := []
    dispatched := if replay then s.dispatched ++ s.loadingFrames else s.dispatched }

def resyncAfterReconnect (isStreaming : Bool) (s : Page φ) : Page φ :=
  if isStreaming then s.endLoad true
  else { s.beginLoad with resyncing := true, gens := s.gens ++ [s.loadGen] }

def Outstanding (s : Page φ) (number : Nat) : Prop := number < s.gens.length ∧ number ∉ s.settled

instance (s : Page φ) (number : Nat) : Decidable (s.Outstanding number) :=
  inferInstanceAs (Decidable (_ ∧ _))

-- The `finally` of a rebuild, reached once.
def rebuilt (number : Nat) (s : Page φ) : Page φ :=
  if s.Outstanding number then
    { s with settled := number :: s.settled }.endLoad (s.gens[number]? = some s.loadGen)
  else s

def onMessage (live : Bool) (data : φ) (s : Page φ) : Page φ :=
  if s.loading then
    if live then { s with loadingFrames := s.loadingFrames ++ [data] } else s
  else { s with dispatched := s.dispatched ++ [data] }

def timerFired (s : Page φ) : Page φ :=
  if s.loadingTimer then { s with loadingTimer := false }.endLoad true else s

end Page

inductive Event (φ : Type) where
  | opened
  | message (data : φ)
  | rebuilt (number : Nat)
  | timerFired
  deriving DecidableEq

def Event.frames : Event φ → List φ
  | .message data => [data]
  | _ => []

-- What a hold is for: the newest opening owns it, and only its own rebuild or the timer ends it.
structure Owned (φ : Type) where
  opens : Nat := 0
  owner : Option Nat := none
  held : List φ := []
  dispatched : List φ := []
  deriving DecidableEq

namespace Owned

def release (k : Owned φ) : Owned φ :=
  { k with owner := none, held := [], dispatched := k.dispatched ++ k.held }

def step (k : Owned φ) : Event φ → Owned φ
  | .opened => { k with opens := k.opens + 1, owner := some k.opens, held := [] }
  | .message data =>
      if k.owner.isSome then { k with held := k.held ++ [data] }
      else { k with dispatched := k.dispatched ++ [data] }
  | .rebuilt number => if k.owner = some number then k.release else k
  | .timerFired => if k.owner.isSome then k.release else k

-- Between two openings every frame that arrives is dispatched or held, once and in its place.
theorem step_frames {k : Owned φ} (hfree : k.owner = none → k.held = []) {e : Event φ}
    (he : e ≠ .opened) :
    (k.step e).dispatched ++ (k.step e).held = k.dispatched ++ k.held ++ e.frames := by
  have hrelease : k.release.dispatched ++ k.release.held = k.dispatched ++ k.held ++ [] := rfl
  have hsame : k.dispatched ++ k.held = k.dispatched ++ k.held ++ [] := (List.append_nil _).symm
  cases e with
  | opened => exact absurd rfl he
  | message data =>
      rw [step]
      split
      · exact (List.append_assoc _ _ _).symm
      · next hnone =>
          have hheld := hfree (by simpa using hnone)
          simp [hheld,Event.frames]
  | rebuilt number =>
      rw [step]
      split
      · exact hrelease
      · exact hsame
  | timerFired =>
      rw [step]
      split
      · exact hrelease
      · exact hsame

end Owned

structure Watched (φ : Type) where
  page : Page φ := {}
  owned : Owned φ := {}
  arrived : List φ := []
  deriving DecidableEq

namespace Watched

def step (s : Watched φ) (e : Event φ) : Watched φ where
  page :=
    match e with
    | .opened => s.page.resyncAfterReconnect false
    | .message data => s.page.onMessage true data
    | .rebuilt number => s.page.rebuilt number
    | .timerFired => s.page.timerFired
  owned := s.owned.step e
  arrived := s.arrived ++ e.frames

structure Follows (s : Watched φ) : Prop where
  loading : s.page.loading = s.owned.owner.isSome
  held : s.page.loadingFrames = s.owned.held
  dispatched : s.page.dispatched = s.owned.dispatched

def NothingLost (s : Watched φ) : Prop := s.arrived = s.page.dispatched ++ s.page.loadingFrames

-- A rebuild that settles while a hold is up is the one the hold belongs to.
def Spares (s : Watched φ) : Event φ → Prop
  | .rebuilt number => ∀ own, s.owned.owner = some own → s.page.Outstanding number → number = own
  | _ => True

def OpensEmpty (s : Watched φ) : Event φ → Prop
  | .opened => s.page.loadingFrames = []
  | _ => True

end Watched

-- A hold is up exactly while its timer runs, and then no number has been given out since it began.
structure Page.Sound (s : Page φ) : Prop where
  timer : s.loadingTimer = s.loading
  current : s.loading = true → s.gens.getLast? = some s.loadGen
  settled : ∀ number ∈ s.settled, number < s.gens.length
  idle : s.loading = false → s.loadingFrames = []

namespace Page

variable {s : Page φ} {number : Nat}

theorem onMessage_fields (live : Bool) (data : φ) (s : Page φ) : ∃ frames dispatched,
    s.onMessage live data = { s with loadingFrames := frames, dispatched := dispatched } := by
  unfold onMessage
  split
  · split
    · exact ⟨_,_,rfl⟩
    · exact ⟨s.loadingFrames,s.dispatched,rfl⟩
  · exact ⟨_,_,rfl⟩

theorem Sound.onMessage (h : s.Sound) (live : Bool) (data : φ) : (s.onMessage live data).Sound := by
  obtain ⟨frames,dispatched,heq⟩ := onMessage_fields live data s
  rw [heq]
  refine ⟨h.timer,h.current,h.settled,?_⟩
  intro hdown
  have hkept : (s.onMessage live data).loadingFrames = s.loadingFrames := by
    unfold Page.onMessage
    rw [if_neg (by simpa using hdown)]
  rw [heq] at hkept
  exact hkept.trans (h.idle hdown)

theorem Sound.endLoad (hs : ∀ number ∈ s.settled, number < s.gens.length) (replay : Bool) :
    (s.endLoad replay).Sound := ⟨rfl,fun h => (Bool.false_ne_true h).elim,hs,fun _ => rfl⟩

theorem Sound.resync (h : s.Sound) : (s.resyncAfterReconnect false).Sound := by
  refine ⟨rfl,fun _ => List.getLast?_concat,?_,nofun⟩
  intro number hn
  have hlt := h.settled number hn
  simp only [resyncAfterReconnect,Bool.false_eq_true,if_false,List.length_append,
    List.length_singleton]
  omega

theorem Sound.rebuilt (h : s.Sound) (number : Nat) : (s.rebuilt number).Sound := by
  unfold Page.rebuilt
  split
  · next hout =>
      refine Sound.endLoad ?_ _
      intro other hother
      rcases List.mem_cons.mp hother with rfl | hother
      · exact hout.1
      · exact h.settled other hother
  · exact h

theorem Sound.timerFired (h : s.Sound) : s.timerFired.Sound := by
  unfold Page.timerFired
  split
  · exact Sound.endLoad h.settled true
  · exact h

theorem rebuilt_fields (number : Nat) (s : Page φ) : (s.rebuilt number).gens = s.gens ∧
    ∀ n ∈ (s.rebuilt number).settled, n ∈ s.settled ∨ n = number := by
  unfold Page.rebuilt
  split
  · exact ⟨rfl,fun n hn => (List.mem_cons.mp hn).symm⟩
  · exact ⟨rfl,fun n hn => .inl hn⟩

theorem timerFired_fields (s : Page φ) :
    s.timerFired.gens = s.gens ∧ s.timerFired.settled = s.settled := by
  unfold Page.timerFired
  split <;> exact ⟨rfl,rfl⟩

end Page

namespace Watched

-- The owner of the hold is the newest rebuild, and it has not settled.
structure Sound (s : Watched φ) : Prop where
  page : s.page.Sound
  opens : s.owned.opens = s.page.gens.length
  owner : ∀ own, s.owned.owner = some own → own + 1 = s.owned.opens ∧ own ∉ s.page.settled
  free : s.owned.owner = none → s.owned.held = []

variable {s : Watched φ} {number own : Nat} {data : φ} {events : List (Event φ)}

theorem sound_start : Sound ({} : Watched φ) := by
  refine ⟨⟨rfl,?_,?_,fun _ => rfl⟩,rfl,?_,fun _ => rfl⟩ <;> simp

theorem Sound.release {page : Page φ} {arrived : List φ} (h : s.Sound) (hpage : page.Sound)
    (hgens : page.gens = s.page.gens) : Sound ⟨page,s.owned.release,arrived⟩ := by
  refine ⟨hpage,?_,nofun,fun _ => rfl⟩
  rw [hgens]
  exact h.opens

theorem Sound.keep {page : Page φ} {arrived : List φ} (h : s.Sound) (hpage : page.Sound)
    (hgens : page.gens = s.page.gens)
    (hopen : ∀ own, s.owned.owner = some own → own ∉ page.settled) :
    Sound ⟨page,s.owned,arrived⟩ := by
  refine ⟨hpage,?_,?_,h.free⟩
  · rw [hgens]
    exact h.opens
  · intro own hown
    exact ⟨(h.owner own hown).1,hopen own hown⟩

theorem Sound.step (h : s.Sound) (e : Event φ) : (s.step e).Sound := by
  cases e with
  | opened =>
      refine ⟨h.page.resync,?_,?_,?_⟩
      · simp [Watched.step,Owned.step,Page.resyncAfterReconnect,h.opens]
      · intro own hown
        obtain rfl := Option.some.inj hown
        refine ⟨rfl,?_⟩
        intro hmem
        have hlt := h.page.settled _ hmem
        rw [h.opens] at hlt
        exact absurd hlt (Nat.lt_irrefl _)
      · intro _
        rfl
  | message data =>
      obtain ⟨frames,dispatched,heq⟩ := Page.onMessage_fields true data s.page
      have hpage : (s.step (.message data)).page = s.page.onMessage true data := rfl
      have howned : (s.step (.message data)).owned = s.owned.step (.message data) := rfl
      have hfields : (s.owned.step (.message data)).opens = s.owned.opens ∧
          (s.owned.step (.message data)).owner = s.owned.owner := by
        unfold Owned.step
        cases s.owned.owner <;> exact ⟨rfl,rfl⟩
      refine ⟨h.page.onMessage true data,?_,?_,?_⟩
      · rw [hpage,howned,hfields.1,heq]
        exact h.opens
      · rw [hpage,howned,hfields.1,hfields.2,heq]
        exact h.owner
      · rw [howned,hfields.2]
        intro hnone
        rw [Owned.step,hnone]
        exact h.free hnone
  | rebuilt number =>
      obtain ⟨hgens,hsettled⟩ := Page.rebuilt_fields number s.page
      show Sound ⟨s.page.rebuilt number,s.owned.step (.rebuilt number),_⟩
      rw [Owned.step]
      split
      · exact h.release (h.page.rebuilt number) hgens
      · next hother =>
          refine h.keep (h.page.rebuilt number) hgens ?_
          intro own hown hmem
          rcases hsettled own hmem with hmem | rfl
          · exact (h.owner own hown).2 hmem
          · exact hother hown
  | timerFired =>
      obtain ⟨hgens,hsettled⟩ := Page.timerFired_fields s.page
      show Sound ⟨s.page.timerFired,s.owned.step .timerFired,_⟩
      rw [Owned.step]
      split
      · exact h.release h.page.timerFired hgens
      · refine h.keep h.page.timerFired hgens ?_
        intro own hown
        rw [hsettled]
        exact (h.owner own hown).2

theorem own_gen (h : s.Sound) (hf : s.Follows) (hown : s.owned.owner = some own) :
    s.page.gens[own]? = some s.page.loadGen ∧ s.page.Outstanding own := by
  obtain ⟨hnewest,hopen⟩ := h.owner own hown
  have hup : s.page.loading = true := by rw [hf.loading,hown]; rfl
  have hlast := h.page.current hup
  rw [List.getLast?_eq_getElem?] at hlast
  have hindex : s.page.gens.length - 1 = own := by
    rw [← h.opens]
    omega
  rw [hindex] at hlast
  refine ⟨hlast,?_,hopen⟩
  rw [← h.opens]
  omega

theorem follows_endLoad {p : Page φ} {k : Owned φ} {arrived : List φ}
    (hf : Follows ⟨p,k,arrived⟩) : Follows ⟨p.endLoad true,k.release,arrived⟩ := by
  refine ⟨rfl,rfl,?_⟩
  show p.dispatched ++ p.loadingFrames = k.dispatched ++ k.held
  rw [hf.dispatched,hf.held]

theorem follows_idle {p : Page φ} {k : Owned φ} {arrived : List φ} (hf : Follows ⟨p,k,arrived⟩)
    (hfree : k.owner = none) (hheld : k.held = []) (replay : Bool) :
    Follows ⟨p.endLoad replay,k,arrived⟩ := by
  have hframes : p.loadingFrames = [] := hf.held.trans hheld
  refine ⟨by rw [hfree]; rfl,hheld.symm,?_⟩
  show (if replay then p.dispatched ++ p.loadingFrames else p.dispatched) = k.dispatched
  rw [hframes,List.append_nil,ite_self]
  exact hf.dispatched

theorem follows_rebuilt_iff (h : s.Sound) (hf : s.Follows) :
    (s.step (.rebuilt number)).Follows ↔ s.Spares (.rebuilt number) := by
  obtain ⟨page,owned,arrived⟩ := s
  have hstep : (Watched.step ⟨page,owned,arrived⟩ (.rebuilt number)) =
      ⟨page.rebuilt number,owned.step (.rebuilt number),arrived ++ []⟩ := rfl
  rw [hstep,List.append_nil,Owned.step]
  by_cases hout : page.Outstanding number
  · rw [Page.rebuilt,if_pos hout]
    cases hown : owned.owner with
    | none =>
        rw [if_neg (by simp)]
        refine iff_of_true ?_ (fun own hsome => absurd (hown.symm.trans hsome) (by simp))
        have hsettled : Follows ⟨{ page with settled := number :: page.settled },owned,arrived⟩ :=
          ⟨hf.loading,hf.held,hf.dispatched⟩
        exact follows_idle hsettled hown (h.free hown) _
    | some own =>
        by_cases hsame : number = own
        · subst hsame
          obtain ⟨hgen,-⟩ := own_gen h hf hown
          rw [if_pos rfl]
          refine iff_of_true ?_ (fun own hsome _ => Option.some.inj (hown.symm.trans hsome))
          have hreplay : decide (page.gens[number]? = some page.loadGen) = true := decide_eq_true hgen
          have hsettled : Follows ⟨{ page with settled := number :: page.settled },owned,arrived⟩ :=
            ⟨hf.loading,hf.held,hf.dispatched⟩
          rw [hreplay]
          exact follows_endLoad hsettled
        · rw [if_neg (fun heq => hsame (Option.some.inj heq).symm)]
          refine iff_of_false ?_ (fun hspares => hsame (hspares own hown hout))
          -- the overtaken rebuild has let go of a hold that is not its own
          intro hfollows
          have hdown := hfollows.loading
          rw [hown] at hdown
          exact Bool.false_ne_true hdown
  · have hother : owned.owner ≠ some number := fun hown => hout (own_gen h hf hown).2
    rw [Page.rebuilt,if_neg hout,if_neg hother]
    exact iff_of_true hf (fun own hown hout' => absurd hout' hout)

theorem follows_message (hf : s.Follows) (data : φ) : (s.step (.message data)).Follows := by
  obtain ⟨page,owned,arrived⟩ := s
  have hstep : (Watched.step ⟨page,owned,arrived⟩ (.message data)) =
      ⟨page.onMessage true data,owned.step (.message data),arrived ++ [data]⟩ := rfl
  have hload : page.loading = owned.owner.isSome := hf.loading
  rw [hstep,Owned.step,Page.onMessage,← hload]
  by_cases hup : page.loading = true
  · rw [if_pos hup,if_pos rfl,if_pos hup]
    exact ⟨hload,congrArg (· ++ [data]) hf.held,hf.dispatched⟩
  · rw [if_neg hup,if_neg hup]
    exact ⟨hload,hf.held,congrArg (· ++ [data]) hf.dispatched⟩

theorem follows_timerFired (h : s.Sound) (hf : s.Follows) : (s.step .timerFired).Follows := by
  obtain ⟨page,owned,arrived⟩ := s
  have hstep : (Watched.step ⟨page,owned,arrived⟩ .timerFired) =
      ⟨page.timerFired,owned.step .timerFired,arrived ++ []⟩ := rfl
  have htimer : page.loadingTimer = owned.owner.isSome := h.page.timer.trans hf.loading
  rw [hstep,List.append_nil,Owned.step,Page.timerFired,htimer]
  cases owned.owner.isSome with
  | true => exact follows_endLoad ⟨hf.loading,hf.held,hf.dispatched⟩
  | false => exact hf

theorem follows_step_iff (h : s.Sound) (hf : s.Follows) (e : Event φ) :
    (s.step e).Follows ↔ s.Spares e := by
  cases e with
  | opened => exact iff_of_true ⟨rfl,rfl,hf.dispatched⟩ trivial
  | message data => exact iff_of_true (follows_message hf data) trivial
  | rebuilt number => exact follows_rebuilt_iff h hf
  | timerFired => exact iff_of_true (follows_timerFired h hf) trivial

theorem nothingLost_iff (hf : s.Follows) :
    s.NothingLost ↔ s.arrived = s.owned.dispatched ++ s.owned.held := by
  rw [NothingLost,hf.dispatched,hf.held]

-- As long as the page follows, only an opening can lose frames: those of the hold it replaces.
theorem nothingLost_step_iff (h : s.Sound) (hf : s.Follows) (hn : s.NothingLost) {e : Event φ}
    (he : s.Spares e) : (s.step e).NothingLost ↔ s.OpensEmpty e := by
  have harrived : s.arrived = s.owned.dispatched ++ s.owned.held := (nothingLost_iff hf).mp hn
  rw [nothingLost_iff ((follows_step_iff h hf e).mpr he)]
  by_cases hopen : e = .opened
  · subst hopen
    show s.arrived ++ [] = s.owned.dispatched ++ [] ↔ s.page.loadingFrames = []
    rw [List.append_nil,List.append_nil,harrived,hf.held]
    exact List.append_right_eq_self
  · refine iff_of_true ?_ (by cases e <;> first | exact absurd rfl hopen | trivial)
    show s.arrived ++ e.frames = (s.owned.step e).dispatched ++ (s.owned.step e).held
    rw [Owned.step_frames h.free hopen,harrived]

theorem hold_kept_iff (events : List (Event φ)) :
    ((∀ t ∈ Run.visited step {} events, t.Follows) ↔ Run.Along step Spares {} events) ∧
      ((∀ t ∈ Run.visited step {} events, t.Follows ∧ t.NothingLost) ↔
        Run.Along step (fun s e => s.Spares e ∧ s.OpensEmpty e) ({} : Watched φ) events) := by
  have hsound (s : Watched φ) (e : Event φ) (h : s.Sound) (_ : True) : (s.step e).Sound := h.step e
  have hstart : Follows ({} : Watched φ) := ⟨rfl,rfl,rfl⟩
  refine ⟨Run.visited_good_iff hsound (fun s e h _ hf => follows_step_iff h hf e) sound_start hstart
    (Run.along_true _ _),?_⟩
  refine Run.visited_good_iff hsound ?_ sound_start ⟨hstart,rfl⟩ (Run.along_true _ _)
  rintro s e h - ⟨hf,hn⟩
  rw [follows_step_iff h hf e]
  exact and_congr_right (fun he => nothingLost_step_iff h hf hn he)

def overtaken : List (Event Nat) := [.opened,.opened,.message 7,.rebuilt 0]

def overtakenAfterTimer : List (Event Nat) := [.opened,.timerFired,.opened,.message 7,.rebuilt 0]

theorem overtaken_rebuild_ends_hold :
    (overtaken.foldl step {}).page.loading = false ∧ (overtaken.foldl step {}).page.dispatched = [7] ∧
      (overtaken.foldl step {}).owned.owner = some 1 ∧ (overtaken.foldl step {}).owned.held = [7] ∧
      (overtakenAfterTimer.foldl step {}).page.loading = false ∧
      (overtakenAfterTimer.foldl step {}).page.dispatched = [] ∧
      (overtakenAfterTimer.foldl step {}).page.loadingFrames = [] ∧
      (overtakenAfterTimer.foldl step {}).arrived = [7] ∧
      (overtakenAfterTimer.foldl step {}).owned.owner = some 1 := by
  decide

end Watched

end Hold

end PuCli
