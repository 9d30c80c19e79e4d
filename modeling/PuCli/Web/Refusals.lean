import PuCli.Web.ConnectionRuns

namespace PuCli

namespace Connection

def PageFrame.isBusy : PageFrame → Bool
  | .busy _ => true
  | _ => false

namespace Tab

variable {s t u : Tab} {i j : Nat} {k : Socket} {e : Event}

def heldBusy (s : Tab) : Nat := s.hold.loadingFrames.countP (fun f => f.2.isBusy)

-- The refusals counted, and those whose notice is still held.
def noticed (s : Tab) : Nat := s.busyRefusals + s.heldBusy

theorem busyRefusals_handle (s : Tab) (data : PageFrame) :
    (s.handle data).busyRefusals = s.busyRefusals + if data.isBusy then 1 else 0 := by
  cases data with
  | other => rfl
  | busy text => rfl
  | frame frame =>
      cases frame with
      | done model =>
          have hblocks : (if s.currentAssistantBlocks = [] then s.removeCurrentAssistantMessage
              else s.finishAssistantMessage) = s.removeCurrentAssistantMessage := ite_self _
          obtain ⟨el,blocks,hremoved⟩ := removed_fields s
          simp only [handle,handleDone,hblocks]
          rw [hremoved]
          obtain ⟨sockets,hreleased⟩ := released_fields { s with
            currentAssistantEl := el
            currentAssistantBlocks := blocks
            watchdogTimer := none
            watchdogToolGrace := false }
          rw [hreleased]
          rfl
      | error text =>
          obtain ⟨el,blocks,hremoved⟩ := removed_fields s
          simp only [handle,handleError]
          rw [hremoved]
          obtain ⟨sockets,hreleased⟩ := released_fields { s with
            currentAssistantEl := el
            currentAssistantBlocks := blocks
            stopRequested := false }
          rw [hreleased]
          rfl
      | notice text =>
          simp only [handle,handleNotice]
          split <;> rfl
      | _ => rfl

theorem busyRefusals_foldl (held : List (String × PageFrame)) (s : Tab) :
    (held.foldl dispatchFrame s).busyRefusals =
      s.busyRefusals + held.countP (fun f => f.2.isBusy) := by
  induction held generalizing s with
  | nil => rfl
  | cons data held ih =>
      have hdata : (s.dispatchFrame data).busyRefusals =
          s.busyRefusals + if data.2.isBusy then 1 else 0 := busyRefusals_handle s data.2
      rw [List.foldl_cons,ih,hdata,List.countP_cons]
      omega

theorem hold_foldl (held : List (String × PageFrame)) (s : Tab) :
    (held.foldl dispatchFrame s).hold = s.hold := by
  induction held generalizing s with
  | nil => rfl
  | cons data held ih => rw [List.foldl_cons,ih,dispatchFrame,(sameDrawing_handle s data.2).hold]

theorem noticed_endLoad (s : Tab) : (s.endLoad true).noticed = s.noticed := by
  simp only [endLoad,if_true,noticed,heldBusy,busyRefusals_foldl,hold_foldl]
  rfl

-- A step that leaves the page's socket as it is, and loses no notice of a refusal.
structure Calm (s t : Tab) : Prop where
  steady : Steady s t
  refusals : s.busyRefusals ≤ t.busyRefusals
  noticed : s.noticed ≤ t.noticed
  current : ∀ i k', s.ws = some i → t.sockets[i]? = some k' → ∃ k, s.sockets[i]? = some k ∧
    k'.refused = k.refused ∧ (k'.readyState = .connecting ↔ k.readyState = .connecting)

theorem Handled.current (h : s.Seated) (ht : Handled s t) (hws : s.ws = some i) :
    t.sockets[i]? = s.sockets[i]? := by
  rcases ht.seats with ⟨hs,-⟩ | ⟨hs,-⟩
  · rw [hs]
  · rw [hs,releaseSupersededSocket]
    split
    · rfl
    · next stale hstale => exact socket_setSocket_ne (h.apart hws hstale).symm _

theorem Handled.calm (h : s.Seated) (ht : Handled s t) (hn : s.noticed ≤ t.noticed) : Calm s t := by
  refine ⟨ht.steady,ht.refusals,hn,?_⟩
  intro i k' hws hk'
  rw [ht.current h hws] at hk'
  exact ⟨k',hk',rfl,Iff.rfl⟩

end Tab

def Socket.isConnecting (k : Socket) : Bool := k.readyState = .connecting

-- The page beside a count of the sockets it has been turned away on in a row.
structure Tally where
  tab : Tab
  refusals : Nat := 0

namespace Tally

variable {y : Tally}

def heard (y : Tally) (i : Nat) : Bool :=
  match y.tab.sockets[i]? with
  | some k => decide (k.readyState = .opened) && k.onmessage &&
      (decide (y.tab.ws = some i) || decide (y.tab.supersededSocket = some i))
  | none => false

def turnedAway (y : Tally) : Bool :=
  y.tab.ws.any (fun i => y.tab.sockets[i]?.any Socket.refused)

def step (y : Tally) (e : Event) : Tally where
  tab := y.tab.step e
  refusals :=
    match e with
    | .closed i =>
        if y.tab.ws = some i then
          (if y.tab.sockets[i]?.any Socket.refused then y.refusals + 1 else 0)
        else y.refusals
    | .message i (some data) => if y.heard i ∧ data.isBusy = false then 0 else y.refusals
    | _ => y.refusals

-- No switch is made. No notice of a refusal is still held when the current socket opens, nor when a
-- rebuild that is not the newest load's ends. While the current socket has been refused, neither
-- it nor the one handed over says anything but a refusal.
def Orderly (y : Tally) : Event → Prop
  | .opened i => y.tab.ws = some i ∧ y.tab.sockets[i]?.any Socket.isConnecting = true →
      y.tab.heldBusy = 0
  | .rebuilt number => y.tab.hold.Outstanding number →
      y.tab.hold.gens[number]? = some y.tab.hold.loadGen ∨ y.tab.heldBusy = 0
  | .message i (some data) => y.heard i = true → data.isBusy = false → y.turnedAway = false
  | .switchToServer _ => False
  | _ => True

instance (y : Tally) : ∀ e, Decidable (y.Orderly e)
  | .opened _ => inferInstanceAs (Decidable (_ ∧ _ → _))
  | .rebuilt _ => inferInstanceAs (Decidable (_ → _ ∨ _))
  | .message _ (some _) => inferInstanceAs (Decidable (_ → _ → _))
  | .switchToServer _ => .isFalse id
  | .message _ none | .closing _ | .closed _ | .reconnectElapsed | .watchdogElapsed | .loadElapsed
  | .sendMessage _ | .resolveApproval _ _ | .adopted => .isTrue trivial

structure Counted (y : Tally) : Prop where
  sound : y.tab.Sound
  adopting : y.tab.adopting = 0
  noticed : y.refusals ≤ y.tab.noticed
  refused : ∀ i k, y.tab.ws = some i → y.tab.sockets[i]? = some k → k.refused = true →
    k.readyState ≠ .connecting ∧ y.refusals + 1 ≤ y.tab.noticed
  opened : ∀ i k, y.tab.ws = some i → y.tab.sockets[i]? = some k → k.readyState ≠ .connecting →
    y.refusals ≤ y.tab.busyRefusals
  bounded : y.refusals ≤ kMaxBusyRetries + 1 ∨ y.tab.GivenUp ∧ y.refusals ≤ kMaxBusyRetries + 2

theorem Counted.calm (h : y.Counted) {t : Tab} (hsound : t.Sound) (ht : Tab.Calm y.tab t) :
    Counted ⟨t,y.refusals⟩ := by
  refine ⟨hsound,ht.steady.adopting.trans h.adopting,h.noticed.trans ht.noticed,?_,?_,?_⟩
  · intro i k' hws hk' hrefused
    have hws' : y.tab.ws = some i := ht.steady.ws.symm.trans hws
    obtain ⟨k,hk,hsame,hready⟩ := ht.current i k' hws' hk'
    obtain ⟨hopen,hcount⟩ := h.refused i k hws' hk (hsame ▸ hrefused)
    exact ⟨fun hc => hopen (hready.mp hc),hcount.trans ht.noticed⟩
  · intro i k' hws hk' hopen
    have hws' : y.tab.ws = some i := ht.steady.ws.symm.trans hws
    obtain ⟨k,hk,-,hready⟩ := ht.current i k' hws' hk'
    exact (h.opened i k hws' hk (fun hc => hopen (hready.mpr hc))).trans ht.refusals
  · rcases h.bounded with hfew | ⟨hgone,hmany⟩
    · exact .inl hfew
    · exact .inr ⟨ht.steady.givenUp.mpr hgone,hmany⟩

theorem connected_fresh {s : Tab} (hws : s.ws = none) : ∃ i, s.connectWebSocket.ws = some i ∧
    s.connectWebSocket.sockets[i]? = some { origin := s.origin } ∧
      s.connectWebSocket.busyRefusals = s.busyRefusals ∧ s.connectWebSocket.hold = s.hold ∧
      s.connectWebSocket.adopting = s.adopting := by
  have hout : Tab.attached { s with reconnectTimer := none } = false := by
    rw [Tab.attached,hws]
    rfl
  rw [Tab.connectWebSocket]
  dsimp only
  rw [if_neg (by rw [hout]; exact Bool.false_ne_true)]
  exact ⟨_,rfl,List.getElem?_concat_length,rfl,rfl,rfl⟩

theorem Counted.connected (h : y.Counted) {s t : Tab} (hfew : y.refusals ≤ kMaxBusyRetries + 1)
    (hsound : t.Sound) (ht : t = s.connectWebSocket) (hws : s.ws = none)
    (hrefusals : s.busyRefusals = y.tab.busyRefusals) (hhold : s.hold = y.tab.hold)
    (hadopting : s.adopting = 0) : Counted ⟨t,y.refusals⟩ := by
  obtain ⟨i,hi,hk,hr,hh,ha⟩ := connected_fresh hws
  rw [← ht] at hi hk hr hh ha
  have hnoticed : t.noticed = y.tab.noticed := by
    rw [Tab.noticed,Tab.heldBusy,hr,hh,hrefusals,hhold]
    rfl
  refine ⟨hsound,ha.trans hadopting,?_,?_,?_,.inl hfew⟩
  · rw [hnoticed]
    exact h.noticed
  · intro j k hj hk' hrefused
    obtain rfl := Option.some.inj (hi.symm.trans hj)
    obtain rfl := Option.some.inj (hk.symm.trans hk')
    cases hrefused
  · intro j k hj hk' hopen
    obtain rfl := Option.some.inj (hi.symm.trans hj)
    obtain rfl := Option.some.inj (hk.symm.trans hk')
    exact absurd rfl hopen

theorem Counted.few (h : y.Counted) (hlive : ¬ y.tab.GivenUp) : y.refusals ≤ kMaxBusyRetries + 1 := by
  rcases h.bounded with hfew | ⟨hgone,-⟩
  · exact hfew
  · exact absurd hgone hlive

theorem Counted.closedCurrent (h : y.Counted) {i : Nat} (hws : y.tab.ws = some i) :
    (y.step (.closed i)).Counted := by
  have hsound := h.sound.step (.closed i)
  obtain ⟨k,u,hk,hstep,hu⟩ := Tab.step_closed_current h.sound hws
  have hclosed := Tab.closedUp u k.refused
  have hgone : u.ws = none := by rw [hu]
  have hrefusals : u.busyRefusals = y.tab.busyRefusals := by rw [hu]; rfl
  have hhold : u.hold = y.tab.hold := by rw [hu]; rfl
  have hadopting : u.adopting = 0 := by rw [hu]; exact h.adopting
  have htimer : u.reconnectTimer = none := by
    by_contra hne
    have hsame : u.reconnectTimer = y.tab.reconnectTimer := by rw [hu]; rfl
    exact absurd ((h.sound.attended.timer (hsame ▸ hne)).symm.trans hws)
      (Option.some_ne_none i).symm
  have hfew : y.refusals ≤ kMaxBusyRetries + 1 := h.few fun hgone => by
    rw [Tab.GivenUp,hws] at hgone
    exact absurd hgone.1 (Option.some_ne_none i)
  rw [← hstep] at hclosed
  have hnone : (y.tab.step (.closed i)).ws = none := hclosed.ws.trans hgone
  have hany : y.tab.sockets[i]?.any Socket.refused = k.refused := by rw [hk]; rfl
  have hcount : (y.step (.closed i)).refusals = if k.refused then y.refusals + 1 else 0 := by
    simp only [step,hws,if_true,hany]
  have hnever {P : Nat → Socket → Prop} : ∀ j k', (y.tab.step (.closed i)).ws = some j → P j k' := by
    intro j k' hj
    rw [hnone] at hj
    cases hj
  cases hrefused : k.refused with
  | false =>
      rw [hrefused] at hcount
      refine ⟨hsound,hclosed.adopting.trans hadopting,?_,hnever,hnever,.inl ?_⟩
      · rw [hcount]
        exact Nat.zero_le _
      · rw [hcount]
        exact Nat.zero_le _
  | true =>
      rw [hrefused] at hcount hclosed
      obtain ⟨hopen,hnoted⟩ := h.refused i k hws hk hrefused
      have hkept : (y.tab.step (.closed i)).busyRefusals = y.tab.busyRefusals :=
        hclosed.refusals.trans hrefusals
      refine ⟨hsound,hclosed.adopting.trans hadopting,?_,hnever,hnever,?_⟩
      · rw [hcount]
        show y.refusals + 1 ≤ (y.tab.step (.closed i)).noticed
        rw [Tab.noticed,Tab.heldBusy,hkept,hclosed.hold,hhold]
        exact hnoted
      · rw [hcount]
        by_cases hmany : kMaxBusyRetries < y.tab.busyRefusals
        · refine .inr ⟨⟨hnone,?_,hclosed.adopting.trans hadopting⟩,Nat.succ_le_succ hfew⟩
          exact hclosed.timer.trans ((if_pos (hkept ▸ hmany)).trans htimer)
        · refine .inl (Nat.succ_le_succ ?_)
          exact (h.opened i k hws hk hopen).trans (Nat.le_of_not_lt hmany)

theorem noticed_onOpen {s : Tab} {i : Nat} (hheld : s.ws = some i → s.heldBusy = 0) :
    s.noticed ≤ (s.onOpen i).noticed := by
  rw [Tab.onOpen]
  split
  · next hws =>
      have hnone : s.noticed = s.busyRefusals := by rw [Tab.noticed,hheld hws]; rfl
      obtain ⟨notice,lost,seen,hstate⟩ :=
        Tab.setConnectionState_fields { s with reconnectAttempts := 0 } .online
      rw [hstate,hnone,Tab.resyncAfterReconnect]
      split
      · rw [Tab.noticed_endLoad]
        exact Nat.le_add_right _ _
      · exact Nat.le_add_right _ _
  · exact Nat.le_refl _

theorem Counted.opened_step (h : y.Counted) {i : Nat} (hfit : y.Orderly (.opened i)) :
    (y.step (.opened i)).Counted := by
  have hsound := h.sound.step (.opened i)
  show Counted ⟨y.tab.step (.opened i),y.refusals⟩
  rw [Tab.step] at hsound ⊢
  split at hsound
  · next k hk =>
      split at hsound
      · next hconnecting =>
          rw [if_pos hconnecting]
          have hcalm : y.tab.ws = some i → y.tab.heldBusy = 0 := fun hws =>
            hfit ⟨hws,by simp [hk,Socket.isConnecting,hconnecting]⟩
          have hset := h.sound.mild (Tab.mild_opened hk hconnecting)
          have hcounted : Counted ⟨y.tab.setSocket i (fun k => { k with readyState := .opened }),
              y.refusals⟩ := by
            refine ⟨hset,h.adopting,h.noticed,?_,?_,h.bounded⟩
            · intro j k' hws hk' hrefused
              by_cases hij : i = j
              · subst hij
                rw [Tab.socket_setSocket_self,hk] at hk'
                obtain rfl := Option.some.inj hk'
                exact absurd hconnecting (h.refused i k hws hk hrefused).1
              · rw [Tab.socket_setSocket_ne hij] at hk'
                exact h.refused j k' hws hk' hrefused
            · intro j k' hws hk' hopen
              by_cases hij : i = j
              · subst hij
                have hnone : y.tab.noticed = y.tab.busyRefusals := by
                  rw [Tab.noticed,hcalm hws]
                  rfl
                exact hnone ▸ h.noticed
              · rw [Tab.socket_setSocket_ne hij] at hk'
                exact h.opened j k' hws hk' hopen
          split
          · next hon =>
              rw [if_pos hon] at hsound
              exact hcounted.calm hsound
                ((Tab.handled_onOpen _ i).calm hset.seated (noticed_onOpen hcalm))
          · exact hcounted
      · next hother =>
          rw [if_neg hother]
          exact h
  · exact h

theorem heard_iff {i : Nat} : y.heard i = true ↔ ∃ k, y.tab.sockets[i]? = some k ∧
    (k.readyState = .opened ∧ k.onmessage = true) ∧
      (y.tab.ws = some i ∨ y.tab.supersededSocket = some i) := by
  rw [heard]
  split
  · next k hk => simp [hk]
  · next hnone => simp [hnone]

theorem not_heard {i : Nat} {data : PageFrame} (h : y.heard i = false) :
    y.tab.step (.message i (some data)) = y.tab := by
  simp only [Tab.step]
  split
  · next k data' hk hdata =>
      split
      · next hopen =>
          rw [Tab.onMessage,if_neg]
          intro hseat
          have htrue := heard_iff.mpr ⟨k,hk,⟨hopen.1,hopen.2⟩,hseat⟩
          exact Bool.false_ne_true (h.symm.trans htrue)
      · rfl
  · rfl

theorem step_heard {i : Nat} (data : PageFrame) (h : y.heard i = true) : ∃ k,
    y.tab.sockets[i]? = some k ∧ k.readyState = .opened ∧
      y.tab.step (.message i (some data)) = y.tab.onMessage i k.origin data := by
  obtain ⟨k,hk,hopen,-⟩ := heard_iff.mp h
  refine ⟨k,hk,hopen.1,?_⟩
  simp only [Tab.step,hk]
  exact if_pos hopen

-- A refusal's notice is counted at once, or held.
theorem onMessage_busy {s : Tab} {i : Nat} (origin text : String)
    (hseat : s.ws = some i ∨ s.supersededSocket = some i) :
    Tab.Steady s (s.onMessage i origin (.busy text)) ∧
      (s.onMessage i origin (.busy text)).sockets =
        (s.setSocket i (fun k => { k with refused := true })).sockets ∧
      s.busyRefusals ≤ (s.onMessage i origin (.busy text)).busyRefusals ∧
      s.noticed + (if s.ws = some i then 1 else 0) ≤ (s.onMessage i origin (.busy text)).noticed := by
  rw [Tab.onMessage,if_pos hseat]
  dsimp only
  split
  · next hloading =>
      refine ⟨⟨rfl,rfl,rfl⟩,rfl,le_refl _,?_⟩
      have hload : s.hold.loading = true := hloading
      simp only [Tab.noticed,Tab.heldBusy,Tab.readFrame,Tab.setSocket,Hold.Page.onMessage,hload,if_true]
      by_cases hws : s.ws = some i
      · simp [hws,List.countP_append,PageFrame.isBusy,Nat.add_assoc]
      · simp [hws]
  · next hidle =>
      have hdown : s.hold.loading = false := Bool.eq_false_iff.mpr hidle
      refine ⟨⟨rfl,rfl,rfl⟩,rfl,Nat.le_succ _,?_⟩
      simp only [Tab.noticed,Tab.heldBusy,Tab.readFrame,Tab.setSocket,Hold.Page.onMessage,hdown,
        PageFrame.progress,Tab.dispatchFrame,Tab.handle,Tab.handleBusy,Bool.false_eq_true,if_false]
      split <;> omega

theorem Counted.busy (h : y.Counted) {i : Nat} {text : String} (hheard : y.heard i = true) :
    (y.step (.message i (some (.busy text)))).Counted := by
  have hsound := h.sound.step (.message i (some (.busy text)))
  obtain ⟨k,hk,hopen,hstep⟩ := step_heard (.busy text) hheard
  obtain ⟨-,-,-,hseat⟩ := heard_iff.mp hheard
  obtain ⟨hsteady,hsockets,hrefusals,hnoticed⟩ := onMessage_busy k.origin text hseat
  have hcount : (y.step (.message i (some (.busy text)))).refusals = y.refusals :=
    if_neg (by simp [PageFrame.isBusy])
  rw [hstep] at hsound
  have heq : y.step (.message i (some (.busy text))) =
      ⟨y.tab.onMessage i k.origin (.busy text),y.refusals⟩ := by
    rw [← hstep,← hcount]
    rfl
  rw [heq]
  have hmore : y.tab.noticed ≤ (y.tab.onMessage i k.origin (.busy text)).noticed :=
    (Nat.le_add_right _ _).trans hnoticed
  refine ⟨hsound,hsteady.adopting.trans h.adopting,h.noticed.trans hmore,?_,?_,?_⟩
  · intro j k' hws hk' hflag
    have hws' : y.tab.ws = some j := hsteady.ws.symm.trans hws
    rw [hsockets] at hk'
    by_cases hij : i = j
    · subst hij
      rw [Tab.socket_setSocket_self,hk] at hk'
      obtain rfl := Option.some.inj hk'
      rw [if_pos hws'] at hnoticed
      refine ⟨?_,(Nat.succ_le_succ h.noticed).trans hnoticed⟩
      rw [hopen]
      exact nofun
    · rw [Tab.socket_setSocket_ne hij] at hk'
      obtain ⟨hready,hnoted⟩ := h.refused j k' hws' hk' hflag
      exact ⟨hready,hnoted.trans hmore⟩
  · intro j k' hws hk' hready
    have hws' : y.tab.ws = some j := hsteady.ws.symm.trans hws
    rw [hsockets] at hk'
    by_cases hij : i = j
    · subst hij
      refine (h.opened i k hws' hk ?_).trans hrefusals
      rw [hopen]
      exact nofun
    · rw [Tab.socket_setSocket_ne hij] at hk'
      exact (h.opened j k' hws' hk' hready).trans hrefusals
  · rcases h.bounded with hfew | ⟨hgone,hmany⟩
    · exact .inl hfew
    · exact .inr ⟨hsteady.givenUp.mpr hgone,hmany⟩

theorem Counted.spoken (h : y.Counted) {i : Nat} {data : PageFrame} (hheard : y.heard i = true)
    (hdata : data.isBusy = false) (hfit : y.Orderly (.message i (some data))) :
    (y.step (.message i (some data))).Counted := by
  have hsound := h.sound.step (.message i (some data))
  obtain ⟨k,hk,hopen,hstep⟩ := step_heard data hheard
  obtain ⟨-,-,-,hseat⟩ := heard_iff.mp hheard
  have hsteady := Tab.steady_onMessage y.tab i k.origin data
  have hcount : (y.step (.message i (some data))).refusals = 0 := if_pos ⟨hheard,hdata⟩
  have heq : y.step (.message i (some data)) = ⟨y.tab.step (.message i (some data)),0⟩ := by
    rw [← hcount]
    rfl
  have hcurrent (j : Nat) (k' : Socket) (hws : y.tab.ws = some j)
      (hk' : (y.tab.onMessage i k.origin data).sockets[j]? = some k') :
      y.tab.sockets[j]? = some k' := by
    have hread : y.tab.readFrame i data = { y.tab with busyRefusals := 0 } := by
      cases data with
      | busy text => cases hdata
      | frame frame => rfl
      | other => rfl
    rw [Tab.onMessage,if_pos hseat,hread] at hk'
    dsimp only at hk'
    have hseated (t : Tab) (hw : t.ws = y.tab.ws) (ho : t.origin = y.tab.origin)
        (hs : t.sockets = y.tab.sockets) (hh : t.supersededSocket = y.tab.supersededSocket) :
        (t.dispatchFrame (k.origin,data)).sockets[j]? = y.tab.sockets[j]? := by
      rw [← hs]
      exact (Tab.handled_dispatchFrame t (k.origin,data)).current
        (h.sound.seated.congr hw ho hs hh) (hw.trans hws)
    split at hk'
    · exact hk'
    · rw [hseated] at hk'
      · exact hk'
      all_goals split <;> rfl
  rw [heq,hstep]
  rw [hstep] at hsound
  refine ⟨hsound,hsteady.adopting.trans h.adopting,Nat.zero_le _,?_,fun _ _ _ _ _ => Nat.zero_le _,
    .inl (Nat.zero_le _)⟩
  intro j k' hws hk' hflag
  have hws' : y.tab.ws = some j := hsteady.ws.symm.trans hws
  have hnot := hfit hheard hdata
  rw [turnedAway,hws',Option.any_some,hcurrent j k' hws' hk',Option.any_some,hflag] at hnot
  cases hnot

theorem calm_closed {s : Tab} {i : Nat} (hws : s.ws ≠ some i) : Tab.Calm s (s.step (.closed i)) := by
  have hsteady := Tab.steady_closed hws
  have hrest : (s.step (.closed i)).busyRefusals = s.busyRefusals ∧
      (s.step (.closed i)).hold = s.hold ∧
      ∀ j, j ≠ i → (s.step (.closed i)).sockets[j]? = s.sockets[j]? := by
    have hset (j : Nat) (hj : j ≠ i) :
        (s.setSocket i (fun k => { k with readyState := .closed })).sockets[j]? = s.sockets[j]? :=
      Tab.socket_setSocket_ne hj.symm _
    rw [Tab.step]
    split
    · split
      · exact ⟨rfl,rfl,fun _ _ => rfl⟩
      · rw [Tab.onClose]
        split
        · split
          · next hcurrent => exact absurd hcurrent hws
          · exact ⟨rfl,rfl,hset⟩
        · split <;> exact ⟨rfl,rfl,hset⟩
        · exact ⟨rfl,rfl,hset⟩
    · exact ⟨rfl,rfl,fun _ _ => rfl⟩
  obtain ⟨hrefusals,hhold,hsockets⟩ := hrest
  refine ⟨hsteady,hrefusals.ge,?_,?_⟩
  · rw [Tab.noticed,Tab.noticed,Tab.heldBusy,Tab.heldBusy,hrefusals,hhold]
  · intro j k' hj hk'
    have hji : j ≠ i := fun heq => hws (heq ▸ hj)
    rw [hsockets j hji] at hk'
    exact ⟨k',hk',rfl,Iff.rfl⟩

theorem calm_closing (s : Tab) (i : Nat) : Tab.Calm s (s.step (.closing i)) := by
  refine ⟨⟨rfl,rfl,rfl⟩,le_refl _,le_refl _,?_⟩
  intro j k' hj hk'
  rw [Tab.step,Tab.socket_setSocket] at hk'
  obtain ⟨k,hk,rfl⟩ := Option.map_eq_some_iff.mp hk'
  refine ⟨k,hk,?_⟩
  split
  · split
    · next hopen => simp [hopen]
    · exact ⟨rfl,Iff.rfl⟩
  · exact ⟨rfl,Iff.rfl⟩

theorem noticed_congr {s t : Tab} (hr : t.busyRefusals = s.busyRefusals) (hh : t.hold = s.hold) :
    t.noticed = s.noticed := by
  rw [Tab.noticed,Tab.noticed,Tab.heldBusy,Tab.heldBusy,hr,hh]

theorem calm_rebuilt {number : Nat} (h : y.Counted) (hfit : y.Orderly (.rebuilt number)) :
    Tab.Calm y.tab (y.tab.step (.rebuilt number)) := by
  refine (Tab.handled_rebuilt y.tab number).calm h.sound.seated ?_
  show y.tab.noticed ≤ (y.tab.rebuilt number).noticed
  rw [Tab.rebuilt]
  split
  · next hout =>
      rcases hfit hout with hgen | hnone
      · rw [decide_eq_true hgen,Tab.noticed_endLoad]
        exact le_refl _
      · rw [Tab.noticed,hnone]
        refine le_trans ?_ (Nat.le_add_right _ _)
        exact (Tab.handled_endLoad
          { y.tab with hold := { y.tab.hold with settled := number :: y.tab.hold.settled } } _).refusals
  · exact le_refl _

theorem calm_loadElapsed (h : y.Counted) : Tab.Calm y.tab (y.tab.step .loadElapsed) := by
  refine (Tab.handled_loadElapsed y.tab).calm h.sound.seated ?_
  show y.tab.noticed ≤ y.tab.loadElapsed.noticed
  rw [Tab.loadElapsed]
  split
  · rw [Tab.noticed_endLoad]
    exact le_refl _
  · exact le_refl _

theorem calm_resolveApproval (h : y.Counted) (allow : Bool) (note : String) :
    Tab.Calm y.tab (y.tab.step (.resolveApproval allow note)) := by
  refine (Tab.handled_resolveApproval y.tab allow note).calm h.sound.seated ?_
  show y.tab.noticed ≤ (y.tab.resolveApproval allow note).noticed
  rw [Tab.resolveApproval]
  split
  · next command t happroval hsent =>
      obtain ⟨j,-,rfl⟩ := Tab.sendFrame_eq_some hsent
      exact le_refl _
  · exact le_refl _

theorem calm_sendMessage (s : Tab) (text : String) : Tab.Calm s (s.step (.sendMessage text)) := by
  have hkept : (s.sendMessage text).busyRefusals = s.busyRefusals ∧
      (s.sendMessage text).sockets = s.sockets := by
    rw [Tab.sendMessage]
    split
    · rw [Tab.cancelReply]
      split
      · exact ⟨rfl,rfl⟩
      · next t hsent =>
          obtain ⟨j,-,rfl⟩ := Tab.sendFrame_eq_some hsent
          obtain ⟨el,blocks,hremoved⟩ := Tab.removed_fields
            { s with sent := s.sent ++ [(j, .cancel)], stopRequested := true }
          rw [hremoved]
          exact ⟨rfl,rfl⟩
    · split
      · exact ⟨rfl,rfl⟩
      · split
        · exact ⟨rfl,rfl⟩
        · next t hsent =>
            obtain ⟨j,-,rfl⟩ := Tab.sendFrame_eq_some hsent
            exact ⟨rfl,rfl⟩
  refine ⟨Tab.steady_sendMessage s text,hkept.1.ge,
    (noticed_congr hkept.1 (Tab.sameDrawing_sendMessage s text).hold).ge,?_⟩
  intro i k' _ hk'
  rw [Tab.step,hkept.2] at hk'
  exact ⟨k',hk',rfl,Iff.rfl⟩

theorem Counted.watchdogElapsed (h : y.Counted) : (y.step .watchdogElapsed).Counted := by
  have hsound := h.sound.step .watchdogElapsed
  show Counted ⟨y.tab.step .watchdogElapsed,y.refusals⟩
  rw [Tab.step] at hsound ⊢
  split at hsound
  · rw [Tab.onWatchdogElapsed] at hsound ⊢
    dsimp only at hsound ⊢
    split at hsound
    · next hsays =>
        have hws : y.tab.ws ≠ none := h.sound.attended.streaming hsays
        rw [if_pos hsays]
        split at hsound
        · next hfirst =>
            rw [if_pos hfirst]
            exact h.calm hsound ⟨⟨rfl,rfl,rfl⟩,le_refl _,le_refl _,
              fun i k' _ hk' => ⟨k',hk',rfl,Iff.rfl⟩⟩
        · next hagain =>
            rw [if_neg hagain]
            rw [Tab.reopenSilentSocket] at hsound ⊢
            dsimp only at hsound ⊢
            rw [if_pos hsays] at hsound ⊢
            obtain ⟨sockets,hreleased⟩ :=
              Tab.released_fields { y.tab with watchdogTimer := none, watchdogToolGrace := false }
            obtain ⟨sockets',superseded,hover⟩ := Tab.handOver_fields { y.tab with
              sockets := sockets
              supersededSocket := none
              watchdogTimer := none
              watchdogToolGrace := false }
            rw [hreleased,hover] at hsound ⊢
            exact h.connected (h.few fun hgone => hws hgone.1) hsound rfl rfl rfl rfl h.adopting
    · next hidle =>
        rw [if_neg hidle]
        exact h.calm hsound ⟨⟨rfl,rfl,rfl⟩,le_refl _,le_refl _,
          fun i k' _ hk' => ⟨k',hk',rfl,Iff.rfl⟩⟩
  · exact h

theorem Counted.step (h : y.Counted) (e : Event) (hfit : y.Orderly e) : (y.step e).Counted := by
  cases e with
  | opened i => exact h.opened_step hfit
  | message i data =>
      cases data with
      | none =>
          have heq : y.tab.step (.message i none) = y.tab := by
            cases hk : y.tab.sockets[i]? <;> simp only [Tab.step,hk]
          show Counted ⟨y.tab.step (.message i none),y.refusals⟩
          rw [heq]
          exact h
      | some data =>
          cases hheard : y.heard i with
          | true =>
              cases hdata : data.isBusy with
              | true =>
                  cases data with
                  | busy text => exact h.busy hheard
                  | frame frame => cases hdata
                  | other => cases hdata
              | false => exact h.spoken hheard hdata hfit
          | false =>
              have heq : y.step (.message i (some data)) = y := by
                rw [Tally.step]
                simp only [hheard,Bool.false_eq_true,false_and,if_false]
                rw [not_heard hheard]
              rw [heq]
              exact h
  | closing i => exact h.calm (h.sound.step (.closing i)) (calm_closing y.tab i)
  | closed i =>
      by_cases hws : y.tab.ws = some i
      · exact h.closedCurrent hws
      · have heq : y.step (.closed i) = ⟨y.tab.step (.closed i),y.refusals⟩ := by
          simp only [Tally.step,if_neg hws]
        rw [heq]
        exact h.calm (h.sound.step (.closed i)) (calm_closed hws)
  | reconnectElapsed =>
      have hsound := h.sound.step .reconnectElapsed
      show Counted ⟨y.tab.step .reconnectElapsed,y.refusals⟩
      rw [Tab.step] at hsound ⊢
      split at hsound
      · next d hd =>
          have hne : y.tab.reconnectTimer ≠ none := by
            rw [hd]
            exact Option.some_ne_none d
          have hws : Tab.ws { y.tab with reconnectTimer := none } = none := h.sound.attended.timer hne
          exact h.connected (h.few fun hgone => hne hgone.2.1) hsound rfl hws rfl rfl h.adopting
      · exact h
  | watchdogElapsed => exact h.watchdogElapsed
  | loadElapsed => exact h.calm (h.sound.step .loadElapsed) (calm_loadElapsed h)
  | rebuilt number => exact h.calm (h.sound.step (.rebuilt number)) (calm_rebuilt h hfit)
  | sendMessage text => exact h.calm (h.sound.step (.sendMessage text)) (calm_sendMessage y.tab text)
  | resolveApproval allow note =>
      exact h.calm (h.sound.step (.resolveApproval allow note)) (calm_resolveApproval h allow note)
  | switchToServer origin => exact absurd hfit id
  | adopted =>
      have heq : y.tab.step .adopted = y.tab := by
        rw [Tab.step,Tab.adopted,if_neg (by rw [h.adopting]; exact Nat.lt_irrefl _)]
      show Counted ⟨y.tab.step .adopted,y.refusals⟩
      rw [heq]
      exact h

theorem counted_start (origin : String) : Counted ⟨Tab.start origin,0⟩ := by
  have hsound := Tab.sound_start origin
  refine ⟨hsound,rfl,Nat.zero_le _,?_,fun _ _ _ _ _ => Nat.zero_le _,.inl (Nat.zero_le _)⟩
  intro i k hws hk hrefused
  obtain rfl := Option.some.inj hws
  obtain rfl := Option.some.inj hk
  cases hrefused

-- Two more than are retried: a notice is counted when it is drawn, after its socket has closed.
theorem refusals_in_a_row (origin : String) (es : List Event)
    (hfit : Run.Along step Orderly ⟨Tab.start origin,0⟩ es) :
    ∀ y ∈ Run.visited step ⟨Tab.start origin,0⟩ es, y.refusals ≤ kMaxBusyRetries + 2 := by
  intro y hy
  have hrun : ∀ y ∈ Run.visited step ⟨Tab.start origin,0⟩ es, Counted y :=
    Run.visited_inv (fun y e h hf => h.step e hf) (counted_start origin) hfit
  rcases (hrun y hy).bounded with hfew | ⟨-,hmany⟩
  · exact hfew.trans (Nat.le_succ _)
  · exact hmany

def turnedAwayOnce (i : Nat) : List Event :=
  [.opened i,.message i (some (.busy "")),.closed i,.rebuilt i,.reconnectElapsed]

def turnedAwayFour : List Event :=
  turnedAwayOnce 0 ++ turnedAwayOnce 1 ++ turnedAwayOnce 2 ++ turnedAwayOnce 3

theorem refusals_in_a_row_four :
    (turnedAwayFour.foldl step ⟨Tab.start "a",0⟩).refusals = 4 ∧
      ∀ y ∈ Run.visited step ⟨Tab.start "a",0⟩ turnedAwayFour, y.refusals ≤ kMaxBusyRetries + 2 := by
  exact ⟨by decide,refusals_in_a_row "a" turnedAwayFour (by decide)⟩

-- A page whose newest socket is `k`, and that no notice has been counted for.
structure Uncounted (s : Tab) (n : Nat) (k : Socket) : Prop where
  ws : s.ws = some n
  newest : s.sockets[n]? = some k
  length : s.sockets.length = n + 1
  refusals : s.busyRefusals = 0
  streaming : s.isStreaming = false
  superseded : s.supersededSocket = none
  adopting : s.adopting = 0
  origin : s.origin = k.origin

variable {s : Tab} {n : Nat} {k : Socket}

theorem Uncounted.setSocket {f : Socket → Socket} (h : Uncounted s n k)
    (hf : (f k).origin = k.origin) : Uncounted (s.setSocket n f) n (f k) := by
  refine ⟨h.ws,?_,?_,h.refusals,h.streaming,h.superseded,h.adopting,h.origin.trans hf.symm⟩
  · rw [Tab.socket_setSocket_self,h.newest]
    rfl
  · exact (List.length_modify ..).trans h.length

theorem Uncounted.opened {origin : String} (h : Uncounted s n { origin := origin }) :
    Uncounted (s.step (.opened n)) n { origin := origin, readyState := .opened } ∧
      (s.step (.opened n)).hold.loading = true := by
  have hset := h.setSocket (f := fun k => { k with readyState := .opened }) rfl
  obtain ⟨notice,lost,seen,hstate⟩ := Tab.setConnectionState_fields
    { s.setSocket n (fun k => { k with readyState := .opened }) with reconnectAttempts := 0 } .online
  simp only [Tab.step,h.newest,if_true,Tab.onOpen]
  rw [if_pos hset.ws,hstate,Tab.resyncAfterReconnect,if_neg (by simp [hset.streaming])]
  exact ⟨⟨hset.ws,hset.newest,hset.length,hset.refusals,hset.streaming,hset.superseded,
    hset.adopting,hset.origin⟩,rfl⟩

theorem Uncounted.heldBusy (h : Uncounted s n k) (hopen : k.readyState = .opened)
    (hears : k.onmessage = true) (hload : s.hold.loading = true) :
    Uncounted (s.step (.message n (some (.busy "")))) n { k with refused := true } := by
  have hset := h.setSocket (f := fun k => { k with refused := true }) rfl
  simp only [Tab.step,h.newest]
  rw [if_pos ⟨hopen,hears⟩,Tab.onMessage,if_pos (.inl h.ws)]
  dsimp only
  rw [if_pos (show (s.readFrame n (.busy "")).hold.loading = true from hload)]
  exact ⟨hset.ws,hset.newest,hset.length,hset.refusals,hset.streaming,hset.superseded,hset.adopting,
    hset.origin⟩

theorem Uncounted.closed (hsound : s.Sound) (h : Uncounted s n k) (hrefused : k.refused = true) :
    Uncounted ((s.step (.closed n)).step .reconnectElapsed) (n + 1) { origin := k.origin } := by
  obtain ⟨k',u,hk',hstep,hu⟩ := Tab.step_closed_current hsound h.ws
  obtain rfl := Option.some.inj (h.newest.symm.trans hk')
  have hclosed := Tab.closedUp u k.refused
  rw [← hstep,hrefused] at hclosed
  have hgone : u.ws = none := by rw [hu]
  have hnone : u.supersededSocket = none := by rw [hu]; exact h.superseded
  have hrefusals : (s.step (.closed n)).busyRefusals = 0 := by
    rw [hclosed.refusals,if_pos rfl,hu]
    exact h.refusals
  have hlength : (s.step (.closed n)).sockets.length = n + 1 := by
    rw [hclosed.sockets,Tab.releaseSupersededSocket_none hnone,hu]
    exact (List.length_modify ..).trans h.length
  have htimer : (s.step (.closed n)).reconnectTimer = some u.nextDelay := by
    rw [hclosed.timer,hrefusals]
    rfl
  have horigin : (s.step (.closed n)).origin = k.origin := by
    rw [hclosed.origin,hu]
    exact h.origin
  generalize s.step (.closed n) = t at *
  have hconnect : t.step .reconnectElapsed =
      Tab.connectWebSocket { t with reconnectTimer := none } := by
    simp only [Tab.step,htimer]
  have hws : Tab.ws { t with reconnectTimer := none } = none := hclosed.ws.trans hgone
  have hout : Tab.attached { t with reconnectTimer := none } = false := by
    rw [Tab.attached,hws]
    rfl
  have heq : t.step .reconnectElapsed = { t with
      reconnectTimer := none
      ws := some t.sockets.length
      sockets := t.sockets ++ [{ origin := t.origin }] } := by
    rw [hconnect,Tab.connectWebSocket]
    dsimp only
    exact if_neg (by rw [hout]; exact Bool.false_ne_true)
  rw [heq,← horigin]
  refine ⟨congrArg some hlength,?_,?_,hrefusals,hclosed.streaming,hclosed.superseded,?_,rfl⟩
  · rw [← hlength]
    exact List.getElem?_concat_length
  · rw [List.length_append,hlength]
    rfl
  · rw [hclosed.adopting,hu]
    exact h.adopting

def overtakenOnce (i : Nat) : List Event :=
  [.opened i,.message i (some (.busy "")),.closed i,.reconnectElapsed]

def overtakenTimes : Nat → List Event
  | 0 => []
  | n + 1 => overtakenTimes n ++ overtakenOnce n

-- Where each socket opens before the transcript is read, its load drops the notice held before it,
-- and the page goes on connecting however often it is turned away.
theorem refusals_without_end (origin : String) (n : Nat) :
    ((overtakenTimes n).foldl step ⟨Tab.start origin,0⟩).refusals = n ∧
      Uncounted ((overtakenTimes n).foldl step ⟨Tab.start origin,0⟩).tab n { origin := origin } := by
  have hrun : ((overtakenTimes n).foldl step ⟨Tab.start origin,0⟩).tab.Sound ∧
      ((overtakenTimes n).foldl step ⟨Tab.start origin,0⟩).refusals = n ∧
      Uncounted ((overtakenTimes n).foldl step ⟨Tab.start origin,0⟩).tab n { origin := origin } := by
    induction n with
    | zero => exact ⟨Tab.sound_start origin,rfl,⟨rfl,rfl,rfl,rfl,rfl,rfl,rfl,rfl⟩⟩
    | succ n ih =>
        rw [overtakenTimes,List.foldl_append]
        generalize (overtakenTimes n).foldl step ⟨Tab.start origin,0⟩ = y at ih ⊢
        obtain ⟨hsound,hcount,hfresh⟩ := ih
        obtain ⟨hopened,hload⟩ := hfresh.opened
        have hbusy := hopened.heldBusy rfl rfl hload
        have hheard := (hsound.step (.opened n)).step (.message n (some (.busy "")))
        refine ⟨(hheard.step (.closed n)).step .reconnectElapsed,?_,hbusy.closed hheard rfl⟩
        have hany : ((y.tab.step (.opened n)).step (.message n (some (.busy "")))).sockets[n]?.any
            Socket.refused = true := by
          rw [hbusy.newest]
          rfl
        simp only [overtakenOnce,List.foldl_cons,List.foldl_nil,step]
        rw [if_pos hbusy.ws,if_pos hany,if_neg (by simp [PageFrame.isBusy]),hcount]
  exact hrun.2

end Tally

end Connection

end PuCli
