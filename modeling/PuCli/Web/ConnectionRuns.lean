import PuCli.Web.Sockets

namespace PuCli

namespace Connection

namespace Tab

variable {s t u : Tab} {i j : Nat} {k : Socket} {e : Event}

-- Nothing is left that would open another socket.
def GivenUp (s : Tab) : Prop := s.ws = none ∧ s.reconnectTimer = none ∧ s.adopting = 0

-- The close of a socket that was turned away, after more refusals than are retried.
def LastRefusal (s : Tab) (e : Event) : Prop :=
  ∃ i k, e = .closed i ∧ s.ws = some i ∧ s.sockets[i]? = some k ∧ k.refused = true ∧
    kMaxBusyRetries < s.busyRefusals ∧ s.adopting = 0

structure Steady (s t : Tab) : Prop where
  ws : t.ws = s.ws
  reconnectTimer : t.reconnectTimer = s.reconnectTimer
  adopting : t.adopting = s.adopting

theorem Handled.steady (h : Handled s t) : Steady s t := ⟨h.ws,h.reconnectTimer,h.adopting⟩

theorem connectWebSocket_ws (s : Tab) : s.connectWebSocket.ws ≠ none := by
  obtain ⟨sockets,ws,hconnected⟩ := connectWebSocket_fields s
  rw [hconnected]
  exact nofun

theorem steady_onMessage (s : Tab) (i : Nat) (origin : String) (data : PageFrame) :
    Steady s (s.onMessage i origin data) := by
  have hread : Steady s (s.readFrame i data) := by
    cases data <;> exact ⟨rfl,rfl,rfl⟩
  rw [onMessage]
  split
  · dsimp only
    split
    · exact ⟨hread.ws,hread.reconnectTimer,hread.adopting⟩
    · split
      all_goals
        refine ⟨(handled_dispatchFrame _ _).ws.trans hread.ws,
          (handled_dispatchFrame _ _).reconnectTimer.trans hread.reconnectTimer,
          (handled_dispatchFrame _ _).adopting.trans hread.adopting⟩
  · exact ⟨rfl,rfl,rfl⟩

theorem steady_onWatchdogElapsed (s : Tab) :
    Steady s s.onWatchdogElapsed ∨ s.onWatchdogElapsed.ws ≠ none := by
  rw [onWatchdogElapsed]
  dsimp only
  split
  · next hspoke =>
      split
      · exact .inl ⟨rfl,rfl,rfl⟩
      · rw [reopenSilentSocket]
        dsimp only
        rw [if_pos hspoke]
        exact .inr (connectWebSocket_ws _)
  · exact .inl ⟨rfl,rfl,rfl⟩

theorem steady_sendMessage (s : Tab) (text : String) : Steady s (s.sendMessage text) := by
  rw [sendMessage]
  split
  · exact (handled_cancelReply s).steady
  · split
    · exact ⟨rfl,rfl,rfl⟩
    · split
      · exact ⟨rfl,rfl,rfl⟩
      · next t hsent =>
          obtain ⟨j,-,rfl⟩ := sendFrame_eq_some hsent
          exact ⟨rfl,rfl,rfl⟩

theorem steady_or_connected (s : Tab) (hclosed : ∀ i, e ≠ .closed i)
    (hswitch : ∀ origin, e ≠ .switchToServer origin) :
    Steady s (s.step e) ∨ (s.step e).ws ≠ none := by
  cases e with
  | opened i =>
      refine .inl ?_
      rw [step]
      split
      · split
        · split
          · obtain ⟨hws,htimer,hadopting⟩ := (handled_onOpen
              (s.setSocket i (fun k => { k with readyState := .opened })) i).steady
            exact ⟨hws,htimer,hadopting⟩
          · exact ⟨rfl,rfl,rfl⟩
        · exact ⟨rfl,rfl,rfl⟩
      · exact ⟨rfl,rfl,rfl⟩
  | message i data =>
      refine .inl ?_
      unfold step
      dsimp only
      split
      · split
        · exact steady_onMessage s i _ _
        · exact ⟨rfl,rfl,rfl⟩
      · exact ⟨rfl,rfl,rfl⟩
  | closing i => exact .inl ⟨rfl,rfl,rfl⟩
  | closed i => exact absurd rfl (hclosed i)
  | reconnectElapsed =>
      rw [step]
      split
      · exact .inr (connectWebSocket_ws _)
      · exact .inl ⟨rfl,rfl,rfl⟩
  | watchdogElapsed =>
      rw [step]
      split
      · exact steady_onWatchdogElapsed s
      · exact .inl ⟨rfl,rfl,rfl⟩
  | loadElapsed => exact .inl (handled_loadElapsed s).steady
  | rebuilt number => exact .inl (handled_rebuilt s number).steady
  | sendMessage text => exact .inl (steady_sendMessage s text)
  | resolveApproval allow note => exact .inl (handled_resolveApproval s allow note).steady
  | switchToServer origin => exact absurd rfl (hswitch origin)
  | adopted =>
      rw [step,adopted]
      split
      · exact .inr (connectWebSocket_ws _)
      · exact .inl ⟨rfl,rfl,rfl⟩

theorem not_givenUp_switchToServer (hg : ¬ s.GivenUp) (origin : String) :
    ¬ (s.switchToServer origin).GivenUp := by
  rw [switchToServer]
  split
  · exact hg
  · rintro ⟨-,-,hadopting⟩
    exact absurd hadopting (Nat.succ_ne_zero _)

theorem step_closed_current (h : s.Sound) (hws : s.ws = some i) : ∃ k u,
    s.sockets[i]? = some k ∧ s.step (.closed i) = u.handleSocketClose k.refused ∧
      u = { s.setSocket i (fun k => { k with readyState := .closed }) with ws := none } := by
  obtain ⟨k,hk,hopen,hown,-⟩ := h.seated.current i hws
  refine ⟨k,_,hk,?_,rfl⟩
  rw [step,hk]
  dsimp only
  rw [if_neg hopen,onClose,hown]
  dsimp only
  exact if_pos hws

theorem givenUp_closed (h : s.Sound) (hws : s.ws = some i) :
    (s.step (.closed i)).GivenUp ↔ s.LastRefusal (.closed i) := by
  have htimer : s.reconnectTimer = none := by
    by_contra hne
    exact absurd ((h.attended.timer hne).symm.trans hws) nofun
  obtain ⟨k,u,hk,hstep,hu⟩ := step_closed_current h hws
  have hclosed := closedUp u k.refused
  have hrefusals : u.busyRefusals = s.busyRefusals := by rw [hu]; rfl
  have hadopting : u.adopting = s.adopting := by rw [hu]; rfl
  have hquiet : u.reconnectTimer = none := by rw [hu]; exact htimer
  have hgone : u.ws = none := by rw [hu]
  rw [hstep,GivenUp,hclosed.ws,hclosed.adopting,hclosed.timer,hclosed.refusals,hrefusals,hadopting,
    hquiet,hgone]
  constructor
  · rintro ⟨-,hnone,hidle⟩
    split at hnone
    · next hrefused =>
        split at hnone
        · next hmany => exact ⟨i,k,rfl,hws,hk,hrefused,hmany,hidle⟩
        · cases hnone
    · rw [if_neg (Nat.not_lt_zero _)] at hnone
      cases hnone
  · rintro ⟨i',k',he,-,hk',hrefused,hmany,hidle⟩
    cases he
    obtain rfl := Option.some.inj (hk.symm.trans hk')
    rw [if_pos hrefused,if_pos hmany]
    exact ⟨rfl,rfl,hidle⟩

theorem steady_onClose (s : Tab) (i : Nat) (k : Socket) (hws : s.ws ≠ some i) :
    Steady s (s.onClose i k) := by
  rw [onClose]
  split
  · rw [if_neg hws]
    exact ⟨rfl,rfl,rfl⟩
  · split <;> exact ⟨rfl,rfl,rfl⟩
  · exact ⟨rfl,rfl,rfl⟩

theorem steady_closed (hws : s.ws ≠ some i) : Steady s (s.step (.closed i)) := by
  rw [step]
  split
  · next k hk =>
      split
      · exact ⟨rfl,rfl,rfl⟩
      · obtain ⟨hws',htimer,hadopting⟩ := steady_onClose
          (s.setSocket i (fun k => { k with readyState := .closed })) i k hws
        exact ⟨hws',htimer,hadopting⟩
  · exact ⟨rfl,rfl,rfl⟩

theorem Steady.givenUp (h : Steady s t) : t.GivenUp ↔ s.GivenUp := by
  rw [GivenUp,GivenUp,h.ws,h.reconnectTimer,h.adopting]

theorem givenUp_step_iff (h : s.Sound) (hg : ¬ s.GivenUp) (e : Event) :
    ¬ (s.step e).GivenUp ↔ ¬ s.LastRefusal e := by
  by_cases hclosed : ∃ i, e = .closed i
  · obtain ⟨i,rfl⟩ := hclosed
    by_cases hws : s.ws = some i
    · exact not_congr (givenUp_closed h hws)
    · refine iff_of_true ((steady_closed hws).givenUp.not.mpr hg) ?_
      rintro ⟨i',k,he,hws',-⟩
      cases he
      exact hws hws'
  · have hnot : ¬ s.LastRefusal e := fun ⟨i,_,he,_⟩ => hclosed ⟨i,he⟩
    refine iff_of_true ?_ hnot
    by_cases hswitch : ∃ origin, e = .switchToServer origin
    · obtain ⟨origin,rfl⟩ := hswitch
      exact not_givenUp_switchToServer hg origin
    · rcases steady_or_connected s (fun i he => hclosed ⟨i,he⟩) (fun o he => hswitch ⟨o,he⟩) with
        hsteady | hconnected
      · exact hsteady.givenUp.not.mpr hg
      · exact fun hgone => hconnected hgone.1

-- A page goes on connecting for as long as it is not refused more often than it retries.
theorem page_gives_up_iff (origin : String) (es : List Event) :
    (∀ t ∈ Run.visited step (start origin) es, ¬ t.GivenUp) ↔
      Run.Along step (fun s e => ¬ s.LastRefusal e) (start origin) es := by
  refine Run.visited_good_iff (fun s e h _ => h.step e)
    (fun s e h _ hg => givenUp_step_iff h hg e) (sound_start origin) ?_ (Run.along_true _ es)
  exact fun hgone => connectWebSocket_ws _ hgone.1

-- A socket is handed over for the turn it still delivers.
def HandedStreams (s : Tab) : Prop := s.supersededSocket ≠ none → s.isStreaming = true

-- A press of Cancel that finds no open socket to send on, while another socket delivers the turn.
def LeavesTurn (s : Tab) (e : Event) : Prop :=
  (∃ text, e = .sendMessage text) ∧ s.isStreaming = true ∧ s.openSocket? = none ∧
    s.supersededSocket ≠ none

structure Plays (s t : Tab) : Prop where
  superseded : t.supersededSocket = none ∨
    t.supersededSocket = s.supersededSocket ∧ t.isStreaming = s.isStreaming

theorem Plays.refl (s : Tab) : Plays s s := ⟨.inr ⟨rfl,rfl⟩⟩

theorem Plays.trans (h : Plays s t) (h' : Plays t u) : Plays s u := by
  rcases h'.superseded with hnone | ⟨hh',hs'⟩
  · exact ⟨.inl hnone⟩
  · rcases h.superseded with hnone | ⟨hh,hs⟩
    · exact ⟨.inl (hh'.trans hnone)⟩
    · exact ⟨.inr ⟨hh'.trans hh,hs'.trans hs⟩⟩

theorem Plays.after (h : Plays t u) (hh : t.supersededSocket = s.supersededSocket)
    (hs : t.isStreaming = s.isStreaming) : Plays s u := by
  have hkept := h.superseded
  rw [hh,hs] at hkept
  exact ⟨hkept⟩

theorem HandedStreams.plays (h : s.HandedStreams) (ht : Plays s t) : t.HandedStreams := by
  intro hne
  rcases ht.superseded with hnone | ⟨hh,hs⟩
  · exact absurd hnone hne
  · rw [hs]
    exact h (hh ▸ hne)

theorem plays_handle (s : Tab) (data : PageFrame) : Plays s (s.handle data) := by
  cases data with
  | other => exact .refl s
  | busy text => exact ⟨.inr ⟨rfl,rfl⟩⟩
  | frame frame =>
      cases frame with
      | done model => exact ⟨.inl (releaseSupersededSocket_superseded _)⟩
      | error text => exact ⟨.inl (releaseSupersededSocket_superseded _)⟩
      | notice text =>
          simp only [handle,handleNotice]
          split <;> exact ⟨.inr ⟨rfl,rfl⟩⟩
      | _ => exact ⟨.inr ⟨rfl,rfl⟩⟩

theorem plays_dispatchFrame (s : Tab) (data : String × PageFrame) : Plays s (s.dispatchFrame data) :=
  ⟨(plays_handle s data.2).superseded⟩

theorem plays_foldl (held : List (String × PageFrame)) (s : Tab) :
    Plays s (held.foldl dispatchFrame s) := by
  induction held generalizing s with
  | nil => exact .refl s
  | cons data held ih => exact (plays_dispatchFrame s data).trans (ih _)

theorem plays_endLoad (s : Tab) (replay : Bool) : Plays s (s.endLoad replay) := by
  simp only [endLoad]
  split
  · exact (plays_foldl _ _).after rfl rfl
  · exact ⟨.inr ⟨rfl,rfl⟩⟩

theorem plays_onOpen (s : Tab) (i : Nat) : Plays s (s.onOpen i) := by
  rw [onOpen]
  split
  · obtain ⟨notice,lost,seen,hstate⟩ :=
      setConnectionState_fields { s with reconnectAttempts := 0 } .online
    rw [hstate,resyncAfterReconnect]
    split
    · exact (plays_endLoad _ true).after rfl rfl
    · exact ⟨.inr ⟨rfl,rfl⟩⟩
  · exact .refl s

theorem plays_onMessage (s : Tab) (i : Nat) (origin : String) (data : PageFrame) :
    Plays s (s.onMessage i origin data) := by
  have hread : Plays s (s.readFrame i data) := by
    cases data <;> exact ⟨.inr ⟨rfl,rfl⟩⟩
  rw [onMessage]
  split
  · dsimp only
    split
    · exact ⟨hread.superseded⟩
    · refine hread.trans ?_
      split <;> exact (plays_dispatchFrame _ _).after rfl rfl
  · exact .refl s

theorem plays_onClose (s : Tab) (i : Nat) (k : Socket) : Plays s (s.onClose i k) := by
  rw [onClose]
  split
  · split
    · exact ⟨.inl (closedUp { s with ws := none } k.refused).superseded⟩
    · exact .refl s
  · split
    · exact ⟨.inl rfl⟩
    · exact .refl s
  · exact .refl s

theorem connectWebSocket_kept (s : Tab) :
    s.connectWebSocket.supersededSocket = s.supersededSocket ∧
      s.connectWebSocket.isStreaming = s.isStreaming := by
  obtain ⟨sockets,ws,hconnected⟩ := connectWebSocket_fields s
  rw [hconnected]
  exact ⟨rfl,rfl⟩

theorem plays_connectWebSocket (s : Tab) : Plays s s.connectWebSocket :=
  ⟨.inr (connectWebSocket_kept s)⟩

theorem HandedStreams.watchdogElapsed (h : s.HandedStreams) : s.onWatchdogElapsed.HandedStreams := by
  rw [onWatchdogElapsed]
  dsimp only
  split
  · next hspoke =>
      split
      · exact h
      · rw [reopenSilentSocket]
        dsimp only
        rw [if_pos hspoke]
        obtain ⟨sockets,hreleased⟩ :=
          released_fields { s with watchdogTimer := none, watchdogToolGrace := false }
        obtain ⟨sockets',superseded,hover⟩ := handOver_fields { s with
          sockets := sockets
          supersededSocket := none
          watchdogTimer := none
          watchdogToolGrace := false }
        rw [hreleased,hover]
        intro _
        rw [(connectWebSocket_kept _).2]
        exact hspoke
  · exact h

theorem handedStreams_sendMessage (h : s.HandedStreams) (text : String) :
    (s.sendMessage text).HandedStreams ↔ ¬ s.LeavesTurn (.sendMessage text) := by
  rw [sendMessage]
  split
  · next hspoke =>
      rw [cancelReply]
      split
      · next hnot =>
          have hclosed : s.openSocket? = none := Option.map_eq_none_iff.mp hnot
          constructor
          · rintro hkept ⟨-,-,-,hhanded⟩
            exact absurd (hkept hhanded) Bool.false_ne_true
          · intro hleaves hhanded
            exact absurd ⟨⟨text,rfl⟩,hspoke,hclosed,hhanded⟩ hleaves
      · next t hsent =>
          have hopen : s.openSocket? ≠ none := by
            intro hnone
            rw [sendFrame,hnone] at hsent
            cases hsent
          obtain ⟨j,-,rfl⟩ := sendFrame_eq_some hsent
          obtain ⟨el,blocks,hremoved⟩ := removed_fields
            { s with sent := s.sent ++ [(j, .cancel)], stopRequested := true }
          rw [hremoved]
          exact iff_of_true h (fun hleaves => hopen hleaves.2.2.1)
  · next hidle =>
      have hstays : ¬ s.LeavesTurn (.sendMessage text) := fun hleaves => hidle hleaves.2.1
      refine iff_of_true ?_ hstays
      split
      · exact h
      · split
        · exact h
        · exact fun _ => rfl

theorem handedStreams_step_iff (h : s.HandedStreams) (e : Event) :
    (s.step e).HandedStreams ↔ ¬ s.LeavesTurn e := by
  by_cases hsend : ∃ text, e = .sendMessage text
  · obtain ⟨text,rfl⟩ := hsend
    exact handedStreams_sendMessage h text
  refine iff_of_true ?_ (fun hleaves => hsend hleaves.1)
  cases e with
  | opened i =>
      rw [step]
      split
      · split
        · split
          · exact h.plays ((plays_onOpen _ i).after rfl rfl)
          · exact h
        · exact h
      · exact h
  | message i data =>
      unfold step
      dsimp only
      split
      · split
        · exact h.plays (plays_onMessage s i _ _)
        · exact h
      · exact h
  | closing i => exact h
  | closed i =>
      rw [step]
      split
      · split
        · exact h
        · exact h.plays ((plays_onClose _ i _).after rfl rfl)
      · exact h
  | reconnectElapsed =>
      rw [step]
      split
      · exact h.plays ((plays_connectWebSocket _).after rfl rfl)
      · exact h
  | watchdogElapsed =>
      rw [step]
      split
      · exact h.watchdogElapsed
      · exact h
  | loadElapsed =>
      rw [step,loadElapsed]
      split
      · exact h.plays ((plays_endLoad _ true).after rfl rfl)
      · exact h
  | rebuilt number =>
      rw [step,rebuilt]
      split
      · exact h.plays ((plays_endLoad _ _).after rfl rfl)
      · exact h
  | sendMessage text => exact absurd ⟨text,rfl⟩ hsend
  | resolveApproval allow note =>
      rw [step,resolveApproval]
      split
      · next command t happroval hsent =>
          obtain ⟨j,-,rfl⟩ := sendFrame_eq_some hsent
          exact h
      · exact h
  | switchToServer origin =>
      rw [step,switchToServer]
      split
      · exact h
      · exact fun hhanded => absurd (releaseSupersededSocket_superseded _) hhanded
  | adopted =>
      rw [step,adopted]
      split
      · exact h.plays ((plays_connectWebSocket _).after rfl rfl)
      · exact h

-- A socket outlives its turn on the page exactly where a cancel had no socket to go out on.
theorem handed_socket_streams_iff (origin : String) (es : List Event) :
    (∀ t ∈ Run.visited step (start origin) es, t.HandedStreams) ↔
      Run.Along step (fun s e => ¬ s.LeavesTurn e) (start origin) es := by
  have hgood : ∀ s e, True → True → HandedStreams s →
      (HandedStreams (s.step e) ↔ ¬ s.LeavesTurn e) := fun s e _ _ h => handedStreams_step_iff h e
  have hstart : (start origin).HandedStreams := fun hhanded =>
    absurd (connectWebSocket_kept _).1 hhanded
  exact Run.visited_good_iff (fun _ _ _ _ => trivial) hgood trivial hstart (Run.along_true _ es)

-- Each frame drawn, or held to be, came over a socket of the server the page is attached to. What
-- it reads of a transcript over HTTP is no frame, and nothing is said of it.
def OwnFrames (s : Tab) : Prop :=
  (∀ p ∈ s.drawn, p.2.1 = p.1) ∧ ∀ f ∈ s.hold.loadingFrames, f.1 = s.origin

-- A switch made while frames of the server left behind are still held.
def CarriesOver (s : Tab) (e : Event) : Prop :=
  ∃ origin, e = .switchToServer origin ∧ s.isStreaming = false ∧ s.hold.loadingFrames ≠ [] ∧
    origin ≠ s.origin

structure SameDrawing (s t : Tab) : Prop where
  origin : t.origin = s.origin
  hold : t.hold = s.hold
  drawn : t.drawn = s.drawn

theorem OwnFrames.same (h : s.OwnFrames) (ht : SameDrawing s t) : t.OwnFrames := by
  rw [OwnFrames,ht.drawn,ht.hold,ht.origin]
  exact h

theorem sameDrawing_released (s : Tab) : SameDrawing s s.releaseSupersededSocket := by
  obtain ⟨sockets,hreleased⟩ := released_fields s
  rw [hreleased]
  exact ⟨rfl,rfl,rfl⟩

theorem sameDrawing_removed (s : Tab) : SameDrawing s s.removeCurrentAssistantMessage := by
  obtain ⟨el,blocks,hremoved⟩ := removed_fields s
  rw [hremoved]
  exact ⟨rfl,rfl,rfl⟩

theorem SameDrawing.trans (h : SameDrawing s t) (h' : SameDrawing t u) : SameDrawing s u :=
  ⟨h'.origin.trans h.origin,h'.hold.trans h.hold,h'.drawn.trans h.drawn⟩

theorem sameDrawing_handle (s : Tab) (data : PageFrame) : SameDrawing s (s.handle data) := by
  cases data with
  | other => exact ⟨rfl,rfl,rfl⟩
  | busy text => exact ⟨rfl,rfl,rfl⟩
  | frame frame =>
      cases frame with
      | done model =>
          have hblocks : (if s.currentAssistantBlocks = [] then s.removeCurrentAssistantMessage
              else s.finishAssistantMessage) = s.removeCurrentAssistantMessage := ite_self _
          simp only [handle,handleDone,hblocks]
          obtain ⟨horigin,hhold,hdrawn⟩ := sameDrawing_removed s
          obtain ⟨horigin',hhold',hdrawn'⟩ := sameDrawing_released
            { s.removeCurrentAssistantMessage with watchdogTimer := none, watchdogToolGrace := false }
          exact ⟨horigin'.trans horigin,hhold'.trans hhold,hdrawn'.trans hdrawn⟩
      | error text =>
          obtain ⟨horigin,hhold,hdrawn⟩ := sameDrawing_removed s
          obtain ⟨horigin',hhold',hdrawn'⟩ := sameDrawing_released
            { s.removeCurrentAssistantMessage with stopRequested := false }
          exact ⟨horigin'.trans horigin,hhold'.trans hhold,hdrawn'.trans hdrawn⟩
      | notice text =>
          simp only [handle,handleNotice]
          split <;> exact ⟨rfl,rfl,rfl⟩
      | _ => exact ⟨rfl,rfl,rfl⟩

theorem OwnFrames.dispatchFrame (h : s.OwnFrames) {data : String × PageFrame}
    (hdata : data.1 = s.origin) : (s.dispatchFrame data).OwnFrames := by
  obtain ⟨horigin,hhold,-⟩ := sameDrawing_handle s data.2
  refine ⟨?_,?_⟩
  · intro p hp
    rcases List.mem_append.mp hp with hp | hp
    · exact h.1 p hp
    · rw [List.mem_singleton.mp hp]
      exact hdata
  · intro f hf
    have hheld : f ∈ s.hold.loadingFrames := hhold ▸ hf
    exact (h.2 f hheld).trans horigin.symm

theorem OwnFrames.foldl {held : List (String × PageFrame)} (h : s.OwnFrames)
    (hheld : ∀ f ∈ held, f.1 = s.origin) : (held.foldl Tab.dispatchFrame s).OwnFrames := by
  induction held generalizing s with
  | nil => exact h
  | cons data held ih =>
      refine ih (h.dispatchFrame (hheld data (List.mem_cons_self ..))) ?_
      intro f hf
      have horigin := (handled_dispatchFrame s data).origin
      exact (hheld f (List.mem_cons_of_mem _ hf)).trans horigin.symm

theorem OwnFrames.endLoad (h : s.OwnFrames) (replay : Bool) : (s.endLoad replay).OwnFrames := by
  have hempty : OwnFrames { s with hold := s.hold.endLoad replay } := ⟨h.1,nofun⟩
  simp only [Tab.endLoad]
  split
  · exact hempty.foldl h.2
  · exact hempty

theorem OwnFrames.setConnectionState (h : s.OwnFrames) (state : ConnState) :
    (s.setConnectionState state).OwnFrames := by
  obtain ⟨notice,lost,seen,hstate⟩ := setConnectionState_fields s state
  rw [hstate]
  exact h

theorem OwnFrames.onOpen (h : s.OwnFrames) (i : Nat) : (s.onOpen i).OwnFrames := by
  have hreset : OwnFrames { s with reconnectAttempts := 0 } := h
  have honline := hreset.setConnectionState .online
  rw [Tab.onOpen]
  split
  · rw [resyncAfterReconnect]
    split
    · exact honline.endLoad true
    · exact ⟨honline.1,fun _ hf => absurd hf List.not_mem_nil⟩
  · exact h

theorem OwnFrames.held (h : s.OwnFrames) (data : String × PageFrame) (hdata : data.1 = s.origin)
    (live : Bool) : OwnFrames { s with hold := s.hold.onMessage live data } := by
  refine ⟨h.1,?_⟩
  show ∀ f ∈ (s.hold.onMessage live data).loadingFrames, f.1 = s.origin
  rw [Hold.Page.onMessage]
  split
  · split
    · intro f hf
      rcases List.mem_append.mp hf with hf | hf
      · exact h.2 f hf
      · rw [List.mem_singleton.mp hf]
        exact hdata
    · exact h.2
  · exact h.2

theorem OwnFrames.armWatchdog (h : s.OwnFrames) : s.armWatchdog.OwnFrames := h

theorem OwnFrames.onMessage (h : s.OwnFrames) (i : Nat) {origin : String}
    (horigin : s.ws = some i ∨ s.supersededSocket = some i → origin = s.origin) (data : PageFrame) :
    (s.onMessage i origin data).OwnFrames := by
  have hsame : SameDrawing s (s.readFrame i data) := by
    cases data <;> exact ⟨rfl,rfl,rfl⟩
  have hread : (s.readFrame i data).OwnFrames := h.same hsame
  rw [Tab.onMessage]
  split
  · next hseat =>
      have hdata : origin = (s.readFrame i data).origin := (horigin hseat).trans hsame.origin.symm
      have hkept := hread.held (origin,data) hdata (decide ((s.readFrame i data).ws = some i))
      dsimp only
      split
      · exact hkept
      · split
        · exact hkept.armWatchdog.dispatchFrame hdata
        · exact hkept.dispatchFrame hdata
  · exact h

theorem sameDrawing_connectWebSocket (s : Tab) : SameDrawing s s.connectWebSocket := by
  obtain ⟨sockets,ws,hconnected⟩ := connectWebSocket_fields s
  rw [hconnected]
  exact ⟨rfl,rfl,rfl⟩

theorem sameDrawing_onClose (s : Tab) (i : Nat) (k : Socket) : SameDrawing s (s.onClose i k) := by
  rw [onClose]
  split
  · split
    · have hclosed := closedUp { s with ws := none } k.refused
      exact ⟨hclosed.origin,hclosed.hold,hclosed.drawn⟩
    · exact ⟨rfl,rfl,rfl⟩
  · split <;> exact ⟨rfl,rfl,rfl⟩
  · exact ⟨rfl,rfl,rfl⟩

theorem sameDrawing_onWatchdogElapsed (s : Tab) : SameDrawing s s.onWatchdogElapsed := by
  rw [onWatchdogElapsed]
  dsimp only
  split
  · next hspoke =>
      split
      · exact ⟨rfl,rfl,rfl⟩
      · rw [reopenSilentSocket]
        dsimp only
        rw [if_pos hspoke]
        obtain ⟨horigin,hhold,hdrawn⟩ := sameDrawing_released
          { s with watchdogTimer := none, watchdogToolGrace := false }
        generalize releaseSupersededSocket _ = released at horigin hhold hdrawn
        obtain ⟨sockets,superseded,hover⟩ := handOver_fields released
        rw [hover]
        refine SameDrawing.trans ?_ (sameDrawing_connectWebSocket _)
        exact ⟨horigin,hhold,hdrawn⟩
  · exact ⟨rfl,rfl,rfl⟩

theorem sameDrawing_sendMessage (s : Tab) (text : String) : SameDrawing s (s.sendMessage text) := by
  rw [sendMessage]
  split
  · rw [cancelReply]
    split
    · exact ⟨rfl,rfl,rfl⟩
    · next t hsent =>
        obtain ⟨j,-,rfl⟩ := sendFrame_eq_some hsent
        refine SameDrawing.trans ?_ (sameDrawing_removed _)
        exact ⟨rfl,rfl,rfl⟩
  · split
    · exact ⟨rfl,rfl,rfl⟩
    · split
      · exact ⟨rfl,rfl,rfl⟩
      · next t hsent =>
          obtain ⟨j,-,rfl⟩ := sendFrame_eq_some hsent
          exact ⟨rfl,rfl,rfl⟩

theorem ownFrames_switchToServer (h : s.OwnFrames) (origin : String) :
    (s.switchToServer origin).OwnFrames ↔ ¬ s.CarriesOver (.switchToServer origin) := by
  rw [switchToServer]
  split
  · next hspoke =>
      refine iff_of_true h ?_
      rintro ⟨origin',-,hidle,-⟩
      exact Bool.false_ne_true (hidle.symm.trans hspoke)
  · next hidle =>
      obtain ⟨sockets,hlet⟩ := letGo_fields { s with origin := origin }
      obtain ⟨sockets',hreleased⟩ :=
        released_fields { s with origin := origin, ws := none, sockets := sockets }
      simp only [adoptServer,hlet,hreleased]
      constructor
      · rintro ⟨-,hheld⟩ ⟨origin',he,-,hsome,hne⟩
        cases he
        obtain ⟨f,hf⟩ := List.exists_mem_of_ne_nil _ hsome
        exact hne ((hheld f hf).symm.trans (h.2 f hf))
      · intro hcarries
        refine ⟨h.1,?_⟩
        intro f hf
        have hsame : origin = s.origin := by
          by_contra hne
          exact hcarries ⟨origin,rfl,Bool.eq_false_iff.mpr hidle,List.ne_nil_of_mem hf,hne⟩
        exact (h.2 f hf).trans hsame.symm

theorem ownFrames_step_iff (hsound : s.Sound) (h : s.OwnFrames) (e : Event) :
    (s.step e).OwnFrames ↔ ¬ s.CarriesOver e := by
  by_cases hswitch : ∃ origin, e = .switchToServer origin
  · obtain ⟨origin,rfl⟩ := hswitch
    exact ownFrames_switchToServer h origin
  refine iff_of_true ?_ (fun ⟨origin,he,_⟩ => hswitch ⟨origin,he⟩)
  cases e with
  | opened i =>
      rw [step]
      split
      · split
        · have hset : OwnFrames (s.setSocket i (fun k => { k with readyState := .opened })) := h
          split
          · exact hset.onOpen i
          · exact hset
        · exact h
      · exact h
  | message i data =>
      unfold step
      dsimp only
      split
      · next k data hk =>
          split
          · refine h.onMessage i ?_ data
            intro hseat
            rcases hseat with hws | hh
            · obtain ⟨k',hk',-,-,horigin⟩ := hsound.seated.current i hws
              obtain rfl := Option.some.inj (hk.symm.trans hk')
              exact horigin
            · obtain ⟨k',hk',-,-,horigin⟩ := hsound.seated.handed i hh
              obtain rfl := Option.some.inj (hk.symm.trans hk')
              exact horigin
          · exact h
      · exact h
  | closing i => exact h
  | closed i =>
      rw [step]
      split
      · split
        · exact h
        · have hset : OwnFrames (s.setSocket i (fun k => { k with readyState := .closed })) := h
          exact hset.same (sameDrawing_onClose _ i _)
      · exact h
  | reconnectElapsed =>
      rw [step]
      split
      · have hfree : OwnFrames { s with reconnectTimer := none } := h
        exact hfree.same (sameDrawing_connectWebSocket _)
      · exact h
  | watchdogElapsed =>
      rw [step]
      split
      · exact h.same (sameDrawing_onWatchdogElapsed s)
      · exact h
  | loadElapsed =>
      rw [step,loadElapsed]
      split
      · have hfree : OwnFrames { s with hold := { s.hold with loadingTimer := false } } := h
        exact hfree.endLoad true
      · exact h
  | rebuilt number =>
      rw [step,rebuilt]
      split
      · have hsettled : OwnFrames
          { s with hold := { s.hold with settled := number :: s.hold.settled } } := h
        exact hsettled.endLoad _
      · exact h
  | sendMessage text => exact h.same (sameDrawing_sendMessage s text)
  | resolveApproval allow note =>
      rw [step,resolveApproval]
      split
      · next command t happroval hsent =>
          obtain ⟨j,-,rfl⟩ := sendFrame_eq_some hsent
          exact h
      · exact h
  | switchToServer origin => exact absurd ⟨origin,rfl⟩ hswitch
  | adopted =>
      rw [step,adopted]
      split
      · have hfewer : OwnFrames { s with adopting := s.adopting - 1 } := h
        exact hfewer.same (sameDrawing_connectWebSocket _)
      · exact h

-- The frames a page draws are its own server's, unless it leaves one while that one's are held.
theorem page_draws_own_server_iff (origin : String) (es : List Event) :
    (∀ t ∈ Run.visited step (start origin) es, t.OwnFrames) ↔
      Run.Along step (fun s e => ¬ s.CarriesOver e) (start origin) es := by
  have hstart : OwnFrames { origin := origin } := ⟨nofun,nofun⟩
  exact Run.visited_good_iff (fun s e h _ => h.step e)
    (fun s e hsound _ h => ownFrames_step_iff hsound h e) (sound_start origin)
    (hstart.same (sameDrawing_connectWebSocket _)) (Run.along_true _ es)

-- A frame of the first server, held while the transcript loads, is drawn beside the second's.
example : (([.opened 0,.message 0 (some (.frame (.chunk "he"))),.switchToServer "b",.loadElapsed] :
    List Event).foldl step (start "a")).drawn = [("b","a",.frame (.chunk "he"))] := by
  decide

end Tab

end Connection

end PuCli
