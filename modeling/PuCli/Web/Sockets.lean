import PuCli.Library.Run
import PuCli.Web.Connection

namespace PuCli

namespace Connection

namespace Tab

variable {s t u : Tab} {i j : Nat} {k : Socket}

-- What a frame can do to the page's sockets and timers, however it is drawn.
structure Handled (s t : Tab) : Prop where
  ws : t.ws = s.ws
  origin : t.origin = s.origin
  reconnectTimer : t.reconnectTimer = s.reconnectTimer
  adopting : t.adopting = s.adopting
  refusals : s.busyRefusals ≤ t.busyRefusals
  streaming : t.isStreaming = true → s.isStreaming = true
  watchdog : t.watchdogTimer = s.watchdogTimer ∧ t.watchdogToolGrace = s.watchdogToolGrace ∨
    t.watchdogTimer = none
  seats : t.sockets = s.sockets ∧ t.supersededSocket = s.supersededSocket ∨
    t.sockets = s.releaseSupersededSocket.sockets ∧ t.supersededSocket = none

theorem Handled.refl (s : Tab) : Handled s s :=
  ⟨rfl,rfl,rfl,rfl,le_refl _,id,.inl ⟨rfl,rfl⟩,.inl ⟨rfl,rfl⟩⟩

theorem releaseSupersededSocket_none (h : s.supersededSocket = none) :
    s.releaseSupersededSocket = s := by
  rw [releaseSupersededSocket,h]

theorem releaseSupersededSocket_congr (hs : t.sockets = s.sockets)
    (hh : t.supersededSocket = s.supersededSocket) :
    t.releaseSupersededSocket.sockets = s.releaseSupersededSocket.sockets := by
  rw [releaseSupersededSocket,releaseSupersededSocket,hh]
  cases s.supersededSocket with
  | none => exact hs
  | some stale =>
      simp only [setSocket]
      rw [hs]

theorem releaseSupersededSocket_superseded (s : Tab) :
    s.releaseSupersededSocket.supersededSocket = none := by
  rw [releaseSupersededSocket]
  split
  · next h => exact h
  · rfl

theorem Handled.trans (h : Handled s t) (h' : Handled t u) : Handled s u := by
  refine ⟨h'.ws.trans h.ws,h'.origin.trans h.origin,h'.reconnectTimer.trans h.reconnectTimer,
    h'.adopting.trans h.adopting,h.refusals.trans h'.refusals,fun hu => h.streaming (h'.streaming hu),
    ?_,?_⟩
  · rcases h'.watchdog with ⟨hw,hg⟩ | hw
    · rw [hw,hg]
      exact h.watchdog
    · exact .inr hw
  · rcases h.seats with ⟨hs,hh⟩ | ⟨hs,hh⟩
    · have hseats := h'.seats
      rw [hs,hh,releaseSupersededSocket_congr hs hh] at hseats
      exact hseats
    · refine .inr ?_
      rcases h'.seats with ⟨hs',hh'⟩ | ⟨hs',hh'⟩
      · exact ⟨hs'.trans hs,hh'.trans hh⟩
      · rw [releaseSupersededSocket_none hh] at hs'
        exact ⟨hs'.trans hs,hh'⟩

theorem released_fields (s : Tab) : ∃ sockets, s.releaseSupersededSocket =
    { s with sockets := sockets, supersededSocket := none } := by
  rw [releaseSupersededSocket]
  split
  · next h =>
      refine ⟨s.sockets,?_⟩
      rw [← h]
  · exact ⟨_,rfl⟩

theorem removed_fields (s : Tab) : ∃ el blocks, s.removeCurrentAssistantMessage =
    { s with currentAssistantEl := el, currentAssistantBlocks := blocks } := by
  rw [removeCurrentAssistantMessage]
  split
  · exact ⟨_,_,rfl⟩
  · exact ⟨s.currentAssistantEl,s.currentAssistantBlocks,rfl⟩

theorem released_sockets {t : Tab} {sockets : List Socket}
    (h : t.releaseSupersededSocket = { t with sockets := sockets, supersededSocket := none })
    (hs : t.sockets = s.sockets) (hh : t.supersededSocket = s.supersededSocket) : sockets = s.releaseSupersededSocket.sockets :=
  (congrArg Tab.sockets h).symm.trans (releaseSupersededSocket_congr hs hh)

theorem handled_handleDone (s : Tab) : Handled s s.handleDone := by
  have hblocks : (if s.currentAssistantBlocks = [] then s.removeCurrentAssistantMessage
      else s.finishAssistantMessage) = s.removeCurrentAssistantMessage := ite_self _
  obtain ⟨el,blocks,hremoved⟩ := removed_fields s
  simp only [handleDone,hblocks]
  rw [hremoved]
  obtain ⟨sockets,hreleased⟩ := released_fields ({ s with
    currentAssistantEl := el
    currentAssistantBlocks := blocks
    watchdogTimer := none
    watchdogToolGrace := false })
  have hsockets : sockets = s.releaseSupersededSocket.sockets := released_sockets hreleased rfl rfl
  rw [hreleased]
  exact ⟨rfl,rfl,rfl,rfl,le_refl _,nofun,.inr rfl,.inr ⟨hsockets,rfl⟩⟩

theorem handled_handleError (s : Tab) : Handled s s.handleError := by
  obtain ⟨el,blocks,hremoved⟩ := removed_fields s
  simp only [handleError]
  rw [hremoved]
  obtain ⟨sockets,hreleased⟩ := released_fields ({ s with
    currentAssistantEl := el
    currentAssistantBlocks := blocks
    stopRequested := false })
  have hsockets : sockets = s.releaseSupersededSocket.sockets := released_sockets hreleased rfl rfl
  rw [hreleased]
  exact ⟨rfl,rfl,rfl,rfl,le_refl _,nofun,.inl ⟨rfl,rfl⟩,.inr ⟨hsockets,rfl⟩⟩

theorem handled_handle (s : Tab) (data : PageFrame) : Handled s (s.handle data) := by
  have hsame (t : Tab) (h : t = { s with
      currentAssistantBlocks := t.currentAssistantBlocks
      approvalPending := t.approvalPending
      notice := t.notice }) : Handled s t := by
    rw [h]
    exact ⟨rfl,rfl,rfl,rfl,le_refl _,id,.inl ⟨rfl,rfl⟩,.inl ⟨rfl,rfl⟩⟩
  cases data with
  | other => exact .refl s
  | busy text => exact ⟨rfl,rfl,rfl,rfl,Nat.le_succ _,id,.inl ⟨rfl,rfl⟩,.inl ⟨rfl,rfl⟩⟩
  | frame frame =>
      cases frame with
      | done model => exact handled_handleDone s
      | error text => exact handled_handleError s
      | notice text =>
          simp only [handle,handleNotice]
          split
          · exact .refl s
          · exact hsame _ rfl
      | _ => exact hsame _ rfl

theorem handled_dispatchFrame (s : Tab) (data : String × PageFrame) :
    Handled s (s.dispatchFrame data) := by
  obtain ⟨hws,horigin,htimer,hadopting,hrefusals,hstreaming,hwatchdog,hseats⟩ :=
    handled_handle s data.2
  exact ⟨hws,horigin,htimer,hadopting,hrefusals,hstreaming,hwatchdog,hseats⟩

theorem handled_foldl (held : List (String × PageFrame)) (s : Tab) :
    Handled s (held.foldl dispatchFrame s) := by
  induction held generalizing s with
  | nil => exact .refl s
  | cons data held ih => exact (handled_dispatchFrame s data).trans (ih _)

theorem handled_endLoad (s : Tab) (replay : Bool) : Handled s (s.endLoad replay) := by
  have hheld : Handled s { s with hold := s.hold.endLoad replay } :=
    ⟨rfl,rfl,rfl,rfl,le_refl _,id,.inl ⟨rfl,rfl⟩,.inl ⟨rfl,rfl⟩⟩
  simp only [endLoad]
  split
  · exact hheld.trans (handled_foldl _ _)
  · exact hheld

def Seat (s : Tab) (onclose : OnClose) (i : Nat) : Prop :=
  ∃ k, s.sockets[i]? = some k ∧ k.readyState ≠ .closed ∧ k.onclose = onclose ∧ k.origin = s.origin

def AtRest (s : Tab) : Prop :=
  ∀ i k, s.sockets[i]? = some k → s.ws ≠ some i → s.supersededSocket ≠ some i → k.live = false

-- A socket is the page's current one, the one it handed over, or done with.
structure Seated (s : Tab) : Prop where
  current : ∀ i, s.ws = some i → s.Seat .own i
  handed : ∀ i, s.supersededSocket = some i → s.Seat .handover i
  rest : s.AtRest

structure Attended (s : Tab) : Prop where
  handed : s.supersededSocket ≠ none → s.ws ≠ none
  timer : s.reconnectTimer ≠ none → s.ws = none
  stranded : s.ws = none →
    s.reconnectTimer ≠ none ∨ 0 < s.adopting ∨ kMaxBusyRetries < s.busyRefusals
  streaming : s.isStreaming = true → s.ws ≠ none
  delay : ∀ d, s.reconnectTimer = some d → 500 ≤ d ∧ d ≤ 8000
  watchdog : ∀ d, s.watchdogTimer = some d →
    d = kWatchdogStreamMs ∨ d = kWatchdogToolMs ∧ s.watchdogToolGrace = true

structure Sound (s : Tab) : Prop where
  seated : s.Seated
  attended : s.Attended

theorem Seat.unique {o o' : OnClose} (h : s.Seat o i) (h' : s.Seat o' i) : o = o' := by
  obtain ⟨k,hk,-,ho,-⟩ := h
  obtain ⟨k',hk',-,ho',-⟩ := h'
  obtain rfl := Option.some.inj (hk.symm.trans hk')
  exact ho.symm.trans ho'

theorem Seated.apart (h : s.Seated) (hws : s.ws = some i) (hj : s.supersededSocket = some j) :
    i ≠ j := by
  rintro rfl
  exact absurd ((h.current i hws).unique (h.handed i hj)) (by simp)

theorem socket_setSocket (s : Tab) (i j : Nat) (f : Socket → Socket) :
    (s.setSocket i f).sockets[j]? = (s.sockets[j]?).map (fun k => if i = j then f k else k) :=
  List.getElem?_modify ..

theorem socket_setSocket_ne (h : i ≠ j) (f : Socket → Socket) :
    (s.setSocket i f).sockets[j]? = s.sockets[j]? := by
  rw [socket_setSocket]
  simp [h]

theorem socket_setSocket_self (f : Socket → Socket) :
    (s.setSocket i f).sockets[i]? = (s.sockets[i]?).map f := by
  rw [socket_setSocket]
  simp

theorem Seat.setSocket_ne {o : OnClose} (h : s.Seat o j) (hij : i ≠ j) (f : Socket → Socket) :
    (s.setSocket i f).Seat o j := by
  obtain ⟨k,hk,hrest⟩ := h
  refine ⟨k,?_,hrest⟩
  rw [socket_setSocket_ne hij]
  exact hk

-- A change to a socket that leaves it in its place: what is done with stays done with.
structure Mild (s : Tab) (i : Nat) (f : Socket → Socket) : Prop where
  onclose : ∀ k, s.sockets[i]? = some k → (f k).onclose = k.onclose
  origin : ∀ k, s.sockets[i]? = some k → (f k).origin = k.origin
  closed : ∀ k, s.sockets[i]? = some k → k.readyState ≠ .closed → (f k).readyState ≠ .closed
  live : ∀ k, s.sockets[i]? = some k → k.live = false → (f k).live = false

theorem Seat.mild {o : OnClose} {f : Socket → Socket} (hf : s.Mild i f) (h : s.Seat o j) :
    (s.setSocket i f).Seat o j := by
  by_cases hij : i = j
  · subst hij
    obtain ⟨k,hk,hopen,ho,horigin⟩ := h
    refine ⟨f k,?_,hf.closed k hk hopen,(hf.onclose k hk).trans ho,(hf.origin k hk).trans horigin⟩
    rw [socket_setSocket_self,hk]
    rfl
  · exact h.setSocket_ne hij f

theorem Seated.mild {f : Socket → Socket} (h : s.Seated) (hf : s.Mild i f) :
    (s.setSocket i f).Seated := by
  refine ⟨fun j hj => (h.current j hj).mild hf,fun j hj => (h.handed j hj).mild hf,?_⟩
  intro j k hk hws hh
  rw [socket_setSocket] at hk
  obtain ⟨k',hk',rfl⟩ := Option.map_eq_some_iff.mp hk
  have hlive := h.rest j k' hk' hws hh
  split
  · next heq =>
      subst heq
      exact hf.live k' hk' hlive
  · exact hlive

theorem live_close (k : Socket) : k.close.live = false := by
  unfold Socket.close
  split
  · rfl
  · next h => exact Bool.eq_false_iff.mpr h

-- A socket whose place is given up is done with, as soon as it is no longer live.
theorem AtRest.givenUp (h : s.AtRest) {t : Tab} {f : Socket → Socket}
    (hsockets : t.sockets = (s.setSocket i f).sockets) (hf : ∀ k, (f k).live = false)
    (hws : ∀ j, j ≠ i → t.ws ≠ some j → s.ws ≠ some j)
    (hh : ∀ j, j ≠ i → t.supersededSocket ≠ some j → s.supersededSocket ≠ some j) : t.AtRest := by
  intro j k hk hws' hh'
  rw [hsockets,socket_setSocket] at hk
  obtain ⟨k',hk',rfl⟩ := Option.map_eq_some_iff.mp hk
  by_cases hij : i = j
  · rw [if_pos hij]
    exact hf k'
  · rw [if_neg hij]
    exact h j k' hk' (hws j (Ne.symm hij) hws') (hh j (Ne.symm hij) hh')

theorem Seated.releaseSupersededSocket (h : s.Seated) : s.releaseSupersededSocket.Seated := by
  rw [Tab.releaseSupersededSocket]
  split
  · exact h
  · next stale hstale =>
      refine ⟨?_,nofun,?_⟩
      · intro j hj
        exact (h.current j hj).setSocket_ne (h.apart hj hstale).symm _
      · refine h.rest.givenUp rfl (fun k => live_close _) (fun _ _ hne => hne) ?_
        intro j hj _ hstale'
        exact hj (Option.some.inj (hstale'.symm.trans hstale))

theorem Seated.handOver (h : s.Seated) (hnone : s.supersededSocket = none) : s.handOver.Seated := by
  rw [Tab.handOver]
  split
  · exact h
  · next stale hstale =>
      refine ⟨nofun,?_,?_⟩
      · intro j hj
        obtain rfl := Option.some.inj hj
        obtain ⟨k,hk,hopen,-,horigin⟩ := h.current stale hstale
        refine ⟨{ k with onopen := false, onclose := .handover },?_,hopen,rfl,horigin⟩
        rw [socket_setSocket_self]
        simp only
        rw [hk]
        rfl
      · intro j k hk hws hh
        have hne : stale ≠ j := fun heq => hh (congrArg some heq)
        rw [socket_setSocket_ne hne] at hk
        refine h.rest j k hk ?_ ?_
        · rw [hstale]
          exact fun heq => hne (Option.some.inj heq)
        · rw [hnone]
          exact nofun

theorem Seated.connectWebSocket (h : s.Seated) : s.connectWebSocket.Seated := by
  rw [Tab.connectWebSocket]
  split
  · exact ⟨h.current,h.handed,h.rest⟩
  · next hout =>
      have hlt {o : OnClose} {j : Nat} (hj : s.Seat o j) : j < s.sockets.length := by
        obtain ⟨k,hk,-⟩ := hj
        exact (List.getElem?_eq_some_iff.mp hk).1
      refine ⟨?_,?_,?_⟩
      · intro j hj
        obtain rfl := Option.some.inj hj
        exact ⟨{ origin := s.origin },List.getElem?_concat_length,nofun,rfl,rfl⟩
      · intro j hj
        obtain ⟨k,hk,hrest⟩ := h.handed j hj
        refine ⟨k,?_,hrest⟩
        rw [← hk]
        exact List.getElem?_append_left (hlt (h.handed j hj))
      · intro j k hk hws hh
        have hj : j ≠ s.sockets.length := fun heq => hws (congrArg some heq.symm)
        have hlt : j < s.sockets.length := by
          have hbound := (List.getElem?_eq_some_iff.mp hk).1
          simp only [List.length_append,List.length_singleton] at hbound
          omega
        have hold : s.sockets[j]? = some k := by
          rw [← hk]
          exact (List.getElem?_append_left hlt).symm
        by_cases hcurrent : s.ws = some j
        · refine Bool.eq_false_iff.mpr fun hlive => hout ?_
          simp only [attached,hcurrent,Option.any_some,hold]
          exact hlive
        · exact h.rest j k hold hcurrent hh

theorem AtRest.letGo (h : s.AtRest) : s.letGo.AtRest := by
  rw [Tab.letGo]
  split
  · exact h
  · next i hi =>
      refine h.givenUp rfl (fun k => live_close _) ?_ (fun _ _ hne => hne)
      intro j hj _ hws
      exact hj (Option.some.inj (hws.symm.trans hi))

theorem AtRest.releaseSupersededSocket (h : s.AtRest) : s.releaseSupersededSocket.AtRest := by
  rw [Tab.releaseSupersededSocket]
  split
  · exact h
  · next stale hstale =>
      refine h.givenUp rfl (fun k => live_close _) (fun _ _ hne => hne) ?_
      intro j hj _ hstale'
      exact hj (Option.some.inj (hstale'.symm.trans hstale))

theorem Seated.congr (h : s.Seated) (hws : t.ws = s.ws) (horigin : t.origin = s.origin)
    (hsockets : t.sockets = s.sockets) (hh : t.supersededSocket = s.supersededSocket) :
    t.Seated := by
  refine ⟨?_,?_,?_⟩
  · intro j hj
    rw [Seat,hsockets,horigin]
    exact h.current j (hws ▸ hj)
  · intro j hj
    rw [Seat,hsockets,horigin]
    exact h.handed j (hh ▸ hj)
  · intro j k hk
    rw [hws,hh]
    exact h.rest j k (hsockets ▸ hk)

theorem Seated.released (h : s.Seated) (hws : t.ws = s.ws) (horigin : t.origin = s.origin)
    (hsockets : t.sockets = s.releaseSupersededSocket.sockets) (hh : t.supersededSocket = none) :
    t.Seated := by
  obtain ⟨sockets,hreleased⟩ := released_fields s
  refine h.releaseSupersededSocket.congr ?_ ?_ hsockets ?_
  · rw [hws,hreleased]
  · rw [horigin,hreleased]
  · rw [hh,releaseSupersededSocket_superseded]

theorem Seated.handled (h : s.Seated) (ht : Handled s t) : t.Seated := by
  rcases ht.seats with ⟨hs,hh⟩ | ⟨hs,hh⟩
  · exact h.congr ht.ws ht.origin hs hh
  · exact h.released ht.ws ht.origin hs hh

theorem connectWebSocket_fields (s : Tab) : ∃ sockets ws, s.connectWebSocket =
    { s with sockets := sockets, ws := some ws, reconnectTimer := none } := by
  rw [connectWebSocket]
  split
  · next hin =>
      cases hws : s.ws with
      | none =>
          rw [attached,hws] at hin
          cases hin
      | some i =>
          refine ⟨s.sockets,i,?_⟩
          rw [← hws]
  · exact ⟨_,_,rfl⟩

theorem setConnectionState_fields (s : Tab) (state : ConnState) : ∃ notice lost seen,
    s.setConnectionState state =
      { s with notice := notice, replyLostToDisconnect := lost, connState := seen } := by
  rw [setConnectionState]
  split
  · exact ⟨s.notice,s.replyLostToDisconnect,s.connState,rfl⟩
  · exact ⟨_,_,_,rfl⟩

def nextDelay (s : Tab) : Nat := s.reconnectTimer.getD (min (500 * 2 ^ s.reconnectAttempts) 8000)

theorem scheduleReconnect_fields (s : Tab) : ∃ attempts, s.scheduleReconnect =
    { s with reconnectAttempts := attempts, reconnectTimer := some s.nextDelay } := by
  rw [scheduleReconnect,nextDelay]
  split
  · next d hd =>
      refine ⟨s.reconnectAttempts,?_⟩
      rw [hd,Option.getD_some,← hd]
  · next hnone =>
      refine ⟨s.reconnectAttempts + 1,?_⟩
      rw [hnone,Option.getD_none]

theorem loseReply_fields (s : Tab) : ∃ el blocks lost, s.loseReply = { s with
    currentAssistantEl := el
    currentAssistantBlocks := blocks
    isStreaming := false
    replyLostToDisconnect := lost } := by
  rw [loseReply]
  split
  · obtain ⟨el,blocks,hremoved⟩ := removed_fields s
    refine ⟨el,blocks,true,?_⟩
    rw [hremoved]
    rfl
  · next hidle =>
      refine ⟨s.currentAssistantEl,s.currentAssistantBlocks,s.replyLostToDisconnect,?_⟩
      rw [← Bool.eq_false_iff.mpr hidle]

theorem goOffline_fields (s : Tab) (refused : Bool) : ∃ notice lost seen refusals attempts timer,
    s.goOffline refused = { s with
        notice := notice
        replyLostToDisconnect := lost
        connState := seen
        busyRefusals := refusals
        reconnectAttempts := attempts
        reconnectTimer := timer } ∧
      refusals = (if refused then s.busyRefusals else 0) ∧
      timer = if kMaxBusyRetries < refusals then s.reconnectTimer else some s.nextDelay := by
  cases refused with
  | true =>
      obtain ⟨notice,lost,seen,hstate⟩ :=
        setConnectionState_fields { s with replyLostToDisconnect := false } .offline
      simp only [goOffline,if_true,hstate]
      split
      · next hfew =>
          obtain ⟨attempts,hscheduled⟩ := scheduleReconnect_fields
            { s with notice := notice, replyLostToDisconnect := lost, connState := seen }
          refine ⟨notice,lost,seen,s.busyRefusals,attempts,_,hscheduled,rfl,?_⟩
          rw [if_neg (by simpa using hfew)]
          rfl
      · next hmany =>
          refine ⟨notice,lost,seen,s.busyRefusals,s.reconnectAttempts,_,rfl,rfl,?_⟩
          rw [if_pos (by simpa using hmany)]
  | false =>
      obtain ⟨notice,lost,seen,hstate⟩ :=
        setConnectionState_fields { s with busyRefusals := 0 } .offline
      obtain ⟨attempts,hscheduled⟩ := scheduleReconnect_fields { s with
        notice := notice
        replyLostToDisconnect := lost
        connState := seen
        busyRefusals := 0 }
      refine ⟨notice,lost,seen,0,attempts,_,?_,rfl,rfl⟩
      simp only [goOffline,Bool.false_eq_true,if_false,hstate]
      exact hscheduled

-- What is left of the page when its socket is gone: a turn no longer streams, and the page waits
-- for its timer, or it has been refused too often.
structure ClosedUp (s t : Tab) (refused : Bool) : Prop where
  ws : t.ws = s.ws
  origin : t.origin = s.origin
  sockets : t.sockets = s.releaseSupersededSocket.sockets
  superseded : t.supersededSocket = none
  adopting : t.adopting = s.adopting
  streaming : t.isStreaming = false
  watchdog : t.watchdogTimer = none
  hold : t.hold = s.hold
  drawn : t.drawn = s.drawn
  refusals : t.busyRefusals = if refused then s.busyRefusals else 0
  timer : t.reconnectTimer =
    if kMaxBusyRetries < t.busyRefusals then s.reconnectTimer else some s.nextDelay

theorem closedUp (s : Tab) (refused : Bool) : ClosedUp s (s.handleSocketClose refused) refused := by
  obtain ⟨sockets,hreleased⟩ :=
    released_fields { s with watchdogTimer := none, watchdogToolGrace := false }
  have hsockets : sockets = s.releaseSupersededSocket.sockets := released_sockets hreleased rfl rfl
  simp only [handleSocketClose,hreleased]
  generalize hoff : Tab.loseReply _ = quiet
  obtain ⟨el,blocks,lost,hlost⟩ := loseReply_fields { s with
    sockets := sockets
    supersededSocket := none
    watchdogTimer := none
    watchdogToolGrace := false
    approvalPending := none }
  rw [hoff] at hlost
  obtain ⟨notice,lost',seen,refusals,attempts,timer,heq,hrefusals,htimer⟩ :=
    goOffline_fields quiet refused
  rw [heq]
  subst hlost
  exact ⟨rfl,rfl,hsockets,rfl,rfl,rfl,rfl,rfl,rfl,hrefusals,htimer⟩

theorem nextDelay_bounds (h : ∀ d, s.reconnectTimer = some d → 500 ≤ d ∧ d ≤ 8000) :
    500 ≤ s.nextDelay ∧ s.nextDelay ≤ 8000 := by
  rw [nextDelay]
  cases hd : s.reconnectTimer with
  | some d => exact h d hd
  | none =>
      have hpow : 1 ≤ 2 ^ s.reconnectAttempts := Nat.one_le_two_pow
      rw [Option.getD_none]
      omega

theorem Attended.handled (h : s.Attended) (ht : Handled s t) : t.Attended := by
  refine ⟨?_,?_,?_,?_,?_,?_⟩
  · rw [ht.ws]
    rcases ht.seats with ⟨-,hh⟩ | ⟨-,hh⟩
    · rw [hh]
      exact h.handed
    · rw [hh]
      exact fun hne => absurd rfl hne
  · rw [ht.reconnectTimer,ht.ws]
    exact h.timer
  · rw [ht.reconnectTimer,ht.ws,ht.adopting]
    intro hws
    rcases h.stranded hws with htimer | hadopting | hrefused
    · exact .inl htimer
    · exact .inr (.inl hadopting)
    · exact .inr (.inr (hrefused.trans_le ht.refusals))
  · rw [ht.ws]
    exact fun hstreaming => h.streaming (ht.streaming hstreaming)
  · rw [ht.reconnectTimer]
    exact h.delay
  · rcases ht.watchdog with ⟨hw,hg⟩ | hw
    · rw [hw,hg]
      exact h.watchdog
    · rw [hw]
      exact nofun

theorem Sound.handled (h : s.Sound) (ht : Handled s t) : t.Sound :=
  ⟨h.seated.handled ht,h.attended.handled ht⟩

theorem Sound.mild {f : Socket → Socket} (h : s.Sound) (hf : s.Mild i f) :
    (s.setSocket i f).Sound := by
  obtain ⟨hhanded,htimer,hstranded,hstreaming,hdelay,hwatchdog⟩ := h.attended
  exact ⟨h.seated.mild hf,hhanded,htimer,hstranded,hstreaming,hdelay,hwatchdog⟩

theorem Seated.connect (h : s.Seated) (hwatchdog : ∀ d, s.watchdogTimer = some d →
    d = kWatchdogStreamMs ∨ d = kWatchdogToolMs ∧ s.watchdogToolGrace = true) :
    s.connectWebSocket.Sound := by
  refine ⟨h.connectWebSocket,?_⟩
  obtain ⟨sockets,ws,hconnected⟩ := connectWebSocket_fields s
  rw [hconnected]
  exact ⟨fun _ => nofun,fun hne => absurd rfl hne,nofun,fun _ => nofun,nofun,hwatchdog⟩

theorem Seated.closedUp {refused : Bool} (h : s.Seated) (hws : s.ws = none)
    (hdelay : ∀ d, s.reconnectTimer = some d → 500 ≤ d ∧ d ≤ 8000) (ht : ClosedUp s t refused) :
    t.Sound := by
  refine ⟨h.released ht.ws ht.origin ht.sockets ht.superseded,?_,?_,?_,?_,?_,?_⟩
  · rw [ht.superseded]
    exact fun hne => absurd rfl hne
  · intro _
    exact ht.ws.trans hws
  · intro _
    rw [ht.timer]
    split
    · next hmany => exact .inr (.inr hmany)
    · exact .inl nofun
  · rw [ht.streaming]
    exact nofun
  · intro d hd
    rw [ht.timer] at hd
    split at hd
    · exact hdelay d hd
    · obtain rfl := Option.some.inj hd
      exact nextDelay_bounds hdelay
  · rw [ht.watchdog]
    exact nofun

theorem Seated.drop {f : Socket → Socket} (h : s.Seated) (hi : s.ws = some i)
    (hf : ∀ k, (f k).live = false) : ({ s with ws := none }.setSocket i f).Seated := by
  refine ⟨nofun,?_,?_⟩
  · intro j hj
    exact (h.handed j hj).setSocket_ne (h.apart hi hj) f
  · refine h.rest.givenUp rfl hf ?_ (fun _ _ hne => hne)
    intro j hj _ hws
    exact hj (Option.some.inj (hws.symm.trans hi))

theorem mild_opened (hk : s.sockets[i]? = some k) (hconnecting : k.readyState = .connecting) :
    s.Mild i (fun k => { k with readyState := .opened }) := by
  refine ⟨fun _ _ => rfl,fun _ _ => rfl,fun _ _ _ => nofun,?_⟩
  intro k' hk' hlive
  obtain rfl := Option.some.inj (hk.symm.trans hk')
  rw [Socket.live,hconnecting] at hlive
  cases hlive

theorem mild_closing : s.Mild i
    (fun k => if k.readyState = .opened then { k with readyState := .closing } else k) := by
  refine ⟨?_,?_,?_,?_⟩
  all_goals
    intro k _
    split
  · rfl
  · rfl
  · rfl
  · rfl
  · exact fun _ => nofun
  · exact id
  · exact fun _ => rfl
  · exact id

theorem mild_refused : s.Mild i (fun k => { k with refused := true }) :=
  ⟨fun _ _ => rfl,fun _ _ => rfl,fun _ _ => id,fun _ _ => id⟩

theorem handled_setConnectionState (s : Tab) (state : ConnState) :
    Handled s (s.setConnectionState state) := by
  obtain ⟨notice,lost,seen,hstate⟩ := setConnectionState_fields s state
  rw [hstate]
  exact ⟨rfl,rfl,rfl,rfl,le_refl _,id,.inl ⟨rfl,rfl⟩,.inl ⟨rfl,rfl⟩⟩

theorem handled_resyncAfterReconnect (s : Tab) : Handled s s.resyncAfterReconnect := by
  rw [resyncAfterReconnect]
  split
  · exact handled_endLoad s true
  · exact ⟨rfl,rfl,rfl,rfl,le_refl _,id,.inl ⟨rfl,rfl⟩,.inl ⟨rfl,rfl⟩⟩

theorem handled_onOpen (s : Tab) (i : Nat) : Handled s (s.onOpen i) := by
  rw [onOpen]
  split
  · have hreset : Handled s { s with reconnectAttempts := 0 } :=
      ⟨rfl,rfl,rfl,rfl,le_refl _,id,.inl ⟨rfl,rfl⟩,.inl ⟨rfl,rfl⟩⟩
    exact (hreset.trans (handled_setConnectionState _ _)).trans (handled_resyncAfterReconnect _)
  · exact .refl s

theorem Sound.opened (h : s.Sound) (i : Nat) : (s.step (.opened i)).Sound := by
  rw [step]
  split
  · next k hk =>
      split
      · next hconnecting =>
          have hset := h.mild (mild_opened hk hconnecting)
          split
          · exact hset.handled (handled_onOpen _ i)
          · exact hset
      · exact h
  · exact h

theorem Sound.readFrame (h : s.Sound) (hws : s.ws ≠ none) (i : Nat) (data : PageFrame) :
    (s.readFrame i data).Sound := by
  have hreset : Sound { s with busyRefusals := 0 } := by
    obtain ⟨hhanded,htimer,-,hstreaming,hdelay,hwatchdog⟩ := h.attended
    exact ⟨⟨h.seated.current,h.seated.handed,h.seated.rest⟩,hhanded,htimer,
      fun hnone => absurd hnone hws,hstreaming,hdelay,hwatchdog⟩
  cases data with
  | busy text => exact h.mild mild_refused
  | frame frame => exact hreset
  | other => exact hreset

theorem Sound.armWatchdog (h : s.Sound) : s.armWatchdog.Sound := by
  obtain ⟨hhanded,htimer,hstranded,hstreaming,hdelay,-⟩ := h.attended
  refine ⟨⟨h.seated.current,h.seated.handed,h.seated.rest⟩,hhanded,htimer,hstranded,hstreaming,
    hdelay,?_⟩
  intro d hd
  exact .inl (Option.some.inj hd).symm

theorem Sound.onMessage (h : s.Sound) (i : Nat) (origin : String) (data : PageFrame) :
    (s.onMessage i origin data).Sound := by
  rw [Tab.onMessage]
  split
  · next hseat =>
      have hws : s.ws ≠ none := by
        rcases hseat with hws | hhanded
        · rw [hws]
          exact nofun
        · refine h.attended.handed ?_
          rw [hhanded]
          exact nofun
      have hread := h.readFrame hws i data
      have hkept (page : Hold.Page (String × PageFrame)) :
          Sound { s.readFrame i data with hold := page } :=
        hread.handled ⟨rfl,rfl,rfl,rfl,le_refl _,id,.inl ⟨rfl,rfl⟩,.inl ⟨rfl,rfl⟩⟩
      dsimp only
      split
      · exact hkept _
      · split
        · exact (hkept _).armWatchdog.handled (handled_dispatchFrame _ _)
        · exact (hkept _).handled (handled_dispatchFrame _ _)
  · exact h

theorem Sound.closed (h : s.Sound) (i : Nat) : (s.step (.closed i)).Sound := by
  have hdead (k : Socket) : ({ k with readyState := .closed } : Socket).live = false := rfl
  obtain ⟨hhanded,htimer,hstranded,hstreaming,hdelay,hwatchdog⟩ := h.attended
  have hother (hws : s.ws ≠ some i) (hh : s.supersededSocket ≠ some i) :
      (s.setSocket i (fun k => { k with readyState := .closed })).Sound := by
    refine ⟨⟨?_,?_,?_⟩,hhanded,htimer,hstranded,hstreaming,hdelay,hwatchdog⟩
    · intro j hj
      refine (h.seated.current j hj).setSocket_ne ?_ _
      rintro rfl
      exact hws hj
    · intro j hj
      refine (h.seated.handed j hj).setSocket_ne ?_ _
      rintro rfl
      exact hh hj
    · exact h.seated.rest.givenUp rfl hdead (fun _ _ hne => hne) (fun _ _ hne => hne)
  have hseat {o : OnClose} {k : Socket} (hk : s.sockets[i]? = some k) (ho : s.Seat o i) :
      k.onclose = o := by
    obtain ⟨k',hk',-,ho,-⟩ := ho
    obtain rfl := Option.some.inj (hk.symm.trans hk')
    exact ho
  rw [step]
  split
  · next k hk =>
      split
      · exact h
      · rw [onClose]
        split
        · next hown =>
            split
            · next hws => exact (h.seated.drop hws hdead).closedUp rfl hdelay (closedUp _ _)
            · next hws =>
                refine hother hws fun hh => ?_
                have hhandover := hseat hk (h.seated.handed i hh)
                rw [hown] at hhandover
                cases hhandover
        · next hhandover =>
            have hws : s.ws ≠ some i := fun hws => by
              have hown := hseat hk (h.seated.current i hws)
              rw [hhandover] at hown
              cases hown
            split
            · next hh =>
                have hstale : s.supersededSocket = some i := hh
                refine ⟨⟨?_,nofun,?_⟩,fun hne => absurd rfl hne,htimer,hstranded,hstreaming,hdelay,
                  hwatchdog⟩
                · intro j hj
                  refine (h.seated.current j hj).setSocket_ne ?_ _
                  rintro rfl
                  exact hws hj
                · refine h.seated.rest.givenUp rfl hdead (fun _ _ hne => hne) ?_
                  intro j hj _ hh'
                  exact hj (Option.some.inj (hh'.symm.trans hstale))
            · next hh => exact hother hws hh
        · next hnone =>
            refine hother ?_ ?_
            · intro hws
              have hown := hseat hk (h.seated.current i hws)
              rw [hnone] at hown
              cases hown
            · intro hh
              have hhandover := hseat hk (h.seated.handed i hh)
              rw [hnone] at hhandover
              cases hhandover
  · exact h

theorem handOver_fields (s : Tab) : ∃ sockets superseded,
    s.handOver = { s with ws := none, supersededSocket := superseded, sockets := sockets } := by
  rw [handOver]
  split
  · next hws =>
      refine ⟨s.sockets,s.supersededSocket,?_⟩
      rw [← hws]
  · exact ⟨_,_,rfl⟩

theorem Sound.watchdogElapsed (h : s.Sound) : s.onWatchdogElapsed.Sound := by
  obtain ⟨hhanded,htimer,hstranded,hstreaming,hdelay,-⟩ := h.attended
  have hseated : s.Seated := h.seated
  have hquiet (grace : Bool) : Sound { s with watchdogTimer := none, watchdogToolGrace := grace } :=
    ⟨⟨hseated.current,hseated.handed,hseated.rest⟩,hhanded,htimer,hstranded,hstreaming,hdelay,nofun⟩
  rw [onWatchdogElapsed]
  dsimp only
  split
  · next hsays =>
      split
      · refine ⟨⟨hseated.current,hseated.handed,hseated.rest⟩,hhanded,htimer,hstranded,hstreaming,
          hdelay,?_⟩
        intro d hd
        exact .inr ⟨(Option.some.inj hd).symm,rfl⟩
      · rw [reopenSilentSocket]
        dsimp only
        rw [if_pos hsays]
        have hreleased := (hquiet false).seated.releaseSupersededSocket
        have hover := hreleased.handOver (releaseSupersededSocket_superseded _)
        obtain ⟨sockets,heq⟩ :=
          released_fields { s with watchdogTimer := none, watchdogToolGrace := false }
        obtain ⟨sockets',superseded,heq'⟩ := handOver_fields { s with
          sockets := sockets
          supersededSocket := none
          watchdogTimer := none
          watchdogToolGrace := false }
        rw [heq,heq'] at hover
        rw [heq,heq']
        refine Seated.connect ⟨hover.current,hover.handed,hover.rest⟩ ?_
        exact nofun
  · exact hquiet s.watchdogToolGrace

theorem sendFrame_eq_some {m : Message} (h : s.sendFrame m = some t) :
    ∃ j, s.ws = some j ∧ t = { s with sent := s.sent ++ [(j, m)] } := by
  obtain ⟨j,hj,rfl⟩ := Option.map_eq_some_iff.mp h
  exact ⟨j,(Option.filter_eq_some_iff.mp hj).1,rfl⟩

theorem handled_removeCurrentAssistantMessage (s : Tab) :
    Handled s s.removeCurrentAssistantMessage := by
  obtain ⟨el,blocks,hremoved⟩ := removed_fields s
  rw [hremoved]
  exact ⟨rfl,rfl,rfl,rfl,le_refl _,id,.inl ⟨rfl,rfl⟩,.inl ⟨rfl,rfl⟩⟩

theorem handled_cancelReply (s : Tab) : Handled s s.cancelReply := by
  rw [cancelReply]
  split
  · exact ⟨rfl,rfl,rfl,rfl,le_refl _,nofun,.inl ⟨rfl,rfl⟩,.inl ⟨rfl,rfl⟩⟩
  · next t hsent =>
      obtain ⟨j,-,rfl⟩ := sendFrame_eq_some hsent
      refine Handled.trans ?_ (handled_removeCurrentAssistantMessage _)
      exact ⟨rfl,rfl,rfl,rfl,le_refl _,id,.inl ⟨rfl,rfl⟩,.inl ⟨rfl,rfl⟩⟩

theorem handled_resolveApproval (s : Tab) (allow : Bool) (note : String) :
    Handled s (s.resolveApproval allow note) := by
  rw [resolveApproval]
  split
  · next command t happroval hsent =>
      obtain ⟨j,-,rfl⟩ := sendFrame_eq_some hsent
      exact ⟨rfl,rfl,rfl,rfl,le_refl _,id,.inl ⟨rfl,rfl⟩,.inl ⟨rfl,rfl⟩⟩
  · exact .refl s

theorem handled_loadElapsed (s : Tab) : Handled s s.loadElapsed := by
  rw [loadElapsed]
  split
  · refine Handled.trans ?_ (handled_endLoad _ true)
    exact ⟨rfl,rfl,rfl,rfl,le_refl _,id,.inl ⟨rfl,rfl⟩,.inl ⟨rfl,rfl⟩⟩
  · exact .refl s

theorem handled_rebuilt (s : Tab) (number : Nat) : Handled s (s.rebuilt number) := by
  rw [rebuilt]
  split
  · refine Handled.trans ?_ (handled_endLoad _ _)
    exact ⟨rfl,rfl,rfl,rfl,le_refl _,id,.inl ⟨rfl,rfl⟩,.inl ⟨rfl,rfl⟩⟩
  · exact .refl s

theorem Sound.sendMessage (h : s.Sound) (text : String) : (s.sendMessage text).Sound := by
  rw [Tab.sendMessage]
  split
  · exact h.handled (handled_cancelReply s)
  · split
    · exact h
    · split
      · exact h
      · next t hsent =>
          obtain ⟨j,hws,rfl⟩ := sendFrame_eq_some hsent
          obtain ⟨hhanded,htimer,hstranded,-,hdelay,hwatchdog⟩ := h.attended
          refine ⟨⟨h.seated.current,h.seated.handed,h.seated.rest⟩,hhanded,htimer,hstranded,?_,hdelay,
            hwatchdog⟩
          intro _
          exact fun hnone => absurd (hws.symm.trans hnone) nofun

theorem letGo_fields (s : Tab) : ∃ sockets, s.letGo = { s with ws := none, sockets := sockets } := by
  rw [letGo]
  split
  · next hws =>
      refine ⟨s.sockets,?_⟩
      rw [← hws]
  · exact ⟨_,rfl⟩

theorem Sound.switchToServer (h : s.Sound) (origin : String) : (s.switchToServer origin).Sound := by
  rw [Tab.switchToServer]
  split
  · exact h.handled ⟨rfl,rfl,rfl,rfl,le_refl _,id,.inl ⟨rfl,rfl⟩,.inl ⟨rfl,rfl⟩⟩
  · obtain ⟨-,-,-,-,hdelay,hwatchdog⟩ := h.attended
    have hrest : AtRest { s with origin := origin } := h.seated.rest
    have hleft := hrest.letGo.releaseSupersededSocket
    obtain ⟨sockets,hlet⟩ := letGo_fields { s with origin := origin }
    obtain ⟨sockets',hreleased⟩ :=
      released_fields { s with origin := origin, ws := none, sockets := sockets }
    rw [hlet,hreleased] at hleft
    simp only [adoptServer,hlet,hreleased]
    exact ⟨⟨nofun,nofun,hleft⟩,fun hne => absurd rfl hne,fun _ => rfl,
      fun _ => .inr (.inl (Nat.succ_pos _)),nofun,hdelay,hwatchdog⟩

theorem Sound.adopted (h : s.Sound) : s.adopted.Sound := by
  rw [Tab.adopted]
  split
  · exact Seated.connect ⟨h.seated.current,h.seated.handed,h.seated.rest⟩ h.attended.watchdog
  · exact h

theorem Sound.step (h : s.Sound) (e : Event) : (s.step e).Sound := by
  cases e with
  | opened i => exact h.opened i
  | message i data =>
      cases hk : s.sockets[i]? with
      | none =>
          simp only [Tab.step,hk]
          exact h
      | some k =>
          cases data with
          | none =>
              simp only [Tab.step,hk]
              exact h
          | some data =>
              simp only [Tab.step,hk]
              split
              · exact h.onMessage i _ _
              · exact h
  | closing i => exact h.mild mild_closing
  | closed i => exact h.closed i
  | reconnectElapsed =>
      rw [Tab.step]
      split
      · exact Seated.connect ⟨h.seated.current,h.seated.handed,h.seated.rest⟩ h.attended.watchdog
      · exact h
  | watchdogElapsed =>
      rw [Tab.step]
      split
      · exact h.watchdogElapsed
      · exact h
  | loadElapsed => exact h.handled (handled_loadElapsed s)
  | rebuilt number => exact h.handled (handled_rebuilt s number)
  | sendMessage text => exact h.sendMessage text
  | resolveApproval allow note => exact h.handled (handled_resolveApproval s allow note)
  | switchToServer origin => exact h.switchToServer origin
  | adopted => exact h.adopted

theorem sound_start (origin : String) : (start origin).Sound :=
  Seated.connect ⟨nofun,nofun,fun _ _ hk => by simp at hk⟩ nofun

theorem run_sound (origin : String) (es : List Event) :
    ∀ t ∈ Run.visited step (start origin) es, t.Sound :=
  Run.visited_inv (fun _ e h _ => h.step e) (sound_start origin) (Run.along_true _ es)

-- The sockets a page has open are its current one and at most one it handed over, both to the
-- server it is attached to.
def OneSocket (s : Tab) : Prop :=
  (∀ i k, s.sockets[i]? = some k → k.live = true →
      (s.ws = some i ∨ s.supersededSocket = some i) ∧ k.origin = s.origin) ∧
    (∀ i, s.supersededSocket = some i → ∃ j, s.ws = some j ∧ j ≠ i) ∧
    (s.isStreaming = true → s.ws ≠ none) ∧
    ∀ d, s.reconnectTimer = some d → s.ws = none ∧ 500 ≤ d ∧ d ≤ 8000

theorem Sound.oneSocket (h : s.Sound) : s.OneSocket := by
  refine ⟨?_,?_,h.attended.streaming,?_⟩
  · intro i k hk hlive
    have horigin {o : OnClose} (ho : s.Seat o i) : k.origin = s.origin := by
      obtain ⟨k',hk',-,-,horigin⟩ := ho
      obtain rfl := Option.some.inj (hk.symm.trans hk')
      exact horigin
    by_cases hws : s.ws = some i
    · exact ⟨.inl hws,horigin (h.seated.current i hws)⟩
    · by_cases hh : s.supersededSocket = some i
      · exact ⟨.inr hh,horigin (h.seated.handed i hh)⟩
      · have hdead := h.seated.rest i k hk hws hh
        rw [hdead] at hlive
        cases hlive
  · intro i hi
    obtain ⟨j,hj⟩ := Option.ne_none_iff_exists'.mp
      (h.attended.handed (by rw [hi]; exact nofun))
    exact ⟨j,hj,h.seated.apart hj hi⟩
  · intro d hd
    exact ⟨h.attended.timer (by rw [hd]; exact nofun),h.attended.delay d hd⟩

theorem page_keeps_one_socket (origin : String) (es : List Event) :
    ∀ t ∈ Run.visited step (start origin) es, t.OneSocket :=
  fun t ht => (run_sound origin es t ht).oneSocket

-- A reply falls silent, and the watchdog opens a second socket beside the first.
def reopened : List Event :=
  [.opened 0,.rebuilt 0,.sendMessage "hi",.message 0 (some (.frame (.chunk "he"))),.watchdogElapsed]

theorem page_keeps_one_socket_reopened :
    ((reopened.foldl step (start "a")).ws = some 1 ∧
        (reopened.foldl step (start "a")).supersededSocket = some 0) ∧
      ∀ t ∈ Run.visited step (start "a") reopened, t.OneSocket :=
  ⟨by decide,page_keeps_one_socket "a" reopened⟩

end Tab

end Connection

end PuCli
