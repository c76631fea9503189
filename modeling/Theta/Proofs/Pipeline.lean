import Theta.Net.Server
import Theta.Proofs.Isolation

namespace Theta
open Lib Relation

section
variable {Addr : Type} [DecidableEq Addr] {addr : Addr} {provider : ChannelProvider}
  {created now : Nat}

namespace EventLoop
variable {s s' : EventLoop Addr}

theorem read_message_posts {payload : Bytes} {before : Bool} {client : Client}
    (h : s.readMessage provider now addr payload before client = some s') :
    s'.buffer = s.buffer ++
      (Answer.read provider now payload before client.connection).sent.map (addr, ·) := by
  unfold readMessage at h
  unfold Answer.read
  rcases hrun : handleMessage provider now payload client.connection with ⟨r, m⟩
  rw [hrun] at h
  cases r with
  | panic => cases h
  | ok u =>
    cases h
    rfl
  | err e =>
    cases h
    rfl

theorem make_connection_posts {s1 : EventLoop Addr} {made : Option Client}
    (h : s.makeConnection provider created addr = some (s1, made)) :
    s1.buffer = s.buffer ++ (Answer.make provider created).sent.map (addr, ·) ∧
      (Answer.make provider created).connection = made.map Client.connection := by
  unfold Answer.make
  rcases hinit : initializeConnection provider (.fresh created) with ⟨r, m⟩
  simp only [makeConnection, hinit] at h
  cases r with
  | panic => cases h
  | ok u =>
    cases h
    exact ⟨rfl, rfl⟩
  | err e =>
    cases h
    exact ⟨rfl, rfl⟩

/-- The datagrams of an event join the queue behind those that came before. -/
theorem handle_event_posts {event : UdpEvent Addr}
    (h : s.handleEvent provider created now event = some s') :
    s'.buffer = s.buffer ++ s.eventPosts provider created now event := by
  cases event with
  | read payload addr =>
    simp only [eventPosts, UdpEvent.request]
    cases hget : s.connections.get addr with
    | none =>
      rw [handleEvent, hget] at h
      cases hmake : s.makeConnection provider created addr with
      | none =>
        rw [hmake] at h
        cases h
      | some made =>
        obtain ⟨s1, made⟩ := made
        obtain ⟨posts, live⟩ := make_connection_posts hmake
        rw [hmake] at h
        simp only [Option.map_none, Answer.respond, live]
        cases made with
        | none =>
          cases h
          exact posts
        | some client =>
          rw [read_message_posts h, posts, List.append_assoc, ← List.map_append]
          rfl
    | some client =>
      rw [handleEvent, hget] at h
      exact read_message_posts h
  | closeConnection addr =>
    cases h
    exact (List.append_nil _).symm
  | closeServer =>
    cases h
    exact (List.append_nil _).symm
  | connect addr =>
    simp only [eventPosts, UdpEvent.request]
    cases hget : s.connections.get addr with
    | none =>
      rw [handleEvent, hget] at h
      obtain ⟨⟨s1, made⟩, hmake, rfl⟩ := Option.map_eq_some_iff.mp h
      exact (make_connection_posts hmake).1
    | some client =>
      rw [handleEvent, hget] at h
      cases h
      exact (List.append_nil _).symm
  | send channel payload addr =>
    simp only [eventPosts, UdpEvent.request]
    cases hget : s.connections.get addr with
    | none =>
      rw [handleEvent, hget] at h
      cases h
      exact (List.append_nil _).symm
    | some client =>
      simp only [handleEvent, hget] at h
      simp only [Option.map_some, Answer.respond, Answer.send]
      rcases hrun : sendEvent provider channel payload client.connection with ⟨r, m⟩
      rw [hrun] at h
      cases r with
      | panic => cases h
      | ok u =>
        cases h
        rfl
      | err e =>
        cases h
        rfl

theorem tick_grows {elapsed : Nat} (h : s.tick elapsed now = some s') :
    s.buffer <+: s'.buffer ∧ s'.closed = s.closed := by
  by_cases due : (elapsed - s.time0) % 2 ^ 64 > deltaMin
  · obtain ⟨_, hclosed, hbuffer⟩ := tick_posts h due
    exact ⟨hbuffer ▸ List.prefix_append _ _, hclosed⟩
  · simp only [EventLoop.tick, if_neg due] at h
    cases h
    exact ⟨List.prefix_refl _, rfl⟩

end EventLoop

/-- The event of a turn. -/
def Turn.event? : Turn Addr → Option (UdpEvent Addr)
  | .event _ _ e => some e
  | _ => none

namespace UdpServer
variable {s s' : UdpServer Addr} {start : Nat}

/-- The event loop has gone through a run of its own, with the events that were pushed, in their
order and each of them once; what the socket has taken is what the connections have sent, in its
order, with some datagrams left out. -/
structure Piped (provider : ChannelProvider) (start : Nat) (s : UdpServer Addr) : Prop where
  turns : ∃ turns, Trace (EventLoop.Turns provider) turns (.start start) s.loop ∧
    turns.filterMap Turn.event? <+: s.submitted ∧
    (s.events ≠ .ended →
      turns.filterMap Turn.event? ++ s.events.bunch ++ s.eventQueue.values = s.submitted)
  packets : ∃ taken, s.sent.Sublist taken ∧
    taken ++ s.writing.bunch ++ s.buffer.values = s.loop.buffer ++ s.last
  bunches : s.events.bunch.length ≤ bunchCapacity ∧ s.writing.bunch.length ≤ bunchCapacity
  running : s.events ≠ .ended → Looping provider s.clock s.loop ∧ s.loop.closed = false ∧ s.last = []

theorem Piped.submit (h : s.Piped provider start) (event : UdpEvent Addr) :
    (s.submit event).Piped provider start := by
  obtain ⟨turns, run, handled, pending⟩ := h.turns
  refine ⟨⟨turns, run, handled.trans (List.prefix_append _ _), fun hne => ?_⟩, h.packets, h.bunches,
    h.running⟩
  change _ ++ s.events.bunch ++ (s.eventQueue.values ++ [event]) = s.submitted ++ [event]
  rw [← List.append_assoc, pending hne]

theorem Piped.receive {datagram : Bytes} (h : s.Piped provider start)
    (received : s.receive addr datagram = some s') : s'.Piped provider start := by
  rw [UdpServer.receive] at received
  split at received
  · cases received
    exact h.submit _
  · cases received

/-- The event loop takes a bunch from the front of its queue. -/
theorem Piped.take_events (h : s.Piped provider start) (taken : s.takeEvents = some s') :
    s'.Piped provider start := by
  rw [takeEvents, ManyToSingleChannel.take_bunch_eq] at taken
  split at taken
  · rename_i waiting
    cases taken
    obtain ⟨turns, run, handled, pending⟩ := h.turns
    have running := h.running (by simp [waiting])
    refine ⟨⟨turns, run, handled, fun _ => ?_⟩, h.packets, ⟨?_, h.bunches.2⟩, fun _ => running⟩
    · have before := pending (by simp [waiting])
      rw [waiting] at before
      simpa [Phase.bunch] using before
    · exact List.length_take_le _ _
  · cases taken

/-- The loop handles the next event that was pushed. -/
theorem Piped.handle_next (h : s.Piped provider start) (later : s.clock ≤ created)
    (later' : created ≤ now) (handled : s.handleNext provider created now = some s') :
    s'.Piped provider start := by
  rw [handleNext] at handled
  split at handled
  · rename_i event rest busy
    obtain ⟨turns, run, before, pending⟩ := h.turns
    obtain ⟨looping, running, quiet⟩ := h.running (by simp [busy])
    obtain ⟨taken, sublist, packets⟩ := h.packets
    have pending := pending (by simp [busy])
    have short := h.bunches.1
    rw [busy] at pending short
    simp only [Phase.bunch, List.length_cons] at pending short
    rw [quiet, List.append_nil] at packets
    dsimp only at handled
    split at handled
    · rename_i loop hloop
      cases handled
      have run' := run.append (.single (.event created now event s.loop loop running hloop))
      have submitted : (turns ++ [Turn.event created now event]).filterMap Turn.event? ++ rest ++
          s.eventQueue.values = s.submitted := by
        rw [← pending, List.filterMap_append]
        simp [Turn.event?]
      refine ⟨⟨_, run', ?_, fun hne => ?_⟩, ⟨taken, sublist, ?_⟩, ⟨?_, h.bunches.2⟩, fun hne => ?_⟩
      · exact ⟨rest ++ s.eventQueue.values, by rw [← List.append_assoc]; exact submitted⟩
      · dsimp only at hne ⊢
        split at hne
        · exact absurd rfl hne
        · rename_i goes
          rw [if_neg goes]
          exact submitted
      · simp only [ManyToSingleChannel.push_many_values, quiet, List.append_nil,
          EventLoop.handle_event_posts hloop, ← packets, List.append_assoc]
      · dsimp only
        split
        · exact Nat.zero_le _
        · exact Nat.le_of_succ_le short
      · dsimp only at hne ⊢
        split at hne
        · exact absurd rfl hne
        · rename_i goes
          exact ⟨.event s.clock created now s.loop loop event looping running later later' hloop,
            by simpa using goes, quiet⟩
    · cases handled
      refine ⟨⟨turns, run, before, fun hne => absurd rfl hne⟩, ⟨taken, sublist, ?_⟩,
        ⟨Nat.zero_le _, h.bunches.2⟩, fun hne => absurd rfl hne⟩
      simp only [ManyToSingleChannel.push_many_values, ← packets, List.append_assoc]
  · cases handled

/-- A turn of the loop ends with a tick. -/
theorem Piped.end_turn {elapsed : Nat} (h : s.Piped provider start) (later : s.clock ≤ elapsed)
    (later' : elapsed ≤ now) (ended : s.endTurn elapsed now = some s') :
    s'.Piped provider start := by
  rw [endTurn] at ended
  split at ended
  · rename_i busy
    obtain ⟨turns, run, before, pending⟩ := h.turns
    obtain ⟨looping, running, quiet⟩ := h.running (by simp [busy])
    obtain ⟨taken, sublist, packets⟩ := h.packets
    have pending := pending (by simp [busy])
    rw [busy] at pending
    rw [quiet, List.append_nil] at packets
    split at ended
    · rename_i loop hloop
      cases ended
      obtain ⟨⟨posts, hposts⟩, hclosed⟩ := EventLoop.tick_grows hloop
      have run' := run.append (.single (.tick elapsed now s.loop loop running hloop))
      have same : (turns ++ [Turn.tick elapsed now]).filterMap (@Turn.event? Addr) =
          turns.filterMap Turn.event? := by
        rw [List.filterMap_append]
        exact List.append_nil _
      refine ⟨⟨_, run', ?_, fun _ => ?_⟩, ⟨taken, sublist, ?_⟩, ⟨Nat.zero_le _, h.bunches.2⟩,
        fun _ => ⟨.tick s.clock elapsed now s.loop loop looping running later later' hloop,
          hclosed.trans running, quiet⟩⟩
      · rw [same]
        exact before
      · rw [same]
        simpa [Phase.bunch] using pending
      · simp only [ManyToSingleChannel.push_many_values, quiet, List.append_nil, ← hposts,
          List.drop_left]
        rw [← packets]
        simp only [List.append_assoc]
    · cases ended
      refine ⟨⟨turns, run, before, fun hne => absurd rfl hne⟩, ⟨taken, sublist, ?_⟩,
        ⟨Nat.zero_le _, h.bunches.2⟩, fun hne => absurd rfl hne⟩
      simp only [ManyToSingleChannel.push_many_values, ← packets, List.append_assoc]
  · cases ended

/-- The write loop takes a bunch from the front of its queue, and sends or drops it packet by
packet. -/
theorem Piped.write (h : s.Piped provider start)
    (step : s.takePackets = some s' ∨ (∃ dropped, s.sendNext dropped = some s') ∨
      ∃ seen, s.endBunch seen = some s') : s'.Piped provider start := by
  obtain ⟨taken, sublist, packets⟩ := h.packets
  rcases step with step | ⟨dropped, step⟩ | ⟨seen, step⟩
  · rw [takePackets, ManyToSingleChannel.take_bunch_eq] at step
    split at step
    · rename_i waiting
      cases step
      rw [waiting] at packets
      refine ⟨h.turns, ⟨taken, sublist, ?_⟩, ⟨h.bunches.1, List.length_take_le _ _⟩, h.running⟩
      simpa [Phase.bunch] using packets
    · cases step
  · rw [sendNext] at step
    split at step
    · rename_i packet rest busy
      cases step
      have short := h.bunches.2
      rw [busy] at packets short
      simp only [Phase.bunch, List.length_cons] at packets short
      refine ⟨h.turns, ⟨taken ++ [packet], ?_, ?_⟩, ⟨h.bunches.1, Nat.le_of_succ_le short⟩,
        h.running⟩
      · dsimp only
        split
        · exact sublist.trans (List.sublist_append_left _ _)
        · exact sublist.append (List.Sublist.refl _)
      · rw [← packets]
        simp [Phase.bunch]
    · cases step
  · rw [endBunch] at step
    split at step
    · rename_i busy
      have still {phase : Phase (Addr × Bytes)} (hphase : phase.bunch = []) :
          ({ s with writing := phase } : UdpServer Addr).Piped provider start := by
        rw [busy] at packets
        refine ⟨h.turns, ⟨taken, sublist, ?_⟩, ⟨h.bunches.1, ?_⟩, h.running⟩
        · rw [hphase]
          exact packets
        · rw [hphase]
          exact Nat.zero_le _
      split at step
      · split at step
        · cases step
          exact still rfl
        · cases step
      · cases step
        exact still rfl
    · cases step

theorem Piped.step (h : s.Piped provider start) (step : s.Serves provider s') :
    s'.Piped provider start := by
  cases step with
  | submit event heq => exact heq ▸ h.submit event
  | receive addr datagram received => exact h.receive received
  | acts acts =>
    cases acts with
    | stopReading stopped =>
      rw [stopReading] at stopped
      split at stopped
      · cases stopped
        exact ⟨h.turns, h.packets, h.bunches, h.running⟩
      · cases stopped
    | takeEvents taken => exact h.take_events taken
    | handleNext created now later later' handled => exact h.handle_next later later' handled
    | endTurn elapsed now later later' ended => exact h.end_turn later later' ended
    | rehash connections goes same heq =>
      subst heq
      obtain ⟨turns, run, before, pending⟩ := h.turns
      have run' := run.append (.single (.rehash s.loop connections same))
      have events : (turns ++ [Turn.rehash]).filterMap (@Turn.event? Addr) =
          turns.filterMap Turn.event? := by
        rw [List.filterMap_append]
        exact List.append_nil _
      refine ⟨⟨_, run', events ▸ before, fun hne => ?_⟩, h.packets, h.bunches, fun hne => ?_⟩
      · rw [events]
        exact pending hne
      · obtain ⟨looping, running, quiet⟩ := h.running hne
        exact ⟨.rehash s.clock s.loop connections looping same, running, quiet⟩
    | takePackets taken => exact h.write (Or.inl taken)
    | sendNext dropped sent => exact h.write (Or.inr (Or.inl ⟨dropped, sent⟩))
    | endBunch seen ended => exact h.write (Or.inr (Or.inr ⟨seen, ended⟩))

theorem piped_launch (start : Nat) :
    (UdpServer.launch start : UdpServer Addr).Piped provider start :=
  ⟨⟨[], .nil _, List.nil_prefix, fun _ => rfl⟩, ⟨[], List.Sublist.refl _, rfl⟩,
    ⟨Nat.zero_le _, Nat.zero_le _⟩, fun _ => ⟨.start start, rfl, rfl⟩⟩

/-- A thread of `s` that has ended does nothing any more until `t`: the event loop leaves its
variables and its queue alone and posts nothing, the write loop takes nothing from the buffer and
gives nothing to the socket, the read loop takes nothing from it. -/
structure Rests (s t : UdpServer Addr) : Prop where
  events : s.events = .ended → t.events = .ended ∧ t.loop = s.loop ∧ t.clock = s.clock ∧
    t.last = s.last ∧ s.eventQueue.values <+: t.eventQueue.values ∧
    t.buffer.values <:+ s.buffer.values
  writing : s.writing = .ended → t.writing = .ended ∧ t.sent = s.sent ∧
    s.buffer.values <+: t.buffer.values
  reading : s.reading = false → t.reading = false ∧ ∀ addr datagram, t.receive addr datagram = none

omit [DecidableEq Addr] in
theorem Rests.trans {t u : UdpServer Addr} (h : s.Rests t) (h' : t.Rests u) : s.Rests u := by
  refine ⟨fun ended => ?_, fun ended => ?_, fun ended => h'.reading (h.reading ended).1⟩
  · obtain ⟨ended, loop, clock, last, queue, buffer⟩ := h.events ended
    obtain ⟨ended', loop', clock', last', queue', buffer'⟩ := h'.events ended
    exact ⟨ended', loop'.trans loop, clock'.trans clock, last'.trans last, queue.trans queue',
      buffer'.trans buffer⟩
  · obtain ⟨ended, sent, buffer⟩ := h.writing ended
    obtain ⟨ended', sent', buffer'⟩ := h'.writing ended
    exact ⟨ended', sent'.trans sent, buffer.trans buffer'⟩

omit [DecidableEq Addr] in
theorem unread (ended : s.reading = false) (addr : Addr) (datagram : Bytes) :
    s.receive addr datagram = none := by
  rw [receive, ended]
  rfl

omit [DecidableEq Addr] in
/-- A step of another thread, or from outside, that pushes no packet or is no step of an ended
event loop. -/
theorem rests_of {t : UdpServer Addr}
    (events : s.events = .ended → t.events = .ended ∧ t.loop = s.loop ∧ t.clock = s.clock ∧
      t.last = s.last ∧ s.eventQueue.values <+: t.eventQueue.values ∧
      t.buffer.values <:+ s.buffer.values)
    (writing : s.writing = .ended → t.writing = .ended ∧ t.sent = s.sent ∧
      s.buffer.values <+: t.buffer.values)
    (reading : s.reading = false → t.reading = false) : s.Rests t :=
  ⟨events, writing, fun ended => ⟨reading ended, unread (reading ended)⟩⟩

omit [DecidableEq Addr] in
theorem Rests.refl (s : UdpServer Addr) : s.Rests s :=
  rests_of (fun ended => ⟨ended, rfl, rfl, rfl, List.prefix_refl _, List.suffix_refl _⟩)
    (fun ended => ⟨ended, rfl, List.prefix_refl _⟩) id

omit [DecidableEq Addr] in
theorem rests_submit (s : UdpServer Addr) (event : UdpEvent Addr) : s.Rests (s.submit event) :=
  rests_of (fun ended => ⟨ended, rfl, rfl, rfl, List.prefix_append _ _, List.suffix_refl _⟩)
    (fun ended => ⟨ended, rfl, List.prefix_refl _⟩) id

/-- No step is one of a thread that has ended. -/
theorem act_rests (acts : s.Acts provider s') : s.Rests s' := by
  cases acts with
  | stopReading h =>
    rw [stopReading] at h
    split at h
    · cases h
      exact rests_of (fun ended => ⟨ended, rfl, rfl, rfl, List.prefix_refl _, List.suffix_refl _⟩)
        (fun ended => ⟨ended, rfl, List.prefix_refl _⟩) (fun _ => rfl)
    · cases h
  | takeEvents h =>
    rw [takeEvents] at h
    split at h
    · rename_i waiting
      cases h
      exact rests_of (fun ended => by rw [waiting] at ended; cases ended)
        (fun ended => ⟨ended, rfl, List.prefix_refl _⟩) id
    · cases h
  | handleNext created now _ _ h =>
    rw [handleNext] at h
    split at h
    · rename_i event rest busy
      have goes : s.events ≠ .ended := by simp [busy]
      dsimp only at h
      split at h
      all_goals
        cases h
        refine rests_of (fun ended => absurd ended goes) (fun ended => ⟨ended, rfl, ?_⟩) id
        simp [ManyToSingleChannel.push_many_values]
    · cases h
  | endTurn elapsed now _ _ h =>
    rw [endTurn] at h
    split at h
    · rename_i busy
      have goes : s.events ≠ .ended := by simp [busy]
      split at h
      all_goals
        cases h
        refine rests_of (fun ended => absurd ended goes) (fun ended => ⟨ended, rfl, ?_⟩) id
        simp [ManyToSingleChannel.push_many_values]
    · cases h
  | rehash connections goes _ h =>
    subst h
    exact rests_of (fun ended => absurd ended goes)
      (fun ended => ⟨ended, rfl, List.prefix_refl _⟩) id
  | takePackets h =>
    rw [takePackets, ManyToSingleChannel.take_bunch_eq] at h
    split at h
    · rename_i waiting
      cases h
      refine rests_of (fun ended => ⟨ended, rfl, rfl, rfl, List.prefix_refl _, ?_⟩)
        (fun ended => by rw [waiting] at ended; cases ended) id
      exact List.drop_suffix _ _
    · cases h
  | sendNext dropped h =>
    rw [sendNext] at h
    split at h
    · rename_i busy
      cases h
      exact rests_of (fun ended => ⟨ended, rfl, rfl, rfl, List.prefix_refl _, List.suffix_refl _⟩)
        (fun ended => by rw [busy] at ended; cases ended) id
    · cases h
  | endBunch seen h =>
    rw [endBunch] at h
    split at h
    · rename_i busy
      have goes : s.writing ≠ .ended := by simp [busy]
      split at h
      · split at h
        · cases h
          exact rests_of
            (fun ended => ⟨ended, rfl, rfl, rfl, List.prefix_refl _, List.suffix_refl _⟩)
            (fun ended => absurd ended goes) id
        · cases h
      · cases h
        exact rests_of
          (fun ended => ⟨ended, rfl, rfl, rfl, List.prefix_refl _, List.suffix_refl _⟩)
          (fun ended => absurd ended goes) id
    · cases h

theorem serve_rests (step : s.Serves provider s') : s.Rests s' := by
  cases step with
  | acts acts => exact act_rests acts
  | submit event h => exact h ▸ rests_submit s event
  | receive addr datagram h =>
    rw [receive] at h
    split at h
    · cases h
      exact rests_submit s _
    · cases h

/-- The three threads, taking their steps in any order among whatever pushes events and sends
datagrams, do what the event loop does by itself with the events one after the other, and a thread
that has ended does nothing any more. -/
theorem server_pipeline (run : ReflTransGen (Serves provider) (.launch start) s) :
    s.Piped provider start ∧ ∀ t, ReflTransGen (Serves provider) s t → s.Rests t := by
  refine ⟨invariant_of_step (fun _ _ step h => h.step step) run (piped_launch start),
    fun t later => ?_⟩
  exact invariant_of_step (fun _ _ step h => h.trans (serve_rests step)) later (.refl s)

end UdpServer

end

/-- An application asks for a connection, and the first of its datagrams gets lost. -/
def errands : List Task :=
  [.takeEvents, .handleNext 1 1, .endTurn 2 2, .takePackets, .sendNext true, .sendNext false]

def dialling : UdpServer Unit :=
  (errands.foldlM (UdpServer.work builtinProvider) ((UdpServer.launch 0).submit (.connect ()))).getD
    (.launch 0)

/-- The application closes the server, and the event loop and the write loop end. -/
def shutting : List Task := [.takeEvents, .handleNext 1 1, .takePackets, .endBunch true]

def shut : UdpServer Unit :=
  (shutting.foldlM (UdpServer.work builtinProvider) ((UdpServer.launch 0).submit .closeServer)).getD
    (.launch 0)

theorem server_pipeline_dialling : dialling.Piped builtinProvider 0 ∧
    shut.events = .ended ∧ shut.writing = .ended ∧ shut.Rests (shut.submit (.connect ())) := by
  have ran : errands.foldlM (UdpServer.work builtinProvider)
      ((UdpServer.launch 0 : UdpServer Unit).submit (.connect ())) ≠ none := by decide +kernel
  have ran' : shutting.foldlM (UdpServer.work builtinProvider)
      ((UdpServer.launch 0 : UdpServer Unit).submit .closeServer) ≠ none := by decide +kernel
  have worked := works_serve (Option.getD_of_ne_none ran (.launch 0)).symm
  have worked' := works_serve (Option.getD_of_ne_none ran' (.launch 0)).symm
  have served := UdpServer.server_pipeline (.head (.submit (.connect ()) rfl) worked)
  have served' := UdpServer.server_pipeline (.head (.submit .closeServer rfl) worked')
  exact ⟨served.1, by decide +kernel, by decide +kernel,
    served'.2 _ (.single (.submit (.connect ()) rfl))⟩

example : dialling.sent.length = 1 ∧ dialling.loop.buffer.length = 3 := by decide +kernel

end Theta
