import Theta.Net.Hosts
import Theta.Proofs.Agreement
import Theta.Proofs.Establishing
import Theta.Proofs.Peers
import Theta.Proofs.Pipeline
import Theta.Proofs.Sizes

namespace Theta
open Lib Relation

/-- An initialization that fails always does, and leaves the same datagrams. -/
theorem initialize_refused {p : ChannelProvider} {now : Nat} {e : ConnectionError} {m : Endpoint}
    (h : initializeConnection p (.fresh now) = (.err e, m)) (now' : Nat) :
    ∃ e' m', initializeConnection p (.fresh now') = (.err e', m') ∧ m'.datagrams = m.datagrams := by
  cases hadd : (addCapacities p (sortedChannels p) 0 : Outcome ConnectionError Nat) with
  | err e => exact absurd hadd (add_capacities_ne_err p _ 0 e)
  | panic =>
    simp only [initializeConnection, Act.bind_apply, Endpoint.fresh, ConnectionState.default,
      Act.get_apply, Act.lift_apply, hadd] at h
    cases h
  | ok capacity =>
    rcases initialize_runs now hadd with ⟨k, _, hk, hindered, first, _, sent⟩ | ⟨_, never⟩
    · rcases initialize_runs now' hadd with ⟨k', e', hk', hindered', first', fails, sent'⟩ |
        ⟨clear, _⟩
      · have same : k = k' := by
          apply Nat.le_antisymm
          · exact Nat.le_of_not_lt (fun hlt => first k' hlt hindered')
          · exact Nat.le_of_not_lt (fun hlt => first' k hlt hindered)
        refine ⟨e', _, eq_of_fst fails, ?_⟩
        rw [h] at sent
        rw [sent', sent, same]
      · exact absurd hindered (clear k hk)
    · exact absurd (congrArg Prod.fst h) (never e)

theorem perform_datagrams {p : ChannelProvider} {input : Input} {m : Endpoint} (hc : m.Compact) :
    m.datagrams <+: (perform p input m).2.datagrams := by
  have log : m.log <+: (perform p input m).2.log := work_log_grows (perform_work (p := p) hc)
  obtain ⟨more, hmore⟩ := log
  refine ⟨more.filterMap Event.datagram?, ?_⟩
  rw [Endpoint.datagrams, Endpoint.datagrams, ← hmore, List.filterMap_append]

theorem fresh_subset (m m' : Endpoint) : fresh m m' ⊆ m'.datagrams := List.drop_subset _ _

section
variable {P Q : Registry} {guard guard' : Endpoint → Input → Bool}

/-- What the two sides have sent and hold is short, also when a side is lost. -/
theorem connected_short {s : Peer × Peer} (h : Connected P Q guard guard' s) :
    Short s.1.endpoint ∧ Short s.2.endpoint := by
  have blank : Short (.fresh 0) :=
    ⟨fun _ hd => absurd hd List.not_mem_nil, fun _ hp => absurd hp List.not_mem_nil⟩
  have stays {R S : Registry} {f g : Endpoint → Input → Bool} (b a a' : Peer)
      (step : (party R f).Step (party S g) b a a') (h : Standing R a ∧ Short a.endpoint) :
      Standing R a' ∧ Short a'.endpoint := by
    refine ⟨h.1.step step, ?_⟩
    rcases party_step_cases step with ⟨_, now, made⟩ | ⟨input, hcall⟩
    · rw [Peer.establish_ends made]
      exact initialize_short now
    · obtain ⟨live, hend, _⟩ := Peer.call_live hcall
      rw [hend]
      exact perform_short (h.1.reachable live).1.passed.compact h.2
  have both := Party.side_invariant stays stays h ⟨⟨.closed, blank⟩, ⟨.closed, blank⟩⟩
  exact ⟨both.1.2, both.2.2⟩

end

/-- The initialization of this provider fails, with the datagrams that a side has sent. -/
def Refuses (p : ChannelProvider) (m : Endpoint) : Prop :=
  ∀ created, ∃ e m', initializeConnection p (.fresh created) = (.err e, m') ∧
    m'.datagrams = m.datagrams

/-- The connection that an event loop has to a peer, seen as a side of the pair; one that was
forgotten is made again, and fails again. -/
inductive Shown (p : ChannelProvider) : Option Endpoint → Peer → Prop where
  | live (m : Endpoint) : Shown p (some m) ⟨.live, m⟩
  | closed : Shown p none {}
  | refused (m : Endpoint) (h : Refuses p m) : Shown p none ⟨.gone, m⟩

section
variable {P Q : Registry} {x y : Peer} {m : Endpoint}

/-- The steps of a side of the pair, while the other side stands still. -/
abbrev Goes (P Q : Registry) (y : Peer) : Peer → Peer → Prop :=
  ReflTransGen ((party P anyInput).Step (party Q anyInput) y)

theorem Standing.goes (h : Standing P x) {x' : Peer} (run : Goes P Q y x x') : Standing P x' :=
  invariant_of_step (fun _ _ step h => h.step step) run h

/-- A side that follows what one call of the event loop has come to. -/
structure Trails (P Q : Registry) (y x : Peer) (answer : Answer) (x' : Peer) : Prop where
  goes : Goes P Q y x x'
  shown : answer.panicked = false → Shown P.provider answer.connection x'
  before : x.endpoint.datagrams ⊆ x'.endpoint.datagrams
  sent : answer.sent ⊆ x'.endpoint.datagrams

theorem call_trails {input : Input} {connected : Bool} (hc : m.Compact)
    (step : ∀ x', (⟨.live, m⟩ : Peer).call P.provider input = some x' →
      (party P anyInput).Step (party Q anyInput) y ⟨.live, m⟩ x') :
    ∃ x', Trails P Q y ⟨.live, m⟩ ⟨some (perform P.provider input m).2,
      fresh m (perform P.provider input m).2, connected,
      decide ((perform P.provider input m).1 = .panic)⟩ x' := by
  have grows : m.datagrams ⊆ (perform P.provider input m).2.datagrams :=
    (perform_datagrams hc).subset
  rcases hrun : perform P.provider input m with ⟨r, m'⟩
  rw [hrun] at grows
  have sent : fresh m m' ⊆ m'.datagrams := fresh_subset m m'
  cases r with
  | panic =>
    have hcall : (⟨.live, m⟩ : Peer).call P.provider input = some ⟨.gone, m'⟩ := by
      simp [Peer.call, hrun]
    exact ⟨_, .single (step _ hcall), fun h => by simp at h, grows, sent⟩
  | ok u =>
    have hcall : (⟨.live, m⟩ : Peer).call P.provider input = some ⟨.live, m'⟩ := by
      simp [Peer.call, hrun]
    exact ⟨_, .single (step _ hcall), fun _ => .live m', grows, sent⟩
  | err e =>
    have hcall : (⟨.live, m⟩ : Peer).call P.provider input = some ⟨.live, m'⟩ := by
      simp [Peer.call, hrun]
    exact ⟨_, .single (step _ hcall), fun _ => .live m', grows, sent⟩

theorem answer_read (p : ChannelProvider) (now : Nat) (payload : Bytes) (before : Bool)
    (m : Endpoint) : ∃ connected, Answer.read p now payload before m =
      ⟨some (perform p (.read now payload) m).2, fresh m (perform p (.read now payload) m).2,
        connected, decide ((perform p (.read now payload) m).1 = .panic)⟩ := by
  rcases hrun : handleMessage p now payload m with ⟨r, m'⟩
  have hperform : perform p (.read now payload) m = (r, m') := hrun
  rw [hperform, Answer.read, hrun]
  cases r with
  | panic => exact ⟨false, by simp⟩
  | ok u => exact ⟨!before && m'.state = .transfer, by simp⟩
  | err e => exact ⟨!before && m'.state = .transfer, by simp⟩

theorem answer_send (p : ChannelProvider) (channel : U32) (payload : Bytes) (m : Endpoint) :
    ∃ connected, Answer.send p channel payload m =
      ⟨some (perform p (.send channel payload) m).2,
        fresh m (perform p (.send channel payload) m).2, connected,
        decide ((perform p (.send channel payload) m).1 = .panic)⟩ := by
  rcases hrun : sendEvent p channel payload m with ⟨r, m'⟩
  have hperform : perform p (.send channel payload) m = (r, m') := hrun
  rw [hperform, Answer.send, hrun]
  cases r with
  | panic => exact ⟨false, by simp⟩
  | ok u => exact ⟨!(decide (m.state = .transfer)) && m'.state = .transfer, by simp⟩
  | err e => exact ⟨!(decide (m.state = .transfer)) && m'.state = .transfer, by simp⟩

theorem read_trails (now : Nat) {payload : Bytes} (before : Bool) (hc : m.Compact)
    (heard : payload ∈ y.endpoint.datagrams) :
    ∃ x', Trails P Q y ⟨.live, m⟩ (Answer.read P.provider now payload before m) x' := by
  obtain ⟨connected, heq⟩ := answer_read P.provider now payload before m
  rw [heq]
  exact call_trails hc (fun x' hcall => .read _ _ payload heard ⟨now, rfl, hcall⟩)

theorem send_trails {channel : U32} (payload : Bytes) (hc : m.Compact)
    (offered : (P.provider.byId channel).isSome) :
    ∃ x', Trails P Q y ⟨.live, m⟩ (Answer.send P.provider channel payload m) x' := by
  obtain ⟨connected, heq⟩ := answer_send P.provider channel payload m
  rw [heq]
  exact call_trails hc (fun x' hcall => .act _ _ (.send channel payload offered rfl hcall))

/-- A side without a connection makes one as often as the event loop does. -/
theorem make_trails (created : Nat) (shown : Shown P.provider none x) :
    ∃ x', Trails P Q y x (Answer.make P.provider created) x' := by
  unfold Answer.make
  rcases hinit : initializeConnection P.provider (.fresh created) with ⟨r, m⟩
  cases shown with
  | closed =>
    have made {x' : Peer} (h : (({} : Peer)).establish P.provider created = some x') :
        Goes P Q y {} x' := .single (.act _ _ (.establish created h))
    have none : ({} : Peer).endpoint.datagrams ⊆ m.datagrams := List.nil_subset _
    have sent : fresh (.fresh created) m ⊆ m.datagrams := fresh_subset _ m
    cases r with
    | ok u => exact ⟨⟨.live, m⟩, made (by simp [Peer.establish, hinit]), fun _ => .live m, none, sent⟩
    | err e =>
      refine ⟨⟨.gone, m⟩, made (by simp [Peer.establish, hinit]), fun _ => ?_, none, sent⟩
      exact .refused m (fun now => initialize_refused hinit now)
    | panic =>
      exact ⟨⟨.gone, m⟩, made (by simp [Peer.establish, hinit]), fun h => by simp at h, none, sent⟩
  | refused m0 again =>
    obtain ⟨e, m', hfail, same⟩ := again created
    rw [hinit] at hfail
    cases hfail
    refine ⟨⟨.gone, m0⟩, .refl, fun _ => .refused m0 again, fun _ h => h, ?_⟩
    exact fun d hd => same ▸ fresh_subset _ m hd

theorem Trails.compact (h : Standing P x) {answer : Answer} {x' : Peer} {m : Endpoint}
    (trails : Trails P Q y x answer x') (live : x' = ⟨.live, m⟩) : m.Compact := by
  have standing := h.goes trails.goes
  subst live
  exact (standing.reachable rfl).1.passed.compact

/-- Whatever a request comes to, a side can follow it, as long as its connection is not closed and
it reads what the other side has sent. -/
theorem request_trails (created now : Nat) {connection : Option Endpoint}
    (standing : Standing P x) (shown : Shown P.provider connection x) (request : Request)
    (kept : request ≠ .closeConnection)
    (heard : ∀ payload, request = .read payload → payload ∈ y.endpoint.datagrams)
    (offered : ∀ channel payload, request = .send channel payload →
      (P.provider.byId channel).isSome) :
    ∃ x', Trails P Q y x (Answer.respond P.provider created now request connection) x' := by
  have stays {answer : Answer} (silent : answer.sent = [])
      (same : answer.connection = connection) : Trails P Q y x answer x :=
    ⟨.refl, fun _ => same ▸ shown, fun _ h => h, silent ▸ List.nil_subset _⟩
  cases request with
  | closeConnection => exact absurd rfl kept
  | connect =>
    cases connection with
    | none => exact make_trails created shown
    | some m => exact ⟨x, stays rfl rfl⟩
  | send channel payload =>
    cases connection with
    | none => exact ⟨x, stays rfl rfl⟩
    | some m =>
      cases shown
      exact send_trails payload (standing.reachable rfl).1.passed.compact
        (offered channel payload rfl)
  | read payload =>
    have heard := heard payload rfl
    cases connection with
    | some m =>
      cases shown
      exact read_trails now _ (standing.reachable rfl).1.passed.compact heard
    | none =>
      obtain ⟨x1, first⟩ := make_trails (Q := Q) (y := y) created shown
      have alive : ∀ m, (Answer.make P.provider created).connection = some m →
          (Answer.make P.provider created).panicked = false := by
        intro m
        unfold Answer.make
        split <;> simp
      unfold Answer.respond
      dsimp only
      split
      · rename_i m live
        have shown1 := first.shown (alive m live)
        rw [live] at shown1
        have hc : m.Compact := by
          cases shown1
          exact first.compact standing rfl
        cases shown1
        obtain ⟨x2, second⟩ := read_trails (P := P) (Q := Q) now
          ((Endpoint.fresh created).state = .transfer) hc heard
        refine ⟨x2, first.goes.trans second.goes, second.shown,
          fun d hd => second.before (first.before hd), ?_⟩
        apply List.append_subset.mpr
        exact ⟨fun d hd => second.before (first.sent hd), second.sent⟩
      · exact ⟨x1, first⟩

end

section
variable {Addr : Type} [DecidableEq Addr] {peer : Addr} {P Q : Registry} {x y : Peer} {start : Nat}

theorem addressed_map (addr : Addr) (sent : List Bytes) :
    addressed peer (sent.map (addr, ·)) = if addr = peer then sent else [] := by
  unfold addressed
  rw [List.filterMap_map]
  by_cases h : addr = peer
  · simp [h]
  · simp [h]

/-- An event that waits for the event loop, when the peer has sent all that came from it. -/
def UdpEvent.bearable (r : Registry) (peer : Addr) (y : Peer) : UdpEvent Addr → Prop
  | .read payload addr => addr = peer → payload ∈ y.endpoint.datagrams
  | .closeConnection addr => addr ≠ peer
  | .closeServer => True
  | .connect _ => True
  | .send channel _ addr => addr = peer → (r.provider.byId channel).isSome

/-- A server and the side of the pair that shows its connection to a peer. -/
structure Mirrors (r : Registry) (peer : Addr) (start : Nat) (s : UdpServer Addr) (x y : Peer) :
    Prop where
  piped : s.Piped r.provider start
  shown : s.events ≠ .ended → Shown r.provider (s.loop.lane peer).connection x
  posted : addressed peer (s.loop.buffer ++ s.last) ⊆ x.endpoint.datagrams
  pending : ∀ event ∈ s.events.bunch ++ s.eventQueue.values, event.bearable r peer y

namespace Mirrors
variable {s s' : UdpServer Addr}

theorem later {y' : Peer} (h : Mirrors P peer start s x y)
    (grows : y.endpoint.datagrams ⊆ y'.endpoint.datagrams) : Mirrors P peer start s x y' := by
  refine ⟨h.piped, h.shown, h.posted, fun event hevent => ?_⟩
  have before := h.pending event hevent
  cases event with
  | read payload addr => exact fun same => grows (before same)
  | _ => exact before

theorem submit {event : UdpEvent Addr} (h : Mirrors P peer start s x y)
    (bearable : event.bearable P peer y) : Mirrors P peer start (s.submit event) x y := by
  refine ⟨h.piped.submit event, h.shown, h.posted, fun event' hevent => ?_⟩
  have hevent : event' ∈ s.events.bunch ++ (s.eventQueue.values ++ [event]) := hevent
  rw [← List.append_assoc, List.mem_append, List.mem_singleton] at hevent
  rcases hevent with hevent | rfl
  · exact h.pending event' hevent
  · exact bearable

/-- All that a server has sent to a peer, the other side has been shown. -/
theorem sent (h : Mirrors P peer start s x y) : addressed peer s.sent ⊆ x.endpoint.datagrams := by
  obtain ⟨taken, sublist, packets⟩ := h.piped.packets
  intro d hd
  apply h.posted
  rw [← packets, List.append_assoc, addressed_append]
  exact List.mem_append_left _ ((sublist.filterMap _).subset hd)

/-- The loop handles an event: the side follows when it is the peer's. -/
theorem handle_next {created now : Nat} (h : Mirrors P peer start s x y) (standing : Standing P x)
    (later : s.clock ≤ created) (later' : created ≤ now)
    (handled : s.handleNext P.provider created now = some s') :
    ∃ x', Goes P Q y x x' ∧ x.endpoint.datagrams ⊆ x'.endpoint.datagrams ∧
      Mirrors P peer start s' x' y := by
  have piped := h.piped.handle_next later later' handled
  rw [UdpServer.handleNext] at handled
  split at handled
  · rename_i event rest busy
    have running : s.events ≠ .ended := by simp [busy]
    have quiet := (h.piped.running running).2.2
    have bearable : event.bearable P peer y := h.pending event (by simp [busy, Phase.bunch])
    have waiting : ∀ event ∈ rest ++ s.eventQueue.values, event.bearable P peer y := by
      intro event' hevent
      apply h.pending event'
      rw [busy]
      exact List.mem_cons_of_mem _ hevent
    have posted := h.posted
    rw [quiet, List.append_nil] at posted
    -- What the side comes to, what the event sends to the peer, and what the lane shows.
    obtain ⟨x', goes, before, sends, lane⟩ : ∃ x', Goes P Q y x x' ∧
        x.endpoint.datagrams ⊆ x'.endpoint.datagrams ∧
        addressed peer (s.loop.eventPosts P.provider created now event) ⊆ x'.endpoint.datagrams ∧
        ∀ loop, s.loop.handleEvent P.provider created now event = some loop →
          Shown P.provider (loop.lane peer).connection x' := by
      cases hrequest : event.request with
      | none =>
        obtain rfl := UdpEvent.request_none.mp hrequest
        refine ⟨x, .refl, fun _ h => h, List.nil_subset _, fun loop hloop => ?_⟩
        cases hloop
        exact h.shown running
      | some r =>
        obtain ⟨addr, request⟩ := r
        have posts : addressed peer (s.loop.eventPosts P.provider created now event) =
            if addr = peer then (Answer.respond P.provider created now request
              (s.loop.lane addr).connection).sent else [] := by
          rw [EventLoop.eventPosts, hrequest]
          exact addressed_map addr _
        by_cases same : addr = peer
        · subst same
          obtain ⟨x', trails⟩ := request_trails (Q := Q) (y := y) created now standing
            (h.shown running) request
            (by
              rintro rfl
              cases event with
              | closeConnection addr' =>
                cases hrequest
                exact bearable rfl
              | _ => cases hrequest)
            (by
              rintro payload rfl
              cases event with
              | read payload' addr' =>
                cases hrequest
                exact bearable rfl
              | _ => cases hrequest)
            (by
              rintro channel payload rfl
              cases event with
              | send channel' payload' addr' =>
                cases hrequest
                exact bearable rfl
              | _ => cases hrequest)
          rw [if_pos rfl] at posts
          refine ⟨x', trails.goes, trails.before, posts ▸ trails.sent, fun loop hloop => ?_⟩
          have own := (EventLoop.handle_event_lane hloop hrequest).1
          rw [Lane.answer] at own
          split at own
          · cases own
          · rename_i returns
            have shown := trails.shown (by simpa using returns)
            rw [← Option.some.inj own]
            exact shown
        · rw [if_neg same] at posts
          refine ⟨x, .refl, fun _ h => h, posts ▸ List.nil_subset _, fun loop hloop => ?_⟩
          rw [(EventLoop.handle_event_lane hloop hrequest).2 peer (Ne.symm same)]
          exact h.shown running
    refine ⟨x', goes, before, ?_⟩
    dsimp only at handled
    split at handled
    · rename_i loop hloop
      cases handled
      refine ⟨piped, fun _ => lane loop hloop, ?_, fun event' hevent => ?_⟩
      · simp only [quiet, List.append_nil, EventLoop.handle_event_posts hloop, addressed_append]
        exact List.append_subset.mpr ⟨fun d hd => before (posted hd), sends⟩
      · dsimp only at hevent
        split at hevent
        · exact waiting event' (List.mem_append_right _ hevent)
        · exact waiting event' hevent
    · cases handled
      refine ⟨piped, fun ended => absurd rfl ended, ?_, fun event' hevent => ?_⟩
      · simp only [addressed_append]
        exact List.append_subset.mpr ⟨fun d hd => before (posted hd), sends⟩
      · exact waiting event' (List.mem_append_right _ hevent)
  · cases handled

/-- The connection of the peer is updated in a tick. -/
theorem tick_trails {m : Endpoint} (delta : U32) (standing : Standing P ⟨.live, m⟩) :
    ∃ x', Trails P Q y ⟨.live, m⟩ ⟨some (updateConnection delta m).2,
      fresh m (updateConnection delta m).2, false, decide ((updateConnection delta m).1 = .panic)⟩
      x' :=
  call_trails (standing.reachable rfl).1.passed.compact
    (fun _ hcall => .act _ _ (.tick delta rfl hcall))

omit [DecidableEq Addr] in
theorem tick_posts_entry {delta : U32} {now : Nat} {entries : List (Addr × Client)}
    {packet : Addr × Bytes} (h : packet ∈ EventLoop.tickPosts delta now entries) :
    ∃ client, (packet.1, client) ∈ entries ∧
      packet.2 ∈ fresh client.connection (updateConnection delta client.connection).2 := by
  have posted {addr : Addr} {client : Client} {m : Endpoint}
      (hm : packet ∈ EventLoop.posted addr client.connection m) :
      packet.1 = addr ∧ packet.2 ∈ fresh client.connection m := by
    obtain ⟨d, hd, rfl⟩ := List.mem_map.mp hm
    exact ⟨rfl, hd⟩
  induction entries with
  | nil => cases h
  | cons e rest ih =>
    obtain ⟨addr, client⟩ := e
    have later (h : packet ∈ EventLoop.tickPosts delta now rest) :
        ∃ client', (packet.1, client') ∈ (addr, client) :: rest ∧
          packet.2 ∈ fresh client'.connection (updateConnection delta client'.connection).2 := by
      obtain ⟨client', hmem, hd⟩ := ih h
      exact ⟨client', List.mem_cons_of_mem _ hmem, hd⟩
    have here {m : Endpoint} (heq : (updateConnection delta client.connection).2 = m)
        (hm : packet ∈ EventLoop.posted addr client.connection m) :
        ∃ client', (packet.1, client') ∈ (addr, client) :: rest ∧
          packet.2 ∈ fresh client'.connection (updateConnection delta client'.connection).2 := by
      obtain ⟨haddr, hd⟩ := posted hm
      exact ⟨client, by rw [haddr]; exact List.mem_cons_self, heq ▸ hd⟩
    rw [EventLoop.tickPosts] at h
    split at h
    · exact later h
    · rcases hrun : updateConnection delta client.connection with ⟨r, m⟩
      have heq : (updateConnection delta client.connection).2 = m := by rw [hrun]
      rw [hrun] at h
      cases r with
      | panic => exact here heq h
      | ok u => exact (List.mem_append.mp h).elim (here heq) later
      | err e => exact (List.mem_append.mp h).elim (here heq) later

/-- A turn of the loop ends: the side follows with a tick when the peer has a connection. -/
theorem end_turn {elapsed now : Nat} (h : Mirrors P peer start s x y) (standing : Standing P x)
    (later : s.clock ≤ elapsed) (later' : elapsed ≤ now) (ended : s.endTurn elapsed now = some s') :
    ∃ x', Goes P Q y x x' ∧ x.endpoint.datagrams ⊆ x'.endpoint.datagrams ∧
      Mirrors P peer start s' x' y := by
  have piped := h.piped.end_turn later later' ended
  rw [UdpServer.endTurn] at ended
  split at ended
  · rename_i busy
    have running : s.events ≠ .ended := by simp [busy]
    obtain ⟨looping, _, quiet⟩ := h.piped.running running
    have young := (looping.sound.later (Nat.le_trans later later')).times
    have shown := h.shown running
    have waiting : ∀ event ∈ s.eventQueue.values, event.bearable P peer y := by
      intro event hevent
      exact h.pending event (List.mem_append_right _ hevent)
    have posted := h.posted
    rw [quiet, List.append_nil] at posted
    split at ended
    · rename_i loop hloop
      cases ended
      obtain ⟨⟨posts, hposts⟩, _⟩ := EventLoop.tick_grows hloop
      -- Only a connection that the peer has makes the side do anything.
      obtain ⟨x', goes, before, shown', posted'⟩ : ∃ x', Goes P Q y x x' ∧
          x.endpoint.datagrams ⊆ x'.endpoint.datagrams ∧
          Shown P.provider (loop.lane peer).connection x' ∧
          (loop.lane peer).posted ⊆ x'.endpoint.datagrams := by
        have lane : (s.loop.lane peer).tick elapsed now = some (loop.lane peer) :=
          EventLoop.tick_lane hloop
        rw [Lane.tick] at lane
        dsimp only at lane
        split at lane
        · split at lane
          · rename_i none
            rw [none] at shown
            rw [← Option.some.inj lane]
            rw [← none] at shown
            exact ⟨x, .refl, fun _ h => h, shown, posted⟩
          · rename_i m live
            obtain ⟨client, hget, rfl⟩ := Option.map_eq_some_iff.mp live
            have time := young _ (Table.get_eq_some.mp hget)
            dsimp only at time
            rw [if_neg (by omega)] at lane
            rw [live] at shown
            cases shown
            obtain ⟨x', trails⟩ := tick_trails (Q := Q) (y := y)
              (BitVec.ofNat 32 ((elapsed - (s.loop.lane peer).time0) % 2 ^ 64)) standing
            have shown' := trails.shown
            have sent := trails.sent
            rw [Lane.update] at lane
            split at lane
            · cases lane
            · rename_i r m' returns hrun
              rw [hrun] at shown' sent
              rw [← Option.some.inj lane]
              refine ⟨x', trails.goes, trails.before, shown' ?_, ?_⟩
              · simpa using returns
              · exact List.append_subset.mpr ⟨fun d hd => trails.before (posted hd), sent⟩
        · rw [← Option.some.inj lane]
          exact ⟨x, .refl, fun _ h => h, shown, posted⟩
      refine ⟨x', goes, before, piped, fun _ => shown', ?_, waiting⟩
      simp only [quiet, List.append_nil]
      exact posted'
    · cases ended
      -- The tick has panicked: the side follows if the peer has a connection, whether or not its
      -- turn had come.
      generalize BitVec.ofNat 32 ((elapsed - s.loop.time0) % 2 ^ 64) = delta at piped ⊢
      have entry : ∀ d ∈ addressed peer (EventLoop.tickPosts delta now s.loop.connections.entries),
          ∃ client, s.loop.connections.get peer = some client ∧
            d ∈ fresh client.connection (updateConnection delta client.connection).2 := by
        intro d hd
        obtain ⟨packet, hpacket, hto⟩ := List.mem_filterMap.mp hd
        obtain ⟨client, hmem, hfresh⟩ := tick_posts_entry hpacket
        obtain ⟨rfl, rfl⟩ : packet.1 = peer ∧ packet.2 = d := by simpa using hto
        exact ⟨client, Table.get_eq_some.mpr hmem, hfresh⟩
      obtain ⟨x', goes, before, sends⟩ : ∃ x', Goes P Q y x x' ∧
          x.endpoint.datagrams ⊆ x'.endpoint.datagrams ∧
          addressed peer (EventLoop.tickPosts delta now s.loop.connections.entries) ⊆
            x'.endpoint.datagrams := by
        cases hget : s.loop.connections.get peer with
        | none =>
          refine ⟨x, .refl, fun _ h => h, fun d hd => ?_⟩
          obtain ⟨client, hclient, _⟩ := entry d hd
          rw [hget] at hclient
          cases hclient
        | some client =>
          have live : (s.loop.lane peer).connection = some client.connection := by
            simp [EventLoop.lane, hget]
          rw [live] at shown
          cases shown
          obtain ⟨x', trails⟩ := tick_trails (Q := Q) (y := y) delta standing
          refine ⟨x', trails.goes, trails.before, fun d hd => ?_⟩
          obtain ⟨client', hclient, hfresh⟩ := entry d hd
          rw [hget] at hclient
          cases hclient
          exact trails.sent hfresh
      refine ⟨x', goes, before, piped, fun ended => absurd rfl ended, ?_, waiting⟩
      simp only [addressed_append]
      exact List.append_subset.mpr ⟨fun d hd => before (posted hd), sends⟩
  · cases ended

/-- Each step of a server is followed by its side of the pair. -/
theorem step {a : Addr} {start' : Nat} {t : UdpServer Addr} (h : Mirrors P peer start s x y)
    (other : Mirrors Q a start' t y x) (pair : Connected P Q anyInput anyInput (x, y))
    (step : (host P peer).Step (host Q a) t s s') :
    ∃ x', Goes P Q y x x' ∧ x.endpoint.datagrams ⊆ x'.endpoint.datagrams ∧
      Mirrors P peer start s' x' y := by
  have standing := (connected_standing pair).1
  have stays (h' : Mirrors P peer start s' x y) : ∃ x', Goes P Q y x x' ∧
      x.endpoint.datagrams ⊆ x'.endpoint.datagrams ∧ Mirrors P peer start s' x' y :=
    ⟨x, .refl, fun _ h => h, h'⟩
  cases step with
  | read datagram sent reads =>
    -- The datagram is short enough for the read buffer, since it is one of the other side's.
    have heard := other.sent sent
    have short := (connected_short pair).2.datagrams heard
    have reads : s.receive peer datagram = some s' := reads
    rw [UdpServer.receive, List.take_of_length_le short] at reads
    split at reads
    · cases reads
      exact stays (h.submit (fun _ => heard))
    · cases reads
  | act acts =>
    cases acts with
    | push event allowed heq =>
      subst heq
      refine stays (h.submit ?_)
      cases event with
      | read payload addr => exact fun same => absurd same (by simpa [UdpEvent.pushes] using allowed)
      | closeConnection addr =>
        have other : addr ≠ peer := by simpa [UdpEvent.pushes] using allowed
        exact other
      | closeServer => trivial
      | connect addr => trivial
      | send channel payload addr =>
        intro same
        simpa [UdpEvent.pushes, same] using allowed
    | hear addr datagram elsewhere received =>
      rw [UdpServer.receive] at received
      split at received
      · cases received
        exact stays (h.submit (fun same => absurd same elsewhere))
      · cases received
    | acts acts =>
      have piped := h.piped.step (.acts acts)
      cases acts with
      | handleNext created now later later' handled =>
        exact h.handle_next standing later later' handled
      | endTurn elapsed now later later' ended => exact h.end_turn standing later later' ended
      | stopReading stopped =>
        rw [UdpServer.stopReading] at stopped
        split at stopped
        · cases stopped
          exact stays ⟨piped, h.shown, h.posted, h.pending⟩
        · cases stopped
      | takeEvents taken =>
        rw [UdpServer.takeEvents, ManyToSingleChannel.take_bunch_eq] at taken
        split at taken
        · rename_i waiting
          cases taken
          have shown := h.shown (by simp [waiting])
          refine stays ⟨piped, fun _ => shown, h.posted, fun event hevent => ?_⟩
          apply h.pending event
          rw [waiting]
          simpa [Phase.bunch] using hevent
        · cases taken
      | rehash connections _ same heq =>
        subst heq
        refine stays ⟨piped, fun running => ?_, h.posted, h.pending⟩
        have shown := h.shown running
        unfold EventLoop.lane at shown ⊢
        rw [same.get]
        exact shown
      | takePackets taken =>
        rw [UdpServer.takePackets] at taken
        split at taken
        · cases taken
          exact stays ⟨piped, h.shown, h.posted, h.pending⟩
        · cases taken
      | sendNext dropped sent =>
        rw [UdpServer.sendNext] at sent
        split at sent
        · cases sent
          exact stays ⟨piped, h.shown, h.posted, h.pending⟩
        · cases sent
      | endBunch seen ended =>
        rw [UdpServer.endBunch] at ended
        split at ended
        · split at ended
          · split at ended
            · cases ended
              exact stays ⟨piped, h.shown, h.posted, h.pending⟩
            · cases ended
          · cases ended
            exact stays ⟨piped, h.shown, h.posted, h.pending⟩
        · cases ended

theorem launched (P : Registry) (peer : Addr) (start : Nat) :
    Mirrors P peer start (.launch start) {} {} := by
  refine ⟨UdpServer.piped_launch start, fun _ => .closed, List.nil_subset _, fun event hevent => ?_⟩
  cases hevent

end Mirrors

/-- The pair grows with the servers, step by step. -/
theorem Deployed.matched {a b : Addr} {start start' : Nat} {s : UdpServer Addr × UdpServer Addr}
    (h : Deployed P Q a b start start' s) :
    ∃ x y, Connected P Q anyInput anyInput (x, y) ∧ Mirrors P b start s.1 x y ∧
      Mirrors Q a start' s.2 y x := by
  unfold Deployed at h
  induction h with
  | refl => exact ⟨{}, {}, .refl, .launched P b start, .launched Q a start'⟩
  | tail _ step ih =>
    obtain ⟨x, y, pair, left, right⟩ := ih
    cases step with
    | left s s' t step =>
      obtain ⟨x', goes, grows, left'⟩ := left.step right pair step
      refine ⟨x', y, pair.trans ?_, left', right.later grows⟩
      exact goes.lift (fun x => (x, y)) (fun x x' step => .left x x' y step)
    | right s t t' step =>
      obtain ⟨y', goes, grows, right'⟩ := right.step left (Party.exchange_swap pair) step
      refine ⟨x, y', pair.trans ?_, left.later grows, right'⟩
      exact goes.lift (fun y => (x, y)) (fun y y' step => .right x y y' step)

/-- Two servers that do not forget each other are, behind their threads, queues and sockets and
among everything else that they serve, the two sides of a pair. -/
theorem servers_refine_pair {a b : Addr} {start start' : Nat} {s : UdpServer Addr × UdpServer Addr}
    (h : Deployed P Q a b start start' s) :
    ∃ x y, Connected P Q anyInput anyInput (x, y) ∧ Mirrors P b start s.1 x y ∧
      Mirrors Q a start' s.2 y x :=
  h.matched

end

/-- A turn of the event loop with so many events, and a bunch of so many packets. -/
def turning (now events : Nat) : List (Errand Bool) :=
  .work .takeEvents :: List.replicate events (.work (.handleNext now now)) ++
    [.work (.endTurn now now)]

def writing (packets : Nat) : List (Errand Bool) :=
  .work .takePackets :: List.replicate packets (.work (.sendNext false)) ++
    [.work (.endBunch false)]

def Side.does (side : Side) (errands : List (Errand Bool)) : List (Side × Errand Bool) :=
  errands.map (side, ·)

/-- The left server connects to the right one, both register, and the left application sends a
message as soon as its connection is in the transfer stage. -/
def hosting : List (Side × Errand Bool) :=
  Side.left.does ([.push (.connect true)] ++ turning 0 1 ++ writing 5) ++
    Side.right.does ((List.range 5).map .read ++ turning 30 5 ++ writing 6) ++
    Side.left.does ((List.range 6).map .read ++ turning 30 6 ++ [.push (.send 2 [7] true)] ++
      turning 30 1 ++ writing 2) ++
    Side.right.does ([.read 5, .read 6] ++ turning 31 2)

def hosted : UdpServer Bool × UdpServer Bool :=
  (serveAll talkRegistry klatRegistry false true hosting (.launch 0, .launch 0)).getD
    (.launch 0, .launch 0)

theorem hosted_deployed : Deployed talkRegistry klatRegistry false true 0 0 hosted := by
  have ran : serveAll talkRegistry klatRegistry false true hosting (.launch 0, .launch 0) ≠ none := by
    decide +kernel
  exact serve_all (Option.getD_of_ne_none ran (.launch 0, .launch 0)).symm

theorem servers_refine_pair_hosted :
    ∃ x y, Connected talkRegistry klatRegistry anyInput anyInput (x, y) ∧
      Mirrors talkRegistry true 0 hosted.1 x y ∧ Mirrors klatRegistry false 0 hosted.2 y x :=
  servers_refine_pair hosted_deployed

end Theta
