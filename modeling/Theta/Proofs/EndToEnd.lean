import Theta.Proofs.Deliveries
import Theta.Proofs.Deployment
import Theta.Proofs.Prefixes

namespace Theta
open Lib Relation

section
variable {p : ChannelProvider} {g : U32} {m m' : Endpoint}

/-- The messages of one channel among the requests of a lane. -/
def LaneTurn.message? (g : U32) : LaneTurn → Option Bytes
  | .request _ _ (.send channel payload) => if channel = g then some payload else none
  | _ => none

theorem initialize_calls (p : ChannelProvider) (now : Nat) : (initializeConnection p (.fresh now)).2.calls g = [] := by
  refine invariant_of_step (P := fun m => m.calls g = []) (fun m m' h hm => ?_)
    (initialize_setup p now) rfl
  cases h with
  | move _ h => exact (h.same_calls g).trans hm
  | prepare => exact hm
  | await => exact hm

theorem read_calls (now : Nat) (d : Bytes) (hc : m.Compact) :
    (handleMessage p now d m).2.calls g = m.calls g := by
  have moves : ReflTransGen (Move (working p)) m (handleMessage p now d m).2 :=
    handle_message_work hc
  exact moves_same_calls moves g

theorem tick_calls (delta : U32) (hc : m.Compact) :
    (updateConnection delta m).2.calls g = m.calls g := by
  have moves : ReflTransGen (Move replying) m (updateConnection delta m).2 :=
    update_connection_moves hc (fun _ => ⟨rfl, rfl⟩)
  exact moves_same_calls moves g

theorem send_calls (channel : U32) (payload : Bytes) :
    (sendEvent p channel payload m).2.calls g = m.calls g ∨
      (channel = g ∧ (sendEvent p channel payload m).2.calls g = m.calls g ++ [payload]) := by
  refine send_event_ends (P := fun t => t.calls g = m.calls g ∨
    (channel = g ∧ t.calls g = m.calls g ++ [payload])) (Or.inl rfl) (fun orders => ?_)
    (fun kind order t ht => ?_)
  · by_cases h : channel = g
    · subst h
      exact Or.inr ⟨rfl, calls_called m channel payload orders⟩
    · exact Or.inl (by simp [Endpoint.calls, Event.call?, h])
  · rw [moves_same_calls (transmit_sending kind order payload t) g]
    exact ht

/-- The calls of a connection are among the messages that its lane was given, in their order. -/
def Lane.Served (p : ChannelProvider) (g : U32) (messages : List Bytes) (lane : Lane) : Prop :=
  ∀ m, lane.connection = some m → Reachable p m ∧ (m.calls g).Sublist messages

theorem answer_read_served {now : Nat} {payload : Bytes} {before : Bool} {messages : List Bytes}
    (reachable : Reachable p m) (calls : (m.calls g).Sublist messages)
    (returns : (Answer.read p now payload before m).panicked = false)
    (live : (Answer.read p now payload before m).connection = some m') :
    Reachable p m' ∧ (m'.calls g).Sublist messages := by
  obtain ⟨connected, heq⟩ := answer_read p now payload before m
  rw [heq] at returns live
  cases live
  refine ⟨.step (.read now payload) m _ reachable ⟨by simpa using returns, rfl⟩, ?_⟩
  have same : (perform p (.read now payload) m).2.calls g = m.calls g :=
    read_calls now payload reachable.passed.compact
  rw [same]
  exact calls

theorem answer_make_served {created : Nat} (messages : List Bytes)
    (live : (Answer.make p created).connection = some m') :
    Reachable p m' ∧ (m'.calls g).Sublist messages := by
  have calls := initialize_calls (g := g) p created
  unfold Answer.make at live
  rcases hinit : initializeConnection p (.fresh created) with ⟨r, m⟩
  rw [hinit] at live calls
  cases r with
  | ok u =>
    cases live
    refine ⟨.initialized created _ hinit, ?_⟩
    rw [calls]
    exact List.nil_sublist _
  | err e => cases live
  | panic => cases live

/-- One turn adds at most its own message. -/
theorem Lane.Served.step {messages : List Bytes} {lane lane' : Lane} {turn : LaneTurn}
    (h : lane.Served p g messages) (step : lane.step p turn = some lane') :
    lane'.Served p g (messages ++ (turn.message? g).toList) := by
  have later {m : Endpoint} {more : List Bytes}
      (h : Reachable p m ∧ (m.calls g).Sublist messages) :
      Reachable p m ∧ (m.calls g).Sublist (messages ++ more) :=
    ⟨h.1, h.2.trans (List.sublist_append_left _ _)⟩
  unfold Lane.step at step
  split at step
  · cases step
  · cases turn with
    | closeServer =>
      cases step
      exact fun m live => later (h m live)
    | tick elapsed now =>
      intro m' live'
      apply later
      dsimp only at step
      rw [Lane.tick] at step
      dsimp only at step
      split at step
      · split at step
        · cases step
          exact h m' live'
        · rename_i m live
          split at step
          · cases step
            cases live'
          · rw [Lane.update] at step
            split at step
            · cases step
            · rename_i r m1 returns hrun
              cases step
              cases live'
              obtain ⟨reachable, calls⟩ := h m live
              have hcall := tick_calls (g := g) (BitVec.ofNat 32 ((elapsed - lane.time0) % 2 ^ 64))
                reachable.passed.compact
              rw [hrun] at hcall
              refine ⟨.step (.tick _) m _ reachable ⟨?_, by rw [perform, hrun]⟩, hcall ▸ calls⟩
              rw [perform, hrun]
              exact returns
      · cases step
        exact h m' live'
    | request created now request =>
      intro m' live'
      dsimp only at step
      rw [Lane.answer] at step
      split at step
      · cases step
      · rename_i returns
        cases step
        dsimp only at live'
        rw [Bool.not_eq_true] at returns
        cases hconnection : lane.connection with
        | none =>
          rw [hconnection] at returns live'
          cases request with
          | closeConnection => cases live'
          | connect => exact later (answer_make_served messages live')
          | send channel payload => cases live'
          | read payload =>
            rw [Answer.respond] at returns live'
            cases hmade : (Answer.make p created).connection with
            | none =>
              rw [hmade] at returns live'
              dsimp only at live'
              rw [hmade] at live'
              cases live'
            | some m1 =>
              rw [hmade] at returns live'
              obtain ⟨reachable, calls⟩ := answer_make_served (g := g) messages hmade
              exact later (answer_read_served reachable calls returns live')
        | some m =>
          rw [hconnection] at returns live'
          obtain ⟨reachable, calls⟩ := h m hconnection
          cases request with
          | closeConnection => cases live'
          | connect =>
            cases live'
            exact later ⟨reachable, calls⟩
          | read payload => exact later (answer_read_served reachable calls returns live')
          | send channel payload =>
            rw [Answer.respond] at returns live'
            obtain ⟨connected, heq⟩ := answer_send p channel payload m
            rw [heq] at returns live'
            cases live'
            refine ⟨.step (.send channel payload) m _ reachable ⟨by simpa using returns, rfl⟩, ?_⟩
            rcases send_calls (p := p) (g := g) (m := m) channel payload with same | ⟨own, more⟩
            · have same : (perform p (.send channel payload) m).2.calls g = m.calls g := same
              rw [same]
              exact calls.trans (List.sublist_append_left _ _)
            · have more : (perform p (.send channel payload) m).2.calls g =
                  m.calls g ++ [payload] := more
              rw [more, LaneTurn.message?, if_pos own]
              exact calls.append (List.Sublist.refl _)

theorem Lane.Served.run {turns : List LaneTurn} {messages : List Bytes} {lane lane' : Lane}
    (h : lane.Served p g messages) (run : turns.foldlM (Lane.step p) lane = some lane') :
    lane'.Served p g (messages ++ turns.filterMap (LaneTurn.message? g)) := by
  induction turns generalizing messages lane with
  | nil =>
    cases run
    simpa using h
  | cons turn rest ih =>
    rw [List.foldlM_cons] at run
    obtain ⟨lane1, hstep, hrest⟩ := Option.bind_eq_some_iff.mp run
    have served := ih (h.step hstep) hrest
    rw [List.append_assoc] at served
    cases hmessage : turn.message? g with
    | none =>
      rw [hmessage] at served
      rw [List.filterMap_cons_none hmessage]
      exact served
    | some payload =>
      rw [hmessage] at served
      rw [List.filterMap_cons_some hmessage]
      exact served

end

section
variable {Addr : Type} [DecidableEq Addr]

/-- A message of one channel for one address. -/
def UdpEvent.message? (addr : Addr) (g : U32) : UdpEvent Addr → Option Bytes
  | .send channel payload addr' => if addr' = addr ∧ channel = g then some payload else none
  | _ => none

theorem lane_message (addr : Addr) (g : U32) (turn : Turn Addr) :
    (turn.lane? addr).bind (LaneTurn.message? g) = turn.event?.bind (UdpEvent.message? addr g) := by
  cases turn with
  | tick elapsed now => rfl
  | rehash => rfl
  | event created now event =>
    cases event with
    | closeServer => rfl
    | send channel payload addr' =>
      simp only [Turn.lane?, UdpEvent.request, Turn.event?, UdpEvent.message?, Option.bind_some]
      by_cases h : addr' = addr
      · simp [h, LaneTurn.message?]
      · simp [h]
    | _ addr' =>
      simp only [Turn.lane?, UdpEvent.request, Turn.event?, UdpEvent.message?, Option.bind_some]
      split <;> rfl

/-- What a connection has been asked to send on a channel are messages that were pushed for it,
each of them once and in their order. -/
theorem UdpServer.Piped.calls {p : ChannelProvider} {start : Nat} {s : UdpServer Addr}
    (h : s.Piped p start) (g : U32) {addr : Addr} {client : Client}
    (live : s.loop.connections.get addr = some client) :
    (client.connection.calls g).Sublist (s.submitted.filterMap (UdpEvent.message? addr g)) := by
  obtain ⟨turns, run, handled, _⟩ := h.turns
  have solo := (lanes_separate p addr).projects run
  have start : (EventLoop.lane addr (EventLoop.start start : EventLoop Addr)).Served p g [] := by
    intro m hm
    cases hm
  have served := (start.run solo client.connection (by simp [EventLoop.lane, live])).2
  have same : (turns.filterMap (Turn.lane? addr)).filterMap (LaneTurn.message? g) =
      (turns.filterMap Turn.event?).filterMap (UdpEvent.message? addr g) := by
    rw [List.filterMap_filterMap, List.filterMap_filterMap]
    exact List.filterMap_congr (fun turn _ => lane_message addr g turn)
  rw [List.nil_append, same] at served
  exact served.trans (handled.filterMap _).sublist

/-- Where both servers hold a connection to the other one, the two are a pair. -/
theorem Deployed.clients {P Q : Registry} {a b : Addr} {start start' : Nat}
    {s : UdpServer Addr × UdpServer Addr} (h : Deployed P Q a b start start' s)
    {client client' : Client} (running : s.1.events ≠ .ended) (running' : s.2.events ≠ .ended)
    (live : s.1.loop.connections.get b = some client)
    (live' : s.2.loop.connections.get a = some client') (g : U32) :
    Connected P Q anyInput anyInput (⟨.live, client.connection⟩, ⟨.live, client'.connection⟩) ∧
      (client.connection.calls g).Sublist (s.1.submitted.filterMap (UdpEvent.message? b g)) := by
  obtain ⟨x, y, pair, left, right⟩ := h.matched
  have shown := left.shown running
  have shown' := right.shown running'
  rw [EventLoop.lane, live] at shown
  rw [EventLoop.lane, live'] at shown'
  cases shown
  cases shown'
  exact ⟨pair, left.piped.calls g live⟩

/-- The messages that an application finds on an ordered channel are messages that the other one
pushed to its server for this connection, in the order in which it pushed them, without gaps but
for those that its server refused, and each of them once. -/
theorem servers_deliver_in_order {P Q : Registry} {name : String} {g g' : U32}
    {kind kind' : Channel} (twin : Twin P Q name g g' kind kind')
    (ordered : kind.isOrdered = true) {a b : Addr} {start start' : Nat}
    {s : UdpServer Addr × UdpServer Addr} (h : Deployed P Q a b start start' s)
    {client client' : Client}
    (running : s.1.events ≠ .ended) (running' : s.2.events ≠ .ended)
    (live : s.1.loop.connections.get b = some client)
    (live' : s.2.loop.connections.get a = some client')
    (transfer : client.connection.state = .transfer)
    (whole : ∀ payload ∈ s.1.submitted.filterMap (UdpEvent.message? b g),
      payload.length ≤ maxNonSegmentedPayloadLen)
    (few : (s.1.submitted.filterMap (UdpEvent.message? b g)).length ≤ 2 ^ 32) :
    client'.connection.received g' <+: client.connection.calls g ∧
      (client.connection.calls g).Sublist (s.1.submitted.filterMap (UdpEvent.message? b g)) := by
  obtain ⟨pair, calls⟩ := h.clients running running' live live' g
  refine ⟨?_, calls⟩
  exact connected_prefix twin ordered pair transfer (Or.inl rfl)
    (fun payload hp => whole payload (calls.subset hp)) (Nat.le_trans calls.length_le few)

/-- The messages that an application finds on an unordered channel were pushed by the other one to
its server for this connection, and on a reliable channel each of them at most as often as it was
pushed. -/
theorem servers_deliver_at_most_once {P Q : Registry} {name : String} {g g' : U32}
    {kind kind' : Channel} (twin : Twin P Q name g g' kind kind')
    (unordered : kind.isOrdered = false) {a b : Addr} {start start' : Nat}
    {s : UdpServer Addr × UdpServer Addr} (h : Deployed P Q a b start start' s)
    {client client' : Client} (running : s.1.events ≠ .ended) (running' : s.2.events ≠ .ended)
    (live : s.1.loop.connections.get b = some client)
    (live' : s.2.loop.connections.get a = some client')
    (transfer : client.connection.state = .transfer)
    (whole : ∀ payload ∈ s.1.submitted.filterMap (UdpEvent.message? b g),
      payload.length ≤ maxNonSegmentedPayloadLen)
    (fits : client.connection.resender.packets.Fits) :
    (∀ payload ∈ client'.connection.received g',
      payload ∈ s.1.submitted.filterMap (UdpEvent.message? b g)) ∧
    (kind.isReliable = true → (client'.connection.received g').Subperm
      (s.1.submitted.filterMap (UdpEvent.message? b g))) := by
  obtain ⟨pair, calls⟩ := h.clients running running' live live' g
  obtain ⟨heard, once⟩ := connected_integrity twin unordered pair transfer (Or.inl rfl)
    (fun payload hp => whole payload (calls.subset hp)) fits
  exact ⟨fun payload hp => calls.subset (heard payload hp),
    fun reliable => (once reliable).trans calls.subperm⟩

end

def hostedLeft : Client := (hosted.1.loop.connections.get true).getD ⟨.fresh 0, 0, 0⟩
def hostedRight : Client := (hosted.2.loop.connections.get false).getD ⟨.fresh 0, 0, 0⟩

theorem servers_deliver_in_order_hosted :
    hostedRight.connection.received 3 <+: hostedLeft.connection.calls 2 ∧
      (hostedLeft.connection.calls 2).Sublist
        (hosted.1.submitted.filterMap (UdpEvent.message? true 2)) := by
  have left : hosted.1.loop.connections.get true ≠ none := by decide +kernel
  have right : hosted.2.loop.connections.get false ≠ none := by decide +kernel
  have pushed : hosted.1.submitted.filterMap (UdpEvent.message? true 2) = [[7]] := by decide +kernel
  apply servers_deliver_in_order chat_twin rfl hosted_deployed (by decide +kernel)
    (by decide +kernel) (Option.getD_of_ne_none left _).symm (Option.getD_of_ne_none right _).symm
    (by decide +kernel)
  · rw [pushed]
    decide
  · rw [pushed]
    decide

example : hostedRight.connection.received 3 = [[7]] := by decide +kernel

/-- Two messages without an order arrive in the other order, the second one twice. -/
def looseHosting : List (Side × Errand Bool) :=
  Side.left.does ([.push (.connect true)] ++ turning 0 1 ++ writing 4) ++
    Side.right.does ((List.range 4).map .read ++ turning 30 4 ++ writing 5) ++
    Side.left.does ((List.range 5).map .read ++ turning 30 5 ++
      [.push (.send 2 [7] true), .push (.send 2 [8] true)] ++ turning 30 2 ++ writing 3) ++
    Side.right.does ([.read 4, .read 6, .read 5, .read 6] ++ turning 31 4)

def looseHosted : UdpServer Bool × UdpServer Bool :=
  (serveAll looseRegistry looseRegistry false true looseHosting (.launch 0, .launch 0)).getD
    (.launch 0, .launch 0)

theorem loose_hosted_deployed :
    Deployed looseRegistry looseRegistry false true 0 0 looseHosted := by
  have ran : serveAll looseRegistry looseRegistry false true looseHosting
      (.launch 0, .launch 0) ≠ none := by decide +kernel
  exact serve_all (Option.getD_of_ne_none ran (.launch 0, .launch 0)).symm

def looseLeft : Client := (looseHosted.1.loop.connections.get true).getD ⟨.fresh 0, 0, 0⟩
def looseRight : Client := (looseHosted.2.loop.connections.get false).getD ⟨.fresh 0, 0, 0⟩

theorem servers_deliver_at_most_once_loose :
    looseRight.connection.received 2 = [[8], [7]] ∧ (looseRight.connection.received 2).Subperm
      (looseHosted.1.submitted.filterMap (UdpEvent.message? true 2)) := by
  have left : looseHosted.1.loop.connections.get true = some looseLeft :=
    (Option.getD_of_ne_none (by decide +kernel) _).symm
  have right : looseHosted.2.loop.connections.get false = some looseRight :=
    (Option.getD_of_ne_none (by decide +kernel) _).symm
  have once := servers_deliver_at_most_once loose_twin rfl loose_hosted_deployed
    (by decide +kernel) (by decide +kernel) left right (by decide +kernel) (by decide +kernel)
    (by unfold SlotMap.Fits; decide +kernel)
  exact ⟨by decide +kernel, once.2 (by decide +kernel)⟩

end Theta
