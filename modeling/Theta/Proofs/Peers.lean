import Theta.Proofs.Utterances

namespace Theta
open Lib Relation

/-- An initialization that fails stays in the registration stage. -/
theorem initialize_registers (p : ChannelProvider) (now : Nat) :
    (initializeConnection p (.fresh now)).2.state ≠ .transfer := by
  have setup := initialize_setup p now
  refine invariant_of_step (P := fun m => m.state ≠ .transfer) (fun m m' h hm => ?_) setup
    (fun he => by cases he)
  cases h with
  | move _ h =>
    rw [(h.same_receipts announcing_quiet).state]
    exact hm
  | prepare => exact hm
  | await received lastKey key d stage issued => simp

theorem Peer.establish_ends {p : ChannelProvider} {now : Nat} {peer peer' : Peer}
    (h : peer.establish p now = some peer') :
    peer'.endpoint = (initializeConnection p (.fresh now)).2 := by
  unfold Peer.establish at h
  split at h
  · rcases hinit : initializeConnection p (.fresh now) with ⟨r, m⟩
    rw [hinit] at h
    cases r <;> (cases h; rfl)
  · cases h

section
variable {r : Registry} {m m' : Endpoint}

/-- A step of a side makes its connection or is a call. -/
theorem party_step_cases {guard guard' : Endpoint → Input → Bool} {Q : Registry}
    {other peer peer' : Peer} (step : (party r guard).Step (party Q guard') other peer peer') :
    (peer.stage = .closed ∧ ∃ now, peer.establish r.provider now = some peer') ∨
      ∃ input, peer.call r.provider input = some peer' := by
  cases step with
  | act acts =>
    cases acts with
    | establish now made =>
      left
      refine ⟨?_, now, made⟩
      unfold Peer.establish at made
      split at made
      · assumption
      · cases made
    | tick delta _ hcall => exact Or.inr ⟨_, hcall⟩
    | send channel payload _ _ hcall => exact Or.inr ⟨_, hcall⟩
  | read datagram _ reads =>
    obtain ⟨now, _, hcall⟩ := reads
    exact Or.inr ⟨_, hcall⟩

theorem Standing.step {guard guard' : Endpoint → Input → Bool} {Q : Registry}
    {other peer peer' : Peer} (h : Standing r peer)
    (step : (party r guard).Step (party Q guard') other peer peer') : Standing r peer' := by
  have called {input : Input} (hcall : peer.call r.provider input = some peer')
      (offers : input.offers r) : Standing r peer' := h.call offers hcall
  cases step with
  | act acts =>
    cases acts with
    | establish now made => exact h.establish made
    | tick delta _ hcall => exact called hcall trivial
    | send channel payload offered _ hcall => exact called hcall offered
  | read datagram _ reads =>
    obtain ⟨now, _, hcall⟩ := reads
    exact called hcall trivial

theorem connected_standing {P Q : Registry} {guard guard' : Endpoint → Input → Bool}
    {s : Peer × Peer} (h : Connected P Q guard guard' s) : Standing P s.1 ∧ Standing Q s.2 :=
  Party.side_invariant (fun _ _ _ step hs => hs.step step) (fun _ _ _ step hs => hs.step step) h
    ⟨.closed, .closed⟩

/-- In the registration stage a packet that is read is an announcement or an acknowledgement. -/
theorem Spoken.registered {p : ChannelProvider} {a : Endpoint} {d : Bytes}
    {key : Option SlotMapKey} {inc : Incoming} (spoken : Spoken r a key d)
    (hread : (readPacket p d m).1 = .ok inc) (hst : (readPacket p d m).2.state ≠ .transfer) :
    (∃ i payload, (announcements (sortedChannels r.provider))[i]? = some payload ∧
      (i = (sortedChannels r.provider).length →
        Entered (sortedChannels r.provider) a.localInner) ∧
      inc = ⟨channelManagementChannelIdRegistrationStage, registrationChannel,
        ⟨none, some (BitVec.ofNat 32 i), key, payload⟩⟩) ∨
    (∃ keys : List SlotMapKey, (∀ key ∈ keys, ∃ d, .recorded key d ∈ a.log) ∧
      inc = ⟨ackChannelIdRegistrationStage, ⟨ackChannelIdRegistrationStage, ackChannel⟩,
        ⟨none, none, key, keys.flatMap SlotMapKey.encode⟩⟩) := by
  cases spoken with
  | framed base kind uttered hid segment reliable =>
    have small : ({ base with resendKey := key } : Packet).channelId.toNat < 2 ^ 31 := hid
    obtain ⟨stage, hinc⟩ := read_packet_registered small hst hread
    rcases uttered.registered stage with ⟨i, packet, place, final, rfl, rfl⟩ | ⟨keys, rfl, rfl, known⟩
    · obtain rfl := hinc channelManagementChannel rfl ⟨hid, segment, rfl, reliable⟩
      exact Or.inl ⟨i, packet, place, final, rfl⟩
    · obtain rfl := hinc ackChannel rfl ⟨hid, segment, rfl, reliable⟩
      exact Or.inr ⟨keys, known, rfl⟩

/-- In the registration stage a packet that reaches its handler is an announcement or an
acknowledgement. -/
theorem Reaches.registered {p : ChannelProvider} {a : Endpoint} {d payload : Bytes}
    {key : Option SlotMapKey} {inc : Incoming} {order : Option U32}
    (h : Reaches p d m inc order payload m') (hc : m.Compact) (spoken : Spoken r a key d)
    (hst : m'.state ≠ .transfer) :
    (∃ i, (announcements (sortedChannels r.provider))[i]? = some payload ∧
      (i = (sortedChannels r.provider).length →
        Entered (sortedChannels r.provider) a.localInner) ∧
      order = some (BitVec.ofNat 32 i) ∧
      inc.globalChannelId = channelManagementChannelIdRegistrationStage ∧
      inc.channel = registrationChannel) ∨
    (∃ keys : List SlotMapKey, payload = keys.flatMap SlotMapKey.encode ∧
      (∀ key ∈ keys, ∃ d, .recorded key d ∈ a.log) ∧ order = none ∧
      inc.globalChannelId = ackChannelIdRegistrationStage ∧
      inc.channel = ⟨ackChannelIdRegistrationStage, ackChannel⟩) := by
  obtain ⟨hread, hcompletes, joiner, _⟩ := h.prepared (read_packet_compact hc)
  have hstage : (readPacket p d m).2.state ≠ .transfer := by
    rw [← hread.state]
    exact hst
  rcases spoken.registered h.read hstage with ⟨i, packet, place, final, rfl⟩ | ⟨keys, known, rfl⟩
  · cases (completes_whole (by rfl)).symm.trans hcompletes
    exact Or.inl ⟨i, place, final, rfl, rfl, rfl⟩
  · cases (completes_whole (by rfl)).symm.trans hcompletes
    exact Or.inr ⟨keys, rfl, known, rfl, rfl, rfl⟩

/-- What a datagram of the peer does, by the stage its packet is handled in. -/
theorem handle_spoken {I : Endpoint → Prop} {p : ChannelProvider} {a : Endpoint} {now : Nat}
    {d : Bytes} {key : Option SlotMapKey} (hc : m.Compact) (spoken : Spoken r a key d)
    (prepare : ∀ t, ReflTransGen (Move (preparing p d)) m t → I t)
    (touch : ∀ t time, I t → I { t with lastTimeReceivedPacket := time })
    (announce : ∀ t i payload, I t → t.state ≠ .transfer →
      (announcements (sortedChannels r.provider))[i]? = some payload →
      (i = (sortedChannels r.provider).length →
        Entered (sortedChannels r.provider) a.localInner) →
      I (deliver p channelManagementChannelIdRegistrationStage registrationChannel
        (some (BitVec.ofNat 32 i)) payload t).2)
    (answer : ∀ t (keys : List SlotMapKey), I t → t.state ≠ .transfer →
      (∀ key ∈ keys, ∃ d, .recorded key d ∈ a.log) →
      I (handlePacket p ackChannelIdRegistrationStage ⟨ackChannelIdRegistrationStage, ackChannel⟩
        (keys.flatMap SlotMapKey.encode) t).2)
    (transfer : ∀ t inc order payload, ReflTransGen (Move (preparing p d)) m t →
      Reaches p d m inc order payload t → I t → t.state = .transfer →
      I (deliver p inc.globalChannelId inc.channel order payload t).2) :
    I (handleMessage p now d m).2 := by
  obtain ⟨t, moves, he | ⟨inc, order, payload, reaches, _, time, he⟩⟩ :=
    handle_message_prepared now (read_packet_compact (p := p) hc)
  · rw [he]
    exact prepare t moves
  have ht := prepare t moves
  rw [he]
  apply touch
  by_cases hst : t.state = .transfer
  · exact transfer t inc order payload moves reaches ht hst
  rcases reaches.registered hc spoken hst with ⟨i, place, final, rfl, hg, hchannel⟩ |
    ⟨keys, rfl, known, rfl, hg, hchannel⟩
  · rw [hg, hchannel]
    exact announce t i payload ht hst place final
  · rw [hg, hchannel]
    exact answer t keys ht hst known

/-- What a datagram of the peer does in the registration stage, whether its acknowledgement fails
or it is handled. -/
theorem handle_registering {I : Endpoint → Prop} {p : ChannelProvider} {a : Endpoint} {now : Nat}
    {d : Bytes} {key : Option SlotMapKey} (spoken : Spoken r a key d)
    (hst : (readPacket p d m).2.state ≠ .transfer) (rejected : I m)
    (touch : ∀ t time, I t → I { t with lastTimeReceivedPacket := time })
    (announce : ∀ i payload result t,
      (announcements (sortedChannels r.provider))[i]? = some payload →
      (i = (sortedChannels r.provider).length →
        Entered (sortedChannels r.provider) a.localInner) →
      readPacket p d m = (.ok ⟨channelManagementChannelIdRegistrationStage, registrationChannel,
        ⟨none, some (BitVec.ofNat 32 i), key, payload⟩⟩, m) →
      acknowledgeIfNeeded d key m = (result, t) →
      (result ≠ .ok () → I t) ∧
      (result = .ok () → I (deliver p channelManagementChannelIdRegistrationStage
        registrationChannel (some (BitVec.ofNat 32 i)) payload t).2))
    (answer : ∀ keys : List SlotMapKey, ∀ result t, (∀ key ∈ keys, ∃ d, .recorded key d ∈ a.log) →
      readPacket p d m = (.ok ⟨ackChannelIdRegistrationStage,
        ⟨ackChannelIdRegistrationStage, ackChannel⟩,
        ⟨none, none, key, keys.flatMap SlotMapKey.encode⟩⟩, m) →
      acknowledgeIfNeeded d key m = (result, t) →
      (result ≠ .ok () → I t) ∧
      (result = .ok () → I (handlePacket p ackChannelIdRegistrationStage
        ⟨ackChannelIdRegistrationStage, ackChannel⟩ (keys.flatMap SlotMapKey.encode) t).2)) :
    I (handleMessage p now d m).2 := by
  have stays : (readPacket p d m).2 = m := read_packet_stays hst
  have whole {inc : Incoming} (hread : (readPacket p d m).1 = .ok inc) :
      inc.header.segment = none := by
    rcases spoken.registered hread hst with ⟨_, _, _, _, rfl⟩ | ⟨_, _, rfl⟩ <;> rfl
  rcases handle_message_cases p now d m with ⟨_, m', hread, _, _, he⟩ | ⟨inc, hread, ends⟩
  · rw [he, ← show (readPacket p d m).2 = m' by rw [hread], stays]
    exact rejected
  have read : readPacket p d m = (.ok inc, m) := Prod.ext hread stays
  rw [stays] at ends
  rcases hack : acknowledgeIfNeeded d inc.header.resendKey m with ⟨result, t⟩
  rw [hack] at ends
  rcases ends with ⟨fails, he⟩ | ⟨hok, ⟨segment, _⟩ | ⟨order, payload, m', reaches, he⟩⟩
  · rw [he]
    rcases spoken.registered hread hst with ⟨i, payload, place, final, rfl⟩ | ⟨keys, known, rfl⟩
    · exact (announce i payload result t place final read hack).1 fails
    · exact (answer keys result t known read hack).1 fails
  · exact absurd (whole hread) segment
  · obtain ⟨_, time, hend⟩ := touch_ends
      (deliver p inc.globalChannelId inc.channel order payload) m' now
    have received := reaches.received
    rw [stays, hack] at received
    rw [he, hend]
    apply touch
    rcases spoken.registered hread hst with ⟨i, packet, place, final, rfl⟩ | ⟨keys, known, rfl⟩
    · cases received
      exact (announce i packet result t place final read hack).2 hok
    · cases received
      exact (answer keys result t known read hack).2 hok

end

section
variable {P Q : Registry} {guard guard' : Endpoint → Input → Bool}

theorem Standing.opened {peer : Peer} (h : Standing P peer) {d : Bytes}
    (hd : d ∈ peer.endpoint.datagrams) : peer.stage ≠ .closed := by
  intro closed
  cases h with
  | closed => cases hd
  | live => cases closed
  | lost => cases closed
  | refused => cases closed

theorem Standing.unopened {peer : Peer} (h : Standing P peer) (closed : peer.stage = .closed) :
    peer = {} := by
  cases h with
  | closed => rfl
  | live => cases closed
  | lost => cases closed
  | refused => cases closed

/-- A side that had no connection yet starts with nothing; every other one goes on from what it is. -/
theorem Standing.works {a a' b : Peer} (h : Standing P a)
    (step : (party P guard).Step (party Q guard') b a a') :
    a = {} ∨ ReflTransGen (Work P.provider) a.endpoint a'.endpoint := by
  rcases party_step_cases step with ⟨closed, _⟩ | ⟨input, hcall⟩
  · exact Or.inl (h.unopened closed)
  · obtain ⟨live, hend, _⟩ := Peer.call_live hcall
    right
    rw [hend]
    exact perform_work (h.reachable live).1.passed.compact

/-- What a connection keeps of its peer, along every run: `Known` is known of the two sides all
along, and `There` says of which connections it is kept. -/
theorem receiver_link {I : Peer → Endpoint → Prop} {Known : Peer → Peer → Prop}
    {There : Peer → Prop} {s : Peer × Peer}
    (h : Connected P Q guard guard' s)
    (known : ∀ u, Connected P Q guard guard' u → Known u.1 u.2)
    (live : ∀ b : Peer, b.stage = .live → There b)
    (sender : ∀ a a' b m, Known a b → Known a' b → (party P guard).Step (party Q guard') b a a' →
      I a m → I a' m)
    (blank : ∀ a, Known a {} → There {} → I a (.fresh 0))
    (made : ∀ a now stage, Known a {} →
      (stage = .live → (initializeConnection Q.provider (.fresh now)).1 = .ok ()) →
      There ⟨stage, (initializeConnection Q.provider (.fresh now)).2⟩ →
      I a (initializeConnection Q.provider (.fresh now)).2)
    (tick : ∀ a m delta, Known a ⟨.live, m⟩ → Reachable Q.provider m →
      guard' m (.tick delta) = true → I a m → I a (updateConnection delta m).2)
    (send : ∀ a m channel payload, Known a ⟨.live, m⟩ → Reachable Q.provider m →
      (Q.provider.byId channel).isSome → guard' m (.send channel payload) = true → I a m →
      I a (sendEvent Q.provider channel payload m).2)
    (read : ∀ a m now d, Known a ⟨.live, m⟩ → Reachable Q.provider m → d ∈ a.endpoint.datagrams →
      guard' m (.read now d) = true → I a m → I a (handleMessage Q.provider now d m).2)
    (there : There s.2) : I s.1 s.2.endpoint := by
  have called {a b b' : Peer} {input : Input} (hb : Known a b ∧ Standing Q b)
      (hcall : b.call Q.provider input = some b') (hlink : There b → I a b.endpoint)
      (kept : Known a ⟨.live, b.endpoint⟩ → Reachable Q.provider b.endpoint → I a b.endpoint →
        I a (perform Q.provider input b.endpoint).2) : I a b'.endpoint := by
    obtain ⟨hlive, hend, _⟩ := Peer.call_live hcall
    have alive : b = ⟨.live, b.endpoint⟩ := by rw [← hlive]
    rw [hend]
    exact kept (alive ▸ hb.1) (hb.2.reachable hlive).1 (hlink (live b hlive))
  refine @Party.link_invariant _ _ _ _ (fun a b => Known a b ∧ Standing Q b)
    (fun a b => There b → I a b.endpoint) _ _ h
    (fun u run => ⟨known u run, (connected_standing run).2⟩) ?_ ?_ ?_
    (blank {} (known _ .refl)) there
  · intro a a' b before after step hlink there
    exact sender a a' b _ before.1 after.1 step (hlink there)
  · intro a b b' before _ acts hlink there
    cases acts with
    | establish now hmade =>
      rw [Peer.establish] at hmade
      split at hmade
      · rename_i closed
        obtain rfl := before.2.unopened closed
        have established := made a now b'.stage before.1
        rcases hinit : initializeConnection Q.provider (.fresh now) with ⟨result, m⟩
        rw [hinit] at hmade established
        cases result with
        | ok _ =>
          cases hmade
          exact established (fun _ => rfl) there
        | err e =>
          cases hmade
          exact established (fun he => by cases he) there
        | panic =>
          cases hmade
          exact established (fun he => by cases he) there
      · cases hmade
    | tick delta allowed hcall =>
      exact called before hcall hlink (fun known hreach => tick a _ delta known hreach allowed)
    | send channel payload offered allowed hcall =>
      exact called before hcall hlink (fun known hreach =>
        send a _ channel payload known hreach offered allowed)
  · intro a b b' d before _ sent reads hlink _
    obtain ⟨now, allowed, hcall⟩ := reads
    exact called before hcall hlink (fun known hreach =>
      read a _ now d known hreach sent allowed)

/-- What an initialized connection keeps of its peer, along every run. -/
theorem receiver_invariant {I : Peer → Endpoint → Prop} {s : Peer × Peer}
    (h : Connected P Q guard guard' s)
    (sender : ∀ a a' b m, Standing P a → (party P guard).Step (party Q guard') b a a' →
      I a m → I a' m)
    (made : ∀ a now capacity mapper, Standing P a → Initializes Q.provider capacity →
      Entered (sortedChannels Q.provider) mapper →
      I a (opened (sortedChannels Q.provider) now capacity mapper))
    (tick : ∀ a m delta, Standing P a → Reachable Q.provider m →
      guard' m (.tick delta) = true → I a m → I a (updateConnection delta m).2)
    (send : ∀ a m channel payload, Standing P a → Reachable Q.provider m →
      (Q.provider.byId channel).isSome → guard' m (.send channel payload) = true → I a m →
      I a (sendEvent Q.provider channel payload m).2)
    (read : ∀ a m now d key, Standing P a → Reachable Q.provider m → Spoken P a.endpoint key d →
      d ∈ a.endpoint.datagrams → guard' m (.read now d) = true → I a m →
      I a (handleMessage Q.provider now d m).2)
    (there : s.2.stage = .live ∨ s.2.endpoint.state = .transfer) : I s.1 s.2.endpoint := by
  refine @receiver_link _ _ _ _ I (fun a _ => Standing P a)
    (fun b => b.stage = .live ∨ b.endpoint.state = .transfer) s h (fun u run => (connected_standing run).1) (fun b hlive => Or.inl hlive)
    (fun a a' b m before _ => sender a a' b m before) (fun a _ hblank => ?_)
    (fun a now stage known ok there => ?_) tick send
    (fun a m now d known hreach sent allowed hm => ?_) there
  · rcases hblank with hblank | hblank <;> cases hblank
  · have hst := initialize_registers Q.provider now
    rcases hinit : initializeConnection Q.provider (.fresh now) with ⟨result, m⟩
    rw [hinit] at ok there hst
    obtain rfl : result = .ok () := by
      rcases there with hstage | hthere
      · exact ok hstage
      · exact absurd hthere hst
    obtain ⟨capacity, mapper, initializes, entered, rfl⟩ := initialize_opened hinit
    exact made a now capacity mapper known initializes entered
  · obtain ⟨key, spoken⟩ := known.spoken sent
    exact read a m now d key known hreach spoken sent allowed hm

end

end Theta
