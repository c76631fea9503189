import Theta.Proofs.Custody

namespace Theta
open Lib Relation

/-- A sound ring whose orders, the next one included, come from `u32` counters. -/
structure PacketOrderer.Bounded (o : PacketOrderer) : Prop where
  sound : o.Sound
  start : o.orderStart ≤ 2 ^ 32
  held : ∀ n x, o.view.held n = some x → n < 2 ^ 32

namespace PacketOrderer

theorem bounded_new {capacity : Nat} : (new capacity).Bounded := by
  refine ⟨new_sound, Nat.zero_le _, fun n x h => ?_⟩
  rw [new_view] at h
  cases h

theorem Bounded.push {o o' : PacketOrderer} {order : U32} {x : Bytes} (hb : o.Bounded)
    (h : o.push order.toNat x = .ok o') :
    o'.Bounded ∧ o'.orderStart = o.orderStart ∧ o'.view = o.view.accept order.toNat x := by
  obtain ⟨hs, _, hstart, hview⟩ := push_view hb.sound hb.start order.isLt h
  refine ⟨⟨hs, hstart ▸ hb.start, fun n y hy => ?_⟩, hstart, hview⟩
  rw [hview] at hy
  simp only [Sequencer.accept, Function.update_apply] at hy
  split at hy
  · rename_i hn
    rw [hn]
    exact order.isLt
  · exact hb.held n y hy

theorem Bounded.advance {o : PacketOrderer} {x : Bytes} (hb : o.Bounded)
    (h : o.vec[o.dequeStart]? = some (some x)) :
    o.advance.Bounded ∧ o.advance.view = o.view.advance ∧ o.view.held o.view.next = some x := by
  have husize : usizeModulus = 2 ^ 64 := rfl
  have hhead := head_held h
  have hlt : o.orderStart < 2 ^ 32 := hb.held _ _ hhead
  obtain ⟨hs, hview⟩ := advance_view hb.sound (by omega) h
  have hnext : o.advance.orderStart = o.orderStart + 1 := congrArg Sequencer.next hview
  refine ⟨⟨hs, by omega, fun n y hy => ?_⟩, hview, hhead⟩
  rw [hview] at hy
  simp only [Sequencer.advance, Function.update_apply] at hy
  split at hy
  · cases hy
  · exact hb.held n y hy

end PacketOrderer

/-- Every orderer of the table is bounded. -/
def Rings (d : ChannelData (Option PacketOrderer)) : Prop :=
  ∀ place o, d.read place = some (some o) → o.Bounded

section
variable {p : ChannelProvider} {globalId : U32} {channel : ConnectionChannel} {m : Endpoint}

theorem set_rings {d : ChannelData (Option PacketOrderer)} {id : U32} {o : PacketOrderer}
    (hd : Rings d) (ho : o.Bounded) : Rings (d.setTransfer none id (some o)) := by
  intro place x hx
  rw [ChannelData.set_transfer_read] at hx
  split at hx
  · rw [Option.some.injEq, Option.some.injEq] at hx
    rwa [← hx]
  · cases place with
    | ack => exact hd _ x hx
    | management => exact hd _ x hx
    | basic i =>
      dsimp only at hx
      split at hx
      · exact hd (.basic i) x hx
      · split at hx
        · cases hx
        · cases hx

theorem orderer_for_rings {kind : Channel} {id : U32} {d : ChannelData (Option PacketOrderer)}
    (hd : Rings d) : Rings (ordererFor kind id d) := by
  unfold ordererFor
  split
  · exact set_rings hd PacketOrderer.bounded_new
  · exact hd

theorem write_rings {d d' : ChannelData (Option PacketOrderer)} {state : ConnectionState} {id : U32}
    {slot : Option PacketOrderer} (hd : Rings d) (hs : ∀ o, slot = some o → o.Bounded)
    (h : (d.write state id slot : Outcome ConnectionError _) = .ok d') : Rings d' := by
  obtain ⟨place, _, _, hread⟩ := ChannelData.write_ok h
  intro other x hx
  rw [hread] at hx
  split at hx
  · exact hs x (Option.some.inj hx)
  · exact hd other x hx

theorem handle_packet_rings {packet : Bytes} (h : Rings m.orderers) :
    Rings (handlePacket p globalId channel packet m).2.orderers := by
  rcases handle_packet_orderers p globalId channel m packet with he | ⟨kind, id, he⟩
  · rw [he]
    exact h
  · rw [he]
    exact orderer_for_rings h

theorem deliver_rings {order : Option U32} {payload : Bytes} (h : Rings m.orderers) :
    Rings (deliver p globalId channel order payload m).2.orderers := by
  cases order with
  | none => exact handle_packet_rings h
  | some order =>
    have taken {orderers : ChannelData (Option PacketOrderer)}
        (take : (m.orderers.write m.state channel.localId none : Outcome ConnectionError _) =
          .ok orderers) : Rings orderers := write_rings h (by simp) take
    have handle {o : PacketOrderer} {t : Endpoint} (hb : o.Bounded) (ht : Rings t.orderers) :=
      o.retain_ends (handlePacket p globalId channel)
        (I := fun o u => o.Bounded ∧ Rings u.orderers) (K := fun _ u => Rings u.orderers)
        (fun o u x hu hx => ⟨fun _ => ⟨(hu.1.advance hx).1, handle_packet_rings hu.2⟩,
          fun _ => handle_packet_rings hu.2⟩) (fun _ _ hu => hu.2) ⟨hb, ht⟩
    have pushed {o o' : PacketOrderer}
        (slot : (m.orderers.get m.state channel.localId : Outcome ConnectionError _) = .ok (some o))
        (push : o.push order.toNat payload = .ok o') : o'.Bounded := by
      obtain ⟨place, _, hread⟩ := ChannelData.get_ok.mp slot
      exact ((h place o hread).push push).1
    have hdel := deliver_delivery p globalId channel order payload m
    rcases hd : deliver p globalId channel (some order) payload m with ⟨r, m'⟩
    rw [hd] at hdel
    cases hdel with
    | missing => exact h
    | absent _ _ take => exact taken take
    | refused _ _ _ _ take _ => exact taken take
    | overgrown _ _ _ take _ => exact taken take
    | stopped o o' orderers slot take push failed =>
      exact (handle (pushed slot push) (taken take)).2 failed
    | dropped o o' orderers slot take push handled =>
      exact ((handle (pushed slot push) (taken take)).1 handled).2
    | done o o' o'' orderers orderers' t slot take push handled back =>
      have hend := (handle (t := { m with orderers := orderers }) (pushed slot push)
        (taken take)).1 (by rw [handled])
      rw [handled] at hend
      exact write_rings hend.2 (fun x hx => Option.some.inj hx ▸ hend.1) back

/-- Every datagram leaves the orderers bounded. -/
theorem handle_message_rings {now : Nat} {d : Bytes} (hc : m.Compact) (h : Rings m.orderers) :
    Rings (handleMessage p now d m).2.orderers := by
  have hread : (readPacket p d m).2.orderers = m.orderers :=
    same_orderers (s := handlingOnly) id (read_packet_moves trivial m)
  rw [← hread] at h
  rcases handle_message_cases p now d m with ⟨r, m', hr, _, _, he⟩ | ⟨inc, hinc, hrest⟩
  · rw [he]
    rwa [hr] at h
  have hack := acknowledge_acknowledging (read_packet_compact hc) hinc
  rw [← same_orderers id hack] at h
  rcases hrest with ⟨_, he⟩ | ⟨hacked, ⟨_, joiner, he⟩ | ⟨order, payload, m', hreach, he⟩⟩
  · rwa [he]
  · rwa [he]
  · obtain ⟨hsame, _⟩ := hreach.prepared (read_packet_compact hc)
    obtain ⟨_, time, hend⟩ := touch_ends
      (deliver p inc.globalChannelId inc.channel order payload) m' now
    rw [he, hend]
    refine deliver_rings ?_
    rw [hsame.orderers, ← same_orderers id hack]
    exact h

theorem perform_rings {input : Input} (hc : m.Compact) (h : Rings m.orderers) :
    Rings (perform p input m).2.orderers := by
  cases input with
  | read now d => exact handle_message_rings hc h
  | tick delta =>
    rw [show (perform p (.tick delta) m).2.orderers = m.orderers from
      update_connection_orderers hc]
    exact h
  | send channel payload =>
    rw [show (perform p (.send channel payload) m).2.orderers = m.orderers from
      (send_event_quiet p channel payload m).1.orderers]
    exact h

theorem Setup.same_orderers {channels : List (String × U32)} {m m' : Endpoint}
    (h : Setup channels m m') : m'.orderers = m.orderers := by
  cases h with
  | move _ h => exact h.same_orderers id
  | _ => rfl

theorem initialize_rings (now : Nat) : Rings (initializeConnection p (.fresh now)).2.orderers := by
  have fresh : Rings (Endpoint.fresh now).orderers := by
    intro place o h
    cases place with
    | ack => cases h
    | management =>
      cases h
      exact PacketOrderer.bounded_new
    | basic i => simp [Endpoint.fresh, ChannelData.read] at h
  exact invariant_of_step (P := fun m => Rings m.orderers)
    (fun _ _ h hm => h.same_orderers.symm ▸ hm) (initialize_setup p now) fresh

theorem Reachable.rings (h : Reachable p m) : Rings m.orderers := by
  induction h with
  | initialized now m h =>
    have hr := initialize_rings (p := p) now
    rwa [h] at hr
  | step input m m' hm h ih => exact h.2 ▸ perform_rings hm.passed.compact ih

end

end Theta
