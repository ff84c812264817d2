import MqttBroker.Spec.FanOut
import MqttBroker.Spec.Inbound

/-!
# Isolation of clients

The containers of the broker are shared by all clients: some are keyed by the socket,
some by the client id. `IsOwn` says of an operation that its key is that of the
client it is done for. Every operation of a handler is one, so a packet reaches the
other clients only by what it sends them: their packet ids are counted up and
packets are kept for them.
-/

namespace Mqtt.Spec

open Mqtt.Native Mqtt.Native.Broker

/-- An operation for a client that is keyed by its reference, its socket or its id,
    unless it sends. -/
def IsOwn (fd : Fd) (pClient : ClientRef) (client_id : Bytes) : Op → Prop
  | .addCommand _ _ | .record _ | .genPacketID _ | .addQosEvent _ _ => True
  | .storeTopicValue _ _ _ _ => True
  | .setSubscriptions ref _ => ref = pClient
  | .addSubscribedClient sock _ => sock = fd
  | .delQosEvent c _ | .addQoSTopic c _ | .delQoSTopic c _ => c = client_id
  | .setWillTopic _ _ | .setLastTime _ _ => False

/-- A handler writes only to its own client, to the storage, and to counters. -/
theorem Serves.isOwn {fh : FixedHeader} {fd : Fd} {pClient : ClientRef} {client_id : Bytes}
    {op : Op} (h : Serves fh fd pClient client_id op) : IsOwn fd pClient client_id op := by
  cases op with
  | addCommand | record | genPacketID | addQosEvent | storeTopicValue => trivial
  | setSubscriptions ref topics =>
    cases h with
    | unsubscribes h => exact h.1
    | subscribes h => exact h
    | answers h | stores _ h | freesTopic h => exact h.elim
  | addSubscribedClient sock ref =>
    cases h with
    | subscribes h => exact h.1
    | answers h | unsubscribes h | stores _ h | freesTopic h => exact h.elim
  -- kept packets are taken away under the own id only
  | delQosEvent c packet_id =>
    cases h with
    | answers h | freesTopic h => exact h
    | unsubscribes h | subscribes h | stores _ h => exact h.elim
  | addQoSTopic c topic =>
    cases h with
    | stores _ h => exact h.1
    | answers h | unsubscribes h | subscribes h | freesTopic h => exact h.elim
  -- and held messages likewise
  | delQoSTopic c packet_id =>
    cases h with
    | freesTopic h => exact h.1
    | answers h | unsubscribes h | subscribes h | stores _ h => exact h.elim
  | setWillTopic | setLastTime =>
    cases h with
    | answers h | unsubscribes h | subscribes h | stores _ h | freesTopic h => exact h.elim

/-! ## What is left to the others -/

/-- A client with its packet-id counter counted up `n` times. -/
def counted (c : Client) (n : Nat) : Client :=
  { c with packet_id_gen := c.packet_id_gen + UInt16.ofNat n }

/-- A counter that has not moved. -/
theorem counted_zero (c : Client) : counted c 0 = c := by simp [counted]

/-- Counting twice. -/
theorem counted_counted (c : Client) (n m : Nat) : counted (counted c n) m = counted c (n + m) := by
  simp [counted, UInt16.add_assoc]

/-- What a step for the client `pClient` of the socket `fd`, with the id `client_id`,
    leaves to the others. -/
structure Isolated (fd : Fd) (pClient : ClientRef) (client_id : Bytes) (b b' : Broker) :
    Prop where
  clients : b'.clients = b.clients
  heap : ∀ ref, ref ≠ pClient → ∃ n, b'.heap ref = counted (b.heap ref) n
  subscribed_clients : ∀ fd', fd' ≠ fd →
    b'.subscribed_clients.lookup fd' = b.subscribed_clients.lookup fd'
  qos_2_topics : ∀ c, c ≠ client_id →
    b'.storage.qos_2_topics.lookup c = b.storage.qos_2_topics.lookup c
  postponed_events : ∀ c, c ≠ client_id → ∃ packets, keptFor b' c = keptFor b c ++ packets

namespace Isolated

variable {fd : Fd} {pClient : ClientRef} {client_id : Bytes} {b b' b'' : Broker}

theorem refl (b : Broker) : Isolated fd pClient client_id b b where
  clients := rfl
  heap _ _ := ⟨0, (counted_zero _).symm⟩
  subscribed_clients _ _ := rfl
  qos_2_topics _ _ := rfl
  postponed_events _ _ := ⟨[], (List.append_nil _).symm⟩

theorem trans (h : Isolated fd pClient client_id b b')
    (h' : Isolated fd pClient client_id b' b'') : Isolated fd pClient client_id b b'' where
  clients := h'.clients.trans h.clients
  heap ref href := by
    obtain ⟨n, hn⟩ := h.heap ref href
    obtain ⟨m, hm⟩ := h'.heap ref href
    exact ⟨n + m, by rw [hm, hn, counted_counted]⟩
  subscribed_clients fd' hfd :=
    (h'.subscribed_clients fd' hfd).trans (h.subscribed_clients fd' hfd)
  qos_2_topics c hc := (h'.qos_2_topics c hc).trans (h.qos_2_topics c hc)
  postponed_events c hc := by
    obtain ⟨packets, hpackets⟩ := h.postponed_events c hc
    obtain ⟨packets', hpackets'⟩ := h'.postponed_events c hc
    exact ⟨packets ++ packets', by rw [hpackets', hpackets, List.append_assoc]⟩

end Isolated

/-! ## One operation -/

/-- `GenPacketID` moves one counter. -/
theorem heap_genPacketID (b : Broker) (ref ref' : ClientRef) :
    ∃ n, (b.setClient ref (b.heap ref).genPacketID.1).heap ref' = counted (b.heap ref') n := by
  by_cases href : ref' = ref
  · subst href
    exact ⟨1, heap_setClient_self ..⟩
  · exact ⟨0, by rw [heap_setClient_ne href, counted_zero]⟩

/-- `AddQosEvent` appends to what is kept for a client. -/
theorem keptFor_addQosEvent (b : Broker) (client_id : Bytes) (packet : PostponedPacket)
    (c : Bytes) : ∃ packets, keptFor (b.addQosEvent client_id packet) c = keptFor b c ++ packets := by
  by_cases hc : c = client_id
  · subst hc
    exact ⟨[packet], by simp [keptFor, addQosEvent]⟩
  · exact ⟨[], by simp [keptFor, addQosEvent, hc]⟩

/-- `DelQosEvent` leaves the packets kept for other ids alone. -/
theorem lookup_delQosEvent {b : Broker} {client_id c : Bytes} {packet_id : UInt16}
    (hc : c ≠ client_id) :
    (b.delQosEvent client_id packet_id).postponed_events.lookup c =
      b.postponed_events.lookup c := by
  unfold delQosEvent
  split
  · exact UnorderedMap.lookup_replace_ne hc
  · rfl

/-- `DelQoSTopic` leaves the messages held for other ids alone. -/
theorem lookup_delQoSTopic {s : TopicStorage} {client_id c : Bytes} {packet_id : UInt16}
    (hc : c ≠ client_id) :
    (s.delQoSTopic client_id packet_id).qos_2_topics.lookup c = s.qos_2_topics.lookup c := by
  unfold TopicStorage.delQoSTopic
  split
  · exact AList.lookup_insert_ne hc
  · rfl

/-- An own operation leaves the other clients alone. -/
theorem isolated_apply {fd : Fd} {pClient : ClientRef} {client_id : Bytes} {b : Broker} (op : Op)
    (h : IsOwn fd pClient client_id op) : Isolated fd pClient client_id b (op.apply b) := by
  have hrefl : Isolated fd pClient client_id b b := .refl b
  -- an operation on the own client leaves all others alone, one on another only counts up
  cases op with
  | addCommand | record | storeTopicValue =>
    exact ⟨rfl, hrefl.heap, hrefl.subscribed_clients, hrefl.qos_2_topics, hrefl.postponed_events⟩
  | genPacketID ref =>
    exact ⟨rfl, fun ref' _ => heap_genPacketID b ref ref', hrefl.subscribed_clients,
      hrefl.qos_2_topics, hrefl.postponed_events⟩
  | addQosEvent c packet =>
    exact ⟨rfl, hrefl.heap, hrefl.subscribed_clients, hrefl.qos_2_topics,
      fun c' _ => keptFor_addQosEvent b c packet c'⟩
  -- kept packets are deleted under the own id only
  | delQosEvent c packet_id =>
    obtain rfl : c = client_id := h
    obtain ⟨events, hevents⟩ := delQosEvent_eq b c packet_id
    -- the connections, the clients, the subscribers, the held messages, the kept packets
    refine ⟨?_, fun ref href => ?_, fun fd' _ => ?_, fun c' _ => ?_, fun c' hc' => ⟨[], ?_⟩⟩
    · rw [Op.apply, hevents]
    · rw [Op.apply, hevents]
      exact hrefl.heap ref href
    · rw [Op.apply, hevents]
    · rw [Op.apply, hevents]
    · rw [Op.apply, keptFor, lookup_delQosEvent hc', List.append_nil]
      rfl
  | setSubscriptions ref topics =>
    obtain rfl : ref = pClient := h
    exact ⟨rfl, fun ref' href' => ⟨0, (heap_setClient_ne href').trans (counted_zero _).symm⟩,
      hrefl.subscribed_clients, hrefl.qos_2_topics, hrefl.postponed_events⟩
  | addSubscribedClient sock ref =>
    obtain rfl : sock = fd := h
    exact ⟨rfl, hrefl.heap, fun fd' hfd => UnorderedMap.lookup_insertNew_ne hfd,
      hrefl.qos_2_topics, hrefl.postponed_events⟩
  | addQoSTopic c topic =>
    obtain rfl : c = client_id := h
    exact ⟨rfl, hrefl.heap, hrefl.subscribed_clients, fun c' hc' => AList.lookup_insert_ne hc',
      hrefl.postponed_events⟩
  | delQoSTopic c packet_id =>
    obtain rfl : c = client_id := h
    exact ⟨rfl, hrefl.heap, hrefl.subscribed_clients, fun c' hc' => lookup_delQoSTopic hc',
      hrefl.postponed_events⟩
  | setWillTopic | setLastTime => exact h.elim

/-- A row of own operations leaves the other clients alone. -/
theorem Does.isolated {A : Op → Prop} {fd : Fd} {pClient : ClientRef} {client_id : Bytes}
    {b b' : Broker} (h : Does A b b') (hA : ∀ op, A op → IsOwn fd pClient client_id op) :
    Isolated fd pClient client_id b b' :=
  h.rel .refl .trans fun _ op hop _ => isolated_apply op (hA op hop)

/-! ## One packet -/

/-- Any packet but CONNECT is handled in isolation from the other clients: what it
    changes has the key of its own client. Of another connected client only the
    packet-id counter may advance, and packets kept for another id are kept still. -/
theorem packet_isolated {s : ServerThread} (h : system.Reachable s) {fh : FixedHeader}
    {data : Bytes} {fd : Fd} {random : Bytes} {pClient : ClientRef} {client_id : Bytes}
    {b' : Broker} {err : MqttErr} (htype : fh.getType ≠ PackType.CONNECT.code)
    (hclient : s.broker.clients.lookup fd = some (some pClient))
    (hid : (s.broker.heap pClient).client_id = client_id)
    (hpacket : s.broker.handlePacket fh data fd random = .ok (b', err)) :
    b'.clients = s.broker.clients ∧
    (∀ fd' ref, fd' ≠ fd → s.broker.clients.lookup fd' = some (some ref) →
      ∃ n, b'.heap ref = counted (s.broker.heap ref) n) ∧
    (∀ fd', fd' ≠ fd →
      b'.subscribed_clients.lookup fd' = s.broker.subscribed_clients.lookup fd') ∧
    (∀ c, c ≠ client_id →
      b'.storage.qos_2_topics.lookup c = s.broker.storage.qos_2_topics.lookup c) ∧
    ∀ c, c ≠ client_id → ∃ packets, keptFor b' c = keptFor s.broker c ++ packets := by
  have hisolated : Isolated fd pClient client_id s.broker b' := by
    obtain heq | ⟨ref, href, hdoes⟩ :=
      (handlePacket_does s.broker fh data fd random htype).of_eq_ok hpacket
    · obtain rfl : b' = s.broker := heq
      exact .refl _
    · obtain rfl : pClient = ref := Option.some.inj (Option.some.inj (hclient.symm.trans href))
      exact hdoes.isolated fun op hop => hid ▸ hop.isOwn
  refine ⟨hisolated.clients, fun fd' ref hne hother => ?_, hisolated.subscribed_clients,
    hisolated.qos_2_topics, hisolated.postponed_events⟩
  -- every connection has a client of its own
  refine hisolated.heap ref ?_
  rintro rfl
  exact hne ((ownClients_of_reachable h).inj hother hclient)

/-- The client `b` on socket 6 subscribes to `t` next to the client `a` on socket 5. -/
theorem packet_isolated_subscribe : ∃ s b' err, system.Reachable s ∧
    (s.broker.heap 0).client_id = [0x61] ∧ (s.broker.heap 1).client_id = [0x62] ∧
    s.broker.handlePacket ⟨0x82, 7⟩ [0, 1, 0, 0, 1, 0x74, 1] 6 [] = .ok (b', err) ∧
    ∃ n, b'.heap 0 = counted (s.broker.heap 0) n := by
  have hrun : (connectTwo.foldlM systemStep fromStart).map (fun s =>
      (s.broker.clients.toList, (s.broker.heap 0).client_id, (s.broker.heap 1).client_id,
        (s.broker.handlePacket ⟨0x82, 7⟩ [0, 1, 0, 0, 1, 0x74, 1] 6 []).toOption.isSome)) =
      some ([(6, some 1), (5, some 0)], [0x61], [0x62], true) := by
    decide +kernel
  obtain ⟨s, hs, hfinal⟩ := Option.map_eq_some_iff.mp hrun
  simp only [Prod.mk.injEq] at hfinal
  obtain ⟨hclients, hid₀, hid₁, hok⟩ := hfinal
  -- both clients are connected, and their ids differ
  have hlookup : ∀ {fd ref}, (fd, some ref) ∈ [((6 : Fd), some (1 : ClientRef)), (5, some 0)] →
      s.broker.clients.lookup fd = some (some ref) := fun hmem =>
    UnorderedMap.mem_toList_iff.mp (hclients ▸ hmem)
  have hreach := reachable_of_steps 4 hs
  cases hpacket : s.broker.handlePacket ⟨0x82, 7⟩ [0, 1, 0, 0, 1, 0x74, 1] 6 [] with
  | error e => simp [hpacket, Except.toOption] at hok
  | ok r =>
    -- the SUBSCRIBE is of the client on socket 6
    have hisolated := packet_isolated hreach (by decide) (hlookup (.head _)) hid₁ hpacket
    exact ⟨s, r.1, r.2, hreach, hid₀, hid₁, hpacket,
      hisolated.2.1 5 0 (by decide) (hlookup (.tail _ (.head _)))⟩

end Mqtt.Spec
