import MqttBroker.Spec.Outbound

/-!
# Packets before CONNECT

No handler asks whether the client has sent a CONNECT: the dispatch looks at the
packet type only, and a client is in `clients` from `accept` on. What a packet
changes depends on its type and on what is stored under the id of the client, which
is empty before CONNECT.
-/

namespace Mqtt.Spec

open Mqtt.Native Mqtt.Native.Broker

/-- A PUBREL for which a topic is stored under the id of the client. -/
def ReleasesTopic (b : Broker) (fh : FixedHeader) (data : Bytes) (fd : Fd) : Prop :=
  fh.getType = PackType.PUBREL.code ∧ ∃ pClient, b.clients.lookup fd = some (some pClient) ∧
    HoldsTopic b (b.heap pClient).client_id data

/-- The parts of the broker a packet other than CONNECT changes. -/
def Affects (b : Broker) (fh : FixedHeader) (data : Bytes) (fd : Fd) : Part → Prop
  | .topics => fh.getType = PackType.PUBLISH.code ∧ fh.isRETAIN
  | .qos_2_topics =>
    (fh.getType = PackType.PUBLISH.code ∧ fh.qoS = 2) ∨ ReleasesTopic b fh data fd
  | .subscribed_clients => fh.getType = PackType.SUBSCRIBE.code
  | .subscribed_topics ref => b.clients.lookup fd = some (some ref) ∧
    (fh.getType = PackType.SUBSCRIBE.code ∨
      (fh.getType = PackType.UNSUBSCRIBE.code ∧ DropsSubscription b ref fh data))
  | .handedOut => (fh.getType = PackType.PUBLISH.code ∧ fh.qoS ≠ 2) ∨
    fh.getType = PackType.SUBSCRIBE.code ∨ ReleasesTopic b fh data fd

variable {b b' : Broker} {fh : FixedHeader} {data : Bytes} {fd : Fd} {part : Part}

/-- What the operations of a handler leave alone. -/
theorem DoesAt.same {A : ClientRef → Bytes → Op → Prop} (h : DoesAt A fd b b')
    (hA : ∀ pClient op, b.clients.lookup fd = some (some pClient) →
      A pClient (b.heap pClient).client_id op → ¬ op.Writes part) : part.Same b b' := by
  obtain ⟨pClient, hclient, hdoes⟩ := h
  exact hdoes.same fun op => hA pClient op hclient

/-- Answering writes to no part. -/
theorem writes_of_answers {pClient : ClientRef} {client_id : Bytes} {op : Op}
    (h : Answers pClient client_id op) : ¬ op.Writes part := by
  intro hwrites
  cases op with
  | record call =>
    obtain ⟨hcall, -⟩ := hwrites
    cases call with
    | publish => exact h.elim
    | _ => simp [isPublish] at hcall
  | _ => first | exact h.elim | exact hwrites.elim

/-- Subscribing hands packets out, enters a subscriber, and writes the subscriptions of its
    client. -/
theorem writes_of_subscribes {pClient : ClientRef} {op : Op} (h : Subscribes fd pClient op)
    (hwrites : op.Writes part) :
    part = .handedOut ∨ part = .subscribed_clients ∨ part = .subscribed_topics pClient := by
  cases op with
  | record call => exact .inl hwrites.2
  | addSubscribedClient sock ref => exact .inr (.inl hwrites)
  | setSubscriptions ref topics =>
    obtain rfl : ref = pClient := h
    exact .inr (.inr hwrites)
  | _ => first | exact h.elim | exact hwrites.elim

/-- Unsubscribing writes the subscriptions of its client, if it has one of the names. -/
theorem writes_of_unsubscribes {found : Prop} {pClient : ClientRef} {op : Op}
    (h : Unsubscribes found pClient op) (hwrites : op.Writes part) :
    part = .subscribed_topics pClient ∧ found := by
  cases op with
  | setSubscriptions ref topics =>
    obtain ⟨rfl, hfound⟩ := h
    exact ⟨hwrites, hfound⟩
  | _ => first | exact h.elim | exact hwrites.elim

/-- A PUBLISH is retained, held or handed out, as its flags say. -/
theorem writes_of_stores {client_id : Bytes} {op : Op} (h : Stores fh client_id op)
    (hwrites : op.Writes part) : (part = .topics ∧ fh.isRETAIN) ∨
      (part = .qos_2_topics ∧ fh.qoS = 2) ∨ (part = .handedOut ∧ fh.qoS ≠ 2) := by
  cases op with
  | storeTopicValue => exact .inl ⟨hwrites, h⟩
  | addQoSTopic => exact .inr (.inl ⟨hwrites, h.2⟩)
  | record call =>
    obtain ⟨hcall, rfl⟩ := hwrites
    cases call with
    | publish => exact .inr (.inr ⟨rfl, h⟩)
    | _ => simp [isPublish] at hcall
  | _ => first | exact h.elim | exact hwrites.elim

/-- A PUBREL takes a held message away and hands it out, if there is one. -/
theorem writes_of_freesTopic {found : Prop} {client_id : Bytes} {op : Op}
    (h : FreesTopic found client_id op) (hwrites : op.Writes part) :
    (part = .qos_2_topics ∨ part = .handedOut) ∧ found := by
  cases op with
  | delQoSTopic => exact ⟨.inl hwrites, h.2⟩
  | record call =>
    obtain ⟨hcall, rfl⟩ := hwrites
    cases call with
    | publish => exact ⟨.inr rfl, h⟩
    | _ => simp [isPublish] at hcall
  | _ => first | exact h.elim | exact hwrites.elim

/-- A packet leaves alone every part it does not affect. -/
theorem same_of_not_affects {random : Bytes} {err : MqttErr}
    (htype : fh.getType ≠ PackType.CONNECT.code)
    (h : b.handlePacket fh data fd random = .ok (b', err)) (hnot : ¬ Affects b fh data fd part) :
    part.Same b b' := by
  have hcase := handlePacket_cases b fh data fd random
  generalize b.handlePacket fh data fd random = x at hcase h
  -- every handler does certain operations, and those that write a part say when it is affected
  cases hcase with
  | publish htype =>
    refine ((publishHandler_step b fh data fd).of_eq_ok h).2.same
      fun pClient op _ hop hwrites => hnot ?_
    obtain ⟨rfl, hretain⟩ | ⟨rfl, hqos⟩ | ⟨rfl, hqos⟩ := writes_of_stores hop hwrites
    · exact ⟨htype, hretain⟩
    · exact .inl ⟨htype, hqos⟩
    · exact .inl ⟨htype, hqos⟩
  -- the acknowledgements write to no part
  | puback =>
    exact ((does_pubackHandler b data fd).of_eq_ok h).same fun _ _ _ => writes_of_answers
  | pubrel htype =>
    refine ((pubrelHandler_step b data fd).of_eq_ok h).2.same
      fun pClient op hclient hop hwrites => hnot ?_
    obtain ⟨rfl | rfl, hholds⟩ := writes_of_freesTopic hop hwrites
    · exact .inr ⟨htype, pClient, hclient, hholds⟩
    · exact .inr (.inr ⟨htype, pClient, hclient, hholds⟩)
  | pubrec =>
    exact ((does_pubrecHandler b data fd).of_eq_ok h).same fun _ _ _ => writes_of_answers
  | pubcomp =>
    exact ((does_pubcompHandler b data fd).of_eq_ok h).same fun _ _ _ => writes_of_answers
  | ping => exact ((does_pingHandler b fd).of_eq_ok h).same fun _ _ _ => writes_of_answers
  -- the table of its sender, the entry, and what is handed out
  | subscribe htype =>
    refine ((does_subscribeHandler b fh data fd).of_eq_ok h).same
      fun pClient op hclient hop hwrites => hnot ?_
    obtain rfl | rfl | rfl := writes_of_subscribes hop hwrites
    · exact .inr (.inl htype)
    · exact htype
    · exact ⟨hclient, .inl htype⟩
  | disconnect =>
    exact ((does_disconnectHandler b fh data fd).of_eq_ok h).same fun _ _ _ => writes_of_answers
  | unsubscribe htype =>
    refine ((does_unsubscribeHandler b fh data fd).of_eq_ok h).same
      fun pClient op hclient hop hwrites => hnot ?_
    obtain ⟨rfl, hdrops⟩ := writes_of_unsubscribes hop hwrites
    exact ⟨hclient, .inr ⟨htype, hdrops⟩⟩
  | connect hconnect => exact absurd hconnect htype
  | unknown =>
    obtain ⟨rfl, -⟩ := Prod.mk.inj (Except.ok.inj h)
    exact .refl b part

/-! ## Runs without a CONNECT -/

/-- No packet of a run is a CONNECT. -/
def NoConnect (es : List SystemEvent) : Prop :=
  ∀ add first data random,
    SystemEvent.server (.socket (.pollin add (.packet first data random))) ∈ es →
      (FixedHeader.mk first data.length).getType ≠ PackType.CONNECT.code

/-- Two clients, on the sockets 6 and 5, that send no CONNECT. The client on socket 5
    subscribes to `t` and publishes `x` under it with QoS 2 and packet id 1. -/
def withoutConnect : List SystemEvent :=
  [.addClient 5 [] 0, .addClient 6 [] 0, .start, .server (.round false 0),
    .server (.round false 0), .server (.socket .idle),
    .server (.socket (.pollin false (.packet 0x82 [0, 1, 0, 0, 1, 0x74, 1] []))),
    .server (.socket .idle), .server .next, .server .next,
    .server (.round false 0), .server (.socket .idle),
    .server (.socket (.pollin false (.packet 0x34 [0, 1, 0x74, 0, 1, 0, 0x78] [])))]

/-- The run has no CONNECT, in any scan. -/
theorem noConnect_withoutConnect : NoConnect withoutConnect := by
  intro add first data random hmem
  simp only [withoutConnect, List.mem_cons, reduceCtorEq, SystemEvent.server.injEq,
    ServerEvent.socket.injEq, SocketEvent.pollin.injEq, ClientInput.packet.injEq,
    List.not_mem_nil, or_false, false_or] at hmem
  obtain ⟨-, rfl, rfl, -⟩ | ⟨-, rfl, rfl, -⟩ := hmem
  · decide
  · decide

/-- In a reachable state, whether or not the client has sent a CONNECT, a packet of
    another type leaves the postponed packets alone, and every part of the broker it
    does not affect. -/
theorem packet_effects {s : ServerThread} (h : system.Reachable s) {random : Bytes}
    {err : MqttErr} (htype : fh.getType ≠ PackType.CONNECT.code)
    (hpacket : s.broker.handlePacket fh data fd random = .ok (b', err)) :
    b'.postponed_events = s.broker.postponed_events ∧
      ∀ part, ¬ Affects s.broker fh data fd part → part.Same s.broker b' := by
  constructor
  · have hempty := postponed_events_empty h
    rw [hempty]
    exact ((handlePacket_step s.broker fh data fd random).of_eq_ok hpacket).empty hempty
  · exact fun part => same_of_not_affects htype hpacket

/-- A client that has sent no CONNECT sends a SUBSCRIBE. It is subscribed, and what the packet
    does not affect is as it was. -/
theorem packet_effects_subscribe : ∃ s b', system.Run fromStart withoutConnect s ∧
    NoConnect withoutConnect ∧
    s.broker.handlePacket ⟨0x82, 7⟩ [0, 1, 0, 0, 1, 0x75, 1] 6 [] = .ok (b', .ok) ∧
    s.broker.subscribed_clients.lookup 6 = none ∧ b'.subscribed_clients.lookup 6 = some 1 ∧
    b'.postponed_events = s.broker.postponed_events ∧
    ∀ part, ¬ Affects s.broker ⟨0x82, 7⟩ [0, 1, 0, 0, 1, 0x75, 1] 6 part →
      part.Same s.broker b' := by
  have hrun : (withoutConnect.foldlM systemStep fromStart).map (fun s =>
      (s.broker.subscribed_clients.lookup 6,
        (s.broker.handlePacket ⟨0x82, 7⟩ [0, 1, 0, 0, 1, 0x75, 1] 6 []).toOption.map fun r =>
          (r.1.subscribed_clients.lookup 6, r.2))) = some (none, some (some 1, .ok)) := by
    decide +kernel
  obtain ⟨s, hs, hfinal⟩ := Option.map_eq_some_iff.mp hrun
  obtain ⟨hbefore, hhandled⟩ := Prod.mk.inj hfinal
  -- the run is one without a CONNECT, so the theorem applies to the SUBSCRIBE behind it
  have hreach := reachable_of_steps 4 hs
  cases hpacket : s.broker.handlePacket ⟨0x82, 7⟩ [0, 1, 0, 0, 1, 0x75, 1] 6 [] with
  | error e => simp [hpacket, Except.toOption] at hhandled
  | ok r =>
    obtain ⟨b', err⟩ := r
    simp only [hpacket, Except.toOption, Option.map_some, Option.some.injEq, Prod.mk.injEq]
      at hhandled
    obtain ⟨hafter, rfl⟩ := hhandled
    exact ⟨s, b', LTS.run_of_foldlM step_of_systemStep hs, noConnect_withoutConnect, hpacket,
      hbefore, hafter, packet_effects hreach (by decide) hpacket⟩

/-! ## What takes effect -/

/-- A packet is handled with success and changes a part of the broker. -/
def Changes (b : Broker) (first : UInt8) (data : Bytes) (fd : Fd) (part : Part) : Prop :=
  ∃ b', b.handlePacket ⟨first, data.length⟩ data fd [] = .ok (b', .ok) ∧ ¬ part.Same b b'

/-- A check that a part differs. -/
def differs (b b' : Broker) : Part → Bool
  | .topics => b'.storage.topics.toList ≠ b.storage.topics.toList
  | .qos_2_topics => b'.storage.qos_2_topics.toList ≠ b.storage.qos_2_topics.toList
  | .subscribed_clients => b'.subscribed_clients.toList ≠ b.subscribed_clients.toList
  | .subscribed_topics ref =>
    (b'.heap ref).subscribed_topics.toList ≠ (b.heap ref).subscribed_topics.toList
  | .handedOut => handedOut b' ≠ handedOut b

/-- What `differs` finds. -/
theorem not_same_of_differs (h : differs b b' part = true) : ¬ part.Same b b' := by
  intro hsame
  cases part <;> simp only [differs, decide_eq_true_eq] at h <;> exact h (by rw [hsame])

/-- A check that a packet changes a part. -/
def changes (b : Broker) (first : UInt8) (data : Bytes) (fd : Fd) (part : Part) : Bool :=
  match b.handlePacket ⟨first, data.length⟩ data fd [] with
  | .ok (b', err) => err = .ok && differs b b' part
  | .error _ => false

/-- What `changes` checks. -/
theorem changes_of_check {first : UInt8} (h : changes b first data fd part = true) :
    Changes b first data fd part := by
  unfold changes at h
  split at h
  · rename_i b' err hpacket
    simp only [Bool.and_eq_true, decide_eq_true_eq] at h
    exact ⟨b', by rw [hpacket, h.1], not_same_of_differs h.2⟩
  · simp at h

/-- Packets, each with the socket it is received on and the part it changes: on socket
    6 a retained PUBLISH, a PUBLISH with QoS 2, a SUBSCRIBE to `u`, and a PUBREL for the
    message of the other client; on socket 5 an UNSUBSCRIBE. -/
def effectsBeforeConnect : List (UInt8 × Bytes × Fd × Part) :=
  [(0x31, [0, 1, 0x74, 0, 0x78], 6, .topics), (0x31, [0, 1, 0x74, 0, 0x78], 6, .handedOut),
    (0x34, [0, 1, 0x74, 0, 2, 0, 0x78], 6, .qos_2_topics),
    (0x82, [0, 1, 0, 0, 1, 0x75, 1], 6, .subscribed_clients),
    (0x82, [0, 1, 0, 0, 1, 0x75, 1], 6, .subscribed_topics 1),
    (0x62, [0, 1], 6, .qos_2_topics), (0x62, [0, 1], 6, .handedOut),
    (0xA2, [0, 1, 0, 0, 1, 0x74], 5, .subscribed_topics 0)]

/-- Without any CONNECT packets of five types take effect. -/
theorem takes_effect_before_connect :
    ∃ s, NoConnect withoutConnect ∧ system.Run fromStart withoutConnect s ∧
      ∀ p ∈ effectsBeforeConnect, Changes s.broker p.1 p.2.1 p.2.2.1 p.2.2.2 := by
  have hrun : (withoutConnect.foldlM systemStep fromStart).map (fun s =>
      effectsBeforeConnect.all fun p => changes s.broker p.1 p.2.1 p.2.2.1 p.2.2.2) =
      some true := by
    decide +kernel
  obtain ⟨s, hs, hfinal⟩ := Option.map_eq_some_iff.mp hrun
  rw [List.all_eq_true] at hfinal
  exact ⟨s, noConnect_withoutConnect, LTS.run_of_foldlM step_of_systemStep hs,
    fun p hp => changes_of_check (hfinal p hp)⟩

end Mqtt.Spec
