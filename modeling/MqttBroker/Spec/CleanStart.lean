import MqttBroker.Spec.Outbound
import MqttBroker.Spec.ScanPass

/-!
# Clean Start

The CONNACK for a CONNECT with Clean Start says that no session is present. The
messages that wait for a PUBREL are stored by the client id, and `DelClient` removes by
the socket: the messages of a connection are there for the next one with its id. A
clean session is clean exactly when nothing has been waiting.
-/

namespace Mqtt.Spec

open Mqtt.Native Mqtt.Native.Broker ReceiverEvent

/-! ## What a run releases -/

/-- What has happened under a client id since the broker `b`. -/
structure Since (client_id : Bytes) (b b' : Broker) : Prop where
  history : ∃ rest, history b' = history b ++ rest ∧
    (∀ topic ∈ stored b' client_id, topic ∈ stored b client_id ∨
      .received (client_id, topic.id) topic ∈ rest) ∧
    Backed (fun key topic => key.1 = client_id → topic ∈ stored b client_id) rest

theorem Since.refl (client_id : Bytes) (b : Broker) : Since client_id b b :=
  ⟨[], (List.append_nil _).symm, fun _ hmem => .inl hmem, backed_nil _⟩

/-- One step, by what it does to the handshakes. -/
theorem Since.step {client_id : Bytes} {b b₁ b' : Broker} (h : Since client_id b b₁)
    (heffect : SameInbound b₁ b' ∨ (∃ c topic, Receives b₁ b' c topic) ∨
      ∃ c packet_id, Releases b₁ b' c packet_id) : Since client_id b b' := by
  obtain ⟨rest, hhistory, hstored, hbacked⟩ := h.history
  -- a quiet step, a message that is stored, or a PUBREL
  obtain hsame | ⟨c, topic, hrec⟩ | ⟨c, packet_id, hrel⟩ := heffect
  · exact ⟨rest, hsame.history.trans hhistory, by rwa [hsame.stored], hbacked⟩
  · refine ⟨rest ++ [.received (c, topic.id) topic], ?_, fun held hmem => ?_,
      hbacked.snoc fun k m he => by cases he⟩
    · rw [hrec.history, hhistory, List.append_assoc]
    · -- a message that is stored now was received now
      rw [hrec.topics] at hmem
      by_cases hc : client_id = c
      · subst hc
        rw [Function.update_self, List.mem_cons] at hmem
        obtain rfl | hmem := hmem
        · exact .inr (by simp)
        · exact (hstored held hmem).imp_right fun hin => by simp [hin]
      · rw [Function.update_of_ne hc] at hmem
        exact (hstored held hmem).imp_right fun hin => by simp [hin]
  · -- a release stores nothing
    have hkept : ∀ held ∈ stored b' client_id, held ∈ stored b₁ client_id := by
      intro held hmem
      rw [hrel.topics] at hmem
      by_cases hc : client_id = c
      · subst hc
        rw [Function.update_self] at hmem
        exact List.mem_of_mem_eraseP hmem
      · rwa [Function.update_of_ne hc] at hmem
    have hrelease := hbacked.snoc (e := .release (c, packet_id)) fun k m he => by cases he
    cases hfind : (stored b₁ c).find? fun topic => topic.id = packet_id with
    | none =>
      refine ⟨rest ++ [.release (c, packet_id)], ?_, fun held hmem => ?_, hrelease⟩
      · rw [hrel.history, hfind, hhistory, List.append_assoc]
        rfl
      · exact (hstored held (hkept held hmem)).imp_right fun hin => by simp [hin]
    | some topic =>
      -- the topic is one of those that were stored
      have hmem : topic ∈ stored b₁ c := List.mem_of_find?_eq_some hfind
      have hid : topic.id = packet_id := by simpa using List.find?_some hfind
      refine ⟨rest ++ [.release (c, packet_id)] ++ [.delivered (c, packet_id) topic], ?_,
        fun held hin => ?_, hrelease.snoc fun k m he => ?_⟩
      · rw [hrel.history, hfind, hhistory]
        simp
      · exact (hstored held (hkept held hin)).imp_right fun hin => by simp [hin]
      · obtain ⟨rfl, rfl⟩ : (c, packet_id) = k ∧ topic = m := by simpa using he
        by_cases hc : c = client_id
        · subst hc
          obtain hold | hnew := hstored topic hmem
          · exact .inl fun _ => hold
          · rw [hid] at hnew
            exact .inr (by simp [hnew])
        · exact .inl fun heq => absurd heq hc

/-- A run delivers under a client id what was stored for it or what it has received. -/
theorem since_of_run {client_id : Bytes} {t u : ServerThread} {es : List SystemEvent}
    (h : system.Run t es u) : Since client_id t.broker u.broker := by
  refine h.preserves (P := fun u => Since client_id t.broker u.broker) (fun hs hstep => ?_)
    (.refl client_id t.broker)
  refine hs.step ((system_effect hstep).inbound.imp_right (.imp_left ?_))
  rintro ⟨c, topic, -, hrec⟩
  exact ⟨c, topic, hrec⟩

/-- What waits for its PUBREL after a release waited before it, under another key. -/
theorem unreleased_of_releases {b b' : Broker} {c c' : Bytes} {packet_id packet_id' : UInt16}
    {topic : MqttTopic} (h : Releases b b' c' packet_id')
    (hu : Unreleased (history b') (c, packet_id) topic) :
    Unreleased (history b) (c, packet_id) topic ∧ (c', packet_id') ≠ (c, packet_id) := by
  rw [h.history] at hu
  have hrelease : Unreleased (history b ++ [.release (c', packet_id')]) (c, packet_id) topic := by
    -- what is delivered at the PUBREL is noted behind it
    cases hfind : (stored b c').find? fun topic => topic.id = packet_id' with
    | none => simpa [hfind] using hu
    | some held =>
      rw [hfind] at hu
      have hsplit : history b ++ .release (c', packet_id') ::
          ((some held).map (.delivered (c', packet_id'))).toList =
          history b ++ [.release (c', packet_id')] ++ [.delivered (c', packet_id') held] := by
        simp
      rw [hsplit] at hu
      obtain heq | ⟨hold, -⟩ := hu.of_snoc
      · cases heq
      · exact hold
  obtain heq | ⟨hold, hne⟩ := hrelease.of_snoc
  · cases heq
  · exact ⟨hold, fun heq => hne (by rw [heq])⟩

/-- A message that has not been released is stored. -/
theorem stored_of_unreleased {s : ServerThread} (h : system.Reachable s) :
    ∀ c packet_id topic, Unreleased (history s.broker) (c, packet_id) topic →
      topic ∈ stored s.broker c ∧ topic.id = packet_id := by
  refine h.invariant (P := fun s => ∀ c packet_id topic,
    Unreleased (history s.broker) (c, packet_id) topic →
      topic ∈ stored s.broker c ∧ topic.id = packet_id) ?_ ?_
  · -- nothing has been received yet
    rintro _ ⟨control_sock, rfl⟩ c packet_id topic hu
    exact (not_unreleased_nil _ _ hu).elim
  · intro s e t hs hstep c packet_id topic hu
    -- the history grows with what is stored, and a release takes the first topic of its id
    obtain hsame | ⟨c', topic', -, hrec⟩ | ⟨c', packet_id', hrel⟩ := (system_effect hstep).inbound
    · rw [hsame.history] at hu
      rw [hsame.stored]
      exact hs c packet_id topic hu
    · rw [hrec.history] at hu
      rw [hrec.topics]
      obtain heq | ⟨hold, -⟩ := hu.of_snoc
      · simp only [received.injEq, Prod.mk.injEq] at heq
        obtain ⟨⟨rfl, hid⟩, rfl⟩ := heq
        rw [Function.update_self]
        exact ⟨.head _, hid⟩
      · obtain ⟨hmem, hid⟩ := hs c packet_id topic hold
        by_cases hc : c = c'
        · subst hc
          rw [Function.update_self]
          exact ⟨.tail _ hmem, hid⟩
        · rw [Function.update_of_ne hc]
          exact ⟨hmem, hid⟩
    · obtain ⟨hold, hne⟩ := unreleased_of_releases hrel hu
      obtain ⟨hmem, hid⟩ := hs c packet_id topic hold
      rw [hrel.topics]
      refine ⟨?_, hid⟩
      by_cases hc : c = c'
      · subst hc
        rw [Function.update_self]
        -- it was not the released one, so it is still there
        refine (List.mem_eraseP_of_neg ?_).mpr hmem
        rw [hid]
        simpa [eq_comm] using hne
      · rwa [Function.update_of_ne hc]

/-! ## A clean session -/

/-- A CONNECT with Clean Start and a client id is accepted in a step. -/
structure CleanStart (s : ServerThread) (e : SystemEvent) (t : ServerThread)
    (client_id : Bytes) : Prop where
  accepted : ∃ fd pClient add first data random now, socketAt s = some fd ∧
    s.broker.clients.lookup fd = some (some pClient) ∧
    e = .server (.socket (.pollin add (.packet first data random))) ∧
    (FixedHeader.mk first data.length).getType = PackType.CONNECT.code ∧
    (touch s.broker pClient now).handlePacket ⟨first, data.length⟩ data fd random =
      .ok (t.broker, .ok) ∧
    (t.broker.heap pClient).client_id = client_id ∧ (t.broker.heap pClient).isCleanFlag = true

/-- What is delivered under a client id after the broker `b` has been received after it. -/
def DeliversOwn (client_id : Bytes) (b b' : Broker) : Prop :=
  ∃ rest, history b' = history b ++ rest ∧ ∀ pre packet_id topic post,
    rest = pre ++ .delivered (client_id, packet_id) topic :: post →
      .received (client_id, packet_id) topic ∈ pre

/-- Nothing of an earlier session with the client id is left: nothing is stored for it,
    no message received under it waits for its PUBREL, and no run from here on delivers
    a message that it has not received itself. -/
structure SessionIsNew (t : ServerThread) (client_id : Bytes) : Prop where
  qos_2_topics : stored t.broker client_id = []
  postponed_events : t.broker.postponed_events.lookup client_id = none
  released : ∀ packet_id topic, ¬ Unreleased (history t.broker) (client_id, packet_id) topic
  deliveries : ∀ es u, system.Run t es u → DeliversOwn client_id t.broker u.broker

/-- CONNECT leaves the stored messages alone. -/
theorem CleanStart.stored {s t : ServerThread} {e : SystemEvent} {client_id : Bytes}
    (h : CleanStart s e t client_id) : stored t.broker = Spec.stored s.broker := by
  obtain ⟨fd, pClient, add, first, data, random, now, -, -, -, htype, hpacket, -⟩ := h.accepted
  have hconnect : (touch s.broker pClient now).connectHandler data fd random =
      .ok (t.broker, .ok) :=
    (handlePacket_connect _ _ _ _ htype).symm.trans hpacket
  have hstep := (connectHandler_step _ data fd random).of_eq_ok hconnect
  exact hstep.inbound.stored

/-- A session that begins with an accepted CONNECT with Clean Start is new exactly when
    no message was stored for its client id. -/
theorem clean_start_iff {s t : ServerThread} {e : SystemEvent} {client_id : Bytes}
    (h : system.Reachable s) (hstep : system.Step s e t) (hclean : CleanStart s e t client_id) :
    SessionIsNew t client_id ↔ stored s.broker client_id = [] := by
  have hstored := congrFun hclean.stored client_id
  have hreach := h.step hstep
  constructor
  · -- a session that is new holds no message
    intro hnew
    rw [← hstored]
    exact hnew.qos_2_topics
  · intro hempty
    rw [hempty] at hstored
    refine ⟨hstored, ?_, fun packet_id topic hu => ?_, fun es u hrun => ?_⟩
    · rw [postponed_events_empty hreach]
      exact AList.lookup_empty _
    · have hmem := (stored_of_unreleased hreach client_id packet_id topic hu).1
      rw [hstored] at hmem
      cases hmem
    · -- what is released later was stored before or has been received since
      obtain ⟨rest, hhistory, -, hbacked⟩ :=
        (@since_of_run client_id _ _ _ hrun).history
      refine ⟨rest, hhistory, fun pre packet_id topic post hsplit => ?_⟩
      obtain hold | hnew := hbacked pre _ _ post hsplit
      · have hmem := hold rfl
        rw [hstored] at hmem
        cases hmem
      · exact hnew

/-! ## A client that comes back -/

/-- The client disconnects; the server thread returns. -/
def disconnected : List SystemEvent := pass 0xE0 [] ++ [.server .next, .server (.round false 0)]

/-- A new connection on socket 5, up to its first packet. -/
def accepted : List SystemEvent :=
  [.addClient 5 [] 0, .start, .server (.round false 0), .server (.round false 0)]

/-- A CONNECT with Clean Start and the id `a`. -/
def cleanConnect : SystemEvent := .server (.socket (.pollin false
  (.packet 0x10 [0, 4, 0x4D, 0x51, 0x54, 0x54, 5, 0x02, 0, 60, 0, 0, 1, 0x61] [])))

/-- The rest of a pass, and a PUBREL for the packet id 1. -/
def releasesOld : List SystemEvent :=
  [.server (.socket .idle), .server .next, .server .next] ++ pubrelQoS2

/-- A check that the second connection on socket 5 is accepted: its socket is not marked
    for removal. -/
def acceptsSecond (s t : ServerThread) : Bool :=
  socketAt s = some 5 && s.broker.control_sock ≠ 5 &&
    s.broker.clients.lookup 5 = some (some 1) && (toDelete t).isEmpty &&
    (t.broker.heap 1).client_id = [0x61] && (t.broker.heap 1).isCleanFlag

private theorem cleanStart_of_check {s t : ServerThread} (hstep : system.Step s cleanConnect t)
    (hcheck : acceptsSecond s t = true) : CleanStart s cleanConnect t [0x61] := by
  simp only [acceptsSecond, Bool.and_eq_true, decide_eq_true_eq, List.isEmpty_iff] at hcheck
  obtain ⟨⟨⟨⟨⟨hat, hcontrol⟩, hclient⟩, hkept⟩, hid⟩, hclean⟩ := hcheck
  cases system_cases hstep with
  | server hcase =>
    cases hcase with
    | @socket client_num i now fd_to_delete fd event b next hpc hi hfd hscan =>
      obtain rfl : fd = 5 := by
        simp only [socketAt, hpc, if_pos hi, hfd, Option.some.injEq] at hat
        exact hat
      -- of what the scan does only an accepted packet goes on with the socket
      cases hscan with
      | control hfd => exact absurd hfd.symm hcontrol
      | @handled add first data random pClient b' _ hclient' hpacket =>
        obtain rfl : pClient = 1 :=
          Option.some.inj (Option.some.inj (hclient'.symm.trans hclient))
        exact ⟨⟨5, 1, false, _, _, _, now, hat, hclient, rfl, by decide, hpacket, hid, hclean⟩⟩
      | refused => simp [toDelete, afterSocket] at hkept

set_option synthInstance.maxSize 1000 in
/-- The client `a` publishes with QoS 2 and disconnects. It comes back with Clean Start,
    and its message is still there: a PUBREL delivers it. -/
theorem clean_start_keeps_messages : ∃ s e t es u, system.Reachable s ∧ system.Step s e t ∧
    CleanStart s e t [0x61] ∧ stored t.broker [0x61] = [topicT] ∧
    ¬ SessionIsNew t [0x61] ∧ system.Run t es u ∧ ¬ DeliversOwn [0x61] t.broker u.broker := by
  have hrun : ((connected ++ publishQoS2 ++ disconnected ++ accepted).foldlM systemStep
      fromStart).bind (fun s => (systemStep s cleanConnect).bind fun t =>
        (releasesOld.foldlM systemStep t).map fun u => (acceptsSecond s t,
            stored t.broker [0x61], history t.broker, history u.broker)) =
      some (true, [topicT], [.received ([0x61], 1) topicT], [.received ([0x61], 1) topicT,
        .release ([0x61], 1), .delivered ([0x61], 1) topicT]) := by
    decide +kernel
  obtain ⟨s, hs, hrun⟩ := Option.bind_eq_some_iff.mp hrun
  obtain ⟨t, ht, hrun⟩ := Option.bind_eq_some_iff.mp hrun
  obtain ⟨u, hu, hfinal⟩ := Option.map_eq_some_iff.mp hrun
  simp only [Prod.mk.injEq] at hfinal
  obtain ⟨hcheck, hstored, hbefore, hafter⟩ := hfinal
  -- the CONNECT is a clean start, and the PUBREL behind it releases the old message
  refine ⟨s, cleanConnect, t, releasesOld, u, reachable_of_steps 4 hs, .inl ht,
    cleanStart_of_check (.inl ht) hcheck, hstored, fun hnew => ?_,
    LTS.run_of_foldlM step_of_systemStep hu, ?_⟩
  · have hempty := hnew.qos_2_topics
    rw [hstored] at hempty
    cases hempty
  · rintro ⟨rest, hhistory, hown⟩
    rw [hbefore, hafter, List.singleton_append, List.cons_inj_right] at hhistory
    -- the message has not been received on the new connection
    have hmem := hown [.release ([0x61], 1)] 1 topicT [] hhistory.symm
    simp at hmem

/-- A session that is new: the client has released its message before. -/
theorem clean_start_new : ∃ s e t, system.Reachable s ∧ system.Step s e t ∧
    CleanStart s e t [0x61] ∧ SessionIsNew t [0x61] := by
  have hrun : ((connected ++ publishQoS2 ++ pubrelQoS2 ++ disconnected ++ accepted).foldlM
      systemStep fromStart).bind (fun s => (systemStep s cleanConnect).map fun t =>
        (acceptsSecond s t, stored s.broker [0x61])) = some (true, []) := by
    decide +kernel
  obtain ⟨s, hs, hrun⟩ := Option.bind_eq_some_iff.mp hrun
  obtain ⟨t, ht, hfinal⟩ := Option.map_eq_some_iff.mp hrun
  obtain ⟨hcheck, hstored⟩ := Prod.mk.inj hfinal
  have hreach := reachable_of_steps 4 hs
  have haccepted := cleanStart_of_check (.inl ht) hcheck
  exact ⟨s, cleanConnect, t, hreach, .inl ht, haccepted,
    (clean_start_iff hreach (.inl ht) haccepted).mpr hstored⟩

end Mqtt.Spec
