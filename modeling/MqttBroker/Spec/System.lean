import MqttBroker.Spec.ServerLoop

/-!
# The broker with its threads

The server thread with the threads beside it: the main thread, which adds clients
and starts the server thread, `QoSThread` and the sender threads. A step is what
one of them does without letting the others in between. The iteration order of a
hash map may change at any time.
-/

namespace Mqtt.Spec

open Mqtt.Native Mqtt.Native.Broker

/-- A step of one of the threads. -/
inductive SystemEvent where
  | server (e : ServerEvent)
  /-- `AddClient`, by the main thread. -/
  | addClient (sock : Fd) (ip : Bytes) (now : Time)
  /-- `Start`, by the main thread. -/
  | start
  /-- A round of `QoSThread`. -/
  | qos
  /-- A sender thread takes a command out of the queue. -/
  | execute
  /-- Hash maps are ordered anew. -/
  | rehash

/-- The step of a thread, for all events but `rehash`. -/
def systemStep (s : ServerThread) : SystemEvent → Option ServerThread
  | .server e => (s.step e).toOption.join
  | .addClient sock ip now => some { s with broker := (s.broker.addClient sock ip now).1 }
  | .start =>
    if s.broker.state = .init then some { broker := s.broker.setState .started } else none
  | .qos => s.broker.qosThread.toOption.map fun broker => { s with broker }
  | .execute =>
    match s.broker.commands with
    | [] => none
    | _ :: commands => some { s with broker := { s.broker with commands } }
  | .rehash => none

/-- The brokers differ in the order of their hash maps only. -/
structure Rehashed (b b' : Broker) : Prop where
  clients : UnorderedMap.Reordered b.clients b'.clients
  subscribed_clients : UnorderedMap.Reordered b.subscribed_clients b'.subscribed_clients
  postponed_events : UnorderedMap.Reordered b.postponed_events b'.postponed_events
  qos_2_topics : UnorderedMap.Reordered b.storage.qos_2_topics b'.storage.qos_2_topics
  subscribed_topics : ∀ ref, UnorderedMap.Reordered (b.heap ref).subscribed_topics
    (b'.heap ref).subscribed_topics
  others : b' = { b with
    heap := fun ref => { b.heap ref with subscribed_topics := (b'.heap ref).subscribed_topics }
    clients := b'.clients
    subscribed_clients := b'.subscribed_clients
    postponed_events := b'.postponed_events
    storage := { b.storage with qos_2_topics := b'.storage.qos_2_topics } }

/-- The broker from its start on. -/
def system : LTS ServerThread SystemEvent where
  Init s := ∃ control_sock, s = { broker := { control_sock }, pc := .returned }
  Step s e t := systemStep s e = some t ∨
    (e = .rehash ∧ ∃ broker, Rehashed s.broker broker ∧ t = { s with broker })

/-- A step that is computed is a step of the system. -/
theorem step_of_systemStep {s t : ServerThread} {e : SystemEvent} (h : systemStep s e = some t) :
    system.Step s e t := .inl h

theorem step_of_systemStep_server {s t : ServerThread} {e : ServerEvent}
    (h : systemStep s (.server e) = some t) : s.step e = .ok (some t) := by
  cases hstep : s.step e with
  | error fault => simp [systemStep, hstep, Except.toOption] at h
  | ok r =>
    simp only [systemStep, hstep, Except.toOption, Option.join_some] at h
    rw [h]

/-- A pass of the QoS thread changes the broker only. -/
theorem qosThread_of_systemStep {s t : ServerThread} (h : systemStep s .qos = some t) :
    ∃ b, s.broker.qosThread = .ok b ∧ t = { s with broker := b } := by
  cases hstep : s.broker.qosThread with
  | error fault => simp [systemStep, hstep, Except.toOption] at h
  | ok b =>
    simp only [systemStep, hstep, Except.toOption, Option.map_some, Option.some.injEq] at h
    exact ⟨b, rfl, h.symm⟩

/-- A connection is closed that has a client. -/
theorem closeNext_eq_ok {s t : ServerThread} {it : Fd} {rest : List Fd}
    (h : s.closeNext it rest = .ok t) :
    (∃ pClient, s.broker.clients.lookup it = some (some pClient)) ∧
      t = { s with broker := s.broker.closeConnection it, pc := .close rest } := by
  obtain ⟨⟨b, pClient⟩, hat, ht⟩ := Except.bind_eq_ok_iff.mp h
  obtain ⟨rfl, hclient⟩ := (sat_derefAt s.broker it).of_eq_ok hat
  exact ⟨⟨pClient, hclient⟩, (Except.ok.inj ht).symm⟩

/-- A list of steps that can be taken from the start leads to a reachable state. -/
theorem reachable_of_steps {es : List SystemEvent} {t : ServerThread} (control_sock : Fd)
    (h : es.foldlM systemStep { broker := { control_sock }, pc := .returned } = some t) :
    system.Reachable t :=
  ⟨_, es, ⟨control_sock, rfl⟩, LTS.run_of_foldlM step_of_systemStep h⟩

/-! ## What a step does -/

/-- The server thread reads a QoS 2 PUBLISH. -/
def PublishAt (s : ServerThread) (e : SystemEvent) (client_id : Bytes) (topic : MqttTopic) :
    Prop :=
  ∃ fd event, socketAt s = some fd ∧ e = .server (.socket event) ∧
    ReadsPublish s.broker fd event client_id topic

/-- What a step does to the handshakes and to the postponed packets. -/
structure SystemEffect (s : ServerThread) (e : SystemEvent) (t : ServerThread) : Prop where
  empty : StaysEmpty s.broker t.broker
  inbound : SameInbound s.broker t.broker ∨
    (∃ client_id topic, PublishAt s e client_id topic ∧
      Receives s.broker t.broker client_id topic) ∨
    ∃ client_id packet_id, Releases s.broker t.broker client_id packet_id

/-- A quiet step is no event of a handshake. -/
theorem Quiet.systemEffect {s t : ServerThread} {e : SystemEvent}
    (h : Quiet s.broker t.broker) : SystemEffect s e t := ⟨h.empty, .inl h.inbound⟩

/-- A pass of the QoS thread queues commands. -/
theorem does_qosThread (b : Broker) :
    b.qosThread.Sat (Does (fun op => ∃ fd cmd, op = .addCommand fd cmd) b) fun _ => True := by
  unfold qosThread
  split
  · exact .refl
  · cases b.clientIds b.clients.toList with
    | error e => trivial
    | ok ids =>
      simp only [Except.ok_bind, Except.pure_eq_ok, Except.sat_ok]
      -- commands are added, one after the other
      refine .foldl (fun b' it => ?_) ids.toList
      split
      · exact .addCommand _ _ ⟨_, _, rfl⟩
      · exact .refl

/-- A socket of the scan may store or release the message of its packet. -/
private theorem scanAt_effect {s t : ServerThread} {client_num i : Nat} {now : Time}
    {fd_to_delete : List Fd} {event : SocketEvent}
    (hpc : s.pc = .scan client_num i now fd_to_delete) (hi : i < client_num)
    (h : s.scanAt client_num i now fd_to_delete event = .ok t) :
    SystemEffect s (.server (.socket event)) t := by
  unfold ServerThread.scanAt at h
  split at h
  · cases h
  · rename_i fd hfd
    obtain ⟨⟨b, next⟩, hscan, h⟩ := Except.bind_eq_ok_iff.mp h
    have hstep := ((scanSocket_step s.broker fd now event).of_eq_ok hscan).1
    have hat : socketAt s = some fd := by simp only [socketAt, hpc, if_pos hi, hfd]
    -- what follows at the socket changes only the program counter
    have hbroker : t.broker = b := by
      cases next <;> obtain rfl := Except.ok.inj h <;> rfl
    constructor
    · rw [hbroker]
      exact hstep.empty
    · rw [hbroker]
      refine hstep.inbound.imp_right (Or.imp_left ?_)
      rintro ⟨c, topic, hread, hrec⟩
      exact ⟨c, topic, ⟨fd, event, hat, rfl, hread⟩, hrec⟩

/-- Of the steps of the server thread only a packet stores or releases a message. -/
private theorem server_effect {s t : ServerThread} {e : ServerEvent}
    (h : s.step e = .ok (some t)) : SystemEffect s (.server e) t := by
  -- all but the scan sets the state at most
  have hquiet : ∀ {t'}, t'.broker = s.broker ∨ (∃ state, t'.broker = s.broker.setState state) →
      SystemEffect s (.server e) t' := by
    rintro t' (ht | ⟨state, ht⟩)
    · exact ⟨by rw [ht]; exact id, .inl (by rw [ht]; exact .refl _)⟩
    · exact ⟨by rw [ht]; exact id, .inl (by rw [ht]; exact ⟨rfl, rfl⟩)⟩
  unfold ServerThread.step at h
  split at h
  · split at h <;> obtain rfl := Option.some.inj (Except.ok.inj h)
    · exact hquiet (.inl rfl)
    · unfold ServerThread.started
      split <;> exact hquiet (.inr ⟨_, rfl⟩)
    · unfold ServerThread.waitState
      split
      · exact hquiet (.inr ⟨_, rfl⟩)
      · exact hquiet (.inl rfl)
  · -- a socket of the scan
    rename_i hpc
    split at h
    · rename_i hi
      obtain ⟨t', hscan, ht⟩ := Except.bind_eq_ok_iff.mp h
      obtain rfl := Option.some.inj (Except.ok.inj ht)
      exact scanAt_effect hpc hi hscan
    · exact nomatch h
  · split at h
    · exact nomatch h
    · obtain rfl := Option.some.inj (Except.ok.inj h)
      unfold ServerThread.scanEnd
      split
      · exact hquiet (.inl rfl)
      · exact hquiet (.inr ⟨_, rfl⟩)
  · -- a connection to close
    obtain ⟨t', hclose, ht⟩ := Except.bind_eq_ok_iff.mp h
    obtain rfl := Option.some.inj (Except.ok.inj ht)
    obtain ⟨-, rfl⟩ := closeNext_eq_ok hclose
    exact ⟨fun h => h, .inl ⟨rfl, rfl⟩⟩
  · obtain rfl := Option.some.inj (Except.ok.inj h)
    exact hquiet (.inl rfl)
  · exact nomatch h

/-- What any step does to the handshakes and to the postponed packets. -/
theorem system_effect {s t : ServerThread} {e : SystemEvent} (h : system.Step s e t) :
    SystemEffect s e t := by
  -- a step of a thread, or another order of the hash maps
  obtain h | ⟨rfl, b, hb, rfl⟩ := h
  · cases e with
    | server e => exact server_effect (step_of_systemStep_server h)
    | addClient sock ip now =>
      obtain rfl := Option.some.inj h
      exact ⟨fun h => h, .inl ⟨rfl, rfl⟩⟩
    | start =>
      simp only [systemStep, Option.ite_none_right_eq_some] at h
      obtain rfl := Option.some.inj h.2
      exact ⟨fun h => h, .inl ⟨rfl, rfl⟩⟩
    | qos =>
      obtain ⟨b, hqos, rfl⟩ := qosThread_of_systemStep h
      refine Quiet.systemEffect (((does_qosThread s.broker).of_eq_ok hqos).quiet ?_)
      rintro _ ⟨fd, cmd, rfl⟩
      trivial
    | execute =>
      simp only [systemStep] at h
      split at h
      · exact nomatch h
      · obtain rfl := Option.some.inj h
        exact ⟨fun h => h, .inl ⟨rfl, rfl⟩⟩
    | rehash => exact nomatch h
  · refine ⟨fun he => ?_, .inl ⟨funext fun client_id => ?_, ?_⟩⟩
    · have hperm := hb.postponed_events
      rw [he] at hperm
      exact AList.ext hperm.nil_eq.symm
    · simp only [stored, TopicStorage.qosGroup, UnorderedMap.lookup_eq_of_reordered hb.qos_2_topics]
    · rw [history, history, hb.others]

end Mqtt.Spec
