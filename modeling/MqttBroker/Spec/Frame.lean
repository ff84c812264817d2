import MqttBroker.ForStd.ExactlyOnce
import MqttBroker.Native.ServerThread
import MqttBroker.Spec.NullClient
import MqttBroker.Spec.Operations
import MqttBroker.Spec.Delivery

/-!
# Quiet steps

Most of what the broker does leaves three things alone: the connections the
server loop relies on, the inbound QoS 2 handshakes and an empty table of
postponed packets. `Quiet` is that relation between the broker before and after,
and this file proves it of everything that sends a topic.
-/

namespace Mqtt.Spec

open Mqtt.Native Mqtt.Native.Broker

/-! ## History of the inbound handshakes -/

/-- A message of a QoS 2 handshake is named by the client id and the packet id. -/
abbrev MessageKey := Bytes × UInt16

/-- The event of the inbound QoS 2 handshakes a recorded call is. -/
def inboundEvent : Call → Option (ReceiverEvent MessageKey MqttTopic)
  | .received client_id topic => some (.received (client_id, topic.id) topic)
  | .pubrel client_id packet_id => some (.release (client_id, packet_id))
  | .notifyClients (some key) topic => some (.delivered key topic)
  | _ => none

/-- The events of the inbound QoS 2 handshakes so far. -/
def history (b : Broker) : List (ReceiverEvent MessageKey MqttTopic) :=
  b.calls.filterMap inboundEvent

/-- A call that is noted adds its event, if it has one, to the history. -/
theorem history_record (b : Broker) (call : Call) :
    history (b.record call) = history b ++ (inboundEvent call).toList := by
  rw [history, record, List.filterMap_append, history]
  cases h : inboundEvent call <;> simp [h]

/-! ## Quiet steps -/

/-- What the server loop relies on is as before. -/
structure SameServer (b b' : Broker) : Prop where
  clients : b'.clients = b.clients
  state : b'.state = b.state
  control_sock : b'.control_sock = b.control_sock

/-- The QoS 2 topics stored for a client. -/
def stored (b : Broker) : Bytes → List MqttTopic := b.storage.qosGroup

/-- The inbound QoS 2 handshakes stand where they did. -/
structure SameInbound (b b' : Broker) : Prop where
  stored : stored b' = stored b
  history : history b' = history b

/-- An empty table of postponed packets stays empty. -/
def StaysEmpty (b b' : Broker) : Prop := b.postponed_events = ∅ → b'.postponed_events = ∅

/-- A step that sends and postpones packets and changes what concerns one
    connection, but neither connections nor handshakes. -/
structure Quiet (b b' : Broker) : Prop where
  server : SameServer b b'
  inbound : SameInbound b b'
  empty : StaysEmpty b b'
  client_id : ∀ ref, (b'.heap ref).client_id = (b.heap ref).client_id

theorem SameServer.refl (b : Broker) : SameServer b b := ⟨rfl, rfl, rfl⟩

theorem SameServer.trans {b b' b'' : Broker} (h : SameServer b b') (h' : SameServer b' b'') :
    SameServer b b'' :=
  ⟨h'.clients.trans h.clients, h'.state.trans h.state, h'.control_sock.trans h.control_sock⟩

theorem SameInbound.refl (b : Broker) : SameInbound b b := ⟨rfl, rfl⟩

theorem SameInbound.trans {b b' b'' : Broker} (h : SameInbound b b') (h' : SameInbound b' b'') :
    SameInbound b b'' :=
  ⟨h'.stored.trans h.stored, h'.history.trans h.history⟩

namespace Quiet

theorem refl (b : Broker) : Quiet b b := ⟨.refl b, .refl b, id, fun _ => rfl⟩

theorem trans {b b' b'' : Broker} (h : Quiet b b') (h' : Quiet b' b'') : Quiet b b'' where
  server := h.server.trans h'.server
  inbound := h.inbound.trans h'.inbound
  empty := h'.empty ∘ h.empty
  client_id ref := (h'.client_id ref).trans (h.client_id ref)

/-- A client that keeps its id may change quietly. -/
theorem setClient {b : Broker} {ref : ClientRef} {c : Client}
    (h : c.client_id = (b.heap ref).client_id) : Quiet b (b.setClient ref c) where
  server := ⟨rfl, rfl, rfl⟩
  inbound := ⟨rfl, rfl⟩
  empty := id
  client_id ref' := by
    by_cases hr : ref' = ref
    · rw [hr, heap_setClient_self, h]
    · rw [heap_setClient_ne hr]

end Quiet

/-- An operation that is no part of an inbound handshake. -/
def IsQuiet : Op → Prop
  | .record call => inboundEvent call = none
  | .addQoSTopic _ _ | .delQoSTopic _ _ => False
  | _ => True

/-- A quiet operation changes nothing that the server thread or the inbound handshakes look at. -/
theorem quiet_apply {b : Broker} (op : Op) (h : IsQuiet op) (hen : op.Enabled b) :
    Quiet b (op.apply b) := by
  cases op with
  -- these write to other maps
  | addCommand | addSubscribedClient | storeTopicValue =>
    exact ⟨⟨rfl, rfl, rfl⟩, ⟨rfl, rfl⟩, fun h => h, fun _ => rfl⟩
  | genPacketID | setSubscriptions | setWillTopic | setLastTime => exact .setClient rfl
  | record call =>
    refine ⟨⟨rfl, rfl, rfl⟩, ⟨rfl, ?_⟩, fun h => h, fun _ => rfl⟩
    change history (b.record call) = history b
    rw [history_record, show inboundEvent call = none from h]
    exact List.append_nil _
  | addQosEvent client_id packet =>
    -- in an empty table nothing stands before the packet
    refine ⟨⟨rfl, rfl, rfl⟩, ⟨rfl, rfl⟩, fun he => ?_, fun _ => rfl⟩
    rw [Op.Enabled, checkIfMoreMessages, he, AList.lookup_empty] at hen
    simp at hen
  | delQosEvent client_id packet_id =>
    rw [Op.apply, delQosEvent]
    split
    · rename_i group hgroup
      refine ⟨⟨rfl, rfl, rfl⟩, ⟨rfl, rfl⟩, fun he => ?_, fun _ => rfl⟩
      rw [he, AList.lookup_empty] at hgroup
      cases hgroup
    · exact .refl b
  | addQoSTopic | delQoSTopic => exact h.elim

/-- Operations outside of the handshakes are a quiet step. -/
theorem Does.quiet {A : Op → Prop} {b b' : Broker} (h : Does A b b')
    (hA : ∀ op, A op → IsQuiet op) : Quiet b b' :=
  h.rel .refl .trans fun _ op hop hen => quiet_apply op (hA op hop) hen

/-- Sending is quiet. -/
theorem isQuiet_of_sends {op : Op} (h : Sends op) : IsQuiet op := by
  unfold Sends at h
  split at h
  · trivial
  · trivial
  · trivial
  · rfl
  · exact h.elim

/-- Sending a will is quiet. -/
theorem isQuiet_of_sendsWill {pClient : ClientRef} {op : Op} (h : SendsWill pClient op) :
    IsQuiet op := by
  unfold SendsWill at h
  split at h
  · trivial
  · rfl
  · exact isQuiet_of_sends h

/-- Answering is quiet. -/
theorem isQuiet_of_answers {pClient : ClientRef} {client_id : Bytes} {op : Op}
    (h : Answers pClient client_id op) : IsQuiet op := by
  unfold Answers at h
  split at h
  · trivial
  · trivial
  · rfl
  · exact h.elim

/-- Unsubscribing is quiet. -/
theorem isQuiet_of_unsubscribes {found : Prop} {pClient : ClientRef} {op : Op}
    (h : Unsubscribes found pClient op) : IsQuiet op := by
  unfold Unsubscribes at h
  split at h
  · trivial
  · trivial
  · exact h.elim

/-- Subscribing, with the retained messages that are sent for it, is quiet. -/
theorem isQuiet_of_subscribes {fd : Fd} {pClient : ClientRef} {op : Op}
    (h : Subscribes fd pClient op) : IsQuiet op := by
  unfold Subscribes at h
  split at h
  · trivial
  · trivial
  · exact isQuiet_of_sends h

/-! ## Lookups of a connection -/

/-- A socket with a client. -/
def Connected (b : Broker) (fd : Fd) : Prop := ∃ ref, b.clients.lookup fd = some (some ref)

/-- A fault of a step for a socket: a null client is met only when it has none. -/
def FaultAt (b : Broker) (fd : Fd) (e : Fault) : Prop := e = .nullClient → ¬ Connected b fd

/-- Faults other than a null client say nothing about connections. -/
theorem faultAt_of_ne {b : Broker} {fd : Fd} (e : Fault) (h : e ≠ .nullClient) : FaultAt b fd e :=
  fun he => absurd he h

/-- What faults at a socket after a quiet step faults there before it. -/
theorem FaultAt.of_server {b b' : Broker} {fd : Fd} {e : Fault} (h : SameServer b b')
    (he : FaultAt b' fd e) : FaultAt b fd e := by
  rwa [FaultAt, Connected, h.clients] at he

/-- A computation that cannot meet a null client, for whatever socket. -/
theorem NeverNull.sat {α : Type} {x : Exec α} (h : NeverNull x) (b : Broker) (fd : Fd) :
    x.Sat (fun _ => True) (FaultAt b fd) := by
  cases x with
  | ok a => trivial
  | error e => exact faultAt_of_ne e fun he => h (by rw [he])

/-- No operation on the broker changes `clients`, the state or the control socket. -/
theorem Does.server {A : Op → Prop} {b b' : Broker} (h : Does A b b') : SameServer b b' :=
  ⟨h.clients_eq, h.state_eq, h.control_sock_eq⟩

/-- Some operations and a computation that does such operations from there on. -/
theorem Does.sat {α : Type} {x : Exec α} {A : Op → Prop} {π : α → Broker} {b b' : Broker} {fd : Fd}
    (h : Does A b b') (hx : x.Sat (fun r => Does A b' (π r)) (FaultAt b' fd)) :
    x.Sat (fun r => Does A b (π r)) (FaultAt b fd) :=
  hx.mono (fun _ hr => h.trans hr) fun _ he => he.of_server h.server

/-- `derefAt` returns the client of the socket, and fails only where there is none. -/
theorem sat_derefAt (b : Broker) (fd : Fd) :
    (b.derefAt fd).Sat (fun r => r.1 = b ∧ b.clients.lookup fd = some (some r.2))
      (FaultAt b fd) := by
  -- no entry, a null entry, or a client
  cases h : b.clients.lookup fd with
  | none =>
    simp only [derefAt, clientAt, h, Option.join_none, deref, Except.error_bind, Except.sat_error]
    rintro _ ⟨ref, hr⟩
    simp [h] at hr
  | some pClient =>
    cases pClient with
    | none =>
      simp only [derefAt, clientAt, h, Option.join_some, deref, Except.error_bind,
        Except.sat_error]
      rintro _ ⟨ref, hr⟩
      simp [h] at hr
    | some ref =>
      rw [derefAt_eq h]
      exact ⟨rfl, rfl⟩

/-- `clients[fd]`, dereferenced later. -/
theorem sat_deref_of_clientAt {b b' : Broker} {fd : Fd} {pClient : Option ClientRef}
    (h : b.clientAt fd = (b', pClient)) :
    (deref pClient).Sat (fun ref => b' = b ∧ b.clients.lookup fd = some (some ref))
      (FaultAt b fd) := by
  have hat := sat_derefAt b fd
  simp only [derefAt, h] at hat
  cases hc : deref pClient with
  | ok ref =>
    simp only [hc, Except.ok_bind, Except.pure_eq_ok, Except.sat_ok] at hat
    exact hat
  | error e =>
    simp only [hc, Except.error_bind, Except.sat_error] at hat
    exact hat

/-! ## Sending -/

/-- `sendTopic` queues one packet or keeps it. -/
theorem does_sendTopic (b : Broker) (fd : Fd) (pClient : ClientRef) (topic : MqttTopic)
    (fd' : Fd) : (b.sendTopic fd pClient topic).Sat (Does Sends b) (FaultAt b fd') := by
  -- the three branches differ in where the packet goes
  have hsend : ∀ dup (send : Bytes → Broker) (call : Bytes → Call),
      (∀ data, Does Sends b (send data)) → (∀ data, Sends (.record (call data))) →
      (do
        let data ← createPublish topic dup
        return (send data).record (call data) : Exec Broker).Sat (Does Sends b) (FaultAt b fd') := by
    intro dup send call hq hc
    apply NeverNull.sat_bind (by simp) faultAt_of_ne
    intro data _
    exact (hq data).trans (.record _ (hc data))
  unfold sendTopic
  dsimp only
  split
  · split
    · exact hsend _ _ _ (fun _ => .addCommand _ _ trivial) fun _ => trivial
    · -- a packet is kept only behind another one
      rename_i hmore
      have hen : ∀ packet, (Op.addQosEvent (b.heap pClient).client_id packet).Enabled b :=
        fun _ => by simpa [Op.Enabled] using hmore
      exact hsend _ _ _ (fun _ => .one (.addQosEvent _ _) trivial (hen _)) fun _ => trivial
  · exact hsend _ _ _ (fun _ => .addCommand _ _ trivial) fun _ => trivial

/-- `assignPacketID` takes at most the next id of the client. -/
theorem does_assignPacketID (b : Broker) (pClient : ClientRef) (topic : MqttTopic) :
    Does Sends b (b.assignPacketID pClient topic).1 := by
  unfold assignPacketID
  split
  · exact .refl
  · exact .one (.genPacketID pClient) trivial trivial

/-- `notifySubscriber` does nothing but sending. -/
theorem does_notifySubscriber (b : Broker) (topic : MqttTopic) (fd : Fd) (pClient : ClientRef)
    (fd' : Fd) :
    (b.notifySubscriber topic fd pClient).Sat (fun r => Does Sends b r.1) (FaultAt b fd') := by
  unfold notifySubscriber
  split
  · exact .refl
  · apply NeverNull.sat_bind (by simp) faultAt_of_ne
    rintro ⟨found, options⟩ _
    dsimp only
    split
    · have hassign := does_assignPacketID b pClient (topic.setQos (options &&& 0x03))
      exact (hassign.sat (does_sendTopic _ fd pClient _ fd')).bind fun b' hb' => hb'
    · exact .refl

/-- The loop over the subscribers does nothing but sending. -/
theorem does_notifySubscribers (subs : List (Fd × ClientRef)) (fd : Fd) :
    ∀ (b : Broker) (topic : MqttTopic),
      (notifySubscribers topic subs b).Sat (fun r => Does Sends b r.1) (FaultAt b fd) := by
  induction subs with
  | nil => exact fun b _ => .refl
  | cons it rest ih =>
    intro b topic
    rw [notifySubscribers]
    apply (does_notifySubscriber b topic it.1 it.2 fd).bind
    rintro ⟨b', topic'⟩ hb'
    exact hb'.sat (ih b' topic')

/-- `NotifyClients` outside of a handshake. -/
theorem does_notifyClients {A : Op → Prop} (b : Broker) (topic : MqttTopic) (fd : Fd)
    (hsends : ∀ op, Sends op → A op) (hrecord : A (.record (.notifyClients none topic))) :
    (b.notifyClients topic none).Sat (fun r => Does A b r.1) (FaultAt b fd) := by
  have hcall : Does A b (b.record (.notifyClients none topic)) := .record _ hrecord
  apply hcall.sat
  exact (does_notifySubscribers _ fd _ topic).mono (fun _ h => h.mono hsends) fun _ he => he

/-- `sendWill` sends the will and writes its QoS and its id. -/
theorem does_sendWill (b : Broker) (pClient : ClientRef) (fd : Fd) :
    (b.sendWill pClient).Sat (Does (SendsWill pClient) b) (FaultAt b fd) := by
  unfold sendWill notifyWill
  split
  · apply (does_notifyClients (A := SendsWill pClient) b _ fd (fun op h => ?_) trivial).bind
    · rintro ⟨b', topic⟩ hb'
      exact hb'.snoc (.setWillTopic pClient topic) rfl trivial
    · unfold SendsWill
      split
      · exact h.elim
      · trivial
      · exact h
  · exact .refl

/-- `NotifyClient` does nothing but sending. -/
theorem does_notifyClient (b : Broker) (fd : Fd) (topic : MqttTopic) :
    (b.notifyClient fd topic).Sat (Does Sends b) (FaultAt b fd) := by
  unfold notifyClient
  apply (sat_derefAt b fd).bind
  rintro ⟨b', pClient⟩ ⟨rfl, _⟩
  exact (does_assignPacketID b' pClient topic).sat (does_sendTopic _ fd pClient _ fd)

/-- The retained messages of a filter are sent. -/
theorem does_sendRetained (fd : Fd) (options : UInt8) (topics : List MqttTopic) :
    ∀ b, (sendRetained fd options topics b).Sat (Does Sends b) (FaultAt b fd) := by
  induction topics with
  | nil => exact fun b => .refl
  | cons it rest ih =>
    intro b
    rw [sendRetained]
    apply (does_notifyClient b fd (it.setQos options)).bind
    intro b' hb'
    exact hb'.sat (ih b')

/-- The retained messages of all filters are sent. -/
theorem does_sendAllRetained (fd : Fd) (tpcs : List (Bytes × UInt8)) :
    ∀ b, (sendAllRetained fd tpcs b).Sat (Does Sends b) (FaultAt b fd) := by
  induction tpcs with
  | nil => exact fun b => .refl
  | cons it rest ih =>
    intro b
    rw [sendAllRetained]
    apply NeverNull.sat_bind (by simp) faultAt_of_ne
    intro retain_topics _
    apply (does_sendRetained fd it.2 retain_topics.toList b).bind
    intro b' hb'
    exact hb'.sat (ih b')

/-- `sendKeptMessage` queues at most one packet. -/
theorem does_sendKeptMessage {A : Op → Prop} (b : Broker) (fd : Fd) (client_id : Bytes) (fd' : Fd)
    (hsend : ∀ fd cmd, A (.addCommand fd cmd)) :
    (b.sendKeptMessage fd client_id).Sat (Does A b) (FaultAt b fd') := by
  have hpacket : NeverNull (b.getPacket client_id) := by
    unfold getPacket
    split <;> simp
  unfold sendKeptMessage
  split
  · apply NeverNull.sat_bind hpacket faultAt_of_ne
    intro data _
    split
    · exact .addCommand _ _ (hsend _ _)
    · exact .refl
  · exact .refl

end Mqtt.Spec
