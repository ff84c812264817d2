import MqttBroker.Spec.Frame

/-!
# What the handlers leave alone

Seven of the ten packet handlers are quiet. PUBLISH with QoS 2 stores a topic and
PUBREL releases one; nothing else touches the stored topics.
-/

namespace Mqtt.Spec

open Mqtt.Native Mqtt.Native.Broker

/-- The handler of a packet does operations from a set that depends on the client of
    the socket and on its id. -/
def DoesAt (A : ClientRef → Bytes → Op → Prop) (fd : Fd) (b b' : Broker) : Prop :=
  ∃ pClient, b.clients.lookup fd = some (some pClient) ∧
    Does (A pClient (b.heap pClient).client_id) b b'

/-- A handler of quiet operations is quiet. -/
theorem DoesAt.quiet {A : ClientRef → Bytes → Op → Prop} {fd : Fd} {b b' : Broker}
    (h : DoesAt A fd b b') (hA : ∀ pClient client_id op, A pClient client_id op → IsQuiet op) :
    Quiet b b' := by
  obtain ⟨pClient, -, hdoes⟩ := h
  exact hdoes.quiet (hA _ _)

/-! ## Quiet handlers -/

/-- `pingHandler` answers. -/
theorem does_pingHandler (b : Broker) (fd : Fd) :
    (b.pingHandler fd).Sat (fun r => DoesAt Answers fd b r.1) (FaultAt b fd) := by
  unfold pingHandler
  apply (sat_derefAt b fd).bind
  rintro ⟨b', pClient⟩ ⟨rfl, hclient⟩
  apply NeverNull.sat_bind (by simp) faultAt_of_ne
  intro answer _
  exact ⟨pClient, hclient, .addCommand _ _ trivial⟩

/-- `disconnectHandler` changes nothing. -/
theorem does_disconnectHandler (b : Broker) (fh : FixedHeader) (data : Bytes) (fd : Fd) :
    (b.disconnectHandler fh data fd).Sat (fun r => DoesAt Answers fd b r.1) (FaultAt b fd) := by
  unfold disconnectHandler
  apply (sat_derefAt b fd).bind
  rintro ⟨b', pClient⟩ ⟨rfl, hclient⟩
  dsimp only
  split
  · apply NeverNull.sat_bind (by simp) faultAt_of_ne
    exact fun _ _ => ⟨pClient, hclient, .refl⟩
  · exact ⟨pClient, hclient, .refl⟩

/-- A subscription of a client has a name that an UNSUBSCRIBE lists. -/
def DropsSubscription (b : Broker) (pClient : ClientRef) (fh : FixedHeader) (data : Bytes) : Prop :=
  ∃ packet_id offset topics, UnsubscribeVH.readFromBuf data = .ok (packet_id, offset) ∧
    unsubscribeLoop fh.remaining_len data (data.length + 1) offset [] = .ok topics ∧
    ∃ topic_name ∈ topics, ((b.heap pClient).subscribed_topics.lookup topic_name).isSome

/-- Deleting subscriptions changes those of one client, and only if it has one of the names. -/
theorem does_delSubscriptions {found : Prop} (pClient : ClientRef) (topics : List Bytes) :
    ∀ b reason_codes, (∀ topic_name ∈ topics,
        ((b.heap pClient).subscribed_topics.lookup topic_name).isSome → found) →
      Does (Unsubscribes found pClient) b (delSubscriptions pClient topics b reason_codes).1 := by
  -- Induction on the names: each is taken out, or was not there
  induction topics with
  | nil => exact fun b _ _ => .refl
  | cons it rest ih =>
    intro b reason_codes hfound
    have hset : Does (Unsubscribes found pClient) b
        (b.setClient pClient ((b.heap pClient).delSubscription it).1) := by
      by_cases hit : ((b.heap pClient).subscribed_topics.lookup it).isSome
      · exact .one (.setSubscriptions pClient _) ⟨rfl, hfound it (.head _) hit⟩ trivial
      · -- a name that is not there changes nothing
        have hmem : it ∉ (b.heap pClient).subscribed_topics.keys := fun hkey =>
          hit (AList.lookup_isSome.mpr hkey)
        have herase : (b.heap pClient).subscribed_topics.erase it =
            (b.heap pClient).subscribed_topics := AList.ext (List.kerase_of_notMem_keys hmem)
        rw [Client.delSubscription, herase, setClient, Function.update_eq_self]
        exact .refl
    refine hset.trans (ih _ _ fun topic_name hmem hsome => hfound topic_name (.tail _ hmem) ?_)
    rw [heap_setClient_self, Client.delSubscription] at hsome
    by_cases hname : topic_name = it
    · rw [hname, AList.lookup_erase] at hsome
      simp at hsome
    · rwa [AList.lookup_erase_ne hname] at hsome

/-- `unsubscribeHandler` deletes subscriptions of its client and answers. -/
theorem does_unsubscribeHandler (b : Broker) (fh : FixedHeader) (data : Bytes) (fd : Fd) :
    (b.unsubscribeHandler fh data fd).Sat
      (fun r => DoesAt (fun pClient _ => Unsubscribes (DropsSubscription b pClient fh data) pClient)
        fd b r.1) (FaultAt b fd) := by
  -- reading the names touches no client
  have hloop : ∀ fuel offset topics,
      NeverNull (unsubscribeLoop fh.remaining_len data fuel offset topics) := by
    intro fuel
    induction fuel with
    | zero => simp [unsubscribeLoop]
    | succ fuel ih => intros; simp [unsubscribeLoop, ih]
  unfold unsubscribeHandler
  apply (sat_derefAt b fd).bind
  rintro ⟨b', pClient⟩ ⟨rfl, hclient⟩
  apply NeverNull.sat_bind (neverNull_readIdAndProperties data) faultAt_of_ne
  rintro ⟨packet_id, offset⟩ hread
  apply NeverNull.sat_bind (hloop _ _ _) faultAt_of_ne
  intro topics htopics
  apply NeverNull.sat_bind (by simp) faultAt_of_ne
  intro answer _
  refine ⟨pClient, hclient, (does_delSubscriptions pClient topics b' [] ?_).trans
    (.addCommand _ _ trivial)⟩
  exact fun topic_name hmem hsome => ⟨packet_id, offset, topics, hread, htopics, topic_name, hmem,
    hsome⟩

/-- What `MqttUnsubscribePacketHandler::HandlePacket` has done when it returns. -/
theorem unsubscribeHandler_eq_ok {b b' : Broker} {fh : FixedHeader} {data : Bytes} {fd : Fd}
    {err : MqttErr} (h : b.unsubscribeHandler fh data fd = .ok (b', err)) :
    ∃ pClient packet_id offset topics answer, b.clients.lookup fd = some (some pClient) ∧
      UnsubscribeVH.readFromBuf data = .ok (packet_id, offset) ∧
      unsubscribeLoop fh.remaining_len data (data.length + 1) offset [] = .ok topics ∧
      b' = (delSubscriptions pClient topics b []).1.addCommand fd answer ∧ err = .ok := by
  obtain ⟨⟨b₀, pClient⟩, hat, h⟩ := Except.bind_eq_ok_iff.mp h
  obtain ⟨⟨packet_id, offset⟩, hread, h⟩ := Except.bind_eq_ok_iff.mp h
  obtain ⟨topics, hloop, h⟩ := Except.bind_eq_ok_iff.mp h
  obtain ⟨answer, -, h⟩ := Except.bind_eq_ok_iff.mp h
  obtain ⟨rfl, rfl⟩ := Prod.mk.inj (Except.ok.inj h)
  obtain ⟨rfl, hclient⟩ := (sat_derefAt b fd).of_eq_ok hat
  exact ⟨pClient, packet_id, offset, topics, answer, hclient, hread, hloop, rfl, rfl⟩

/-- The loop of `HandleMqttSubscribe` adds subscriptions of one client. -/
theorem does_subscribeLoop (remaining_len : Nat) (buf : Bytes) (pClient : ClientRef) (fd : Fd)
    (fuel : Nat) : ∀ b offset reason_codes topics,
      (subscribeLoop remaining_len buf pClient fuel b offset reason_codes topics).Sat
        (fun r => Does (Subscribes fd pClient) b r.1) (FaultAt b fd) := by
  -- Induction on the fuel: a round reads a name and its options and adds them
  induction fuel with
  | zero => exact fun _ _ _ _ => faultAt_of_ne _ nofun
  | succ fuel ih =>
    intro b offset reason_codes topics
    rw [subscribeLoop]
    split
    · apply NeverNull.sat_bind (by simp) faultAt_of_ne
      rintro ⟨topic_name, offset⟩ _
      apply NeverNull.sat_bind (by simp) faultAt_of_ne
      intro options _
      have hset : Does (Subscribes fd pClient) b (b.setClient pClient
          ((b.heap pClient).addSubscription topic_name options)) :=
        .one (.setSubscriptions pClient _) rfl trivial
      exact hset.sat (ih _ _ _ _)
    · -- the body is at its end
      exact .refl

/-- The retained messages are part of subscribing. -/
theorem subscribes_of_sends {fd : Fd} {pClient : ClientRef} {op : Op} (h : Sends op) :
    Subscribes fd pClient op := by
  unfold Subscribes
  split
  · exact h.elim
  · exact h.elim
  · exact h

/-- What `MqttSubscribePacketHandler::HandlePacket` has done when it returns. -/
theorem subscribeHandler_eq_ok {b b' : Broker} {fh : FixedHeader} {data : Bytes} {fd : Fd}
    {err : MqttErr} (h : b.subscribeHandler fh data fd = .ok (b', err)) :
    ∃ pClient packet_id offset b₁ reason_codes tpcs answer b₂,
      b.clients.lookup fd = some (some pClient) ∧ SubscribeVH.ofBuf data = .ok (packet_id, offset) ∧
      subscribeLoop fh.remaining_len data pClient (data.length + 1) b offset [] [] =
        .ok (b₁, reason_codes, tpcs) ∧
      sendAllRetained fd tpcs (b₁.addCommand fd answer) = .ok b₂ ∧
      b' = b₂.addSubscribedClient fd pClient ∧ err = .ok := by
  unfold subscribeHandler at h
  rcases hat : b.clientAt fd with ⟨b₀, pClient⟩
  rw [hat] at h
  -- each part of the handler has succeeded, in the order of the source
  obtain ⟨⟨packet_id, offset⟩, hread, h⟩ := Except.bind_eq_ok_iff.mp h
  obtain ⟨pClient, hderef, h⟩ := Except.bind_eq_ok_iff.mp h
  obtain ⟨⟨b₁, reason_codes, tpcs⟩, hloop, h⟩ := Except.bind_eq_ok_iff.mp h
  obtain ⟨answer, -, h⟩ := Except.bind_eq_ok_iff.mp h
  obtain ⟨b₂, hsend, h⟩ := Except.bind_eq_ok_iff.mp h
  obtain ⟨rfl, rfl⟩ := Prod.mk.inj (Except.ok.inj h)
  obtain ⟨rfl, hclient⟩ := (sat_deref_of_clientAt hat).of_eq_ok hderef
  exact ⟨pClient, packet_id, offset, b₁, reason_codes, tpcs, answer, b₂, hclient, hread, hloop,
    hsend, rfl, rfl⟩

/-- `subscribeHandler` adds subscriptions, answers, sends retained messages and enters the
    client into `subscribed_clients`. -/
theorem does_subscribeHandler (b : Broker) (fh : FixedHeader) (data : Bytes) (fd : Fd) :
    (b.subscribeHandler fh data fd).Sat
      (fun r => DoesAt (fun pClient _ => Subscribes fd pClient) fd b r.1) (FaultAt b fd) := by
  unfold subscribeHandler
  rcases hat : b.clientAt fd with ⟨b', pClient⟩
  apply NeverNull.sat_bind (neverNull_readIdAndProperties data) faultAt_of_ne
  rintro ⟨packet_id, offset⟩ _
  apply (sat_deref_of_clientAt hat).bind
  rintro pClient ⟨rfl, hclient⟩
  apply (does_subscribeLoop _ _ _ fd _ b' _ _ _).bind
  rintro ⟨b₁, reason_codes, tpcs⟩ hb₁
  apply NeverNull.sat_bind (by simp) faultAt_of_ne
  intro answer _
  have hb₂ : Does (Subscribes fd pClient) b' (b₁.addCommand fd answer) :=
    hb₁.trans (.addCommand fd answer trivial)
  have hsend := (does_sendAllRetained fd tpcs (b₁.addCommand fd answer)).mono
    (fun _ h => h.mono (B := Subscribes fd pClient) fun _ => subscribes_of_sends) fun _ he => he
  -- what the loop, the answer and the retained messages did is put together
  apply (hb₂.sat hsend).bind
  intro b₃ hb₃
  exact ⟨pClient, hclient, hb₃.snoc (.addSubscribedClient fd pClient) ⟨rfl, rfl⟩ trivial⟩

/-- `pubackHandler` takes a kept packet away and sends the next one. -/
theorem does_pubackHandler (b : Broker) (data : Bytes) (fd : Fd) :
    (b.pubackHandler data fd).Sat (fun r => DoesAt Answers fd b r.1) (FaultAt b fd) := by
  unfold pubackHandler
  rcases hat : b.clientAt fd with ⟨b', pClient⟩
  apply NeverNull.sat_bind (by simp) faultAt_of_ne
  intro packet_id _
  apply (sat_deref_of_clientAt hat).bind
  rintro pClient ⟨rfl, hclient⟩
  -- the acknowledged message is deleted, then the next kept one is sent
  have hdel : Does (Answers pClient (b'.heap pClient).client_id) b'
      (b'.delQosEvent (b'.heap pClient).client_id packet_id) :=
    .one (.delQosEvent _ _) rfl trivial
  have hrecord := hdel.trans (.record (.acknowledged pClient .PUBACK packet_id) rfl)
  apply (hrecord.sat (does_sendKeptMessage _ fd _ fd fun _ _ => trivial)).bind
  exact fun b₁ hb₁ => ⟨pClient, hclient, hb₁⟩

/-- `pubrecHandler` takes a kept packet away and answers. -/
theorem does_pubrecHandler (b : Broker) (data : Bytes) (fd : Fd) :
    (b.pubrecHandler data fd).Sat (fun r => DoesAt Answers fd b r.1) (FaultAt b fd) := by
  unfold pubrecHandler
  apply NeverNull.sat_bind (by simp) faultAt_of_ne
  intro packet_id _
  apply (sat_derefAt b fd).bind
  rintro ⟨b', pClient⟩ ⟨rfl, hclient⟩
  apply NeverNull.sat_bind (by simp) faultAt_of_ne
  intro answer _
  -- the message is deleted from the kept ones, then PUBREL is queued
  have hdel : Does (Answers pClient (b'.heap pClient).client_id) b'
      (b'.delQosEvent (b'.heap pClient).client_id packet_id) :=
    .one (.delQosEvent _ _) rfl trivial
  have hrecord := hdel.trans (.record (.acknowledged pClient .PUBREC packet_id) rfl)
  exact ⟨pClient, hclient, hrecord.trans (.addCommand _ _ trivial)⟩

/-- `pubcompHandler` takes a kept packet away and sends the next one. -/
theorem does_pubcompHandler (b : Broker) (data : Bytes) (fd : Fd) :
    (b.pubcompHandler data fd).Sat (fun r => DoesAt Answers fd b r.1) (FaultAt b fd) := by
  unfold pubcompHandler
  apply NeverNull.sat_bind (by simp) faultAt_of_ne
  intro _ _
  apply (sat_derefAt b fd).bind
  rintro ⟨b', pClient⟩ ⟨rfl, hclient⟩
  apply (does_sendKeptMessage (A := Answers pClient (b'.heap pClient).client_id) b' fd _ fd
    fun _ _ => trivial).bind
  exact fun b₁ hb₁ => ⟨pClient, hclient, hb₁⟩

/-! ## PUBLISH and PUBREL -/

/-- A topic is stored for a client. -/
structure Receives (b b' : Broker) (client_id : Bytes) (topic : MqttTopic) : Prop where
  topics : stored b' = Function.update (stored b) client_id (topic :: stored b client_id)
  history : history b' = history b ++ [.received (client_id, topic.id) topic]

/-- The first topic stored for a client with a packet id is released, if there is
    one. -/
structure Releases (b b' : Broker) (client_id : Bytes) (packet_id : UInt16) : Prop where
  topics : stored b' = Function.update (stored b) client_id
    ((stored b client_id).eraseP fun topic => topic.id = packet_id)
  history : history b' = history b ++ .release (client_id, packet_id) ::
    (((stored b client_id).find? fun topic => topic.id = packet_id).map
      (.delivered (client_id, packet_id))).toList

/-- `AddQoSTopic` puts the message in front of those held for the client. -/
theorem stored_addQoSTopic (b : Broker) (client_id : Bytes) (topic : MqttTopic) :
    stored { b with storage := b.storage.addQoSTopic client_id topic } =
      Function.update (stored b) client_id (topic :: stored b client_id) := by
  funext c
  by_cases hc : c = client_id
  · subst hc
    simp [stored, TopicStorage.qosGroup, TopicStorage.addQoSTopic]
  · simp [stored, TopicStorage.qosGroup, TopicStorage.addQoSTopic, hc]

/-- `DelQoSTopic` takes the first message with the id away. -/
theorem stored_delQoSTopic (b : Broker) (client_id : Bytes) (packet_id : UInt16) :
    stored { b with storage := b.storage.delQoSTopic client_id packet_id } =
      Function.update (stored b) client_id
        ((stored b client_id).eraseP fun topic => topic.id = packet_id) := by
  funext c
  by_cases hc : c = client_id
  · subst hc
    cases hl : b.storage.qos_2_topics.lookup c <;>
      simp [stored, TopicStorage.qosGroup, TopicStorage.delQoSTopic, hl]
  · cases hl : b.storage.qos_2_topics.lookup client_id <;>
      simp [stored, TopicStorage.qosGroup, TopicStorage.delQoSTopic, hc, hl]

/-- The answer to a PUBLISH is queued or kept. -/
theorem does_answerPublish {A : Op → Prop} (b : Broker) (fh : FixedHeader) (packet_id : UInt16)
    (fd : Fd) (pClient : ClientRef) (fd' : Fd) (hsend : ∀ fd cmd, A (.addCommand fd cmd))
    (hkeep : ∀ client_id packet, A (.addQosEvent client_id packet)) :
    (b.answerPublish fh packet_id fd pClient).Sat (Does A b) (FaultAt b fd') := by
  unfold answerPublish
  dsimp only
  -- QoS 1, QoS 2, or no answer at all
  split
  · apply NeverNull.sat_bind (by simp) faultAt_of_ne
    exact fun _ _ => .addCommand _ _ (hsend _ _)
  · split
    · split
      · apply NeverNull.sat_bind (by simp) faultAt_of_ne
        exact fun _ _ => .addCommand _ _ (hsend _ _)
      · rename_i hmore
        apply NeverNull.sat_bind (by simp) faultAt_of_ne
        exact fun _ _ => .one (.addQosEvent _ _) (hkeep _ _)
          (by simpa [Op.Enabled] using hmore)
    · exact .refl

/-- What `MqttPublishPacketHandler` does to a broker. -/
structure PublishStep (fh : FixedHeader) (data : Bytes) (fd : Fd) (b b' : Broker) : Prop where
  server : SameServer b b'
  empty : StaysEmpty b b'
  inbound : SameInbound b b' ∨ ∃ pClient vh message, fh.qoS = 2 ∧
    handleMqttPublish fh data = .ok (vh, message) ∧ b.clients.lookup fd = some (some pClient) ∧
    Receives b b' (b.heap pClient).client_id
      (MqttTopic.new fh.qoS vh.packet_id vh.topic_name (some message))

/-- `publishHandler` notifies at once, or holds a QoS 2 message, and does no more than storing. -/
theorem publishHandler_step (b : Broker) (fh : FixedHeader) (data : Bytes) (fd : Fd) :
    (b.publishHandler fh data fd).Sat
      (fun r => PublishStep fh data fd b r.1 ∧ DoesAt (fun _ => Stores fh) fd b r.1)
      (FaultAt b fd) := by
  unfold publishHandler
  rcases hat : b.clientAt fd with ⟨b₀, pClient⟩
  apply NeverNull.sat_bind (by simp) faultAt_of_ne
  rintro ⟨vh, message⟩ hread
  apply (sat_deref_of_clientAt hat).bind
  rintro pClient ⟨rfl, hclient⟩
  dsimp only
  generalize hid : (b₀.heap pClient).client_id = client_id
  -- the retained topic, if there is one, is no QoS 2 topic
  generalize hb₁ : (if fh.isRETAIN then _ else b₀ : Broker) = b₁
  have hd₁ : Does (fun op => Stores fh client_id op ∧ IsQuiet op) b₀ b₁ := by
    rw [← hb₁]
    split
    · rename_i hretain
      exact .one (.storeTopicValue ..) ⟨hretain, trivial⟩ trivial
    · exact .refl
  apply (hd₁.sat (does_answerPublish b₁ fh vh.packet_id fd pClient fd
    (fun _ _ => ⟨trivial, trivial⟩) fun _ _ => ⟨trivial, trivial⟩)).bind
  intro b₂ hd₂
  split
  · -- QoS 0 and 1: the subscribers are notified
    rename_i hqos
    have hsends : ∀ op, Sends op → Stores fh client_id op ∧ IsQuiet op := by
      intro op h
      refine ⟨?_, isQuiet_of_sends h⟩
      unfold Sends at h
      split at h
      · trivial
      · exact hqos
      · trivial
      · exact hqos
      · exact h.elim
    apply (hd₂.sat (does_notifyClients b₂ _ fd hsends ⟨hqos, rfl⟩)).bind
    rintro ⟨b₃, topic⟩ hd₃
    -- all of it is quiet, so no handshake changes
    have hq₃ := hd₃.quiet fun _ => And.right
    refine ⟨⟨hq₃.server, hq₃.empty, .inl hq₃.inbound⟩, pClient, hclient, ?_⟩
    rw [hid]
    exact hd₃.mono fun _ => And.left
  · rename_i hqos
    have hq₂ := hd₂.quiet fun _ => And.right
    -- QoS 2: the message is held under the id of the client
    have hid₂ : (b₂.heap pClient).client_id = client_id := by rw [hq₂.client_id, hid]
    rw [hid₂]
    constructor
    · refine ⟨hq₂.server.trans ⟨rfl, rfl, rfl⟩, hq₂.empty,
        .inr ⟨pClient, vh, message, not_not.mp hqos, hread, hclient, ?_⟩⟩
      rw [hid]
      constructor
      · rw [← hq₂.inbound.stored]
        exact stored_addQoSTopic b₂ _ _
      · rw [history_record, ← hq₂.inbound.history]
        rfl
    · refine ⟨pClient, hclient, ?_⟩
      rw [hid]
      have hd₃ : Does (Stores fh client_id) b₀ b₂ := hd₂.mono fun _ => And.left
      have hd₄ := hd₃.snoc (.addQoSTopic client_id (MqttTopic.new fh.qoS vh.packet_id
        vh.topic_name (some message))) ⟨rfl, not_not.mp hqos⟩ trivial
      exact hd₄.snoc (.record (.received client_id _)) ⟨rfl, not_not.mp hqos⟩ trivial

/-- What `MqttPubRelPacketHandler` does to a broker. -/
structure PubrelStep (data : Bytes) (fd : Fd) (b b' : Broker) : Prop where
  server : SameServer b b'
  empty : StaysEmpty b b'
  inbound : ∃ pClient packet_id, PubackVH.readFromBuf data = .ok packet_id ∧
    b.clients.lookup fd = some (some pClient) ∧
    Releases b b' (b.heap pClient).client_id packet_id

/-- A topic is stored for a client under the packet id of a PUBREL. -/
def HoldsTopic (b : Broker) (client_id data : Bytes) : Prop :=
  ∃ packet_id topic, PubackVH.readFromBuf data = .ok packet_id ∧ topic ∈ stored b client_id ∧
    topic.id = packet_id

/-- What is sent for a held message is part of its release. -/
theorem freesTopic_of_sends {found : Prop} {client_id : Bytes} {op : Op} (hfound : found)
    (h : Sends op) : FreesTopic found client_id op := by
  unfold Sends at h
  split at h
  · trivial
  · exact hfound
  · exact hfound
  · exact hfound
  · exact h.elim

/-- `pubrelHandler` answers, notifies of the held message with the id, and lets it go. -/
theorem pubrelHandler_step (b : Broker) (data : Bytes) (fd : Fd) :
    (b.pubrelHandler data fd).Sat
      (fun r => PubrelStep data fd b r.1 ∧
        DoesAt (fun _ client_id => FreesTopic (HoldsTopic b client_id data) client_id) fd b r.1)
      (FaultAt b fd) := by
  unfold pubrelHandler
  rcases hat : b.clientAt fd with ⟨b₀, pClient⟩
  apply NeverNull.sat_bind (by simp) faultAt_of_ne
  intro packet_id hread
  apply (sat_deref_of_clientAt hat).bind
  rintro pClient ⟨rfl, hclient⟩
  apply NeverNull.sat_bind (by simp) faultAt_of_ne
  intro answer _
  dsimp only
  generalize hid : (b₀.heap pClient).client_id = client_id
  generalize hheld : HoldsTopic b₀ client_id data = found
  have hd₀ : Does (fun op => FreesTopic found client_id op ∧ IsQuiet op) b₀
      (b₀.addCommand fd answer) := .addCommand fd answer ⟨trivial, trivial⟩
  have hd₁ := hd₀.snoc (.delQosEvent client_id packet_id) ⟨rfl, trivial⟩ trivial
  apply (hd₁.sat (does_sendKeptMessage _ fd client_id fd fun _ _ => ⟨trivial, trivial⟩)).bind
  intro b₂ hd₂
  have hq₂ := hd₂.quiet fun _ => And.right
  have hf₂ : Does (FreesTopic found client_id) b₀ b₂ := hd₂.mono fun _ => And.left
  -- the answer and the kept message change no stored topic
  have hgroup : stored b₂ client_id = stored b₀ client_id := congrFun hq₂.inbound.stored client_id
  have hrecord : history (b₂.record (.pubrel client_id packet_id)) =
      history b₀ ++ [.release (client_id, packet_id)] := by
    rw [history_record, hq₂.inbound.history]
    rfl
  have hfind : (b₂.record (.pubrel client_id packet_id)).storage.getQoSTopic client_id packet_id =
      (stored b₀ client_id).find? fun topic => topic.id = packet_id := by
    rw [← hgroup]
    rfl
  have hf₃ := hf₂.snoc (.record (.pubrel client_id packet_id)) rfl trivial
  rw [hfind]
  split
  · -- a message is held under the id
    rename_i topic htopic
    unfold notifyClients
    have hfound : found := by
      rw [← hheld]
      exact ⟨packet_id, topic, hread, List.mem_of_find?_eq_some htopic,
        by simpa using List.find?_some htopic⟩
    have hf₄ := hf₃.snoc (.record (.notifyClients (some (client_id, packet_id)) topic))
      ⟨rfl, hfound⟩ trivial
    apply ((does_notifySubscribers _ fd _ topic).mono (fun _ h => h)
      fun e he => he.of_server hf₄.server).bind
    rintro ⟨b₃, topic'⟩ hd₃
    have hq₃ := hd₃.quiet fun _ => isQuiet_of_sends
    have hf₅ := hf₄.trans (hd₃.mono fun _ => freesTopic_of_sends hfound)
    -- the messages to the subscribers leave the ids of all clients alone
    have hid₃ : (b₃.heap pClient).client_id = client_id := by rw [hf₅.client_id_eq, hid]
    rw [hid₃]
    have hf₆ := hf₅.snoc (.delQoSTopic client_id packet_id) ⟨rfl, hfound⟩ trivial
    constructor
    · refine ⟨hf₆.server, fun he => hq₃.empty (hq₂.empty he), pClient, packet_id, hread, hclient, ?_⟩
      rw [hid]
      constructor
      · rw [stored_delQoSTopic, hq₃.inbound.stored]
        change Function.update (stored b₂) client_id ((stored b₂ client_id).eraseP _) = _
        rw [hq₂.inbound.stored]
      · -- the entry is erased by its packet id, which is the one that was looked for
        rw [htopic]
        change history b₃ = _
        rw [hq₃.inbound.history, Op.apply, history_record]
        change history (b₂.record (.pubrel client_id packet_id)) ++ _ = _
        rw [hrecord, List.append_assoc]
        rfl
    · refine ⟨pClient, hclient, ?_⟩
      dsimp only
      rw [hid, hheld]
      exact hf₆
  · -- nothing is held, and nothing is released
    rename_i hnone
    constructor
    · refine ⟨hf₃.server, hq₂.empty, pClient, packet_id, hread, hclient, ?_⟩
      rw [hid]
      constructor
      · rw [List.eraseP_of_forall_not (by simpa using hnone), Function.update_eq_self]
        exact hq₂.inbound.stored
      · rw [hrecord, hnone]
        rfl
    · refine ⟨pClient, hclient, ?_⟩
      dsimp only
      rw [hid, hheld]
      exact hf₃

end Mqtt.Spec
