import MqttBroker.Spec.HandsOut

/-!
# Which messages a packet sends on

Everything a handler does but that of CONNECT is a row of operations that send nothing
and of PUBLISH packets that are handed out. `Forwards M` says so, and that every packet
carries a message from `M`; for each handler `M` is read off its packet and the broker.
-/

namespace Mqtt.Spec

open Mqtt.Native Mqtt.Native.Broker

/-- A topic name with the data of a PUBLISH. -/
abbrev Message := Bytes × MqttBinaryDataEntity

/-- The message of a topic. -/
def IsMessage (topic : MqttTopic) (m : Message) : Prop :=
  topic.name = m.1 ∧ topic.data = some m.2

/-- An operation that neither hands a PUBLISH out nor uses a packet id up. -/
def Silent : Op → Prop
  | .genPacketID _ => False
  | .record call => isPublish call = false
  | _ => True

/-- The broker `b'` comes out of `b` by silent operations and by PUBLISH packets with
    messages from `M`, each for a client that is connected. -/
inductive Forwards (M : Message → Prop) (b : Broker) : Broker → Prop
  | refl : Forwards M b b
  | op {b' : Broker} (op : Op) : Forwards M b b' → Silent op → op.Enabled b' →
      Forwards M b (op.apply b')
  | handOut {b' : Broker} {h : HandOut} {m : Message} : Forwards M b b' → M m →
      b'.alive h.client → Carries b' m.1 m.2 h → Forwards M b (h.apply b')

namespace Forwards

variable {M N : Message → Prop} {b b' b'' : Broker}

theorem trans (h : Forwards M b b') (h' : Forwards M b' b'') : Forwards M b b'' := by
  induction h' with
  | refl => exact h
  | op op _ hop hen ih => exact ih.op op hop hen
  | handOut _ hm halive hcarries ih => exact ih.handOut hm halive hcarries

theorem mono (h : Forwards M b b') (hM : ∀ m, M m → N m) : Forwards N b b' := by
  induction h with
  | refl => exact .refl
  | op op _ hop hen ih => exact ih.op op hop hen
  | handOut _ hm halive hcarries ih => exact ih.handOut (hM _ hm) halive hcarries

/-- Silent operations forward nothing. -/
theorem of_does {A : Op → Prop} (h : Does A b b') (hA : ∀ op, A op → Silent op) :
    Forwards M b b' := by
  induction h with
  | refl => exact .refl
  | snoc op _ hop hen ih => exact ih.op op (hA op hop) hen

/-- What is handed out to clients that are alive is forwarded. -/
theorem of_handsOut {P : Broker → HandOut → Prop} (h : HandsOut P b b')
    (hP : ∀ b₁ out, P b₁ out →
      b₁.alive out.client ∧ ∃ m, M m ∧ Carries b₁ m.1 m.2 out) : Forwards M b b' := by
  induction h with
  | refl => exact .refl
  | snoc _ hout ih =>
    obtain ⟨halive, m, hm, hcarries⟩ := hP _ _ hout
    exact ih.handOut hm halive hcarries

end Forwards

/-! ## What is handed out -/

/-- A PUBLISH packet with a message. -/
def HasMessage (call : Call) (m : Message) : Prop :=
  ∃ fd ref qos id first packet_id, call = .publish fd ref qos id
    (packetBytes first (encodePublish m.1 packet_id ++ m.2.data))

/-- Of the PUBLISH packets handed out between two brokers each has a message from `M`. -/
def Delivers (M : Message → Prop) (b b' : Broker) : Prop :=
  ∃ calls, handedOut b' = handedOut b ++ calls ∧ ∀ call ∈ calls, ∃ m, M m ∧ HasMessage call m

/-- Handing out is noted behind what was handed out before. -/
theorem handedOut_apply (b : Broker) (h : HandOut) : handedOut (h.apply b) = handedOut b ++
    [.publish h.fd h.client ((FixedHeader.mk (h.packet.headD 0) 0).qoS) h.packet_id h.packet] := by
  unfold HandOut.apply HandOut.send HandOut.number
  split <;> split <;> simp [handedOut, Broker.record, addQosEvent, addCommand, setClient, isPublish]

/-- A silent operation hands nothing out. -/
theorem handedOut_silent {b : Broker} {op : Op} (h : Silent op) :
    handedOut (op.apply b) = handedOut b := by
  have hsame : Part.handedOut.Same b (op.apply b) := by
    refine Op.same ?_
    cases op with
    | genPacketID => exact h.elim
    | record call => simp [Op.Writes, show isPublish call = false from h]
    | _ => simp [Op.Writes]
  exact hsame

/-- Nothing is delivered. -/
theorem Delivers.of_eq {M : Message → Prop} {b b' : Broker} (h : handedOut b' = handedOut b) :
    Delivers M b b' := ⟨[], by simpa using h, by simp⟩

theorem Delivers.mono {M N : Message → Prop} {b b' : Broker} (h : Delivers M b b')
    (hM : ∀ m, M m → N m) : Delivers N b b' := by
  obtain ⟨calls, heq, hcalls⟩ := h
  refine ⟨calls, heq, fun call hmem => ?_⟩
  obtain ⟨m, hm, hcall⟩ := hcalls call hmem
  exact ⟨m, hM m hm, hcall⟩

theorem Delivers.trans {M : Message → Prop} {b b' b'' : Broker} (h : Delivers M b b')
    (h' : Delivers M b' b'') : Delivers M b b'' := by
  obtain ⟨calls, heq, hcalls⟩ := h
  obtain ⟨calls', heq', hcalls'⟩ := h'
  refine ⟨calls ++ calls', by rw [heq', heq, List.append_assoc], fun call hmem => ?_⟩
  obtain hmem | hmem := List.mem_append.mp hmem
  · exact hcalls call hmem
  · exact hcalls' call hmem

/-- What is forwarded is delivered. -/
theorem Forwards.delivers {M : Message → Prop} {b b' : Broker} (h : Forwards M b b') :
    Delivers M b b' := by
  induction h with
  | refl => exact .of_eq rfl
  | op op _ hop _ ih => exact ih.trans (.of_eq (handedOut_silent hop))
  | @handOut b₁ out m _ hm _ hcarries ih =>
    refine ih.trans ⟨_, handedOut_apply b₁ out, fun call hmem => ⟨m, hm, ?_⟩⟩
    rw [List.mem_singleton.mp hmem]
    exact ⟨_, _, _, _, _, _, by rw [hcarries.packet]⟩

/-! ## The notifying functions -/

/-- Handing out stores nothing. -/
theorem HandOut.apply_storage (b : Broker) (h : HandOut) : (h.apply b).storage = b.storage := by
  unfold HandOut.apply HandOut.send HandOut.number
  split <;> split <;> rfl

/-- What is sent changes nothing that is stored. -/
theorem HandsOut.storage_eq {P : Broker → HandOut → Prop} {b b' : Broker} (h : HandsOut P b b') :
    b'.storage = b.storage := by
  refine h.preserves (R := fun b₁ => b₁.storage = b.storage) (fun b₁ out heq _ => ?_) rfl
  exact (HandOut.apply_storage b₁ out).trans heq

/-- `NotifyClients` forwards the message of its topic. -/
theorem notifyClients_forwards {b b' : Broker} {topic topic' : MqttTopic}
    {released : Option (Bytes × UInt16)} (h : b.notifyClients topic released = .ok (b', topic')) :
    Forwards (IsMessage topic) b b' := by
  obtain ⟨hout, -, -⟩ := notifyClients_eq_ok h
  have hrecord : Forwards (IsMessage topic) b (b.record (.notifyClients released topic)) :=
    .op (.record _) .refl rfl trivial
  refine hrecord.trans (.of_handsOut hout fun b₁ out hnotifies => ⟨hnotifies.alive, ?_⟩)
  obtain ⟨message, hdata, hcarries⟩ := hnotifies.carries
  exact ⟨(topic.name, message), ⟨rfl, hdata⟩, hcarries⟩

/-- `NotifyClients(will_topic)`; the will topic keeps its name and its data. -/
theorem sendWill_forwards {b b' : Broker} {pClient : ClientRef} (h : b.sendWill pClient = .ok b') :
    Forwards (IsMessage (b.heap pClient).will_topic) b b' ∧ ∀ ref,
      (b'.heap ref).will_topic.name = (b.heap ref).will_topic.name ∧
      (b'.heap ref).will_topic.data = (b.heap ref).will_topic.data := by
  unfold sendWill at h
  split at h
  · obtain ⟨⟨b₁, topic⟩, hnotify, h⟩ := Except.bind_eq_ok_iff.mp h
    obtain rfl := Except.ok.inj h
    obtain ⟨hout, hname, hdata⟩ := notifyClients_eq_ok hnotify
    refine ⟨(notifyClients_forwards hnotify).op (.setWillTopic pClient topic) trivial trivial, ?_⟩
    have hwill := hout.heap_congr (f := Client.will_topic) fun _ => rfl
    intro ref
    -- the will is set to the topic that `NotifyClients` gives back, which has its name and data
    by_cases href : ref = pClient
    · rw [href, heap_setClient_self]
      exact ⟨hname, hdata⟩
    · rw [heap_setClient_ne href, hwill]
      exact ⟨rfl, rfl⟩
  · obtain rfl := Except.ok.inj h
    exact ⟨.refl, fun ref => ⟨rfl, rfl⟩⟩

/-- `NotifyClient(fd, topic)`. -/
theorem notifyClient_eq_ok {b b' : Broker} {fd : Fd} {topic : MqttTopic}
    (h : b.notifyClient fd topic = .ok b') : HandsOut (fun b₁ out => b₁.alive out.client ∧
      ∃ m, IsMessage topic m ∧ Carries b₁ m.1 m.2 out) b b' := by
  unfold notifyClient at h
  obtain ⟨⟨b₁, pClient⟩, hat, hsend⟩ := Except.bind_eq_ok_iff.mp h
  obtain ⟨rfl, hclient⟩ := (sat_derefAt b fd).of_eq_ok hat
  obtain ⟨message, out, hdata, -, rfl, -, hcarries, rfl⟩ := handOut_of_send hsend
  exact .one ⟨alive_of_lookup hclient, (topic.name, message), ⟨rfl, hdata⟩, hcarries⟩

/-- The loop forwards the messages of its topics. -/
theorem sendRetained_eq_ok {fd : Fd} {options : UInt8} (topics : List MqttTopic) :
    ∀ {b b' : Broker}, sendRetained fd options topics b = .ok b' →
      HandsOut (fun b₁ out => b₁.alive out.client ∧
        ∃ m, (∃ topic ∈ topics, IsMessage topic m) ∧ Carries b₁ m.1 m.2 out) b b' := by
  induction topics with
  | nil =>
    intro b b' h
    obtain rfl := Except.ok.inj h
    exact .refl
  | cons it rest ih =>
    intro b b' h
    rw [sendRetained] at h
    obtain ⟨b₁, hnotify, hrest⟩ := Except.bind_eq_ok_iff.mp h
    refine .trans ((notifyClient_eq_ok hnotify).mono ?_) ((ih hrest).mono ?_)
    · rintro b₂ out ⟨halive, m, hm, hcarries⟩
      exact ⟨halive, m, ⟨it, .head _, hm⟩, hcarries⟩
    · -- a message of the rest is one of all
      rintro b₂ out ⟨halive, m, ⟨topic, hmem, hm⟩, hcarries⟩
      exact ⟨halive, m, ⟨topic, .tail _ hmem, hm⟩, hcarries⟩

section matched

open TopicStorage

/-- The matching loop adds no topic but the one it looks at. -/
private theorem mem_of_matchStoredTopic {tokenized_topic_name tokenized_stored_topic : List Bytes}
    {it : MqttTopic} (levels : List Bytes) :
    ∀ {i : Nat} {matched_topics result : OrderedSet MqttTopic.name} {topic : MqttTopic},
      matchStoredTopic tokenized_topic_name tokenized_stored_topic it levels i matched_topics =
        .ok result → topic ∈ result.toList → topic = it ∨ topic ∈ matched_topics.toList := by
  -- a round inserts the topic it looks at, or nothing
  have hinsert : ∀ {p : Prop} [Decidable p] {m : OrderedSet MqttTopic.name} {topic : MqttTopic},
      topic ∈ (if p then m.insert it else m).toList → topic = it ∨ topic ∈ m.toList := by
    intro p _ m topic hmem
    split at hmem
    · exact OrderedSet.mem_insert hmem
    · exact .inr hmem
  -- Induction on the levels that are left
  induction levels with
  | nil =>
    intro i matched_topics result topic h hmem
    obtain rfl := Except.ok.inj h
    exact .inr hmem
  | cons level rest ih =>
    intro i matched_topics result topic h hmem
    rw [matchStoredTopic] at h
    dsimp only at h
    split at h
    · -- a `+` goes on with the next level, and may insert on the way
      obtain rfl | hmem := ih h hmem
      · exact .inl rfl
      · exact hinsert hmem
    · obtain ⟨stored, -, h⟩ := Except.bind_eq_ok_iff.mp h
      split at h
      · obtain rfl := Except.ok.inj h
        exact hinsert hmem
      · obtain rfl | hmem := ih h hmem
        · exact .inl rfl
        · obtain rfl | hmem := hinsert hmem
          · exact .inl rfl
          · exact hinsert hmem

/-- All matched topics are stored ones. -/
private theorem mem_of_matchStoredTopics {tokenized_topic_name : List Bytes}
    (stored : List MqttTopic) :
    ∀ {matched_topics result : OrderedSet MqttTopic.name} {topic : MqttTopic},
      matchStoredTopics tokenized_topic_name stored matched_topics = .ok result →
      topic ∈ result.toList → topic ∈ stored ∨ topic ∈ matched_topics.toList := by
  -- Induction on the stored topics; each adds itself or nothing
  induction stored with
  | nil =>
    intro matched_topics result topic h hmem
    obtain rfl := Except.ok.inj h
    exact .inr hmem
  | cons it rest ih =>
    intro matched_topics result topic h hmem
    rw [matchStoredTopics] at h
    obtain ⟨matched, hmatch, hrest⟩ := Except.bind_eq_ok_iff.mp h
    obtain hmem | hmem := ih hrest hmem
    · exact .inl (.tail _ hmem)
    · obtain rfl | hmem := mem_of_matchStoredTopic _ hmatch hmem
      · exact .inl (.head _)
      · exact .inr hmem

/-- What a filter matches is retained. -/
theorem mem_of_getMatchedTopics {storage : TopicStorage} {topic_name : Bytes}
    {matched : OrderedSet MqttTopic.name} {topic : MqttTopic}
    (h : storage.getMatchedTopics topic_name = .ok matched) (hmem : topic ∈ matched.toList) :
    topic ∈ storage.topics.toList := by
  rw [getMatchedTopics] at h
  split at h
  · obtain rfl := Except.ok.inj h
    exact hmem
  · refine (mem_of_matchStoredTopics _ h hmem).resolve_right ?_
    simp

end matched

/-- A retained message that a filter of a SUBSCRIBE matches. -/
def MatchesRetained (storage : TopicStorage) (tpcs : List (Bytes × UInt8)) (m : Message) : Prop :=
  ∃ it ∈ tpcs, ∃ matched, storage.getMatchedTopics it.1 = .ok matched ∧
    ∃ topic ∈ matched.toList, IsMessage topic m

/-- The retained messages of one filter are sent, and then those of the rest. -/
theorem sendAllRetained_cons {b b' : Broker} {fd : Fd} {it : Bytes × UInt8}
    {rest : List (Bytes × UInt8)} (h : sendAllRetained fd (it :: rest) b = .ok b') :
    ∃ matched b₁, b.storage.getMatchedTopics it.1 = .ok matched ∧
      sendRetained fd it.2 matched.toList b = .ok b₁ ∧ sendAllRetained fd rest b₁ = .ok b' := by
  rw [sendAllRetained] at h
  obtain ⟨matched, hmatched, h⟩ := Except.bind_eq_ok_iff.mp h
  obtain ⟨b₁, hsend, hrest⟩ := Except.bind_eq_ok_iff.mp h
  exact ⟨matched, b₁, hmatched, hsend, hrest⟩

/-- For all filters the messages of stored topics that match are forwarded. -/
theorem sendAllRetained_eq_ok {fd : Fd} (tpcs : List (Bytes × UInt8)) :
    ∀ {b b' : Broker}, sendAllRetained fd tpcs b = .ok b' →
      HandsOut (fun b₁ out => b₁.alive out.client ∧
        ∃ m, MatchesRetained b.storage tpcs m ∧ Carries b₁ m.1 m.2 out) b b' := by
  -- Induction on the filters; forwarding leaves the storage as it is
  induction tpcs with
  | nil =>
    intro b b' h
    obtain rfl := Except.ok.inj h
    exact .refl
  | cons it rest ih =>
    intro b b' h
    obtain ⟨matched, b₁, hmatched, hsend, hrest⟩ := sendAllRetained_cons h
    have hfirst := sendRetained_eq_ok matched.toList hsend
    have hstorage := hfirst.storage_eq
    refine .trans (hfirst.mono ?_) ((ih hrest).mono ?_)
    · rintro b₂ out ⟨halive, m, ⟨topic, hmem, hm⟩, hcarries⟩
      exact ⟨halive, m, ⟨it, .head _, matched, hmatched, topic, hmem, hm⟩, hcarries⟩
    · rintro b₂ out ⟨halive, m, ⟨it', hmem, hm⟩, hcarries⟩
      rw [hstorage] at hm
      exact ⟨halive, m, ⟨it', .tail _ hmem, hm⟩, hcarries⟩

/-! ## The handlers -/

/-- An operation that answers a packet: it sends nothing else and stores no topic. -/
def IsAnswer : Op → Prop
  | .addCommand _ _ | .addQosEvent _ _ | .delQosEvent _ _ => True
  | _ => False

/-- Answers are silent. -/
theorem silent_of_isAnswer {op : Op} (h : IsAnswer op) : Silent op := by
  cases op with
  | addCommand | addQosEvent | delQosEvent => trivial
  | _ => exact h.elim

/-- The broker after a PUBLISH has been stored, if it is to be retained. -/
def retain (b : Broker) (fh : FixedHeader) (vh : PublishVH) (message : MqttBinaryDataEntity) :
    Broker :=
  if fh.isRETAIN then
    { b with storage :=
      b.storage.storeTopicValue fh.qoS vh.packet_id vh.topic_name (some message) }
  else b

/-- Retaining a topic changes the storage only. -/
theorem retain_clients (b : Broker) (fh : FixedHeader) (vh : PublishVH)
    (message : MqttBinaryDataEntity) :
    retain b fh vh message = { b with storage := (retain b fh vh message).storage } := by
  unfold retain
  split <;> rfl

/-- The last thing a PUBLISH does: its topic is sent on, or it is stored for its client. -/
inductive PublishEnd (b : Broker) (topic : MqttTopic) (client_id : Bytes) (qos : UInt8)
    (b' : Broker) : Prop
  | sent {topic' : MqttTopic} : qos ≠ 2 → b.notifyClients topic none = .ok (b', topic') →
      PublishEnd b topic client_id qos b'
  | stored : qos = 2 →
      b' = ((Op.addQoSTopic client_id topic).apply b).record (.received client_id topic) →
      PublishEnd b topic client_id qos b'

/-- What `MqttPublishPacketHandler::HandlePacket` has done when it returns: the message is
    retained and answered, and then sent on or stored. -/
theorem publishHandler_eq_ok {b b' : Broker} {fh : FixedHeader} {data : Bytes} {fd : Fd}
    {err : MqttErr} (h : b.publishHandler fh data fd = .ok (b', err)) :
    ∃ vh message pClient b₂, handleMqttPublish fh data = .ok (vh, message) ∧
      b.clients.lookup fd = some (some pClient) ∧ Does IsAnswer (retain b fh vh message) b₂ ∧
      PublishEnd b₂ (.new fh.qoS vh.packet_id vh.topic_name (some message))
        (b.heap pClient).client_id fh.qoS b' ∧ err = .ok := by
  unfold publishHandler at h
  rcases hat : b.clientAt fd with ⟨b₀, pClient⟩
  rw [hat] at h
  obtain ⟨⟨vh, message⟩, hread, h⟩ := Except.bind_eq_ok_iff.mp h
  obtain ⟨pClient, hderef, h⟩ := Except.bind_eq_ok_iff.mp h
  obtain ⟨rfl, hclient⟩ := (sat_deref_of_clientAt hat).of_eq_ok hderef
  obtain ⟨b₂, hanswer, h⟩ := Except.bind_eq_ok_iff.mp h
  -- the answer queues acknowledgements at most
  have hd₂ : Does IsAnswer (retain b₀ fh vh message) b₂ :=
    (does_answerPublish (A := IsAnswer) _ fh vh.packet_id fd pClient fd
      (fun _ _ => trivial) fun _ _ => trivial).of_eq_ok hanswer
  refine ⟨vh, message, pClient, b₂, hread, hclient, hd₂, ?_⟩
  have hid : (b₂.heap pClient).client_id = (b₀.heap pClient).client_id := by
    rw [hd₂.client_id_eq, retain_clients]
  dsimp only at h
  split at h
  · -- the subscribers are notified at once, or the message is held
    rename_i hqos
    obtain ⟨⟨b₃, topic⟩, hnotify, h⟩ := Except.bind_eq_ok_iff.mp h
    obtain ⟨rfl, rfl⟩ := Prod.mk.inj (Except.ok.inj h)
    exact ⟨.sent hqos hnotify, rfl⟩
  · rename_i hqos
    obtain ⟨rfl, rfl⟩ := Prod.mk.inj (Except.ok.inj h)
    exact ⟨.stored (not_not.mp hqos) (by rw [hid]; rfl), rfl⟩

/-- Answers store no topic, and call nothing. -/
theorem Does.eq_of_answers {b b' : Broker} (h : Does IsAnswer b b') :
    (b'.storage, b'.calls) = (b.storage, b.calls) := by
  refine h.eq_of_forall (f := fun b => (b.storage, b.calls)) fun b op hop _ => ?_
  cases op with
  | addCommand | addQosEvent => rfl
  | delQosEvent client_id packet_id =>
    obtain ⟨_, heq⟩ := delQosEvent_eq b client_id packet_id
    rw [Op.apply, heq]
  | _ => exact hop.elim

/-- Answers store nothing. -/
theorem Does.storage_eq_of_answers {b b' : Broker} (h : Does IsAnswer b b') :
    b'.storage = b.storage := congrArg Prod.fst h.eq_of_answers

/-- Answers hand nothing out. -/
theorem Does.calls_eq_of_answers {b b' : Broker} (h : Does IsAnswer b b') : b'.calls = b.calls :=
  congrArg Prod.snd h.eq_of_answers

/-- A PUBLISH with QoS 0 or 1 is sent on; with RETAIN its message is stored. -/
theorem publishHandler_forwards {b b' : Broker} {fh : FixedHeader} {data : Bytes} {fd : Fd}
    {err : MqttErr} (h : b.publishHandler fh data fd = .ok (b', err)) :
    ∃ vh message, handleMqttPublish fh data = .ok (vh, message) ∧
      Forwards (fun m => fh.qoS ≠ 2 ∧ m = (vh.topic_name, message)) b b' ∧
      b'.storage.topics = if fh.isRETAIN then (b.storage.storeTopicValue fh.qoS vh.packet_id
        vh.topic_name (some message)).topics else b.storage.topics := by
  obtain ⟨vh, message, pClient, b₂, hread, -, hd₂, hrest, -⟩ := publishHandler_eq_ok h
  refine ⟨vh, message, hread, ?_⟩
  have htopics : b₂.storage.topics = if fh.isRETAIN then (b.storage.storeTopicValue fh.qoS
      vh.packet_id vh.topic_name (some message)).topics else b.storage.topics := by
    rw [hd₂.storage_eq_of_answers, retain]
    split <;> rfl
  -- up to the notification nothing is forwarded
  have hforwards : ∀ M, Forwards M b b₂ := by
    intro M
    refine .trans ?_ (.of_does hd₂ fun _ => silent_of_isAnswer)
    unfold retain
    split
    · exact .op (.storeTopicValue ..) .refl trivial trivial
    · exact .refl
  cases hrest with
  | sent hqos hnotify =>
    refine ⟨(hforwards _).trans ((notifyClients_forwards hnotify).mono ?_), ?_⟩
    · rintro m ⟨hname, hdata⟩
      exact ⟨hqos, Prod.ext hname.symm (Option.some.inj hdata).symm⟩
    · -- the notification stores nothing
      rw [(notifyClients_eq_ok hnotify).1.storage_eq]
      exact htopics
  | stored _ heq =>
    rw [heq]
    exact ⟨((hforwards _).op (.addQoSTopic _ _) trivial trivial).op (.record _) rfl trivial,
      htopics⟩

/-- The last thing a PUBREL does: the topic it finds in the store is sent on and erased. -/
inductive PubrelEnd (b : Broker) (client_id : Bytes) (packet_id : UInt16) (b' : Broker) : Prop
  | released {topic topic' : MqttTopic} {b₁ : Broker} :
      b.storage.getQoSTopic client_id packet_id = some topic →
      b.notifyClients topic (some (client_id, packet_id)) = .ok (b₁, topic') →
      b' = (Op.delQoSTopic client_id packet_id).apply b₁ → PubrelEnd b client_id packet_id b'
  | unknown : b.storage.getQoSTopic client_id packet_id = none → b' = b →
      PubrelEnd b client_id packet_id b'

/-- What `MqttPubRelPacketHandler::HandlePacket` has done when it returns. -/
theorem pubrelHandler_eq_ok {b b' : Broker} {data : Bytes} {fd : Fd} {err : MqttErr}
    (h : b.pubrelHandler data fd = .ok (b', err)) :
    ∃ pClient packet_id b₂, b.clients.lookup fd = some (some pClient) ∧
      PubackVH.readFromBuf data = .ok packet_id ∧ Does IsAnswer b b₂ ∧
      PubrelEnd (b₂.record (.pubrel (b.heap pClient).client_id packet_id))
        (b.heap pClient).client_id packet_id b' ∧ err = .ok := by
  unfold pubrelHandler at h
  rcases hat : b.clientAt fd with ⟨b₀, pClient⟩
  rw [hat] at h
  obtain ⟨packet_id, hread, h⟩ := Except.bind_eq_ok_iff.mp h
  obtain ⟨pClient, hderef, h⟩ := Except.bind_eq_ok_iff.mp h
  obtain ⟨rfl, hclient⟩ := (sat_deref_of_clientAt hat).of_eq_ok hderef
  obtain ⟨answer, -, h⟩ := Except.bind_eq_ok_iff.mp h
  dsimp only at h
  obtain ⟨b₂, hkept, h⟩ := Except.bind_eq_ok_iff.mp h
  have hd₀ : Does IsAnswer b₀ (b₀.addCommand fd answer) := .addCommand fd answer trivial
  have hd₂ := (hd₀.snoc (.delQosEvent (b₀.heap pClient).client_id packet_id) trivial trivial).trans
    ((does_sendKeptMessage (A := IsAnswer) _ fd _ fd fun _ _ => trivial).of_eq_ok hkept)
  refine ⟨pClient, packet_id, b₂, hclient, hread, hd₂, ?_⟩
  split at h
  · -- a message is held under the id
    rename_i topic htopic
    obtain ⟨⟨b₃, topic'⟩, hnotify, h⟩ := Except.bind_eq_ok_iff.mp h
    obtain ⟨rfl, rfl⟩ := Prod.mk.inj (Except.ok.inj h)
    -- the client id is looked up again, and has not changed since
    have hid : (b₃.heap pClient).client_id = (b₀.heap pClient).client_id :=
      ((notifyClients_eq_ok hnotify).1.heap_congr (f := Client.client_id) (fun _ => rfl) pClient).trans
        (hd₂.client_id_eq pClient)
    exact ⟨.released htopic hnotify (by rw [hid]; rfl), rfl⟩
  · rename_i hnone
    obtain ⟨rfl, rfl⟩ := Prod.mk.inj (Except.ok.inj h)
    exact ⟨.unknown hnone rfl, rfl⟩

/-- A PUBREL sends the topic on that is stored for its client and its packet id. -/
theorem pubrelHandler_forwards {b b' : Broker} {data : Bytes} {fd : Fd} {err : MqttErr}
    (h : b.pubrelHandler data fd = .ok (b', err)) :
    ∃ pClient packet_id, b.clients.lookup fd = some (some pClient) ∧
      PubackVH.readFromBuf data = .ok packet_id ∧
      Forwards (fun m => ∃ topic ∈ stored b (b.heap pClient).client_id,
        topic.id = packet_id ∧ IsMessage topic m) b b' := by
  obtain ⟨pClient, packet_id, b₂, hclient, hread, hd₂, hrest, -⟩ := pubrelHandler_eq_ok h
  refine ⟨pClient, packet_id, hclient, hread, ?_⟩
  generalize (b.heap pClient).client_id = client_id at hrest ⊢
  have hforwards : ∀ M, Forwards M b (b₂.record (.pubrel client_id packet_id)) := fun M =>
    (Forwards.of_does hd₂ fun _ => silent_of_isAnswer).op (.record _) rfl trivial
  cases hrest with
  | @released topic topic' b₃ htopic hnotify heq =>
    -- the store is looked at as it was before the answer
    have htopic' : (stored b client_id).find? (fun topic => topic.id = packet_id) = some topic := by
      rw [← htopic, stored, ← hd₂.storage_eq_of_answers]
      rfl
    -- the released message is the one that is sent on
    have hnotified := (notifyClients_forwards hnotify).mono (N := fun m =>
      ∃ topic ∈ stored b client_id, topic.id = packet_id ∧ IsMessage topic m) fun m hm =>
        ⟨topic, List.mem_of_find?_eq_some htopic', by simpa using List.find?_some htopic', hm⟩
    rw [heq]
    exact ((hforwards _).trans hnotified).op (.delQoSTopic _ _) trivial trivial
  | unknown _ heq =>
    rw [heq]
    exact hforwards _

/-- What the loop of `HandleMqttSubscribe` does to the broker. -/
theorem subscribeLoop_eq_ok {A : Op → Prop} {remaining_len : Nat} {buf : Bytes}
    {pClient : ClientRef} (hA : ∀ topics, A (.setSubscriptions pClient topics)) (fuel : Nat) :
    ∀ {b b' : Broker} {offset : Nat} {reason_codes codes : List UInt8}
      {topics tpcs : List (Bytes × UInt8)},
      subscribeLoop remaining_len buf pClient fuel b offset reason_codes topics =
        .ok (b', codes, tpcs) → Does A b b' := by
  -- Induction on the fuel: each round sets the table of the client
  induction fuel with
  | zero =>
    intro b b' offset reason_codes codes topics tpcs h
    cases h
  | succ fuel ih =>
    intro b b' offset reason_codes codes topics tpcs h
    rw [subscribeLoop] at h
    split at h
    · obtain ⟨⟨topic_name, offset₁⟩, -, h⟩ := Except.bind_eq_ok_iff.mp h
      obtain ⟨options, -, h⟩ := Except.bind_eq_ok_iff.mp h
      have hset : Does A b (b.setClient pClient
          ((b.heap pClient).addSubscription topic_name options)) :=
        .one (.setSubscriptions pClient _) (hA _) trivial
      exact hset.trans (ih h)
    · obtain rfl := (Prod.mk.inj (Except.ok.inj h)).1
      exact .refl

/-- The filters of a SUBSCRIBE, as its handler reads them for whatever client. -/
def Subscribing (fh : FixedHeader) (data : Bytes) (tpcs : List (Bytes × UInt8)) : Prop :=
  ∃ b pClient packet_id offset b' reason_codes, SubscribeVH.ofBuf data = .ok (packet_id, offset) ∧
    subscribeLoop fh.remaining_len data pClient (data.length + 1) b offset [] [] =
      .ok (b', reason_codes, tpcs)

/-- A SUBSCRIBE is answered with the retained messages its filters match. -/
theorem subscribeHandler_forwards {b b' : Broker} {fh : FixedHeader} {data : Bytes} {fd : Fd}
    {err : MqttErr} (h : b.subscribeHandler fh data fd = .ok (b', err)) :
    ∃ tpcs, Subscribing fh data tpcs ∧ Forwards (MatchesRetained b.storage tpcs) b b' := by
  obtain ⟨pClient, packet_id, offset, b₁, reason_codes, tpcs, answer, b₂, -, hread, hloop, hsend,
    rfl, -⟩ := subscribeHandler_eq_ok h
  have hd₁ := subscribeLoop_eq_ok (A := fun op => ∃ topics, op = .setSubscriptions pClient topics)
    (fun topics => ⟨topics, rfl⟩) _ hloop
  have hstorage : (b₁.addCommand fd answer).storage = b.storage := by
    refine hd₁.eq_of_forall (f := Broker.storage) ?_
    rintro b op ⟨topics, rfl⟩ -
    rfl
  refine ⟨tpcs, ⟨b, pClient, packet_id, offset, b₁, reason_codes, hread, hloop⟩, ?_⟩
  -- up to the retained messages nothing is forwarded
  have hforwards : Forwards (MatchesRetained b.storage tpcs) b (b₁.addCommand fd answer) := by
    refine .op (.addCommand fd answer) (.of_does hd₁ ?_) trivial trivial
    rintro op ⟨topics, rfl⟩
    trivial
  have hsent := Forwards.of_handsOut (sendAllRetained_eq_ok tpcs hsend) fun _ _ h => h
  rw [hstorage] at hsent
  exact (hforwards.trans hsent).op (.addSubscribedClient fd pClient) trivial trivial

/-! ## Any packet but CONNECT -/

/-- A message that a packet sends on. -/
inductive SendsOn (b : Broker) (fh : FixedHeader) (data : Bytes) (fd : Fd) (m : Message) : Prop
  | publish {vh : PublishVH} : fh.getType = PackType.PUBLISH.code → fh.qoS ≠ 2 →
      handleMqttPublish fh data = .ok (vh, m.2) → vh.topic_name = m.1 → SendsOn b fh data fd m
  | pubrel {pClient : ClientRef} {packet_id : UInt16} {topic : MqttTopic} :
      fh.getType = PackType.PUBREL.code → b.clients.lookup fd = some (some pClient) →
      PubackVH.readFromBuf data = .ok packet_id →
      topic ∈ stored b (b.heap pClient).client_id → topic.id = packet_id → IsMessage topic m →
      SendsOn b fh data fd m
  | subscribe {tpcs : List (Bytes × UInt8)} : fh.getType = PackType.SUBSCRIBE.code →
      Subscribing fh data tpcs → MatchesRetained b.storage tpcs m → SendsOn b fh data fd m

/-- A handler of silent operations forwards nothing. -/
theorem DoesAt.forwards {A : ClientRef → Bytes → Op → Prop} {M : Message → Prop} {fd : Fd}
    {b b' : Broker} (h : DoesAt A fd b b')
    (hA : ∀ pClient client_id op, A pClient client_id op → Silent op) : Forwards M b b' := by
  obtain ⟨pClient, -, hdoes⟩ := h
  exact .of_does hdoes (hA _ _)

/-- Answering is silent. -/
theorem silent_of_answers {pClient : ClientRef} {client_id : Bytes} {op : Op}
    (h : Answers pClient client_id op) : Silent op := by
  unfold Answers at h
  split at h
  · trivial
  · trivial
  · rfl
  · exact h.elim

/-- Unsubscribing is silent. -/
theorem silent_of_unsubscribes {found : Prop} {pClient : ClientRef} {op : Op}
    (h : Unsubscribes found pClient op) : Silent op := by
  unfold Unsubscribes at h
  split at h
  · trivial
  · trivial
  · exact h.elim

/-- A packet forwards the message it carries, the one it releases, or the retained ones it asks
    for. -/
theorem handlePacket_forwards {b b' : Broker} {fh : FixedHeader} {data : Bytes} {fd : Fd}
    {random : Bytes} {err : MqttErr} (htype : fh.getType ≠ PackType.CONNECT.code)
    (h : b.handlePacket fh data fd random = .ok (b', err)) :
    Forwards (SendsOn b fh data fd) b b' := by
  have hcase := handlePacket_cases b fh data fd random
  generalize b.handlePacket fh data fd random = x at hcase h
  -- PUBLISH, PUBREL and SUBSCRIBE send messages on, the other handlers are silent
  cases hcase with
  | publish hpublish =>
    obtain ⟨vh, message, hread, hforwards, -⟩ := publishHandler_forwards h
    refine hforwards.mono ?_
    rintro m ⟨hqos, rfl⟩
    exact .publish hpublish hqos hread rfl
  | puback =>
    exact ((does_pubackHandler b data fd).of_eq_ok h).forwards fun _ _ _ => silent_of_answers
  | pubrel hpubrel =>
    obtain ⟨pClient, packet_id, hclient, hread, hforwards⟩ := pubrelHandler_forwards h
    refine hforwards.mono ?_
    rintro m ⟨topic, hmem, hid, hm⟩
    exact .pubrel hpubrel hclient hread hmem hid hm
  | pubrec =>
    exact ((does_pubrecHandler b data fd).of_eq_ok h).forwards fun _ _ _ => silent_of_answers
  | pubcomp =>
    exact ((does_pubcompHandler b data fd).of_eq_ok h).forwards fun _ _ _ => silent_of_answers
  | ping => exact ((does_pingHandler b fd).of_eq_ok h).forwards fun _ _ _ => silent_of_answers
  | subscribe hsubscribe =>
    obtain ⟨tpcs, hread, hforwards⟩ := subscribeHandler_forwards h
    exact hforwards.mono fun m hm => .subscribe hsubscribe hread hm
  | disconnect =>
    exact ((does_disconnectHandler b fh data fd).of_eq_ok h).forwards fun _ _ _ => silent_of_answers
  | unsubscribe =>
    exact ((does_unsubscribeHandler b fh data fd).of_eq_ok h).forwards
      fun _ _ _ => silent_of_unsubscribes
  | connect hconnect => exact absurd hconnect htype
  | unknown =>
    obtain ⟨rfl, -⟩ := Prod.mk.inj (Except.ok.inj h)
    exact .refl

/-- A packet of a client leaves the retained messages alone, unless it is a PUBLISH with
    RETAIN. -/
theorem handlePacket_topics {b b' : Broker} {fh : FixedHeader} {data : Bytes} {fd : Fd}
    {random : Bytes} {err : MqttErr} (htype : fh.getType ≠ PackType.CONNECT.code)
    (h : b.handlePacket fh data fd random = .ok (b', err)) :
    b'.storage.topics = b.storage.topics ∨ (fh.getType = PackType.PUBLISH.code ∧
      ∃ vh message, handleMqttPublish fh data = .ok (vh, message) ∧ b'.storage.topics =
        (b.storage.storeTopicValue fh.qoS vh.packet_id vh.topic_name (some message)).topics) := by
  by_cases hpublish : fh.getType = PackType.PUBLISH.code
  · have hhandle : b.publishHandler fh data fd = .ok (b', err) :=
      (handlePacket_publish _ _ _ _ hpublish).symm.trans h
    obtain ⟨vh, message, hread, -, htopics⟩ := publishHandler_forwards hhandle
    -- with RETAIN the topic is stored
    split at htopics
    · exact .inr ⟨hpublish, vh, message, hread, htopics⟩
    · exact .inl htopics
  · left
    obtain rfl | ⟨pClient, -, hdoes⟩ := (handlePacket_does b fh data fd random htype).of_eq_ok h
    · rfl
    · -- no other handler stores a topic
      refine @Does.same _ _ _ .topics hdoes fun op hop => ?_
      cases hop with
      | stores htype' => exact absurd htype' hpublish
      | answers hop | unsubscribes hop | subscribes hop | freesTopic hop =>
        cases op with
        | storeTopicValue => exact hop.elim
        | _ => simp [Op.Writes]

/-- The name and the data of a will change only by a CONNECT. -/
theorem handlePacket_will_topic {b b' : Broker} {fh : FixedHeader} {data : Bytes} {fd : Fd}
    {random : Bytes} {err : MqttErr} (htype : fh.getType ≠ PackType.CONNECT.code)
    (h : b.handlePacket fh data fd random = .ok (b', err)) (ref : ClientRef) :
    (b'.heap ref).will_topic = (b.heap ref).will_topic := by
  obtain rfl | ⟨pClient, -, hdoes⟩ := (handlePacket_does b fh data fd random htype).of_eq_ok h
  · rfl
  · refine hdoes.eq_of_forall (f := fun b => (b.heap ref).will_topic) fun b op hop _ => ?_
    -- only a CONNECT and a sent will set a will
    cases op with
    | setWillTopic =>
      cases hop with
      | answers hop | unsubscribes hop | subscribes hop | stores _ hop | freesTopic hop =>
        exact hop.elim
    | genPacketID | setSubscriptions | setLastTime =>
      apply heap_setClient_congr (f := Client.will_topic)
      rfl
    | delQosEvent client_id packet_id =>
      obtain ⟨_, heq⟩ := delQosEvent_eq b client_id packet_id
      rw [Op.apply, heq]
    | _ => rfl

end Mqtt.Spec
