import MqttBroker.Spec.BeforeConnect
import MqttBroker.Spec.DeliveredQoS
import MqttBroker.Spec.Release
import MqttBroker.Spec.RetainedMatch
import MqttBroker.Spec.RetainedStore

/-!
# Retained messages that were cleared

What a SUBSCRIBE is answered with, message by message, against what was published with
RETAIN last. The storage keeps the last message of every topic name, an empty one like any
other: the handler of PUBLISH never deletes a topic.
-/

namespace Mqtt.Spec

open Mqtt.Native Mqtt.Native.Broker RequestLog

/-! ## The messages of a row of packets -/

/-- A PUBLISH for a socket and its client that carries a message. -/
def CarriesMessage (fd : Fd) (ref : ClientRef) (m : Message) (call : Call) : Prop :=
  ∃ qos packet_id first, call = .publish fd ref qos packet_id
    (packetBytes first (encodePublish m.1 packet_id ++ m.2.data))

/-- A packet carries one message only. -/
theorem CarriesMessage.unique {fd : Fd} {ref : ClientRef} {m m' : Message} {call : Call}
    (h : CarriesMessage fd ref m call) (h' : CarriesMessage fd ref m' call) : m = m' := by
  obtain ⟨qos, packet_id, first, rfl⟩ := h
  obtain ⟨qos', packet_id', first', heq⟩ := h'
  simp only [Call.publish.injEq, true_and] at heq
  obtain ⟨-, rfl, hpacket⟩ := heq
  obtain ⟨hname, hdata⟩ := encodePublish_inj (packetBytes_inj hpacket).2
  exact Prod.ext hname hdata

/-- The PUBLISH packets handed out between two brokers carry these messages, in order. -/
def HandsMessages (fd : Fd) (ref : ClientRef) (b b' : Broker) (ms : List Message) : Prop :=
  ∃ calls, handedOut b' = handedOut b ++ calls ∧ List.Forall₂ (CarriesMessage fd ref) ms calls

namespace HandsMessages

variable {fd : Fd} {ref : ClientRef} {b b' b'' : Broker} {ms ms' : List Message}

/-- Nothing is handed out. -/
theorem of_eq (h : handedOut b' = handedOut b) : HandsMessages fd ref b b' [] :=
  ⟨[], by rw [h, List.append_nil], .nil⟩

theorem trans (h : HandsMessages fd ref b b' ms) (h' : HandsMessages fd ref b' b'' ms') :
    HandsMessages fd ref b b'' (ms ++ ms') := by
  obtain ⟨calls, heq, hcalls⟩ := h
  obtain ⟨calls', heq', hcalls'⟩ := h'
  exact ⟨calls ++ calls', by rw [heq', heq, List.append_assoc], List.rel_append hcalls hcalls'⟩

/-- What is handed out determines the messages. -/
theorem unique (h : HandsMessages fd ref b b' ms) (h' : HandsMessages fd ref b b' ms') :
    ms = ms' := by
  obtain ⟨calls, heq, hcalls⟩ := h
  obtain ⟨calls', heq', hcalls'⟩ := h'
  obtain rfl := List.append_cancel_left (heq.symm.trans heq')
  clear heq heq'
  induction hcalls generalizing ms' with
  | nil =>
    cases hcalls'
    rfl
  | cons hm _ ih =>
    cases hcalls' with
    | cons hm' hrest => rw [hm.unique hm', ih hrest]

end HandsMessages

/-! ## The answer to a SUBSCRIBE -/

/-- `NotifyClient` hands the message of its topic out. -/
theorem notifyClient_hands {b b' : Broker} {fd : Fd} {ref : ClientRef} {topic : MqttTopic}
    (hclient : b.clients.lookup fd = some (some ref)) (h : b.notifyClient fd topic = .ok b') :
    ∃ m, IsMessage topic m ∧ HandsMessages fd ref b b' [m] ∧ b'.clients = b.clients := by
  rw [notifyClient, derefAt_eq hclient, Except.ok_bind] at h
  obtain ⟨message, out, hdata, hfd, href, -, hcarries, rfl⟩ := handOut_of_send h
  refine ⟨(topic.name, message), ⟨rfl, hdata⟩, ⟨_, handedOut_apply b out, ?_⟩,
    HandOut.apply_clients b out⟩
  rw [hcarries.packet, hfd, href]
  exact .cons ⟨_, _, _, rfl⟩ .nil

/-- The messages of all topics of the row are handed out. -/
theorem sendRetained_hands {fd : Fd} {ref : ClientRef} {options : UInt8} (topics : List MqttTopic) :
    ∀ {b b' : Broker}, b.clients.lookup fd = some (some ref) →
      sendRetained fd options topics b = .ok b' → ∃ ms, HandsMessages fd ref b b' ms ∧
        ∀ m, m ∈ ms ↔ ∃ topic ∈ topics, IsMessage topic m := by
  induction topics with
  | nil =>
    intro b b' _ h
    obtain rfl := Except.ok.inj h
    exact ⟨[], .of_eq rfl, by simp⟩
  | cons it rest ih =>
    intro b b' hclient h
    rw [sendRetained] at h
    obtain ⟨b₁, hnotify, hrest⟩ := Except.bind_eq_ok_iff.mp h
    obtain ⟨m, hm, hhands, hclients⟩ := notifyClient_hands hclient hnotify
    obtain ⟨ms, hhands', hmem⟩ := ih (hclients ▸ hclient) hrest
    refine ⟨m :: ms, hhands.trans hhands', fun m' => ?_⟩
    rw [List.mem_cons, hmem, List.exists_mem_cons_iff]
    -- the first message is handed out, and the rest is the hypothesis
    refine or_congr_left ⟨fun heq => heq ▸ hm, fun hit => ?_⟩
    exact Prod.ext (hit.1.symm.trans hm.1) (Option.some.inj (hit.2.symm.trans hm.2))

/-- The answer has a message for everything that is matched. -/
theorem sendAllRetained_hands {fd : Fd} {ref : ClientRef} (tpcs : List (Bytes × UInt8)) :
    ∀ {b b' : Broker}, b.clients.lookup fd = some (some ref) →
      sendAllRetained fd tpcs b = .ok b' → ∃ ms, HandsMessages fd ref b b' ms ∧
        (∀ m, m ∈ ms ↔ MatchesRetained b.storage tpcs m) ∧
        ∀ it ∈ tpcs, ∃ matched, b.storage.getMatchedTopics it.1 = .ok matched := by
  -- Induction on the filters; the clients stay the same from one to the next
  induction tpcs with
  | nil =>
    intro b b' _ h
    obtain rfl := Except.ok.inj h
    exact ⟨[], .of_eq rfl, by simp [MatchesRetained], by simp⟩
  | cons it rest ih =>
    intro b b' hclient h
    obtain ⟨matched, b₁, hmatched, hsend, hrest⟩ := sendAllRetained_cons h
    have hout := sendRetained_eq_ok matched.toList hsend
    obtain ⟨ms, hhands, hmem⟩ := sendRetained_hands matched.toList hclient hsend
    obtain ⟨ms', hhands', hmem', hall⟩ := ih (hout.clients_eq ▸ hclient) hrest
    rw [hout.storage_eq] at hmem' hall
    refine ⟨ms ++ ms', hhands.trans hhands', fun m => ?_, ?_⟩
    · rw [List.mem_append, hmem, hmem', MatchesRetained, MatchesRetained, List.exists_mem_cons_iff]
      simp [hmatched]
    · -- no filter has stopped the loop
      intro it' hit
      obtain rfl | hit := List.mem_cons.mp hit
      · exact ⟨matched, hmatched⟩
      · exact hall it' hit

/-! ## What was published with RETAIN -/

/-- The messages that were published with RETAIN, in order. -/
abbrev RetainLog := List (Request Bytes MqttBinaryDataEntity)

/-- A packet, with the messages so far. -/
def retainLog (log : RetainLog) (fh : FixedHeader) (data : Bytes) : RetainLog :=
  if fh.getType = PackType.PUBLISH.code ∧ fh.isRETAIN then
    match handleMqttPublish fh data with
    | .ok (vh, message) => log ++ [.put vh.topic_name message]
    | .error _ => log
  else log

/-- The log of what was published with RETAIN. -/
def noteRetained (s : ServerThread) (e : SystemEvent) (_ : ServerThread) (log : RetainLog) :
    RetainLog :=
  match packetAt s e with
  | some (_, _, fh, data) => retainLog log fh data
  | none => log

/-- The system with the messages that its clients have published with RETAIN. -/
def retainSystem : LTS (ServerThread × RetainLog) SystemEvent := system.observe noteRetained []

/-- Each name has the message that was published under it last. -/
def RetainsLatest (b : Broker) (log : RetainLog) : Prop :=
  ∀ name, (b.storage.findTopic name).map MqttTopic.data = (latest name log).map some

/-- Only the stored topics matter. -/
theorem RetainsLatest.congr {b b' : Broker} {log : RetainLog} (h : RetainsLatest b log)
    (htopics : b'.storage.topics = b.storage.topics) : RetainsLatest b' log := by
  intro name
  rw [TopicStorage.findTopic, htopics]
  exact h name

/-- A packet keeps the stored topics and the log in step. -/
theorem RetainsLatest.packet {b b' : Broker} {log : RetainLog} {fh : FixedHeader}
    {data random : Bytes} {fd : Fd} {err : MqttErr} (h : RetainsLatest b log)
    (htype : fh.getType ≠ PackType.CONNECT.code)
    (hpacket : b.handlePacket fh data fd random = .ok (b', err)) :
    RetainsLatest b' (retainLog log fh data) := by
  unfold retainLog
  split
  · rename_i hretain
    have hhandler : b.publishHandler fh data fd = .ok (b', err) :=
      (handlePacket_publish _ _ _ _ hretain.1).symm.trans hpacket
    obtain ⟨vh, message, hread, -, htopics⟩ := publishHandler_forwards hhandler
    rw [if_pos hretain.2] at htopics
    rw [hread]
    intro name
    -- an empty message is stored like any other
    have hfind : b'.storage.findTopic name = if vh.topic_name = name then
        some (MqttTopic.new fh.qoS vh.packet_id vh.topic_name (some message))
        else b.storage.findTopic name := by
      rw [TopicStorage.findTopic, htopics]
      exact findTopic_storeTopic b.storage (.new fh.qoS vh.packet_id vh.topic_name (some message))
        name
    show Option.map _ (b'.storage.findTopic name) = (latest name (log ++ [_])).map some
    rw [hfind, latest_concat]
    show _ = Option.map some (if vh.topic_name = name then some message else latest name log)
    split
    · rfl
    · exact h name
  · -- any other packet leaves the stored topics alone
    rename_i hnot
    have hsame : Part.topics.Same b b' := same_of_not_affects htype hpacket hnot
    exact h.congr hsame

/-- Every step keeps the stored topics the ones that were retained last. -/
theorem RetainsLatest.step {s t : ServerThread} {e : SystemEvent} {log : RetainLog}
    (h : RetainsLatest s.broker log) (hstep : system.Step s e t) :
    RetainsLatest t.broker (noteRetained s e t log) := by
  unfold noteRetained
  cases system_messages hstep with
  | none hat hsame _ =>
    rw [hat]
    exact h.congr hsame.topics
  | @connect fd ref fh data hat htype _ htopics _ _ =>
    -- a CONNECT publishes nothing
    have hpublish : ¬ (fh.getType = PackType.PUBLISH.code ∧ fh.isRETAIN) := by
      rw [htype]
      exact fun h => absurd h.1 (by decide)
    rw [hat]
    show RetainsLatest _ (retainLog log fh data)
    rw [retainLog, if_neg hpublish]
    exact h.congr htopics
  | @packet fd ref fh data random now b' err hat htype hclient hpacket hsame _ =>
    rw [hat]
    -- a PUBLISH with RETAIN is logged as the store takes it
    have htouch : RetainsLatest (touch s.broker ref now) log := h.congr rfl
    exact (htouch.packet htype hpacket).congr hsame.topics

/-- In every run the stored topic of a name is the last one published with RETAIN. -/
theorem retainsLatest_of_reachable {s : ServerThread} {log : RetainLog}
    (h : retainSystem.Reachable (s, log)) : RetainsLatest s.broker log := by
  refine h.observe_invariant (P := fun s log => RetainsLatest s.broker log) ?_ fun hinv => hinv.step
  rintro s ⟨control_sock, rfl⟩ name
  rfl

/-! ## What a SUBSCRIBE finds -/

/-- The topic names that `GetMatchedTopics` takes for a filter. -/
def TakesName (filter name : Bytes) : Prop :=
  filter = multiLevel ∨ filter = rootMultiLevel ∨ Accepts (tokenize filter) (tokenize name)

/-- A stored topic has the message that was published last. -/
theorem RetainsLatest.isMessage_iff {b : Broker} {log : RetainLog} {topic : MqttTopic} {m : Message}
    (h : RetainsLatest b log) (hmem : topic ∈ b.storage.topics.toList) (hname : topic.name = m.1) :
    IsMessage topic m ↔ latest m.1 log = some m.2 := by
  have hlatest := h topic.name
  rw [mem_topics_iff.mp hmem, Option.map_some, hname] at hlatest
  rw [IsMessage, and_iff_right hname]
  cases hlog : latest m.1 log with
  | none => simp [hlog] at hlatest
  | some message =>
    rw [hlog, Option.map_some, Option.some_inj] at hlatest
    rw [hlatest]

/-- A SUBSCRIBE is answered with the messages that were published last. -/
theorem RetainsLatest.matchesRetained_iff {b : Broker} {log : RetainLog}
    {tpcs : List (Bytes × UInt8)} {m : Message} (h : RetainsLatest b log)
    (hmatched : ∀ it ∈ tpcs, ∃ matched, b.storage.getMatchedTopics it.1 = .ok matched) :
    MatchesRetained b.storage tpcs m ↔
      (∃ it ∈ tpcs, TakesName it.1 m.1) ∧ latest m.1 log = some m.2 := by
  constructor
  · -- a topic that matches is stored, so it is the latest of its name
    rintro ⟨it, hit, matched, hok, topic, hmem, hm⟩
    have hstored := mem_of_getMatchedTopics hok hmem
    have htakes := (hasName_getMatchedTopics ⟨topic, hstored, hm.1⟩ hok).mp ⟨topic, hmem, hm.1⟩
    exact ⟨⟨it, hit, htakes⟩, (h.isMessage_iff hstored hm.1).mp hm⟩
  · rintro ⟨⟨it, hit, htakes⟩, hlatest⟩
    obtain ⟨matched, hok⟩ := hmatched it hit
    -- the name is stored, so the filter finds a topic with it
    have hname : HasName b.storage.topics m.1 := by
      have hfind := h m.1
      rw [hlatest, Option.map_some] at hfind
      obtain ⟨topic, htopic, -⟩ := Option.map_eq_some_iff.mp hfind
      exact ⟨topic, findTopic_eq_some_iff.mp htopic⟩
    obtain ⟨topic, hmem, hname'⟩ := (hasName_getMatchedTopics hname hok).mpr htakes
    have hstored := mem_of_getMatchedTopics hok hmem
    exact ⟨it, hit, matched, hok, topic, hmem, (h.isMessage_iff hstored hname').mpr hlatest⟩

/-- What is read from a SUBSCRIBE does not depend on the client. -/
theorem Subscribing.unique {fh : FixedHeader} {data : Bytes} {tpcs tpcs' : List (Bytes × UInt8)}
    (h : Subscribing fh data tpcs) (h' : Subscribing fh data tpcs') : tpcs = tpcs' := by
  obtain ⟨b, pClient, packet_id, offset, b₁, reason_codes, hread, hloop⟩ := h
  obtain ⟨b', pClient', packet_id', offset', b₁', reason_codes', hread', hloop'⟩ := h'
  obtain ⟨-, rfl⟩ := Prod.mk.inj (Except.ok.inj (hread.symm.trans hread'))
  -- the records are read apart from the table they are added to
  rw [subscribeLoop_eq_map, subscribeRecords_eq] at hloop hloop'
  obtain ⟨_, hrecords, hresult⟩ := Except.map_eq_ok_iff.mp hloop
  obtain ⟨r, hall, rfl⟩ := Except.map_eq_ok_iff.mp hrecords
  obtain ⟨_, hrecords', hresult'⟩ := Except.map_eq_ok_iff.mp hloop'
  obtain ⟨r', hall', rfl⟩ := Except.map_eq_ok_iff.mp hrecords'
  obtain rfl := Except.ok.inj (hall.symm.trans hall')
  exact (Prod.mk.inj (Prod.mk.inj hresult).2).2.symm.trans (Prod.mk.inj (Prod.mk.inj hresult').2).2

/-- A SUBSCRIBE hands out exactly the topics that its filters take and whose latest message
    with RETAIN was not empty, each with that message. -/
def AnswersCleared (fd : Fd) (ref : ClientRef) (tpcs : List (Bytes × UInt8)) (log : RetainLog)
    (b b' : Broker) : Prop :=
  ∃ ms, HandsMessages fd ref b b' ms ∧ ∀ m : Message, m ∈ ms ↔
    (∃ it ∈ tpcs, TakesName it.1 m.1) ∧ latest m.1 log = some m.2 ∧ m.2.data ≠ []

/-- No filter takes a topic whose latest message with RETAIN was empty. -/
def TakesNoEmpty (tpcs : List (Bytes × UInt8)) (log : RetainLog) : Prop :=
  ∀ m : Message, (∃ it ∈ tpcs, TakesName it.1 m.1) → latest m.1 log = some m.2 → m.2.data ≠ []

/-- A SUBSCRIBE is sent the last messages of the topics that its filters take. -/
theorem subscribeHandler_hands {b b' : Broker} {fh : FixedHeader} {data : Bytes} {fd : Fd}
    {ref : ClientRef} {err : MqttErr} {tpcs : List (Bytes × UInt8)} {log : RetainLog}
    (hclient : b.clients.lookup fd = some (some ref)) (hlog : RetainsLatest b log)
    (hread : Subscribing fh data tpcs) (h : b.subscribeHandler fh data fd = .ok (b', err)) :
    ∃ ms, HandsMessages fd ref b b' ms ∧ ∀ m : Message, m ∈ ms ↔
      (∃ it ∈ tpcs, TakesName it.1 m.1) ∧ latest m.1 log = some m.2 := by
  obtain ⟨pClient, packet_id, offset, b₁, reason_codes, tpcs', answer, b₂, hclient', hvh, hloop,
    hsend, rfl, -⟩ := subscribeHandler_eq_ok h
  obtain rfl := Option.some.inj (Option.some.inj (hclient'.symm.trans hclient))
  obtain rfl := hread.unique ⟨b, pClient, packet_id, offset, b₁, reason_codes, hvh, hloop⟩
  -- up to the retained messages only the table of the client has changed
  have hd : Does (fun op => ∃ topics, op = .setSubscriptions pClient topics) b b₁ :=
    subscribeLoop_eq_ok (fun topics => ⟨topics, rfl⟩) _ hloop
  have hstorage : (b₁.addCommand fd answer).storage = b.storage := by
    refine hd.eq_of_forall (f := Broker.storage) ?_
    rintro b op ⟨topics, rfl⟩ -
    rfl
  have hcalls : (b₁.addCommand fd answer).calls = b.calls := by
    refine hd.eq_of_forall (f := Broker.calls) ?_
    rintro b op ⟨topics, rfl⟩ -
    rfl
  have hclients : (b₁.addCommand fd answer).clients.lookup fd = some (some pClient) := by
    show b₁.clients.lookup fd = _
    rw [hd.clients_eq, hclient]
  -- the retained messages are handed out behind the SUBACK
  obtain ⟨ms, hhands, hmem, hmatched⟩ := sendAllRetained_hands tpcs hclients hsend
  rw [hstorage] at hmem hmatched
  refine ⟨ms, ?_, fun m => (hmem m).trans (hlog.matchesRetained_iff hmatched)⟩
  obtain ⟨calls, heq, hcarries⟩ := hhands
  refine ⟨calls, ?_, hcarries⟩
  rw [handedOut, handedOut, hcalls] at heq
  exact heq

/-- A step that handles a SUBSCRIBE in a state in which the latest messages are retained. -/
theorem RetainsLatest.answersCleared_iff {s t : ServerThread} {log : RetainLog} {e : SystemEvent}
    {fd : Fd} {ref : ClientRef} {fh : FixedHeader} {data : Bytes} {tpcs : List (Bytes × UInt8)}
    (hlog : RetainsLatest s.broker log) (hstep : system.Step s e t)
    (hat : packetAt s e = some (fd, ref, fh, data))
    (htype : fh.getType = PackType.SUBSCRIBE.code) (hread : Subscribing fh data tpcs) :
    AnswersCleared fd ref tpcs log s.broker t.broker ↔ TakesNoEmpty tpcs log := by
  -- what the step hands out, from what was stored before it
  obtain ⟨ms, hhands, hmem⟩ : ∃ ms, HandsMessages fd ref s.broker t.broker ms ∧
      ∀ m : Message, m ∈ ms ↔
        (∃ it ∈ tpcs, TakesName it.1 m.1) ∧ latest m.1 log = some m.2 := by
    cases system_messages hstep with
    | none hnone => rw [hat] at hnone; cases hnone
    | connect hat' hconnect =>
      obtain ⟨rfl, rfl, rfl, rfl⟩ := by simpa using hat.symm.trans hat'
      rw [htype] at hconnect
      exact absurd hconnect (by decide)
    | @packet _ _ _ _ random now b' err hat' _ hclient hpacket _ hout =>
      obtain ⟨rfl, rfl, rfl, rfl⟩ := by simpa using hat.symm.trans hat'
      have hhandler : (touch s.broker ref now).subscribeHandler fh data fd = .ok (b', err) :=
        (handlePacket_subscribe _ _ _ _ htype).symm.trans hpacket
      have htouch : RetainsLatest (touch s.broker ref now) log := hlog.congr rfl
      have hclient' : (touch s.broker ref now).clients.lookup fd = some (some ref) := hclient
      obtain ⟨ms, hhands, hmem⟩ := subscribeHandler_hands hclient' htouch hread hhandler
      have hafter : HandsMessages fd ref b' t.broker [] := .of_eq hout
      have hall := hhands.trans hafter
      rw [List.append_nil] at hall
      exact ⟨ms, hall, hmem⟩
  constructor
  · -- an empty message that was sent would be one of those the claim leaves out
    rintro ⟨ms', hhands', hmem'⟩ m htakes hlatest
    obtain rfl := hhands.unique hhands'
    exact ((hmem' m).mp ((hmem m).mpr ⟨htakes, hlatest⟩)).2.2
  · intro hempty
    refine ⟨ms, hhands, fun m => ?_⟩
    rw [hmem]
    constructor
    · rintro ⟨htakes, hlatest⟩
      exact ⟨htakes, hlatest, hempty m htakes hlatest⟩
    · rintro ⟨htakes, hlatest, -⟩
      exact ⟨htakes, hlatest⟩

/-- The client publishes a message under `t` with QoS 0 and RETAIN. -/
def publishRetained (message : Bytes) : List SystemEvent :=
  pass 0x31 ([0, 1, 0x74, 0] ++ message)

/-- One step with the log. -/
def retainStep (x : ServerThread × RetainLog) (e : SystemEvent) :
    Option (ServerThread × RetainLog) :=
  (systemStep x.1 e).map fun t => (t, noteRetained x.1 e t x.2)

theorem step_of_retainStep {x y : ServerThread × RetainLog} {e : SystemEvent}
    (h : retainStep x e = some y) : retainSystem.Step x e y :=
  LTS.observe_step_of_map step_of_systemStep h

/-- The SUBSCRIBE of the client that comes next. -/
def subscribeEvent : SystemEvent := .server (.socket (.pollin false (.packet 0x82 subscribeT [])))

/-- `subscribeT` asks for the topic `t`. -/
theorem subscribing_subscribeT : Subscribing ⟨0x82, 7⟩ subscribeT [([0x74], 0)] :=
  ⟨oneClient, 0, 2, 3, _, _, rfl, rfl⟩

/-- The client publishes messages under `t`, and then sends a SUBSCRIBE. -/
theorem exists_subscribe_run (events : List SystemEvent) (message : MqttBinaryDataEntity)
    (hrun : (events.foldlM retainStep (fromStart, [])).bind (fun x =>
      (retainStep x subscribeEvent).map fun _ => (latest [0x74] x.2, socketAt x.1,
        x.1.broker.clients.lookup 5, x.1.broker.control_sock)) =
          some (some message, some 5, some (some 0), 4)) :
    ∃ x y, retainSystem.Reachable x ∧ retainSystem.Step x subscribeEvent y ∧
      packetAt x.1 subscribeEvent = some (5, 0, ⟨0x82, 7⟩, subscribeT) ∧
      latest [0x74] x.2 = some message := by
  obtain ⟨x, hx, hrun⟩ := Option.bind_eq_some_iff.mp hrun
  obtain ⟨y, hy, hfinal⟩ := Option.map_eq_some_iff.mp hrun
  simp only [Prod.mk.injEq] at hfinal
  obtain ⟨hlatest, hat, hclient, hcontrol⟩ := hfinal
  have hne : (5 : Fd) ≠ x.1.broker.control_sock := by
    rw [hcontrol]
    decide
  have hreach : retainSystem.Reachable x :=
    ⟨_, _, ⟨⟨4, rfl⟩, rfl⟩, LTS.run_of_foldlM step_of_retainStep hx⟩
  exact ⟨x, y, hreach, step_of_retainStep hy, packetAt_eq hat hclient hne, hlatest⟩

end Mqtt.Spec
