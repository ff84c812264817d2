import MqttBroker.ForStd.Multimap
import MqttBroker.Spec.BeforeConnect
import MqttBroker.Spec.Release

/-!
# The message that a PUBREL releases

`GetQoSTopic`, `NotifyClients` and `DelQoSTopic` each look for a message of their own. The
three meet the same one: the first of the client with the packet id. So for each client id
and packet id the PUBLISH packets with QoS 2 are the releases and what is still stored.
-/

namespace Mqtt.Spec

open Mqtt.Native Mqtt.Native.Broker

/-! ## The entries of the store -/

/-- The entries of `qos_2_topics`, each a topic with its client id. -/
def entries (b : Broker) : Multiset (Bytes × MqttTopic) := b.storage.qos_2_topics.elements

/-- The entries of a client are its stored messages. -/
theorem mem_entries {b : Broker} {client_id : Bytes} {topic : MqttTopic} :
    (client_id, topic) ∈ entries b ↔ topic ∈ stored b client_id := UnorderedMap.mem_elements

/-- The entries are a function of what is stored. -/
theorem entries_congr {b b' : Broker} (h : stored b' = stored b) : entries b' = entries b :=
  UnorderedMap.elements_congr (congrFun h)

/-- A topic more under one client id. -/
theorem entries_eq_cons {b b' : Broker} {client_id : Bytes} {topic : MqttTopic}
    {group : List MqttTopic} (h : stored b' = Function.update (stored b) client_id group)
    (hperm : group.Perm (topic :: stored b client_id)) :
    entries b' = (client_id, topic) ::ₘ entries b := by
  refine UnorderedMap.elements_eq_cons ?_ fun c hc => ?_
  · show (stored b' client_id).Perm _
    rw [h, Function.update_self]
    exact hperm
  · show stored b' c = _
    rw [h, Function.update_of_ne hc]
    rfl

/-- Erasing the first entry with an id takes away one entry. -/
theorem entries_eq_cons_of_erased {b b' : Broker} {client_id : Bytes} {packet_id : UInt16}
    {topic : MqttTopic} (h : stored b' = Function.update (stored b) client_id
      ((stored b client_id).eraseP fun topic => topic.id = packet_id))
    (htopic : b.storage.getQoSTopic client_id packet_id = some topic) :
    entries b = (client_id, topic) ::ₘ entries b' := by
  have hback : stored b = Function.update (stored b') client_id (stored b client_id) := by
    rw [h, Function.update_idem, Function.update_eq_self]
  refine entries_eq_cons hback ?_
  rw [h, Function.update_self]
  exact List.perm_cons_eraseP htopic

/-- `GetQoSTopic` finds an entry of the client with this id. -/
theorem getQoSTopic_some {b : Broker} {client_id : Bytes} {packet_id : UInt16} {topic : MqttTopic}
    (h : b.storage.getQoSTopic client_id packet_id = some topic) :
    (client_id, topic) ∈ entries b ∧ topic.id = packet_id :=
  ⟨mem_entries.mpr (List.mem_of_find?_eq_some h), by simpa using List.find?_some h⟩

/-- `GetQoSTopic` finds one if there is one. -/
theorem getQoSTopic_isSome_iff {b : Broker} {client_id : Bytes} {packet_id : UInt16} :
    (b.storage.getQoSTopic client_id packet_id).isSome ↔
      ∃ topic, (client_id, topic) ∈ entries b ∧ topic.id = packet_id := by
  simp only [TopicStorage.getQoSTopic, List.find?_isSome, decide_eq_true_eq, mem_entries]
  rfl

/-! ## The handler of PUBREL -/

/-- What the handler does with a packet id of a client: one call of `NotifyClients` with the
    entry it has found, which is then the entry that is erased, or neither. Nothing has been
    called before but the answer was queued. -/
inductive ReleasesEntry (b : Broker) (client_id : Bytes) (packet_id : UInt16) :
    Exec (Broker × MqttErr) → Prop
  | found {topic : MqttTopic} {b₁ : Broker} :
      b.storage.getQoSTopic client_id packet_id = some topic →
      (client_id, topic) ∈ entries b → topic.id = packet_id →
      b₁.storage = b.storage → b₁.calls = b.calls ++ [.pubrel client_id packet_id] →
      (∀ b₂ topic', b₁.notifyClients topic (some (client_id, packet_id)) = .ok (b₂, topic') →
        entries b = (client_id, topic) ::ₘ
          entries { b₂ with storage := b₂.storage.delQoSTopic client_id packet_id }) →
      ReleasesEntry b client_id packet_id (do
        let (b₂, _) ← b₁.notifyClients topic (some (client_id, packet_id))
        return ({ b₂ with storage := b₂.storage.delQoSTopic client_id packet_id }, .ok))
  | unknown {b₁ : Broker} :
      b.storage.getQoSTopic client_id packet_id = none →
      (∀ topic, (client_id, topic) ∈ entries b → topic.id ≠ packet_id) →
      b₁.storage = b.storage → b₁.calls = b.calls ++ [.pubrel client_id packet_id] →
      ReleasesEntry b client_id packet_id (.ok (b₁, .ok))

/-- A kept message is there when there are more. -/
theorem sendKeptMessage_eq (b : Broker) (fd : Fd) (client_id : Bytes) :
    ∃ b', b.sendKeptMessage fd client_id = .ok b' := by
  unfold sendKeptMessage checkIfMoreMessages getPacket
  cases b.postponed_events.lookup client_id with
  | none => exact ⟨b, rfl⟩
  | some group =>
    cases group with
    | nil => exact ⟨b, rfl⟩
    | cons packet rest => exact ⟨b.addCommand fd packet.pData, rfl⟩

/-- The PUBCOMP can always be built. -/
theorem createMqttPacket_pubcomp (packet_id : UInt16) : ∃ answer,
    createMqttPacket (packetByte .PUBCOMP)
      (⟨packet_id, ReasonCode.success.code, OrderedSet.empty⟩ : TypicalVH) = .ok answer := by
  let vh : TypicalVH := ⟨packet_id, ReasonCode.success.code, OrderedSet.empty⟩
  have hsize : IVariableHeader.getSize vh = (encodeHeader (.puback vh)).length :=
    (@length_encodeHeader (.puback vh) (Nat.zero_le _)).symm
  exact ⟨_, createMqttPacket_eq (makes_header (.puback vh)).writes hsize _⟩

/-- The handler answers, and then looks the packet id up. -/
theorem pubrelHandler_eq {b : Broker} {data : Bytes} {fd : Fd} {ref : ClientRef}
    {packet_id : UInt16} {client_id : Bytes} (hclient : b.clients.lookup fd = some (some ref))
    (hread : PubackVH.readFromBuf data = .ok packet_id) (hid : (b.heap ref).client_id = client_id) :
    ∃ b₁ : Broker, b₁.storage = b.storage ∧
      b₁.calls = b.calls ++ [.pubrel client_id packet_id] ∧
      (b₁.heap ref).client_id = client_id ∧ b.pubrelHandler data fd =
        match b₁.storage.getQoSTopic client_id packet_id with
        | some topic => do
          let (b₂, _) ← b₁.notifyClients topic (some (client_id, packet_id))
          let client_id := (b₂.heap ref).client_id
          return ({ b₂ with storage := b₂.storage.delQoSTopic client_id packet_id }, .ok)
        | none => .ok (b₁, .ok) := by
  obtain ⟨answer, hanswer⟩ := createMqttPacket_pubcomp packet_id
  obtain ⟨b₀, hkept⟩ := sendKeptMessage_eq ((b.addCommand fd answer).delQosEvent client_id packet_id)
    fd client_id
  -- the answer and the kept messages come before the held message is looked up
  have hd : Does IsAnswer b b₀ :=
    ((Does.addCommand fd answer trivial).snoc (.delQosEvent client_id packet_id) trivial
      trivial).trans
        ((does_sendKeptMessage (A := IsAnswer) _ fd _ fd fun _ _ => trivial).of_eq_ok hkept)
  refine ⟨b₀.record (.pubrel client_id packet_id), hd.storage_eq_of_answers, ?_,
    (hd.client_id_eq ref).trans hid, ?_⟩
  · rw [Broker.record, hd.calls_eq_of_answers]
  · simp only [pubrelHandler, clientAt_eq hclient, hread, deref, Except.ok_bind, hid, hanswer, hkept]
    rfl

/-- The handler of PUBREL sends the entry it finds, once, and erases it. -/
theorem pubrelHandler_releasesEntry {b : Broker} {data : Bytes} {fd : Fd} {ref : ClientRef}
    {packet_id : UInt16} (hclient : b.clients.lookup fd = some (some ref))
    (hread : PubackVH.readFromBuf data = .ok packet_id) :
    ReleasesEntry b (b.heap ref).client_id packet_id (b.pubrelHandler data fd) := by
  generalize hid : (b.heap ref).client_id = client_id
  obtain ⟨b₁, hstorage, hcalls, hid₁, hhandler⟩ := pubrelHandler_eq hclient hread hid
  rw [hhandler, hstorage]
  cases htopic : b.storage.getQoSTopic client_id packet_id with
  | some topic =>
    obtain ⟨hmem, htopic_id⟩ := getQoSTopic_some htopic
    -- `NotifyClients` changes neither the store nor the id of the client
    have hnotify : ∀ {b₂ topic'}, b₁.notifyClients topic (some (client_id, packet_id)) =
        .ok (b₂, topic') → b₂.storage = b.storage ∧ (b₂.heap ref).client_id = client_id :=
      fun h => by
        obtain ⟨hout, -⟩ := notifyClients_eq_ok h
        exact ⟨hout.storage_eq.trans hstorage,
          (hout.heap_congr (f := Client.client_id) (fun _ => rfl) ref).trans hid₁⟩
    have herased : (do
        let (b₂, _) ← b₁.notifyClients topic (some (client_id, packet_id))
        return ({ b₂ with storage := b₂.storage.delQoSTopic (b₂.heap ref).client_id packet_id },
          MqttErr.ok)) = (do
        let (b₂, _) ← b₁.notifyClients topic (some (client_id, packet_id))
        return ({ b₂ with storage := b₂.storage.delQoSTopic client_id packet_id }, MqttErr.ok)) := by
      cases hsend : b₁.notifyClients topic (some (client_id, packet_id)) with
      | error fault => rfl
      | ok r =>
        show Except.ok _ = Except.ok _
        rw [(hnotify hsend).2]
    show ReleasesEntry b client_id packet_id (do
      let (b₂, _) ← b₁.notifyClients topic (some (client_id, packet_id))
      return ({ b₂ with storage := b₂.storage.delQoSTopic (b₂.heap ref).client_id packet_id },
        MqttErr.ok))
    rw [herased]
    refine .found htopic hmem htopic_id hstorage hcalls fun b₂ topic' h => ?_
    refine entries_eq_cons_of_erased ?_ htopic
    rw [stored_delQoSTopic]
    simp only [stored, (hnotify h).1]
  | none =>
    refine .unknown htopic (fun topic hmem hid' => ?_) hstorage hcalls
    -- had there been an entry, it would have been found
    have hsome := getQoSTopic_isSome_iff.mpr ⟨topic, hmem, hid'⟩
    rw [htopic] at hsome
    cases hsome

/-! ## Published and released -/

/-- The key under which a packet of the client `client_id` is stored: a PUBLISH with QoS 2. -/
def publishedKey (client_id : Bytes) (fh : FixedHeader) (data : Bytes) : Option MessageKey :=
  if fh.getType = PackType.PUBLISH.code ∧ fh.qoS = 2 then
    match handleMqttPublish fh data with
    | .ok (vh, _) => some (client_id, vh.packet_id)
    | .error _ => none
  else none

/-- The key that a packet of the client `client_id` releases: a PUBREL for which the store has
    a topic. -/
def releasedKey (storage : TopicStorage) (client_id : Bytes) (fh : FixedHeader) (data : Bytes) :
    Option MessageKey :=
  if fh.getType = PackType.PUBREL.code then
    match PubackVH.readFromBuf data with
    | .ok packet_id =>
      if (storage.getQoSTopic client_id packet_id).isSome then some (client_id, packet_id) else none
    | .error _ => none
  else none

/-- The keys of the packets that were handled. -/
structure Tally where
  published : List MessageKey := []
  released : List MessageKey := []

/-- A packet is counted with what it published or released. -/
def Tally.handled (g : Tally) (storage : TopicStorage) (client_id : Bytes) (fh : FixedHeader)
    (data : Bytes) : Tally where
  published := g.published ++ (publishedKey client_id fh data).toList
  released := g.released ++ (releasedKey storage client_id fh data).toList

/-- The packet that a step handles is counted. -/
def noteTally (s : ServerThread) (e : SystemEvent) (_ : ServerThread) (g : Tally) : Tally :=
  match packetAt s e with
  | some (_, ref, fh, data) => g.handled s.broker.storage (s.broker.heap ref).client_id fh data
  | none => g

/-- The system with the keys of its packets. -/
def tallySystem : LTS (ServerThread × Tally) SystemEvent := system.observe noteTally {}

/-- The number of entries under a client id with a packet id. -/
def waiting (b : Broker) (key : MessageKey) : Nat :=
  (entries b).countP fun e => (e.1, e.2.id) = key

/-- What was published has been released or is still stored. -/
def Balanced (b : Broker) (g : Tally) : Prop :=
  ∀ key, g.published.count key = g.released.count key + waiting b key

/-- An entry more waits under its key. -/
theorem waiting_cons {b b' : Broker} {client_id : Bytes} {topic : MqttTopic}
    (h : entries b' = (client_id, topic) ::ₘ entries b) (key : MessageKey) :
    waiting b' key = waiting b key + [(client_id, topic.id)].count key := by
  rw [waiting, h]
  by_cases hkey : (client_id, topic.id) = key
  · rw [hkey, List.count_singleton_self]
    exact Multiset.countP_cons_of_pos _ hkey
  · rw [List.count_eq_zero_of_not_mem (by simpa using Ne.symm hkey)]
    exact Multiset.countP_cons_of_neg _ hkey

/-- The balance speaks of what is stored. -/
theorem Balanced.congr {b b' : Broker} {g : Tally} (h : Balanced b g)
    (hstored : stored b' = stored b) : Balanced b' g := by
  intro key
  rw [waiting, entries_congr hstored]
  exact h key

section packet

variable {b b' : Broker} {g : Tally} {fh : FixedHeader} {data random : Bytes} {fd : Fd}
  {ref : ClientRef} {err : MqttErr}

/-- A PUBLISH with QoS 2 stores a topic under its packet id. -/
theorem entries_of_publish (hclient : b.clients.lookup fd = some (some ref)) (hqos : fh.qoS = 2)
    (h : b.publishHandler fh data fd = .ok (b', err)) : ∃ vh message topic,
      handleMqttPublish fh data = .ok (vh, message) ∧ topic.id = vh.packet_id ∧
      entries b' = ((b.heap ref).client_id, topic) ::ₘ entries b := by
  obtain ⟨vh, message, pClient, b₂, hread, hclient', hanswer, hend, -⟩ := publishHandler_eq_ok h
  obtain rfl := Option.some.inj (Option.some.inj (hclient'.symm.trans hclient))
  have hstored : stored b₂ = stored b := by
    have hretain : stored (retain b fh vh message) = stored b := by
      rw [retain]
      split <;> rfl
    rw [← hretain, stored, hanswer.storage_eq_of_answers, stored]
  cases hend with
  | sent hne => exact absurd hqos hne
  | stored _ heq =>
    -- in front of those that wait already
    refine ⟨vh, message, MqttTopic.new fh.qoS vh.packet_id vh.topic_name (some message), hread,
      rfl, ?_⟩
    refine entries_eq_cons ?_ (.refl (MqttTopic.new fh.qoS vh.packet_id vh.topic_name
      (some message) :: stored b (b.heap pClient).client_id))
    rw [heq, ← hstored]
    exact stored_addQoSTopic b₂ _ _

/-- A PUBREL takes an entry away if the store has one. -/
theorem entries_of_pubrel (hclient : b.clients.lookup fd = some (some ref))
    (h : b.pubrelHandler data fd = .ok (b', err)) : ∃ packet_id,
      PubackVH.readFromBuf data = .ok packet_id ∧
      ∀ topic, b.storage.getQoSTopic (b.heap ref).client_id packet_id = some topic →
        entries b = ((b.heap ref).client_id, topic) ::ₘ entries b' := by
  obtain ⟨hpubrel, -⟩ := (pubrelHandler_step b data fd).of_eq_ok h
  obtain ⟨pClient, packet_id, hread, hclient', hrel⟩ := hpubrel.inbound
  obtain rfl := Option.some.inj (Option.some.inj (hclient'.symm.trans hclient))
  exact ⟨packet_id, hread, fun topic => entries_eq_cons_of_erased hrel.topics⟩

/-- Each packet keeps the balance, by what it does to the entries. -/
theorem Balanced.packet (h : Balanced b g) (htype : fh.getType ≠ PackType.CONNECT.code)
    (hclient : b.clients.lookup fd = some (some ref))
    (hpacket : b.handlePacket fh data fd random = .ok (b', err)) :
    Balanced b' (g.handled b.storage (b.heap ref).client_id fh data) := by
  intro key
  rw [Tally.handled, List.count_append, List.count_append, h key]
  have hsame : ¬ Affects b fh data fd .qos_2_topics → waiting b' key = waiting b key :=
    fun hnot => by
      have hpart : b'.storage.qos_2_topics = b.storage.qos_2_topics :=
        same_of_not_affects htype hpacket hnot
      rw [waiting, waiting, entries, entries, hpart]
  by_cases hpublish : fh.getType = PackType.PUBLISH.code ∧ fh.qoS = 2
  · have hhandler : b.publishHandler fh data fd = .ok (b', err) :=
      (handlePacket_publish _ _ _ _ hpublish.1).symm.trans hpacket
    have hpubrel : fh.getType ≠ PackType.PUBREL.code := by rw [hpublish.1]; decide
    obtain ⟨vh, message, topic, hread, hid, hentries⟩ :=
      entries_of_publish hclient hpublish.2 hhandler
    rw [publishedKey, if_pos hpublish, releasedKey, if_neg hpubrel, hread, waiting_cons hentries,
      hid]
    -- one more is published, and one more waits
    show _ + [((b.heap ref).client_id, vh.packet_id)].count key = _ + [].count key + _
    rw [List.count_nil]
    omega
  · rw [publishedKey, if_neg hpublish, releasedKey]
    split
    · rename_i hpubrel
      have hhandler : b.pubrelHandler data fd = .ok (b', err) :=
        (handlePacket_pubrel _ _ _ _ hpubrel).symm.trans hpacket
      obtain ⟨packet_id, hread, hentries⟩ := entries_of_pubrel hclient hhandler
      rw [hread]
      dsimp only
      cases htopic : b.storage.getQoSTopic (b.heap ref).client_id packet_id with
      | some topic =>
        have hid := (getQoSTopic_some htopic).2
        rw [waiting_cons (hentries topic htopic), hid]
        -- one less waits, and it is released
        show _ + [].count key = _ + [((b.heap ref).client_id, packet_id)].count key + _
        rw [List.count_nil]
        omega
      | none =>
        rw [hsame]
        · rfl
        · -- a topic under the packet id would have been found
          rintro (hpublish' | ⟨-, pClient, hclient', packet_id', topic, hread', hmem, hid⟩)
          · exact hpublish hpublish'
          · obtain rfl := Option.some.inj (Option.some.inj (hclient'.symm.trans hclient))
            obtain rfl := Except.ok.inj (hread'.symm.trans hread)
            have hsome := getQoSTopic_isSome_iff.mpr ⟨topic, mem_entries.mpr hmem, hid⟩
            rw [htopic] at hsome
            cases hsome
    · rename_i hpubrel
      rw [hsame]
      · rfl
      · rintro (hpublish' | ⟨hpubrel', -⟩)
        · exact hpublish hpublish'
        · exact hpubrel hpubrel'

end packet

/-- A CONNECT neither publishes nor releases. -/
theorem Tally.handled_connect (g : Tally) {fh : FixedHeader} (storage : TopicStorage)
    (client_id data : Bytes) (htype : fh.getType = PackType.CONNECT.code) :
    g.handled storage client_id fh data = g := by
  have hpublish : fh.getType ≠ PackType.PUBLISH.code := by rw [htype]; decide
  have hpubrel : fh.getType ≠ PackType.PUBREL.code := by rw [htype]; decide
  simp [Tally.handled, publishedKey, releasedKey, hpublish, hpubrel]

/-- Each step keeps the balance. -/
theorem Balanced.step {s t : ServerThread} {e : SystemEvent} {g : Tally}
    (h : Balanced s.broker g) (hstep : system.Step s e t) :
    Balanced t.broker (noteTally s e t g) := by
  unfold noteTally
  cases system_messages hstep with
  | none hat hsame _ =>
    rw [hat]
    exact h.congr hsame.stored
  | @connect fd ref fh data hat htype hstored _ _ _ =>
    rw [hat]
    dsimp only
    rw [g.handled_connect _ _ _ htype]
    exact h.congr hstored
  -- a PUBLISH adds an entry and a PUBREL takes one away
  | @packet fd ref fh data random now b' err hat htype hclient hpacket hsame _ =>
    rw [hat]
    have htouch : Balanced (touch s.broker ref now) g := h.congr rfl
    have hid : ((touch s.broker ref now).heap ref).client_id = (s.broker.heap ref).client_id := by
      rw [touch, heap_setClient_self]
    have hhandled := htouch.packet htype hclient hpacket
    rw [hid] at hhandled
    exact hhandled.congr hsame.stored

/-- In every run what was published has been released or waits. -/
theorem balanced_of_reachable {s : ServerThread} {g : Tally}
    (h : tallySystem.Reachable (s, g)) : Balanced s.broker g := by
  refine h.observe_invariant (P := fun s g => Balanced s.broker g) ?_ fun hinv => hinv.step
  rintro s ⟨control_sock, rfl⟩ key
  rfl

/-- Whatever the store holds, a PUBREL of a client releases and erases one and the same entry
    if there is one under its packet id, and otherwise does neither. In every run, for each
    client id and packet id, the PUBLISH packets with QoS 2 that were handled are the
    releases and the entries that are still stored. -/
theorem pubrel_releases_entry :
    (∀ (b : Broker) (data : Bytes) (fd : Fd) (ref : ClientRef) (packet_id : UInt16),
      b.clients.lookup fd = some (some ref) → PubackVH.readFromBuf data = .ok packet_id →
        ((b.storage.getQoSTopic (b.heap ref).client_id packet_id).isSome ↔
          ∃ topic, ((b.heap ref).client_id, topic) ∈ entries b ∧ topic.id = packet_id) ∧
        ReleasesEntry b (b.heap ref).client_id packet_id (b.pubrelHandler data fd)) ∧
    ∀ s g, tallySystem.Reachable (s, g) → ∀ key,
      g.published.count key = g.released.count key + waiting s.broker key :=
  ⟨fun _ _ _ _ _ hclient hread =>
    ⟨getQoSTopic_isSome_iff, pubrelHandler_releasesEntry hclient hread⟩,
    fun _ _ => balanced_of_reachable⟩

/-! ## A run of one client -/

/-- A step of the system with its tally. -/
def tallyStep (x : ServerThread × Tally) (e : SystemEvent) : Option (ServerThread × Tally) :=
  (systemStep x.1 e).map fun t => (t, noteTally x.1 e t x.2)

theorem step_of_tallyStep {x y : ServerThread × Tally} {e : SystemEvent}
    (h : tallyStep x e = some y) : tallySystem.Step x e y :=
  LTS.observe_step_of_map step_of_systemStep h

set_option synthInstance.maxSize 1000 in
/-- The message is published twice under one packet id and released once. -/
theorem pubrel_releases_entry_resent : ∃ s g, tallySystem.Reachable (s, g) ∧
    g.published = [([0x61], 1), ([0x61], 1)] ∧ g.released = [([0x61], 1)] ∧
    waiting s.broker ([0x61], 1) = 1 ∧
    ReleasesEntry s.broker [0x61] 1 (s.broker.pubrelHandler [0, 1] 5) := by
  have hrun : ((connected ++ publishQoS2 ++ publishQoS2 ++ pubrelQoS2).foldlM tallyStep
      (fromStart, {})).map (fun x => (x.2.published, x.2.released, x.1.broker.clients.lookup 5,
        (x.1.broker.heap 0).client_id)) =
      some ([([0x61], 1), ([0x61], 1)], [([0x61], 1)], some (some 0), [0x61]) := by
    decide +kernel
  obtain ⟨⟨s, g⟩, hs, hfinal⟩ := Option.map_eq_some_iff.mp hrun
  simp only [Prod.mk.injEq] at hfinal
  obtain ⟨hpublished, hreleased, hclient, hid⟩ := hfinal
  have hreach : tallySystem.Reachable (s, g) :=
    ⟨_, _, ⟨⟨4, rfl⟩, rfl⟩, LTS.run_of_foldlM step_of_tallyStep hs⟩
  -- two entries were published, one is released and one waits
  have hbalance := pubrel_releases_entry.2 s g hreach ([0x61], 1)
  rw [hpublished, hreleased] at hbalance
  refine ⟨s, g, hreach, hpublished, hreleased, ?_, ?_⟩
  · have hcount : 2 = 1 + waiting s.broker ([0x61], 1) := hbalance
    omega
  · have hresult := (pubrel_releases_entry.1 s.broker [0, 1] 5 0 1 hclient rfl).2
    rw [hid] at hresult
    exact hresult

end Mqtt.Spec
