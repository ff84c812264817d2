import MqttBroker.Spec.Release

/-!
# The clients that are left in

A client that is connected, and whose socket is not marked for removal, was so before the
step, or is new. What `ServerThread` decides about it on its own (whether it has a will,
whether it is timed out) hangs on members that only its own packets set.
-/

namespace Mqtt.Spec

open Mqtt.Native Mqtt.Native.Broker

/-! ## What a CONNECT sets -/

/-- The will that a CONNECT carries: its QoS is that of the flags, its name and its message
    stand in the body. -/
def WillIn (data : Bytes) (topic : MqttTopic) : Prop :=
  ∃ con_vh offset offset₁ will_topic_name offset₂ data_len pMessage,
    ConnectVH.readFromBuf data = .ok (con_vh, offset) ∧ con_vh.conn_flags &&& 0x4 ≠ 0 ∧
    readString data offset₁ = .ok (will_topic_name, offset₂) ∧
    convertToHost2Bytes data offset₂ = .ok data_len ∧
    MqttBinaryDataEntity.ofBuf data_len data (offset₂ + 2) = .ok pMessage ∧
    topic = .new ((con_vh.conn_flags &&& 0x18) >>> 3) 1 will_topic_name (some pMessage)

/-- What an accepted CONNECT makes of its client. -/
structure ConnectSets (c : Client) (data : Bytes) (c' : Client) : Prop where
  read : ∃ con_vh offset, ConnectVH.readFromBuf data = .ok (con_vh, offset) ∧
    c'.flags = con_vh.conn_flags ∧ c'.alive = con_vh.alive
  time_last_packet : c'.time_last_packet = c.time_last_packet
  will : c'.isWillFlag → WillIn data c'.will_topic

/-- The members of a client that neither will nor login set. -/
def connectHead (c : Client) : UInt8 × UInt16 × Time := (c.flags, c.alive, c.time_last_packet)

/-- Handling the client id leaves what the header has set. -/
theorem handleConnectId_head {b b' : Broker} {pClient : ClientRef} {id : Option Bytes}
    {random : Bytes} {err : MqttErr} (h : b.handleConnectId pClient id random = .ok (b', err)) :
    connectHead (b'.heap pClient) = connectHead (b.heap pClient) := by
  obtain ⟨-, rfl⟩ | ⟨-, hidentified⟩ := handleConnectId_effect h
  · rfl
  · -- wherever the id comes from, the client gets nothing but the id
    cases hidentified with
    | unused | takenOver | generated => rw [heap_setClient_self]; rfl

/-- Where the Will Flag is set, the will is read. -/
theorem handleConnectWill_will {b b' : Broker} {pClient : ClientRef} {data : Bytes}
    {offset offset' : Nat} {con_vh : ConnectVH} {offset₀ : Nat}
    (hread : ConnectVH.readFromBuf data = .ok (con_vh, offset₀))
    (hflags : (b.heap pClient).flags = con_vh.conn_flags)
    (h : b.handleConnectWill pClient data offset = .ok (b', .ok, offset')) :
    connectHead (b'.heap pClient) = connectHead (b.heap pClient) ∧
      ((b'.heap pClient).isWillFlag → WillIn data (b'.heap pClient).will_topic) := by
  unfold handleConnectWill at h
  split at h
  · rename_i hwill
    obtain ⟨created, -, h⟩ := Except.bind_eq_ok_iff.mp h
    dsimp only at h
    split at h
    · -- the properties of the will are refused
      rename_i herr
      obtain ⟨-, hresult⟩ := Prod.mk.inj (Except.ok.inj h)
      exact absurd (Prod.mk.inj hresult).1 herr
    · obtain ⟨⟨will_topic_name, offset₂⟩, hname, h⟩ := Except.bind_eq_ok_iff.mp h
      obtain ⟨data_len, hlen, h⟩ := Except.bind_eq_ok_iff.mp h
      obtain ⟨pMessage, hmessage, h⟩ := Except.bind_eq_ok_iff.mp h
      obtain ⟨rfl, -⟩ := Prod.mk.inj (Except.ok.inj h)
      rw [setClient_setClient, heap_setClient_self, heap_setClient_self]
      -- the will topic is made of what was read
      refine ⟨rfl, fun _ => ⟨con_vh, offset₀, _, will_topic_name, offset₂, data_len, pMessage, hread,
        ?_, hname, hlen, hmessage, ?_⟩⟩
      · rw [← hflags]
        simpa [Client.isWillFlag] using hwill
      · rw [← hflags]
        rfl
  · rename_i hwill
    obtain ⟨rfl, -⟩ := Prod.mk.inj (Except.ok.inj h)
    exact ⟨rfl, fun hflag => absurd hflag hwill⟩

/-- Handling name and password leaves what the header and the will have set. -/
theorem handleConnectLogin_head {b b' : Broker} {pClient : ClientRef} {data : Bytes}
    {offset : Nat} {err : MqttErr} (h : b.handleConnectLogin pClient data offset = .ok (b', err)) :
    connectHead (b'.heap pClient) = connectHead (b.heap pClient) ∧
      (b'.heap pClient).will_topic = (b.heap pClient).will_topic := by
  unfold handleConnectLogin at h
  -- each branch sets the user name and the password at most
  split at h
  · obtain ⟨⟨user_name, user_name_len⟩, -, h⟩ := Except.bind_eq_ok_iff.mp h
    dsimp only at h
    split at h
    · obtain ⟨rfl, -⟩ := Prod.mk.inj (Except.ok.inj h)
      exact ⟨rfl, rfl⟩
    · split at h
      · obtain ⟨⟨pwd, pwd_len⟩, -, h⟩ := Except.bind_eq_ok_iff.mp h
        dsimp only at h
        split at h
        · obtain ⟨rfl, -⟩ := Prod.mk.inj (Except.ok.inj h)
          rw [heap_setClient_self]
          exact ⟨rfl, rfl⟩
        · obtain ⟨rfl, -⟩ := Prod.mk.inj (Except.ok.inj h)
          rw [heap_setClient_self, heap_setClient_self]
          exact ⟨rfl, rfl⟩
      · obtain ⟨rfl, -⟩ := Prod.mk.inj (Except.ok.inj h)
        rw [heap_setClient_self]
        exact ⟨rfl, rfl⟩
  · obtain ⟨rfl, -⟩ := Prod.mk.inj (Except.ok.inj h)
    exact ⟨rfl, rfl⟩

/-- A CONNECT that is accepted has set its client from its own bytes. -/
theorem handleMqttConnect_sets {b b' : Broker} {pClient : ClientRef} {data random : Bytes}
    (h : b.handleMqttConnect pClient data random = .ok (b', .ok)) :
    ConnectSets (b.heap pClient) data (b'.heap pClient) := by
  unfold handleMqttConnect at h
  obtain ⟨⟨con_vh, offset⟩, hread, h⟩ := Except.bind_eq_ok_iff.mp h
  dsimp only at h
  -- an error on the way would have been returned, so every part was read
  split at h
  · simp at h
  · obtain ⟨created, -, h⟩ := Except.bind_eq_ok_iff.mp h
    rw [heap_setClient_self, setClient_setClient] at h
    split at h
    · rename_i herr
      exact absurd (Prod.mk.inj (Except.ok.inj h)).2 herr
    · obtain ⟨⟨id, id_len⟩, -, h⟩ := Except.bind_eq_ok_iff.mp h
      dsimp only at h
      obtain ⟨⟨b₃, err₃⟩, hid, h⟩ := Except.bind_eq_ok_iff.mp h
      dsimp only at h
      split at h
      · rename_i herr
        exact absurd (Prod.mk.inj (Except.ok.inj h)).2 herr
      · obtain ⟨⟨b₄, err₄, offset₄⟩, hwill, h⟩ := Except.bind_eq_ok_iff.mp h
        dsimp only at h
        split at h
        · rename_i herr
          exact absurd (Prod.mk.inj (Except.ok.inj h)).2 herr
        · rename_i herr
          rw [not_not.mp herr] at hwill
          -- the flags and the keep-alive are set first, and then left alone
          have hhead₃ := handleConnectId_head hid
          rw [heap_setClient_self] at hhead₃
          obtain ⟨hflags, halive, htime⟩ : (b₃.heap pClient).flags = con_vh.conn_flags ∧
              (b₃.heap pClient).alive = con_vh.alive ∧
              (b₃.heap pClient).time_last_packet = (b.heap pClient).time_last_packet := by
            simpa only [connectHead, Prod.mk.injEq] using hhead₃
          obtain ⟨hhead₄, hin⟩ := handleConnectWill_will hread hflags hwill
          obtain ⟨hhead₅, htopic⟩ := handleConnectLogin_head h
          obtain ⟨hflags', halive', htime'⟩ := by
            simpa only [connectHead, Prod.mk.injEq] using hhead₅.trans hhead₄
          refine ⟨⟨con_vh, offset, hread, hflags'.trans hflags, halive'.trans halive⟩,
            htime'.trans htime, fun hflag => ?_⟩
          have hflags₅ : (b'.heap pClient).flags = (b₄.heap pClient).flags :=
            congrArg Prod.fst hhead₅
          rw [htopic]
          -- without the will flag nothing is held to a will
          refine hin ?_
          rwa [Client.isWillFlag, ← hflags₅]

/-! ## What packets of others leave alone -/

/-- A client but for what packets of other clients, and its own subscriptions, change. -/
def keptData (c : Client) : Client := { c with packet_id_gen := 0, subscribed_topics := ∅ }

/-- The members of it that the server thread decides by. -/
theorem of_keptData {c c' : Client} (h : keptData c = keptData c') :
    c.flags = c'.flags ∧ c.will_topic = c'.will_topic ∧ c.alive = c'.alive ∧
      c.time_last_packet = c'.time_last_packet := by
  have hflags := congrArg Client.flags h
  have hwill := congrArg Client.will_topic h
  have halive := congrArg Client.alive h
  have htime := congrArg Client.time_last_packet h
  exact ⟨hflags, hwill, halive, htime⟩

/-- Operations that set neither the will nor the time of a client keep its connection data. -/
theorem Does.keptData_eq {A : Op → Prop} {b b' : Broker} {ref : ClientRef} (h : Does A b b')
    (hwill : ∀ topic, ¬ A (.setWillTopic ref topic)) (htime : ∀ time, ¬ A (.setLastTime ref time)) :
    keptData (b'.heap ref) = keptData (b.heap ref) := by
  refine h.eq_of_forall (f := fun b => keptData (b.heap ref)) fun b op hop _ => ?_
  cases op with
  | genPacketID | setSubscriptions =>
    apply heap_setClient_congr (f := keptData)
    rfl
  -- they may still be those of another client
  | setWillTopic ref' topic =>
    refine congrArg keptData (heap_setClient_ne ?_)
    rintro rfl
    exact hwill topic hop
  | setLastTime ref' time =>
    refine congrArg keptData (heap_setClient_ne ?_)
    rintro rfl
    exact htime time hop
  | delQosEvent client_id packet_id =>
    obtain ⟨_, heq⟩ := delQosEvent_eq b client_id packet_id
    rw [Op.apply, heq]
  | _ => rfl

/-- No packet but CONNECT sets more of any client. -/
theorem handlePacket_keptData {b b' : Broker} {fh : FixedHeader} {data random : Bytes} {fd : Fd}
    {err : MqttErr} (htype : fh.getType ≠ PackType.CONNECT.code)
    (h : b.handlePacket fh data fd random = .ok (b', err)) (ref : ClientRef) :
    keptData (b'.heap ref) = keptData (b.heap ref) := by
  obtain rfl | ⟨pClient, -, hdoes⟩ := (handlePacket_does b fh data fd random htype).of_eq_ok h
  · rfl
  · refine hdoes.keptData_eq (fun topic hop => ?_) fun time hop => ?_
    · cases hop with
      | answers h | unsubscribes h | subscribes h | stores _ h | freesTopic h => exact h
    · cases hop with
      | answers h | unsubscribes h | subscribes h | stores _ h | freesTopic h => exact h

/-- A will is a member of one client. -/
theorem sendWill_keptData {b b' : Broker} {pClient ref : ClientRef} (href : ref ≠ pClient)
    (h : b.sendWill pClient = .ok b') : keptData (b'.heap ref) = keptData (b.heap ref) :=
  ((does_sendWill b pClient (-1)).of_eq_ok h).keptData_eq (fun _ hop => href hop) fun _ hop => hop

/-- Answering an error changes no client. -/
theorem handleError_heap {b b' : Broker} {error : MqttErr} {fd : Fd}
    (h : b.handleError error fd = .ok b') : b'.heap = b.heap := by
  obtain rfl | ⟨answer, rfl⟩ := handleError_eq_ok h
  · rfl
  · rfl

/-- What the scan does at the socket of a client concerns no other client. -/
theorem ScanCase.keptData {b b' : Broker} {fd : Fd} {ref : ClientRef} {now : Time}
    {event : SocketEvent} {next : ScanNext} (h : ScanCase b fd now event b' next)
    (href : ∀ pClient, b.clients.lookup fd = some (some pClient) → ref ≠ pClient) :
    keptData (b'.heap ref) = keptData (b.heap ref) := by
  have htouch : ∀ {pClient}, ref ≠ pClient →
      Spec.keptData ((touch b pClient now).heap ref) = Spec.keptData (b.heap ref) :=
    fun hne => congrArg Spec.keptData (heap_setClient_ne hne)
  have hpacket : ∀ {pClient fh data random b₁ err}, b.clients.lookup fd = some (some pClient) →
      (touch b pClient now).handlePacket fh data fd random = .ok (b₁, err) →
      Spec.keptData (b₁.heap ref) = Spec.keptData (b.heap ref) := by
    intro pClient fh data random b₁ err hclient hpacket
    have hne := href pClient hclient
    -- a CONNECT edits its own client only
    by_cases htype : fh.getType = PackType.CONNECT.code
    · have hhandle : (touch b pClient now).connectHandler data fd random = .ok (b₁, err) :=
        (handlePacket_connect _ _ _ _ htype).symm.trans hpacket
      have hat : (touch b pClient now).clients.lookup fd = some (some pClient) := hclient
      obtain ⟨b₂, heffect, hdoes⟩ := connectHandler_effect hat hhandle
      rw [hdoes.keptData_eq (by simp) (by simp), heffect.heap_ne hne, htouch hne]
    · rw [handlePacket_keptData htype hpacket, htouch hne]
  cases h with
  | add | control | alive => rfl
  | short _ hclient => exact htouch (href _ hclient)
  | headerError _ hclient hsend =>
    rw [sendWill_keptData (href _ hclient) hsend, htouch (href _ hclient)]
  | hangup hclient hsend => exact sendWill_keptData (href _ hclient) hsend
  | timeout _ hclient hsend =>
    -- the DISCONNECT is queued first, which is no change to a client
    have hkept := sendWill_keptData (href _ hclient) hsend
    exact hkept
  | handled _ hclient h => exact hpacket hclient h
  | refused _ hclient h _ herror =>
    rw [handleError_heap herror, hpacket hclient h]

/-! ## What a step leaves in -/

/-- The packet of a step comes from the socket of the scan. -/
theorem socketAt_of_packetAt {s : ServerThread} {e : SystemEvent} {fd : Fd}
    {ref : ClientRef} {fh : FixedHeader} {data : Bytes}
    (h : packetAt s e = some (fd, ref, fh, data)) :
    socketAt s = some fd ∧ s.broker.clients.lookup fd = some (some ref) := by
  unfold packetAt at h
  split at h
  · rename_i hscanned
    split at h
    · cases h
    · obtain ⟨rfl, hrest⟩ := Prod.mk.inj (Option.some.inj h)
      obtain ⟨rfl, -⟩ := Prod.mk.inj hrest
      exact scannedClient_eq_some hscanned
  · cases h

/-- The time the pass has begun at. -/
def passTime (s : ServerThread) : Time :=
  match s.pc with
  | .scan _ _ current_time _ => current_time
  | _ => 0

/-- The CONNECT that is handled in a step: its client, its body, and what
    `HandleMqttConnect` makes of it. -/
def connectIn (s : ServerThread) (e : SystemEvent) : Option (ClientRef × Bytes × Broker × MqttErr) :=
  match e, packetAt s e with
  | .server (.socket (.pollin _ (.packet _ _ random))), some (_, ref, fh, data) =>
    if fh.getType = PackType.CONNECT.code then
      match (touch s.broker ref (passTime s)).handleMqttConnect ref data random with
      | .ok (b, stat) => some (ref, data, b, stat)
      | .error _ => none
    else none
  | _, _ => none

/-- A CONNECT is a packet of its client. -/
theorem packetAt_of_connectIn {s : ServerThread} {e : SystemEvent} {ref : ClientRef} {data : Bytes}
    {b : Broker} {stat : MqttErr} (h : connectIn s e = some (ref, data, b, stat)) :
    ∃ fd fh, packetAt s e = some (fd, ref, fh, data) := by
  unfold connectIn at h
  split at h
  · rename_i fd ref' fh data' hpacket
    split at h
    · split at h
      · obtain ⟨rfl, hrest⟩ := Prod.mk.inj (Option.some.inj h)
        obtain ⟨rfl, -⟩ := Prod.mk.inj hrest
        exact ⟨fd, fh, hpacket⟩
      · cases h
    · cases h
  · cases h

/-- How a client comes to be active behind a step. -/
inductive ActiveCase (s : ServerThread) (e : SystemEvent) (t : ServerThread) (fd : Fd)
    (ref : ClientRef) : Prop
  /-- It was so before, and the step is about something else. -/
  | stays : Active s fd ref → (∀ fd' fh data, packetAt s e ≠ some (fd', ref, fh, data)) →
      keptData (t.broker.heap ref) = keptData (s.broker.heap ref) → ActiveCase s e t fd ref
  | new : s.broker.next_ref ≤ ref → ref < t.broker.next_ref →
      (t.broker.heap ref).flags = 0 → ActiveCase s e t fd ref
  /-- A CONNECT of it was accepted. -/
  | connect {fh : FixedHeader} {data : Bytes} {b : Broker} : Active s fd ref →
      packetAt s e = some (fd, ref, fh, data) → connectIn s e = some (ref, data, b, .ok) →
      t.broker.heap ref = b.heap ref →
      ConnectSets { s.broker.heap ref with time_last_packet := passTime s } data (t.broker.heap ref) →
      ActiveCase s e t fd ref
  /-- Another packet of it was handled without an error. -/
  | packet {fh : FixedHeader} {data : Bytes} : Active s fd ref →
      packetAt s e = some (fd, ref, fh, data) → connectIn s e = none →
      keptData (t.broker.heap ref) =
        keptData { s.broker.heap ref with time_last_packet := passTime s } →
      ActiveCase s e t fd ref

variable {s t : ServerThread} {fd : Fd} {ref : ClientRef}

/-- A step that neither adds a client nor scans a socket. -/
private theorem active_stays {e : SystemEvent} (hpacket : packetAt s e = none)
    (hlookup : t.broker.clients.lookup fd = some (some ref) →
      s.broker.clients.lookup fd = some (some ref))
    (hdel : fd ∈ toDelete s → t.broker.clients.lookup fd = some (some ref) → fd ∈ toDelete t)
    (hkept : keptData (t.broker.heap ref) = keptData (s.broker.heap ref))
    (h : Active t fd ref) : ActiveCase s e t fd ref := by
  refine .stays ⟨hlookup h.1, fun hmem => h.2 (hdel hmem h.1)⟩ (fun fd' fh data => ?_) hkept
  rw [hpacket]
  simp

/-- A packet that is handled leaves its client active: as before, or as its CONNECT has set it. -/
private theorem active_handled {add : Bool} {first : UInt8} {data random : Bytes}
    (hat : packetAt s (.server (.socket (.pollin add (.packet first data random)))) =
      some (fd, ref, ⟨first, data.length⟩, data)) (hactive : Active s fd ref)
    (hpacket : (touch s.broker ref (passTime s)).handlePacket ⟨first, data.length⟩ data fd random =
      .ok (t.broker, .ok)) :
    ActiveCase s (.server (.socket (.pollin add (.packet first data random)))) t fd ref := by
  by_cases htype : (FixedHeader.mk first data.length).getType = PackType.CONNECT.code
  · have hhandle : (touch s.broker ref (passTime s)).connectHandler data fd random =
        .ok (t.broker, .ok) :=
      (handlePacket_connect _ _ _ _ htype).symm.trans hpacket
    have hclient : (touch s.broker ref (passTime s)).clients.lookup fd = some (some ref) :=
      hactive.1
    obtain ⟨b₁, hconnect, hdoes⟩ := connectHandler_eq_ok hclient hhandle
    have hheap : t.broker.heap = b₁.heap := (eq_of_addCommands (hdoes.mono fun op hop => by
      obtain ⟨answer, rfl⟩ := hop
      exact ⟨fd, answer, rfl⟩)).2.1
    -- the CONNECT has been accepted
    have hsets := handleMqttConnect_sets hconnect
    rw [touch, heap_setClient_self, ← hheap] at hsets
    refine .connect hactive hat ?_ (congrFun hheap ref) hsets
    simp only [connectIn, hat, if_pos htype, hconnect]
  · -- any other packet leaves the data of its client
    have hkept := handlePacket_keptData htype hpacket ref
    rw [touch, heap_setClient_self] at hkept
    refine .packet hactive hat ?_ hkept
    simp only [connectIn, hat, if_neg htype]

/-- What a socket of the scan leaves active was active before, or has just been heard. -/
private theorem active_scan {client_num i : Nat} {now : Time} {fd_to_delete : List Fd} {fd₁ : Fd}
    {event : SocketEvent} {b : Broker} {next : ScanNext} (hown : OwnClients s.broker)
    (hpc : s.pc = .scan client_num i now fd_to_delete) (hat : socketAt s = some fd₁)
    (hscan : ScanCase s.broker fd₁ now event b next)
    (hlookup : b.clients.lookup fd = some (some ref) →
      s.broker.clients.lookup fd = some (some ref))
    (h : Active { s with
      broker := b, pc := afterSocket client_num i now fd_to_delete fd₁ next } fd ref) :
    ActiveCase s (.server (.socket event))
      { s with broker := b, pc := afterSocket client_num i now fd_to_delete fd₁ next } fd ref := by
  have hactive : Active s fd ref := by
    refine ⟨hlookup h.1, fun hmem => h.2 ?_⟩
    -- a mark stays until the scan is over
    simp only [toDelete, hpc] at hmem
    cases next with
    | keep | stop => exact hmem
    | delete => exact List.mem_append_left _ hmem
  by_cases hfd : fd = fd₁
  · -- the scan is at the socket of the client, and has not marked it
    subst hfd
    have hmarked : next ≠ .delete := by
      rintro rfl
      exact h.2 (List.mem_append_right _ (List.mem_singleton.mpr rfl))
    cases hscan with
    | handled hne hclient hpacket =>
      obtain rfl := Option.some.inj (Option.some.inj (hclient.symm.trans hactive.1))
      refine active_handled (packetAt_eq hat hclient hne) hactive ?_
      simpa only [passTime, hpc] using hpacket
    | add hcontrol | control hcontrol =>
      refine .stays hactive (fun fd' fh data => ?_) rfl
      rw [packetAt_control hat hcontrol]
      simp
    | alive =>
      refine .stays hactive (fun fd' fh data => ?_) rfl
      simp [packetAt]
    | headerError | short | refused | hangup | timeout => exact absurd rfl hmarked
  · -- another socket is scanned, and no two sockets have one client
    have hne : ∀ pClient, s.broker.clients.lookup fd₁ = some (some pClient) → ref ≠ pClient := by
      rintro pClient hclient rfl
      exact hfd (hown.inj hactive.1 hclient)
    refine .stays hactive (fun fd' fh data hpacket => ?_) (hscan.keptData hne)
    obtain ⟨hat', hclient⟩ := socketAt_of_packetAt hpacket
    obtain rfl := Option.some.inj (hat'.symm.trans hat)
    exact hne ref hclient rfl

/-- What a step of the server thread leaves active was active before, or has just been heard. -/
private theorem active_server {e : ServerEvent} (hown : OwnClients s.broker)
    (hlookup : t.broker.clients.lookup fd = some (some ref) →
      s.broker.clients.lookup fd = some (some ref))
    (h : Active t fd ref) (hcase : ServerCase s e t) : ActiveCase s (.server e) t fd ref := by
  have hstate : ∀ {b : Broker}, b = s.broker ∨ b = s.broker.setState .started →
      keptData (b.heap ref) = keptData (s.broker.heap ref) := by
    rintro b (rfl | rfl)
    · rfl
    · rfl
  cases hcase with
  | idle => exact active_stays rfl hlookup (fun hmem _ => hmem) rfl h
  | finished hpc | started hpc =>
    exact active_stays rfl hlookup (fun hmem _ => by simp [toDelete, hpc] at hmem) rfl h
  | wait hpc _ hb =>
    exact active_stays rfl hlookup (fun hmem _ => by simp [toDelete, hpc] at hmem) (hstate hb) h
  | @socket client_num i now fd_to_delete fd₁ event b next hpc hi hfd hscan =>
    -- only a socket that is looked at can be handled or marked
    have hat : socketAt s = some fd₁ := by simp only [socketAt, hpc, if_pos hi, hfd]
    exact active_scan hown hpc hat hscan hlookup h
  | scanEnd hpc _ hb =>
    exact active_stays rfl hlookup (fun hmem _ => by simpa [toDelete, hpc] using hmem) (hstate hb) h
  | @close it rest pClient hpc =>
    refine active_stays rfl hlookup (fun hmem hfd => ?_) rfl h
    have hmem' : fd ∈ it :: rest := by simpa only [toDelete, hpc] using hmem
    obtain rfl | hrest := List.mem_cons.mp hmem'
    · -- the connection that is closed is gone
      exact absurd rfl (lookup_closeConnection hfd).1
    · exact hrest
  | closed hpc =>
    exact active_stays rfl hlookup (fun hmem _ => by simp [toDelete, hpc] at hmem) rfl h

/-- A client is active behind a step because it was so before, because it is new, or because
    a packet of it was handled. -/
theorem active_cases {e : SystemEvent} (hscans : ScansOnce s) (hown : OwnClients s.broker)
    (hstep : system.Step s e t) (h : Active t fd ref) : ActiveCase s e t fd ref := by
  have hconn := system_connections hstep
  -- `AddClient` gives out references that were not in use
  by_cases hnew : s.broker.next_ref ≤ ref
  · obtain hold | ⟨hentry, hlt, ip, now, rfl⟩ := hconn.lookup h.1
    · exact absurd (hown.lt hold) (Nat.not_lt.mpr hnew)
    · obtain rfl := Option.some.inj hentry
      cases system_cases hstep
      exact .new hnew hlt (by rw [Broker.addClient, heap_setClient_self])
  · -- an older client was connected before
    have hlookup : t.broker.clients.lookup fd = some (some ref) →
        s.broker.clients.lookup fd = some (some ref) := by
      intro hfd
      obtain hold | ⟨hentry, -⟩ := hconn.lookup hfd
      · exact hold
      · obtain rfl := Option.some.inj hentry
        exact absurd (Nat.le_refl _) hnew
    cases system_cases hstep with
    | server hcase => exact active_server hown hlookup h hcase
    | addClient =>
      refine active_stays rfl hlookup (fun hmem _ => hmem) ?_ h
      exact congrArg keptData (heap_setClient_ne fun heq => hnew (Nat.le_of_eq heq.symm))
    | start hinit =>
      -- the thread that has ended marks no socket
      have hpc : s.pc = .returned := hscans.init hinit
      exact active_stays rfl hlookup (fun hmem _ => by simp [toDelete, hpc] at hmem) rfl h
    | qos hdoes =>
      exact active_stays rfl hlookup (fun hmem _ => hmem)
        (hdoes.keptData_eq (by simp) (by simp)) h
    | execute => exact active_stays rfl hlookup (fun hmem _ => hmem) rfl h
    | rehash hb => exact active_stays rfl hlookup (fun hmem _ => hmem) (by rw [hb.others]; rfl) h

end Mqtt.Spec
