import MqttBroker.Spec.HandsOut

/-!
# The subscribers are clients

`subscribed_clients` holds a weak pointer for a socket and never overwrites it, so it
follows `clients` only because whatever takes a socket out of one map takes it out of
the other. The broker is run here by its calls: connections are added and closed, and
packets are handled, in any order.
-/

namespace Mqtt.Spec

open Mqtt.Native Mqtt.Native.Broker

/-- A call of the broker. -/
inductive BrokerEvent where
  | addClient (sock : Fd) (ip : Bytes) (now : Time)
  | handlePacket (fh : FixedHeader) (data : Bytes) (fd : Fd) (random : Bytes)
  | closeConnection (fd : Fd)
  /-- Hash maps are ordered anew. -/
  | rehash

/-- The broker under any sequence of calls; packets are handled for sockets that are in
    `clients`. -/
def brokerCalls : LTS Broker BrokerEvent where
  Init b := ∃ control_sock, b = { control_sock }
  Step b e b' := match e with
    | .addClient sock ip now => b' = (b.addClient sock ip now).1
    | .handlePacket fh data fd random =>
      fd ∈ b.clients ∧ ∃ err, b.handlePacket fh data fd random = .ok (b', err)
    | .closeConnection fd => b' = b.closeConnection fd
    | .rehash => Rehashed b b'

/-! ## One call -/

/-- What the calls preserve. -/
structure MirrorInv (b : Broker) : Prop where
  connected : AllConnected b
  mirrors : SubscribersConnected b

/-- Fewer connections are all of clients as well. -/
theorem AllConnected.of_lookup {b b' : Broker} (h : AllConnected b)
    (hlookup : ∀ {fd entry}, b'.clients.lookup fd = some entry →
      b.clients.lookup fd = some entry) : AllConnected b' :=
  fun fd hnull => h fd (hlookup hnull)

/-- `AddClient` keeps the entries in step. -/
theorem MirrorInv.addClient {b : Broker} (h : MirrorInv b) (sock : Fd) (ip : Bytes) (now : Time) :
    MirrorInv (b.addClient sock ip now).1 := by
  have hcore : Core { broker := b } (.addClient sock ip now) b (b.addClient sock ip now).1 :=
    .addClient rfl
  refine ⟨fun fd hnull => ?_, h.mirrors.core rfl hcore⟩
  obtain hold | ⟨hnew, -⟩ := (hcore.connections rfl).lookup hnull
  · exact h.connected fd hold
  · cases hnew

/-- A rehash keeps the entries in step. -/
theorem MirrorInv.rehash {b b' : Broker} (h : MirrorInv b) (hb : Rehashed b b') :
    MirrorInv b' := by
  have hcore : Core { broker := b } .rehash b b' := .rehash hb
  refine ⟨fun fd hnull => h.connected fd ?_, h.mirrors.core rfl hcore⟩
  rwa [UnorderedMap.lookup_eq_of_reordered hb.clients]

/-- `CloseConnection` erases its socket from both maps. -/
theorem MirrorInv.closeConnection {b : Broker} (h : MirrorInv b) (fd : Fd) :
    MirrorInv (b.closeConnection fd) :=
  ⟨h.connected.of_lookup fun hfd => (lookup_closeConnection hfd).2, h.mirrors.closeConnection fd⟩

/-- A handler keeps the entries in step. -/
theorem MirrorInv.handlePacket {b b' : Broker} {fh : FixedHeader} {data : Bytes} {fd : Fd}
    {random : Bytes} {err : MqttErr} (h : MirrorInv b) (hfd : fd ∈ b.clients)
    (hpacket : b.handlePacket fh data fd random = .ok (b', err)) : MirrorInv b' := by
  obtain ⟨pClient, hclient⟩ := connected_of_mem h.connected hfd
  by_cases htype : fh.getType = PackType.CONNECT.code
  · -- a takeover may close a connection, be it that of the packet itself
    have hconnect : b.connectHandler data fd random = .ok (b', err) := by
      rwa [handlePacket_connect _ _ _ _ htype] at hpacket
    obtain ⟨b₁, heffect, hdoes⟩ := connectHandler_effect hclient hconnect
    constructor
    · refine h.connected.of_lookup fun hlookup => heffect.lookup ?_
      rwa [hdoes.clients_eq] at hlookup
    · refine (h.mirrors.connect heffect).does (hdoes.mono fun op hop => ?_)
      obtain ⟨answer, rfl⟩ := hop
      trivial
  · obtain heq | ⟨ref, href, hdoes⟩ := (handlePacket_does b fh data fd random htype).of_eq_ok hpacket
    · obtain rfl : b' = b := heq
      exact h
    · constructor
      · refine h.connected.of_lookup fun hlookup => ?_
        rwa [hdoes.clients_eq] at hlookup
      · exact h.mirrors.does (hdoes.mono fun _ => Serves.fromClients href)

/-- Every sequence of calls keeps the entries in step. -/
theorem mirrorInv_of_reachable {b : Broker} (h : brokerCalls.Reachable b) : MirrorInv b := by
  refine h.invariant (P := MirrorInv) ?_ ?_
  · rintro _ ⟨control_sock, rfl⟩
    constructor
    · intro fd hnull
      simp at hnull
    · intro fd ref hfd
      simp at hfd
  · intro b e b' hb hstep
    cases e with
    | addClient sock ip now =>
      obtain rfl : b' = _ := hstep
      exact hb.addClient sock ip now
    -- the packets come from connected clients
    | handlePacket fh data fd random =>
      obtain ⟨hfd, err, hpacket⟩ := hstep
      exact hb.handlePacket hfd hpacket
    | closeConnection fd =>
      obtain rfl : b' = _ := hstep
      exact hb.closeConnection fd
    | rehash => exact hb.rehash hstep

/-! ## Whom a topic is sent to -/

/-- A packet queued for a socket whose own client takes the topic. -/
def ForClientAt (b : Broker) (name : Bytes) (fd : Fd) : Prop :=
  ∃ ref options, b.clients.lookup fd = some (some ref) ∧
    (b.heap ref).checkWildCards name = .ok (true, options)

/-- Handing a packet out changes no subscription. -/
theorem HandOut.apply_subscribed_topics (b : Broker) (h : HandOut) (ref : ClientRef) :
    ((h.apply b).heap ref).subscribed_topics = (b.heap ref).subscribed_topics := by
  rw [HandOut.apply_heap, HandOut.number]
  split
  · rfl
  · apply heap_setClient_congr (f := Client.subscribed_topics)
    rfl

/-- `NotifyClients` queues packets for those sockets only whose own client takes the
    topic. -/
theorem notifyClients_to_clients {b b' : Broker} {topic topic' : MqttTopic}
    {released : Option (Bytes × UInt16)} (h : SubscribersConnected b)
    (hnotify : b.notifyClients topic released = .ok (b', topic')) :
    ∃ cmds, b'.commands = b.commands ++ cmds ∧ ∀ cmd ∈ cmds, ForClientAt b topic.name cmd.fd := by
  obtain ⟨hout, -, -⟩ := notifyClients_eq_ok hnotify
  have hpres := hout.preserves (R := fun b₁ =>
    (∀ ref, (b₁.heap ref).subscribed_topics = (b.heap ref).subscribed_topics) ∧
    ∃ cmds, b₁.commands = b.commands ++ cmds ∧ ∀ cmd ∈ cmds, ForClientAt b topic.name cmd.fd)
    ?_ ⟨fun _ => rfl, [], (List.append_nil _).symm, fun cmd hmem => by simp at hmem⟩
  · exact hpres.2
  · rintro b₁ out ⟨htopics, cmds, hcmds, hfor⟩ hnotifies
    refine ⟨fun ref => (HandOut.apply_subscribed_topics b₁ out ref).trans (htopics ref), ?_⟩
    refine ⟨cmds ++ if out.kept then [] else [⟨out.fd, out.packet⟩], ?_, fun cmd hmem => ?_⟩
    · rw [HandOut.apply_commands, hcmds, List.append_assoc]
    · obtain hmem | hmem := List.mem_append.mp hmem
      · exact hfor cmd hmem
      · have hfd : cmd.fd = out.fd := by
          cases hk : out.kept <;> simp [hk] at hmem
          rw [hmem]
        -- its client is the one the entry of `subscribed_clients` refers to
        obtain ⟨options, hmatch, -⟩ := hnotifies.matched
        refine ⟨out.client, options, ?_, ?_⟩
        · rw [hfd]
          exact h _ _ (UnorderedMap.mem_toList_iff.mp hnotifies.entry)
        · rwa [Client.checkWildCards, htopics] at hmatch

/-- In every state the calls lead to `subscribed_clients` mirrors `clients`, and so a
    topic is sent to a socket only for the client that is connected there. -/
theorem subscribed_clients_mirror {b : Broker} (h : brokerCalls.Reachable b) :
    (∀ fd ref, b.subscribed_clients.lookup fd = some ref →
      b.clients.lookup fd = some (some ref)) ∧
    ∀ topic released b' topic', b.notifyClients topic released = .ok (b', topic') →
      ∃ cmds, b'.commands = b.commands ++ cmds ∧
        ∀ cmd ∈ cmds, ForClientAt b topic.name cmd.fd := by
  have hmirrors := (mirrorInv_of_reachable h).mirrors
  exact ⟨hmirrors, fun topic released b' topic' hnotify =>
    notifyClients_to_clients hmirrors hnotify⟩

/-- One call, when it is possible; no hash map is ordered anew. -/
def runCall (b : Broker) : BrokerEvent → Option Broker
  | .addClient sock ip now => some (b.addClient sock ip now).1
  | .handlePacket fh data fd random =>
    if fd ∈ b.clients then (b.handlePacket fh data fd random).toOption.map Prod.fst else none
  | .closeConnection fd => some (b.closeConnection fd)
  | .rehash => none

theorem step_of_runCall {b b' : Broker} {e : BrokerEvent} (h : runCall b e = some b') :
    brokerCalls.Step b e b' := by
  cases e with
  | addClient | closeConnection => exact (Option.some.inj h).symm
  | handlePacket fh data fd random =>
    obtain ⟨hmem, hhandled⟩ := Option.ite_none_right_eq_some.mp h
    obtain ⟨⟨b₁, err⟩, hresult, rfl⟩ := Option.map_eq_some_iff.mp hhandled
    refine ⟨hmem, err, ?_⟩
    -- a fault is no step
    cases hpacket : b.handlePacket fh data fd random with
    | error fault => simp [hpacket, Except.toOption] at hresult
    | ok r =>
      obtain rfl := Option.some.inj (hpacket ▸ hresult)
      rfl
  | rehash => cases h

/-- The client on socket 5 subscribes to `t` and its connection is closed; the next client on
    the socket subscribes to `u`. -/
def reusedSocket : List BrokerEvent :=
  [.addClient 5 [] 0, .handlePacket ⟨0x82, 7⟩ [0, 1, 0, 0, 1, 0x74, 1] 5 [], .closeConnection 5,
    .addClient 5 [] 1, .handlePacket ⟨0x82, 7⟩ [0, 1, 0, 0, 1, 0x75, 1] 5 []]

/-- Of the two clients that subscribed on socket 5 the entry is that of the second one, which
    is connected. -/
theorem subscribed_clients_mirror_reused : ∃ b, brokerCalls.Reachable b ∧
    (b.heap 0).subscribed_topics.lookup [0x74] = some 1 ∧
    (b.heap 1).subscribed_topics.lookup [0x75] = some 1 ∧
    b.subscribed_clients.lookup 5 = some 1 ∧ b.clients.lookup 5 = some (some 1) ∧
    ∀ topic released b' topic', b.notifyClients topic released = .ok (b', topic') →
      ∃ cmds, b'.commands = b.commands ++ cmds ∧
        ∀ cmd ∈ cmds, ForClientAt b topic.name cmd.fd := by
  have hrun : (reusedSocket.foldlM runCall { control_sock := 4 }).map (fun b =>
      ((b.heap 0).subscribed_topics.lookup [0x74], (b.heap 1).subscribed_topics.lookup [0x75],
        b.subscribed_clients.lookup 5)) = some (some 1, some 1, some 1) := by decide +kernel
  obtain ⟨b, hb, hfinal⟩ := Option.map_eq_some_iff.mp hrun
  obtain ⟨hfirst, hsecond, hentry⟩ := by simpa only [Prod.mk.injEq] using hfinal
  have hreach : brokerCalls.Reachable b := ⟨_, _, ⟨4, rfl⟩, LTS.run_of_foldlM step_of_runCall hb⟩
  have hmirror := subscribed_clients_mirror hreach
  exact ⟨b, hreach, hfirst, hsecond, hentry, hmirror.1 5 1 hentry, hmirror.2⟩

end Mqtt.Spec
