import MqttBroker.Native.ServerThread
import MqttBroker.Spec.PacketStep

/-!
# One socket of the scan

What the body of the scan in `wait_state` does to the broker, for every event
`poll` and `read` can come up with. All invariants of the server thread are
derived from this one statement.
-/

namespace Mqtt.Spec

open Mqtt.Native Mqtt.Native.Broker

/-- The socket has a packet to read. -/
def HasPacket (event : SocketEvent) (fh : FixedHeader) (data : Bytes) : Prop :=
  ∃ add random, event = .pollin add (.packet fh.first data random) ∧ fh.remaining_len = data.length

/-- A CONNECT is read that takes a connection over. -/
def ReadsTakeover (b : Broker) (fd : Fd) (event : SocketEvent) : Prop :=
  ∃ fh data, HasPacket event fh data ∧ fh.getType = PackType.CONNECT.code ∧ TakesOverAt b fd data

/-- A QoS 2 PUBLISH is read. -/
def ReadsPublish (b : Broker) (fd : Fd) (event : SocketEvent) (client_id : Bytes)
    (topic : MqttTopic) : Prop :=
  ∃ fh data, HasPacket event fh data ∧ Publishes b fh data fd client_id topic

/-- What the scan does to the broker at one socket. -/
structure ScanStep (event : SocketEvent) (fd : Fd) (b b' : Broker) : Prop where
  state : b'.state = b.state ∨ b'.state = .started
  control_sock : b'.control_sock = b.control_sock
  empty : StaysEmpty b b'
  inbound : SameInbound b b' ∨
    (∃ client_id topic, ReadsPublish b fd event client_id topic ∧
      Receives b b' client_id topic) ∨
    ∃ client_id packet_id, Releases b b' client_id packet_id
  clients : ¬ ReadsTakeover b fd event → b'.clients = b.clients

/-- A quiet step is a step of the scan. -/
theorem Quiet.scanStep {event : SocketEvent} {fd : Fd} {b b' : Broker} (h : Quiet b b') :
    ScanStep event fd b b' :=
  ⟨.inl h.server.state, h.server.control_sock, h.empty, .inl h.inbound, fun _ => h.server.clients⟩

/-- A step of the scan may be followed by a quiet one. -/
theorem ScanStep.trans_quiet {event : SocketEvent} {fd : Fd} {b b' b'' : Broker}
    (h : ScanStep event fd b b') (h' : Quiet b' b'') : ScanStep event fd b b'' where
  state := by rw [h'.server.state]; exact h.state
  control_sock := h'.server.control_sock.trans h.control_sock
  empty := h'.empty ∘ h.empty
  clients hnot := h'.server.clients.trans (h.clients hnot)
  inbound := by
    obtain hs | ⟨c, t, hr, hs⟩ | ⟨c, p, hs⟩ := h.inbound
    · exact .inl (hs.trans h'.inbound)
    · exact .inr (.inl ⟨c, t, hr, h'.inbound.stored.trans hs.topics,
        h'.inbound.history.trans hs.history⟩)
    · exact .inr (.inr ⟨c, p, h'.inbound.stored.trans hs.topics,
        h'.inbound.history.trans hs.history⟩)

/-- Noting the time of a packet changes nothing a packet depends on. -/
private theorem packetStep_of_touched {b b' : Broker} {fd : Fd} {ref : ClientRef} {time : Time}
    {fh : FixedHeader} {data : Bytes} {event : SocketEvent}
    (hclient : b.clients.lookup fd = some (some ref)) (hevent : HasPacket event fh data)
    (h : PacketStep fh data fd
      (b.setClient ref { b.heap ref with time_last_packet := time }) b') :
    ScanStep event fd b b' := by
  have hq : Quiet b (b.setClient ref { b.heap ref with time_last_packet := time }) :=
    .setClient rfl
  refine ⟨.inl h.state, h.control_sock, fun he => h.empty (hq.empty he), ?_, fun hnot => ?_⟩
  · obtain hs | ⟨c, t, ⟨htype, hqos, pClient, vh, message, hread, hclient', rfl, rfl⟩, hs⟩ |
      ⟨c, p, hs⟩ := h.inbound
    · exact .inl (hq.inbound.trans hs)
    · refine .inr (.inl ⟨_, _, ⟨fh, data, hevent, htype, hqos, pClient, vh, message, hread, hclient',
        hq.client_id pClient, rfl⟩, ?_, ?_⟩)
      · exact hs.topics
      · exact hs.history
    · exact .inr (.inr ⟨c, p, hs.topics, hs.history⟩)
  · -- the time of its last packet is no part of what a CONNECT looks up
    refine (h.clients ⟨ref, hclient⟩ fun ⟨htype, pClient, hclient', ht⟩ => hnot ?_).trans rfl
    obtain rfl : pClient = ref := by simpa [setClient, hclient, eq_comm] using hclient'
    obtain ⟨con_vh, offset, created, id, id_len, hread, hversion, hclean, hcreate, hok, hid,
      huse⟩ := ht
    rw [heap_setClient_self] at hcreate
    exact ⟨fh, data, hevent, htype, pClient, hclient, con_vh, offset, created, id, id_len, hread,
      hversion, hclean, hcreate, hok, hid, huse.of_quiet hq⟩

/-- Reading from a client is a step of the scan. -/
theorem readClient_step (b : Broker) (fd : Fd) (current_time : Time) (add : Bool)
    (input : ClientInput) :
    (b.readClient fd current_time input).Sat
      (fun r => ScanStep (.pollin add input) fd b r.1 ∧ Connected b fd) (FaultOn b fd) := by
  unfold readClient
  apply ((sat_derefAt b fd).mono (fun _ h => h) fun _ he => he.faultOn).bind
  rintro ⟨b₀, pClient⟩ ⟨rfl, hclient⟩
  dsimp only
  generalize hb₁ : b₀.setClient pClient _ = b₁
  have hq₁ : Quiet b₀ b₁ := hb₁ ▸ .setClient rfl
  cases input with
  | headerError =>
    apply ((does_sendWill b₁ pClient fd).mono (fun _ h => h)
      fun _ he => (he.of_server hq₁.server).faultOn).bind
    exact fun b₂ hb₂ => ⟨(hq₁.trans (hb₂.quiet fun _ => isQuiet_of_sendsWill)).scanStep, pClient,
      hclient⟩
  | short => exact ⟨hq₁.scanStep, pClient, hclient⟩
  | packet first data random =>
    have hfault : ∀ {e : Fault}, FaultOn b₁ fd e → FaultOn b₀ fd e := by
      intro e he
      rwa [FaultOn, Connected, AllConnected, hq₁.server.clients] at he
    apply ((handlePacket_step b₁ ⟨first, data.length⟩ data fd random).mono (fun _ h => h)
      fun _ he => hfault he).bind
    rintro ⟨b₂, handle_stat⟩ hb₂
    subst hb₁
    have hstep : ScanStep (.pollin add (.packet first data random)) fd b₀ b₂ :=
      packetStep_of_touched hclient ⟨add, random, rfl, rfl⟩ hb₂
    dsimp only
    -- an error of the handler is answered
    split
    · apply (quiet_handleError b₂ handle_stat fd faultOn_of_ne).bind
      exact fun b₃ hb₃ => ⟨hstep.trans_quiet hb₃, pClient, hclient⟩
    · exact ⟨hstep, pClient, hclient⟩

/-- Looking at the time of a client is quiet. -/
theorem checkTimeout_step (b : Broker) (fd : Fd) (current_time : Time) :
    (b.checkTimeout fd current_time).Sat (fun r => Quiet b r.1 ∧ Connected b fd)
      (FaultAt b fd) := by
  unfold checkTimeout
  apply (sat_derefAt b fd).bind
  rintro ⟨b₀, pClient⟩ ⟨rfl, hclient⟩
  dsimp only
  split
  · apply NeverNull.sat_bind (by simp) faultAt_of_ne
    intro answer _
    have hd : Does (SendsWill pClient) b₀ (b₀.addCommand fd answer) := .addCommand _ _ trivial
    apply (hd.sat (does_sendWill _ pClient fd)).bind
    exact fun b₁ hb₁ => ⟨hb₁.quiet fun _ => isQuiet_of_sendsWill, pClient, hclient⟩
  · exact ⟨.refl b₀, pClient, hclient⟩

/-- The control socket is a listening socket that stays open: `poll` reports input
    for it or nothing. -/
def Possible (b : Broker) (fd : Fd) (event : SocketEvent) : Prop :=
  fd = b.control_sock → event ≠ .hangup

/-- What the scan does to the broker at one socket, where it has a client unless it
    is the control socket. -/
theorem scanSocket_step (b : Broker) (fd : Fd) (current_time : Time) (event : SocketEvent) :
    (b.scanSocket fd current_time event).Sat
      (fun r => ScanStep event fd b r.1 ∧ (r.2 = .delete → Connected b fd))
      (fun e => e = .nullClient → AllConnected b → Possible b fd event →
        ¬ (Connected b fd ∨ fd = b.control_sock)) := by
  -- a socket is closed only where a client was found
  have hdelete : ∀ {x : Exec (Broker × ScanNext)},
      x.Sat (fun r => ScanStep event fd b r.1 ∧ Connected b fd) (FaultOn b fd) →
      (fd = b.control_sock → event = .hangup) → x.Sat
        (fun r => ScanStep event fd b r.1 ∧ (r.2 = .delete → Connected b fd))
        (fun e => e = .nullClient → AllConnected b → Possible b fd event →
          ¬ (Connected b fd ∨ fd = b.control_sock)) := by
    intro x hx hcontrol
    refine hx.mono (fun _ h => ⟨h.1, fun _ => h.2⟩) fun e he hnull hall hpos => ?_
    rintro (hc | hc)
    · exact he hnull hc hall
    · exact hpos hc (hcontrol hc)
  unfold scanSocket
  cases event with
  | pollin add input =>
    dsimp only
    split
    · split
      · -- a client is waited for on the control socket
        exact ⟨⟨.inr rfl, rfl, fun h => h, .inl ⟨rfl, rfl⟩, fun _ => rfl⟩, nofun⟩
      · exact ⟨(Quiet.refl b).scanStep, nofun⟩
    · rename_i hne
      exact hdelete (readClient_step b fd current_time add input) fun h => absurd h hne
  | hangup =>
    apply hdelete _ fun _ => rfl
    apply ((sat_derefAt b fd).mono (fun _ h => h) fun _ he => he.faultOn).bind
    rintro ⟨b₀, pClient⟩ ⟨rfl, hclient⟩
    apply ((does_sendWill b₀ pClient fd).mono (fun _ h => h) fun _ he => he.faultOn).bind
    exact fun b₁ hb₁ => ⟨(hb₁.quiet fun _ => isQuiet_of_sendsWill).scanStep, pClient, hclient⟩
  | idle =>
    dsimp only
    split
    · rename_i hne
      exact hdelete ((checkTimeout_step b fd current_time).mono
        (fun _ h => ⟨h.1.scanStep, h.2⟩) fun _ he => he.faultOn) fun h => absurd h hne
    · exact ⟨(Quiet.refl b).scanStep, nofun⟩

end Mqtt.Spec
