import MqttBroker.Spec.ActiveClients

/-!
# A will that is sent is complete

`HandleMqttConnect` sets the Will Flag of a client before it reads the will, and several
errors can come in between. The client then has the flag with the will of an older CONNECT,
or with none; that no such will is sent hangs on the removal of the client at the end of the
same pass. What the last CONNECT of a client has left is a history variable of the system.
-/

namespace Mqtt.Spec

open Mqtt.Native Mqtt.Native.Broker

/-! ## What is noted -/

/-- The last CONNECT of a client. -/
structure LastConnect where
  data : Bytes
  /-- What `HandleMqttConnect` has returned. -/
  stat : MqttErr
  /-- The will it has left in the client. -/
  will_topic : MqttTopic
deriving DecidableEq

/-- What a step notes. -/
def noteConnect (s : ServerThread) (e : SystemEvent) (_ : ServerThread)
    (history : ClientRef → Option LastConnect) : ClientRef → Option LastConnect :=
  match connectIn s e with
  | some (ref, data, b, stat) =>
    Function.update history ref (some ⟨data, stat, (b.heap ref).will_topic⟩)
  | none => history

/-- The system with the last CONNECT of its clients. -/
def connectSystem : LTS (ServerThread × (ClientRef → Option LastConnect)) SystemEvent :=
  system.observe noteConnect fun _ => none

/-- A will that the last CONNECT of a client has set, which was accepted. -/
structure CompleteWill (topic : MqttTopic) (last : Option LastConnect) : Prop where
  set : ∃ data, last = some ⟨data, .ok, topic⟩ ∧ WillIn data topic
  data : topic.getPtr ≠ none
  qos : topic.qos ≤ 2

/-- Every will that is sent is complete. -/
structure WillsComplete (x : ServerThread × (ClientRef → Option LastConnect)) : Prop where
  /-- Outside of packets the thread calls `NotifyClients` with the will of a client that has
      the Will Flag, and the will is complete. -/
  called : ∀ e y calls topic, connectSystem.Step x (.server e) y → packetAt x.1 (.server e) = none →
    y.1.broker.calls = x.1.broker.calls ++ calls → Call.notifyClients none topic ∈ calls →
    ∃ fd ref, scannedClient x.1 = some (fd, ref) ∧ (x.1.broker.heap ref).isWillFlag ∧
      topic = (x.1.broker.heap ref).will_topic ∧ CompleteWill topic (x.2 ref)
  /-- The will of every client that the scan is at is complete, so it is whether or not the
      call returns. -/
  scanned : ∀ fd ref, scannedClient x.1 = some (fd, ref) → (x.1.broker.heap ref).isWillFlag →
    CompleteWill (x.1.broker.heap ref).will_topic (x.2 ref)
  /-- Between two passes no client is left whose last CONNECT has failed. -/
  removed : x.1.pc = .loop → ∀ fd ref last, x.1.broker.clients.lookup fd = some (some ref) →
    x.2 ref = some last → last.stat = .ok

/-! ## The invariant -/

/-- The last CONNECT of a client was accepted, and its will is complete. -/
structure Accepted (c : Client) (last : Option LastConnect) : Prop where
  stat : ∀ l, last = some l → l.stat = .ok
  will : c.isWillFlag → CompleteWill c.will_topic last

/-- What a CONNECT set is seen in the flags and the will. -/
theorem Accepted.congr {c c' : Client} {last : Option LastConnect} (h : Accepted c last)
    (hflags : c'.flags = c.flags) (htopic : c'.will_topic = c.will_topic) : Accepted c' last := by
  refine ⟨h.stat, fun hflag => ?_⟩
  rw [htopic]
  exact h.will (by rwa [Client.isWillFlag, ← hflags])

/-- Every client that is left in has been accepted, or has sent no CONNECT. -/
structure ConnectInv (x : ServerThread × (ClientRef → Option LastConnect)) : Prop where
  scans : ScansOnce x.1
  own : OwnClients x.1.broker
  fresh : ∀ ref, x.1.broker.next_ref ≤ ref → x.2 ref = none
  active : ∀ fd ref, Active x.1 fd ref → Accepted (x.1.broker.heap ref) (x.2 ref)

/-- The constructor of `MqttTopic` bounds the QoS. -/
theorem WillIn.completeWill {data : Bytes} {topic : MqttTopic} (h : WillIn data topic) :
    CompleteWill topic (some ⟨data, .ok, topic⟩) := by
  refine ⟨⟨data, rfl, h⟩, ?_, ?_⟩
  · obtain ⟨_, _, _, _, _, _, _, -, -, -, -, -, rfl⟩ := h
    simp [MqttTopic.getPtr, MqttTopic.new]
  · obtain ⟨_, _, _, _, _, _, _, -, -, -, -, -, rfl⟩ := h
    simp only [MqttTopic.new]
    split
    · decide
    · rename_i hqos
      exact UInt8.not_lt.mp hqos

/-- Where no CONNECT of a client is handled, its history stays. -/
theorem noteConnect_of_ne {s t : ServerThread} {e : SystemEvent} {ref : ClientRef}
    {history : ClientRef → Option LastConnect}
    (h : ∀ fd fh data, packetAt s e ≠ some (fd, ref, fh, data)) :
    noteConnect s e t history ref = history ref := by
  cases hconnect : connectIn s e with
  | none => simp only [noteConnect, hconnect]
  | some r =>
    obtain ⟨ref', data, b, stat⟩ := r
    obtain ⟨fd, fh, hpacket⟩ := packetAt_of_connectIn hconnect
    simp only [noteConnect, hconnect]
    refine Function.update_of_ne ?_ _ _
    rintro rfl
    exact h fd fh data hpacket

/-- Each step keeps the clients as their last accepted CONNECT left them. -/
theorem ConnectInv.step {s t : ServerThread} {e : SystemEvent}
    {history : ClientRef → Option LastConnect} (h : ConnectInv (s, history))
    (hnew : NewDescriptor s e) (hstep : system.Step s e t) :
    ConnectInv (t, noteConnect s e t history) := by
  have hconn := system_connections hstep
  -- a packet is read from a client that is there
  have hfresh : ∀ ref, s.broker.next_ref ≤ ref → noteConnect s e t history ref = none := by
    intro ref href
    rw [noteConnect_of_ne fun fd fh data hpacket => ?_]
    · exact h.fresh ref href
    · exact absurd (h.own.lt (socketAt_of_packetAt hpacket).2) (Nat.not_lt.mpr href)
  refine ⟨h.scans.step hnew hstep, h.own.step hconn,
    fun ref href => hfresh ref (Nat.le_trans hconn.next_ref href), fun fd ref hactive => ?_⟩
  show Accepted (t.broker.heap ref) (noteConnect s e t history ref)
  cases active_cases h.scans h.own hstep hactive with
  | stays hbefore hother hkept =>
    obtain ⟨hflags, htopic, -⟩ := of_keptData hkept
    rw [noteConnect_of_ne hother]
    exact (h.active fd ref hbefore).congr hflags htopic
  | new href _ hflags =>
    rw [hfresh ref href]
    refine ⟨by simp, fun hflag => ?_⟩
    simp [Client.isWillFlag, hflags] at hflag
  | @connect fh data b _ _ hconnect hheap hsets =>
    -- what is noted is what the accepted CONNECT has set
    have hnoted : noteConnect s e t history ref =
        some ⟨data, .ok, (t.broker.heap ref).will_topic⟩ := by
      simp only [noteConnect, hconnect, Function.update_self, hheap]
    rw [hnoted]
    refine ⟨fun last hlast => ?_, fun hflag => (hsets.will hflag).completeWill⟩
    rw [← Option.some.inj hlast]
  | packet hbefore _ hconnect hkept =>
    obtain ⟨hflags, htopic, -⟩ := of_keptData hkept
    have hsame : noteConnect s e t history ref = history ref := by
      simp only [noteConnect, hconnect]
    rw [hsame]
    exact (h.active fd ref hbefore).congr hflags htopic

/-- `ConnectInv` holds in every run in which accepted sockets are new. -/
theorem connectInv_of_reachable {x : ServerThread × (ClientRef → Option LastConnect)}
    (h : (connectSystem.restrict fun x e => NewDescriptor x.1 e).Reachable x) : ConnectInv x := by
  refine h.observe_restrict_invariant (P := fun s history => ConnectInv (s, history)) ?_
    fun hs hnew hstep => hs.step hnew hstep
  intro s hs
  exact ⟨scansOnce_of_init hs, ownClients_of_reachable (.init hs), fun _ _ => rfl,
    fun fd ref hfd => absurd hfd (not_active_of_init hs)⟩

/-! ## The calls -/

/-- The calls of a step are those of its broker. -/
private theorem calls_eq_nil {b b' : Broker} {calls : List Call} (h : b'.calls = b.calls ++ calls)
    (hsame : b'.calls = b.calls) : calls = [] :=
  List.append_right_eq_self.mp (h.symm.trans hsame)

/-- `NotifyClients` is called for a client with the Will Flag, with its will. -/
theorem notifyClients_of_sendWill {b b' : Broker} {pClient : ClientRef} {calls : List Call}
    {topic : MqttTopic} (h : b.sendWill pClient = .ok b') (hcalls : b'.calls = b.calls ++ calls)
    (hmem : Call.notifyClients none topic ∈ calls) :
    (b.heap pClient).isWillFlag ∧ topic = (b.heap pClient).will_topic := by
  -- the call comes first, and then PUBLISH packets only
  obtain ⟨rfl, -⟩ | ⟨hflag, sent, happend, hsends⟩ := sendWill_calls h
  · rw [calls_eq_nil hcalls rfl] at hmem
    simp at hmem
  · rw [hcalls] at happend
    rw [List.append_cancel_left happend] at hmem
    obtain heq | hmem := List.mem_cons.mp hmem
    · exact ⟨hflag, (Call.notifyClients.inj heq).2⟩
    · exact absurd (hsends _ hmem) not_false

/-- Outside of packets the scan calls `NotifyClients` for the client it is at. -/
theorem ScanCase.notifyClients {s : ServerThread} {fd : Fd} {now : Time} {event : SocketEvent}
    {b : Broker} {next : ScanNext} {calls : List Call} {topic : MqttTopic}
    (h : ScanCase s.broker fd now event b next) (hat : socketAt s = some fd)
    (hpacket : packetAt s (.server (.socket event)) = none)
    (hcalls : b.calls = s.broker.calls ++ calls) (hmem : Call.notifyClients none topic ∈ calls) :
    ∃ fd ref, scannedClient s = some (fd, ref) ∧ (s.broker.heap ref).isWillFlag ∧
      topic = (s.broker.heap ref).will_topic := by
  have hnone : b.calls ≠ s.broker.calls := by
    intro hsame
    rw [calls_eq_nil hcalls hsame] at hmem
    simp at hmem
  cases h with
  -- nothing is published here
  | add | control | short | alive => exact absurd rfl hnone
  | @headerError add pClient b' _ hclient hsend =>
    have hcalls' : b.calls = (touch s.broker pClient now).calls ++ calls := hcalls
    have hwill := notifyClients_of_sendWill hsend hcalls' hmem
    rw [Spec.touch, heap_setClient_self] at hwill
    exact ⟨fd, pClient, scannedClient_eq hat hclient, hwill⟩
  | @hangup pClient b' hclient hsend =>
    exact ⟨fd, pClient, scannedClient_eq hat hclient,
      notifyClients_of_sendWill hsend hcalls hmem⟩
  | @timeout pClient answer b' _ hclient hsend =>
    have hcalls' : b.calls = (s.broker.addCommand fd answer).calls ++ calls := hcalls
    have hwill := notifyClients_of_sendWill hsend hcalls' hmem
    exact ⟨fd, pClient, scannedClient_eq hat hclient, hwill⟩
  | handled hne hclient | refused hne hclient =>
    -- these are packets
    rw [packetAt_eq hat hclient hne] at hpacket
    cases hpacket

/-- Wills are then published as the CONNECT said. -/
theorem ConnectInv.willsComplete {x : ServerThread × (ClientRef → Option LastConnect)}
    (h : ConnectInv x) : WillsComplete x := by
  have hscanned : ∀ fd ref, scannedClient x.1 = some (fd, ref) →
      (x.1.broker.heap ref).isWillFlag → CompleteWill (x.1.broker.heap ref).will_topic (x.2 ref) := by
    intro fd ref hscanned hflag
    obtain ⟨hat, hclient⟩ := scannedClient_eq_some hscanned
    exact (h.active fd ref ⟨hclient, h.scans.notMem hat⟩).will hflag
  refine ⟨fun e y calls topic hstep hpacket hcalls hmem => ?_, hscanned,
    fun hpc fd ref last hclient => ?_⟩
  · have hnone : y.1.broker.calls ≠ x.1.broker.calls := by
      intro hsame
      rw [calls_eq_nil hcalls hsame] at hmem
      simp at hmem
    obtain ⟨y, history⟩ := y
    cases system_cases hstep.1 with
    | server hcase =>
      cases hcase with
      | idle | finished | started | close | closed => exact absurd rfl hnone
      | wait _ _ hb | scanEnd _ _ hb =>
        obtain rfl | rfl := hb
        · exact absurd rfl hnone
        · exact absurd rfl hnone
      -- a socket without a packet: its header, a hang-up, or a time that has run out
      | @socket client_num i now fd_to_delete fd event b next hpc hi hfd hscan =>
        have hat : socketAt x.1 = some fd := by simp only [socketAt, hpc, if_pos hi, hfd]
        obtain ⟨fd, ref, hat, hflag, rfl⟩ := hscan.notifyClients hat hpacket hcalls hmem
        exact ⟨fd, ref, hat, hflag, rfl, hscanned fd ref hat hflag⟩
  · -- between two passes no socket is marked, so every client is active
    have hdel : toDelete x.1 = [] := by rw [toDelete, hpc]
    exact (h.active fd ref ⟨hclient, by rw [hdel]; exact List.not_mem_nil⟩).stat last

/-- In every run the will that `NotifyClients` is called with is the one that the last
    CONNECT of the client has set, which was accepted; it has a message and a QoS of at most
    two. A client whose CONNECT has failed is gone when the next pass begins. -/
theorem will_sent_complete {x : ServerThread × (ClientRef → Option LastConnect)}
    (h : (connectSystem.restrict fun x e => NewDescriptor x.1 e).Reachable x) :
    WillsComplete x :=
  (connectInv_of_reachable h).willsComplete

/-! ## Runs -/

/-- A step of the system, with the last CONNECT of its clients. -/
def connectStep (x : ServerThread × (ClientRef → Option LastConnect)) (e : SystemEvent) :
    Option (ServerThread × (ClientRef → Option LastConnect)) :=
  (systemStep x.1 e).map fun t => (t, noteConnect x.1 e t x.2)

theorem step_of_connectStep {x y : ServerThread × (ClientRef → Option LastConnect)}
    {e : SystemEvent} (h : connectStep x e = some y) : connectSystem.Step x e y :=
  LTS.observe_step_of_map step_of_systemStep h

/-- A client connects with a will whose QoS is 3 in the flags and 0 in the topic, and the next
    pass begins. -/
def connectedQoS3 : List SystemEvent :=
  [.addClient 5 [] 0, .start, .server (.round false 0)] ++ pass 0x10 (connectWill 0x1C) ++
    [.server (.round false 0)]

/-- The CONNECT with both QoS bits of its will set, as the broker took it. -/
def lastConnectQoS3 : LastConnect :=
  ⟨connectWill 0x1C, .ok, ⟨0, 1, [0x77], some payloadX⟩⟩

/-- When the client hangs up, its will is complete. -/
theorem will_sent_complete_qos3 : ∃ x,
    (connectSystem.restrict fun x e => NewDescriptor x.1 e).Reachable x ∧
    scannedClient x.1 = some (5, 0) ∧ (x.1.broker.heap 0).isWillFlag ∧
    x.2 0 = some lastConnectQoS3 ∧ WillsComplete x := by
  have hrun : (connectedQoS3.foldlM
      (fun x e => if NewDescriptor x.1 e then connectStep x e else none)
      (fromStart, fun _ => none)).map (fun x => decide (scannedClient x.1 = some (5, 0)) &&
        ((x.1.broker.heap 0).isWillFlag && decide (x.2 0 = some lastConnectQoS3))) =
          some true := by
    decide +kernel
  obtain ⟨x, hx, hcheck⟩ := Option.map_eq_some_iff.mp hrun
  have hreach : (connectSystem.restrict fun x e => NewDescriptor x.1 e).Reachable x := by
    refine ⟨(fromStart, fun _ => none), _, ⟨⟨4, rfl⟩, rfl⟩,
      LTS.run_of_foldlM (fun {x e y} hstep => ?_) hx⟩
    obtain ⟨hnew, hstep⟩ := Option.ite_none_right_eq_some.mp hstep
    exact ⟨hnew, step_of_connectStep hstep⟩
  simp only [Bool.and_eq_true, decide_eq_true_eq] at hcheck
  exact ⟨x, hreach, hcheck.1, hcheck.2.1, hcheck.2.2, will_sent_complete hreach⟩

end Mqtt.Spec
