import MqttBroker.Spec.System
import MqttBroker.Spec.ConnectEffect

/-!
# Steps, read off their labels

One inductive predicate for each level of a step: what the scan does at a socket,
what the server thread does, what the system does. A constructor names where the
step was taken and what it did; no proof about the system unfolds a step again.
-/

namespace Mqtt.Spec

open Mqtt.Native Mqtt.Native.Broker

/-! ## One socket -/

/-- The broker with the time of a packet noted at a client. -/
abbrev touch (b : Broker) (pClient : ClientRef) (current_time : Time) : Broker :=
  b.setClient pClient { b.heap pClient with time_last_packet := current_time }

/-- What the scan does at a socket, for what `poll` and `read` report. -/
inductive ScanCase (b : Broker) (fd : Fd) (current_time : Time) :
    SocketEvent → Broker → ScanNext → Prop
  /-- The control command `ADD`. -/
  | add {input : ClientInput} : fd = b.control_sock →
      ScanCase b fd current_time (.pollin true input) (b.setState .started) .stop
  /-- Any other control command, or none. -/
  | control {event : SocketEvent} : fd = b.control_sock → event ≠ .hangup →
      ScanCase b fd current_time event b .keep
  | headerError {add : Bool} {pClient : ClientRef} {b' : Broker} : fd ≠ b.control_sock →
      b.clients.lookup fd = some (some pClient) →
      (touch b pClient current_time).sendWill pClient = .ok b' →
      ScanCase b fd current_time (.pollin add .headerError) b' .delete
  | short {add : Bool} {pClient : ClientRef} : fd ≠ b.control_sock →
      b.clients.lookup fd = some (some pClient) →
      ScanCase b fd current_time (.pollin add .short) (touch b pClient current_time) .delete
  | handled {add : Bool} {first : UInt8} {data random : Bytes} {pClient : ClientRef} {b' : Broker} :
      fd ≠ b.control_sock → b.clients.lookup fd = some (some pClient) →
      (touch b pClient current_time).handlePacket ⟨first, data.length⟩ data fd random =
        .ok (b', .ok) →
      ScanCase b fd current_time (.pollin add (.packet first data random)) b' .keep
  | refused {add : Bool} {first : UInt8} {data random : Bytes} {pClient : ClientRef}
      {b₁ b' : Broker} {handle_stat : MqttErr} : fd ≠ b.control_sock →
      b.clients.lookup fd = some (some pClient) →
      (touch b pClient current_time).handlePacket ⟨first, data.length⟩ data fd random =
        .ok (b₁, handle_stat) → handle_stat ≠ .ok → b₁.handleError handle_stat fd = .ok b' →
      ScanCase b fd current_time (.pollin add (.packet first data random)) b' .delete
  | hangup {pClient : ClientRef} {b' : Broker} : b.clients.lookup fd = some (some pClient) →
      b.sendWill pClient = .ok b' → ScanCase b fd current_time .hangup b' .delete
  | alive {pClient : ClientRef} : fd ≠ b.control_sock →
      b.clients.lookup fd = some (some pClient) → ScanCase b fd current_time .idle b .keep
  | timeout {pClient : ClientRef} {answer : Bytes} {b' : Broker} : fd ≠ b.control_sock →
      b.clients.lookup fd = some (some pClient) →
      (b.addCommand fd answer).sendWill pClient = .ok b' →
      ScanCase b fd current_time .idle b' .delete

/-- `derefAt` returns the client in `clients` and changes nothing. -/
theorem derefAt_eq_ok {b b' : Broker} {fd : Fd} {pClient : ClientRef}
    (h : b.derefAt fd = .ok (b', pClient)) : b' = b ∧ b.clients.lookup fd = some (some pClient) :=
  (sat_derefAt b fd).of_eq_ok h

/-- What `readClient` does, by what could be read. -/
private theorem scanCase_readClient {b b' : Broker} {fd : Fd} {current_time : Time} {add : Bool}
    {input : ClientInput} {next : ScanNext} (hfd : fd ≠ b.control_sock)
    (h : b.readClient fd current_time input = .ok (b', next)) :
    ScanCase b fd current_time (.pollin add input) b' next := by
  unfold readClient at h
  obtain ⟨⟨b₀, pClient⟩, hat, hread⟩ := Except.bind_eq_ok_iff.mp h
  clear h
  obtain ⟨rfl, hclient⟩ := derefAt_eq_ok hat
  cases input with
  -- a header that cannot be read ends the connection with its will, a short packet ends it
  -- without
  | headerError =>
    obtain ⟨b₁, hwill, hread⟩ := Except.bind_eq_ok_iff.mp hread
    obtain ⟨rfl, rfl⟩ := Prod.mk.inj (Except.ok.inj hread)
    exact .headerError hfd hclient hwill
  | short =>
    obtain ⟨rfl, rfl⟩ := Prod.mk.inj (Except.ok.inj hread)
    exact .short hfd hclient
  | packet first data random =>
    obtain ⟨⟨b₁, handle_stat⟩, hpacket, hread⟩ := Except.bind_eq_ok_iff.mp hread
    dsimp only at hread
    split at hread
    · rename_i hne
      obtain ⟨b₂, herror, hread⟩ := Except.bind_eq_ok_iff.mp hread
      obtain ⟨rfl, rfl⟩ := Prod.mk.inj (Except.ok.inj hread)
      exact .refused hfd hclient hpacket hne herror
    · -- the packet was handled, and the connection stays
      rename_i hok
      rw [not_not.mp hok] at hpacket
      obtain ⟨rfl, rfl⟩ := Prod.mk.inj (Except.ok.inj hread)
      exact .handled hfd hclient hpacket

/-- What `checkTimeout` does, by the time since the last packet. -/
private theorem scanCase_checkTimeout {b b' : Broker} {fd : Fd} {current_time : Time}
    {next : ScanNext} (hfd : fd ≠ b.control_sock)
    (h : b.checkTimeout fd current_time = .ok (b', next)) :
    ScanCase b fd current_time .idle b' next := by
  unfold checkTimeout at h
  obtain ⟨⟨b₀, pClient⟩, hat, hcheck⟩ := Except.bind_eq_ok_iff.mp h
  clear h
  obtain ⟨rfl, hclient⟩ := derefAt_eq_ok hat
  dsimp only at hcheck
  -- overdue, or in time
  split at hcheck
  · obtain ⟨answer, -, hanswer⟩ := Except.bind_eq_ok_iff.mp hcheck
    obtain ⟨b₁, hwill, hresult⟩ := Except.bind_eq_ok_iff.mp hanswer
    obtain ⟨rfl, rfl⟩ := Prod.mk.inj (Except.ok.inj hresult)
    exact .timeout hfd hclient hwill
  · obtain ⟨rfl, rfl⟩ := Prod.mk.inj (Except.ok.inj hcheck)
    exact .alive hfd hclient

/-- What the scan does with a socket, by its `revents`. -/
theorem scanSocket_cases {b b' : Broker} {fd : Fd} {current_time : Time} {event : SocketEvent}
    {next : ScanNext} (h : b.scanSocket fd current_time event = .ok (b', next)) :
    ScanCase b fd current_time event b' next := by
  unfold scanSocket at h
  cases event with
  | pollin add input =>
    dsimp only at h
    split at h
    · -- the control socket
      rename_i hfd
      split at h
      · rename_i hadd
        obtain ⟨rfl, rfl⟩ := Prod.mk.inj (Except.ok.inj h)
        rw [hadd]
        exact .add hfd
      · obtain ⟨rfl, rfl⟩ := Prod.mk.inj (Except.ok.inj h)
        exact .control hfd (by simp)
    · rename_i hfd
      exact scanCase_readClient hfd h
  | hangup =>
    obtain ⟨⟨b₀, pClient⟩, hat, hhangup⟩ := Except.bind_eq_ok_iff.mp h
    clear h
    obtain ⟨rfl, hclient⟩ := derefAt_eq_ok hat
    obtain ⟨b₁, hwill, hresult⟩ := Except.bind_eq_ok_iff.mp hhangup
    obtain ⟨rfl, rfl⟩ := Prod.mk.inj (Except.ok.inj hresult)
    exact .hangup hclient hwill
  | idle =>
    dsimp only at h
    split at h
    · rename_i hfd
      exact scanCase_checkTimeout hfd h
    · rename_i hfd
      obtain ⟨rfl, rfl⟩ := Prod.mk.inj (Except.ok.inj h)
      exact .control (not_not.mp hfd) (by simp)

/-! ## The server thread -/

/-- Where the scan goes on behind a socket. -/
def afterSocket (client_num i : Nat) (current_time : Time) (fd_to_delete : List Fd) (fd : Fd) :
    ScanNext → ServerPc
  | .keep => .scan client_num (i + 1) current_time fd_to_delete
  | .delete => .scan client_num (i + 1) current_time (fd_to_delete ++ [fd])
  | .stop => .scan client_num client_num current_time fd_to_delete

/-- What the server thread does in a step. -/
inductive ServerCase (s : ServerThread) : ServerEvent → ServerThread → Prop
  | idle {poll_error : Bool} {now : Time} : s.pc = .loop → s.broker.state = .init →
      ServerCase s (.round poll_error now) s
  | finished {poll_error : Bool} {now : Time} : s.pc = .loop → s.broker.state = .started →
      ServerCase s (.round poll_error now)
        { broker := s.broker.setState .init, vec_fds := [], pc := .returned }
  | started {poll_error : Bool} {now : Time} : s.pc = .loop → s.broker.state = .started →
      ServerCase s (.round poll_error now) { s with
        broker := s.broker.setState .wait_state
        vec_fds := s.broker.clients.keys ++ [s.broker.control_sock] }
  | wait {poll_error : Bool} {now : Time} {client_num : Nat} {b : Broker} : s.pc = .loop →
      s.broker.state = .wait_state → b = s.broker ∨ b = s.broker.setState .started →
      ServerCase s (.round poll_error now) { s with
        broker := b
        pc := .scan client_num 0 now [] }
  | socket {client_num i : Nat} {current_time : Time} {fd_to_delete : List Fd} {fd : Fd}
      {event : SocketEvent} {b : Broker} {next : ScanNext} :
      s.pc = .scan client_num i current_time fd_to_delete → i < client_num →
      s.vec_fds[i]? = some fd → ScanCase s.broker fd current_time event b next →
      ServerCase s (.socket event) { s with
        broker := b
        pc := afterSocket client_num i current_time fd_to_delete fd next }
  | scanEnd {client_num i : Nat} {current_time : Time} {fd_to_delete : List Fd} {b : Broker} :
      s.pc = .scan client_num i current_time fd_to_delete → ¬ i < client_num →
      b = s.broker ∨ b = s.broker.setState .started →
      ServerCase s .next { s with broker := b, pc := .close fd_to_delete }
  | close {it : Fd} {rest : List Fd} {pClient : ClientRef} : s.pc = .close (it :: rest) →
      s.broker.clients.lookup it = some (some pClient) →
      ServerCase s .next { s with broker := s.broker.closeConnection it, pc := .close rest }
  | closed : s.pc = .close [] → ServerCase s .next { s with pc := .loop }

/-- What the server thread does in a step, by where it is. -/
theorem serverStep_cases {s t : ServerThread} {e : ServerEvent} (h : s.step e = .ok (some t)) :
    ServerCase s e t := by
  unfold ServerThread.step at h
  split at h
  · -- a round, by the state of the broker
    rename_i hpc
    split at h
    · rename_i hstate
      obtain rfl := Option.some.inj (Except.ok.inj h)
      exact .idle hpc hstate
    · rename_i hstate
      obtain rfl := Option.some.inj (Except.ok.inj h)
      unfold ServerThread.started
      split
      · exact .finished hpc hstate
      · rw [UnorderedMap.keys_eq_map_toList]
        exact .started hpc hstate
    · rename_i hstate
      obtain rfl := Option.some.inj (Except.ok.inj h)
      refine .wait hpc hstate ?_
      split
      · exact .inr rfl
      · exact .inl rfl
  · -- a socket of the scan
    rename_i client_num i current_time fd_to_delete event hpc
    split at h
    · rename_i hi
      obtain ⟨t', hscan, ht⟩ := Except.bind_eq_ok_iff.mp h
      obtain rfl := Option.some.inj (Except.ok.inj ht)
      unfold ServerThread.scanAt at hscan
      split at hscan
      · cases hscan
      · rename_i fd hfd
        obtain ⟨⟨b, next⟩, hsocket, hscan⟩ := Except.bind_eq_ok_iff.mp hscan
        -- where the scan goes on is told by `next`
        have hcase := ServerCase.socket hpc hi hfd (scanSocket_cases hsocket)
        cases next <;> obtain rfl := Except.ok.inj hscan <;> exact hcase
    · simp at h
  · -- the end of the scan
    rename_i hpc
    split at h
    · simp at h
    · rename_i hi
      obtain rfl := Option.some.inj (Except.ok.inj h)
      refine .scanEnd hpc hi ?_
      split
      · exact .inl rfl
      · exact .inr rfl
  · -- a connection to close
    rename_i it rest hpc
    obtain ⟨t', hclose, ht⟩ := Except.bind_eq_ok_iff.mp h
    obtain rfl := Option.some.inj (Except.ok.inj ht)
    obtain ⟨⟨pClient, hclient⟩, rfl⟩ := closeNext_eq_ok hclose
    exact .close hpc hclient
  · -- all are closed
    rename_i hpc
    obtain rfl := Option.some.inj (Except.ok.inj h)
    exact .closed hpc
  · simp at h  -- no event of this place

/-! ## The system -/

/-- What a step of one of the threads is. -/
inductive SystemCase (s : ServerThread) : SystemEvent → ServerThread → Prop
  | server {e : ServerEvent} {t : ServerThread} : ServerCase s e t → SystemCase s (.server e) t
  | addClient {sock : Fd} {ip : Bytes} {now : Time} : SystemCase s (.addClient sock ip now)
      { s with broker := (s.broker.addClient sock ip now).1 }
  | start : s.broker.state = .init →
      SystemCase s .start { broker := s.broker.setState .started }
  | qos {b : Broker} : Does (fun op => ∃ fd cmd, op = .addCommand fd cmd) s.broker b →
      SystemCase s .qos { s with broker := b }
  | execute {commands : List FdWriteCommand} :
      SystemCase s .execute { s with broker := { s.broker with commands } }
  | rehash {b : Broker} : Rehashed s.broker b → SystemCase s .rehash { s with broker := b }

/-- What a step of the system is, by its label. -/
theorem system_cases {s t : ServerThread} {e : SystemEvent} (h : system.Step s e t) :
    SystemCase s e t := by
  obtain h | ⟨rfl, b, hb, rfl⟩ := h
  · cases e with
    -- one case for each thread, and the events are its steps
    | server e => exact .server (serverStep_cases (step_of_systemStep_server h))
    | addClient sock ip now =>
      obtain rfl := Option.some.inj h
      exact .addClient
    | start =>
      simp only [systemStep, Option.ite_none_right_eq_some] at h
      obtain ⟨hstate, ht⟩ := h
      obtain rfl := Option.some.inj ht
      exact .start hstate
    | qos =>
      obtain ⟨b, hqos, rfl⟩ := qosThread_of_systemStep h
      exact .qos ((does_qosThread s.broker).of_eq_ok hqos)
    | execute =>
      simp only [systemStep] at h
      split at h
      · cases h
      · obtain rfl := Option.some.inj h
        exact .execute
    | rehash => cases h
  · exact .rehash hb

/-- What a step does to the broker that is no operation of a handler. -/
inductive Core (s : ServerThread) (e : SystemEvent) (b : Broker) : Broker → Prop
  | refl : Core s e b b
  | setState {state : BrokerState} : Core s e b (b.setState state)
  /-- A CONNECT is handled. -/
  | connect {add : Bool} {first : UInt8} {data random : Bytes} {fd : Fd} {pClient : ClientRef}
      {b' : Broker} {handle_stat : MqttErr} :
      e = .server (.socket (.pollin add (.packet first data random))) → socketAt s = some fd →
      s.broker.clients.lookup fd = some (some pClient) →
      (FixedHeader.mk first data.length).getType = PackType.CONNECT.code →
      b.connectHandler data fd random = .ok (b', handle_stat) → Core s e b b'
  | close {it : Fd} {rest : List Fd} : s.pc = .close (it :: rest) →
      Core s e b (b.closeConnection it)
  | addClient {sock : Fd} {ip : Bytes} {now : Time} : e = .addClient sock ip now →
      Core s e b (b.addClient sock ip now).1
  | execute {commands : List FdWriteCommand} : Core s e b { b with commands }
  | rehash {b' : Broker} : Rehashed b b' → Core s e b b'

/-- `handleError` writes one packet, or nothing. -/
theorem handleError_eq_ok {b b' : Broker} {error : MqttErr} {fd : Fd}
    (h : b.handleError error fd = .ok b') :
    b' = b ∨ ∃ data, b' = b.record (.wrote fd data) := by
  have hconnack : ∀ code, b.writeConnack fd code = .ok b' →
      b' = b ∨ ∃ data, b' = b.record (.wrote fd data) := by
    intro code h
    obtain ⟨data, -, hwrite⟩ := Except.bind_eq_ok_iff.mp h
    exact .inr ⟨data, (Except.ok.inj hwrite).symm⟩
  unfold handleError at h
  split at h
  · exact hconnack _ h
  · exact hconnack _ h
  · exact .inl (Except.ok.inj h).symm

/-- Commands change nothing but the queue. -/
theorem eq_of_addCommands {b b' : Broker} (h : Does (fun op => ∃ fd cmd, op = .addCommand fd cmd)
    b b') : b'.storage = b.storage ∧ b'.heap = b.heap ∧ b'.calls = b.calls := by
  have heq := h.eq_of_forall (f := fun b => (b.storage, b.heap, b.calls)) ?_
  · simpa only [Prod.mk.injEq] using heq
  · rintro b op ⟨fd, cmd, rfl⟩ -
    rfl

/-- A relation that holds across what handlers do, CONNECT apart. -/
structure Handles (R : Broker → Broker → Prop) : Prop where
  refl (b : Broker) : R b b
  trans {b b' b'' : Broker} : R b b' → R b' b'' → R b b''
  touch (b : Broker) (pClient : ClientRef) (current_time : Time) :
    R b (touch b pClient current_time)
  addCommand (b : Broker) (fd : Fd) (cmd : Bytes) : R b (b.addCommand fd cmd)
  wrote (b : Broker) (fd : Fd) (data : Bytes) : R b (b.record (.wrote fd data))
  sendWill {b b' : Broker} {pClient : ClientRef} : b.sendWill pClient = .ok b' → R b b'
  handlePacket {b b' : Broker} {fh : FixedHeader} {data : Bytes} {fd : Fd} {random : Bytes}
    {err : MqttErr} : fh.getType ≠ PackType.CONNECT.code →
    b.handlePacket fh data fd random = .ok (b', err) → R b b'

/-- What handlers do, what they do not, and what handlers do again. -/
def Around (R : Broker → Broker → Prop) (s : ServerThread) (e : SystemEvent) (b b' : Broker) :
    Prop :=
  ∃ b₁ b₂, R b b₁ ∧ Core s e b₁ b₂ ∧ R b₂ b'

namespace Handles

variable {R : Broker → Broker → Prop} {s : ServerThread} {e : SystemEvent}

/-- A step that is nothing but handling. -/
theorem around (hR : Handles R) {b b' : Broker} (h : R b b') : Around R s e b b' :=
  ⟨b', b', h, .refl, hR.refl b'⟩

/-- A step that is nothing but its core. -/
theorem around_core (hR : Handles R) {b b' : Broker} (h : Core s e b b') : Around R s e b b' :=
  ⟨b, b', hR.refl b, h, hR.refl b'⟩

/-- Queueing commands is among what any handling may do. -/
private theorem addCommands (hR : Handles R) {b b' : Broker}
    (h : Does (fun op => ∃ fd cmd, op = .addCommand fd cmd) b b') : R b b' := by
  refine h.rel hR.refl hR.trans ?_
  rintro b op ⟨fd, cmd, rfl⟩ -
  exact hR.addCommand b fd cmd

/-- A packet is handled, and its error. -/
private theorem packet (hR : Handles R) {add : Bool} {first : UInt8} {data random : Bytes}
    {fd : Fd} {pClient : ClientRef} {current_time : Time} {b₁ b' : Broker} {handle_stat : MqttErr}
    (hat : socketAt s = some fd) (hclient : s.broker.clients.lookup fd = some (some pClient))
    (hpacket : (Spec.touch s.broker pClient current_time).handlePacket ⟨first, data.length⟩ data fd
      random = .ok (b₁, handle_stat)) (hafter : R b₁ b') :
    Around R s (.server (.socket (.pollin add (.packet first data random)))) s.broker b' := by
  have htouch := hR.touch s.broker pClient current_time
  by_cases htype : (FixedHeader.mk first data.length).getType = PackType.CONNECT.code
  · have hconnect : (Spec.touch s.broker pClient current_time).connectHandler data fd random =
        .ok (b₁, handle_stat) := by
      rwa [handlePacket_connect _ _ _ _ htype] at hpacket
    exact ⟨_, b₁, htouch, .connect rfl hat hclient htype hconnect, hafter⟩
  · exact hR.around (hR.trans (hR.trans htouch (hR.handlePacket htype hpacket)) hafter)

/-- A step of the server thread: what it does before its core, the core, and what it does behind
    it. -/
private theorem server (hR : Handles R) {t : ServerThread} {e : ServerEvent}
    (h : ServerCase s e t) : Around R s (.server e) s.broker t.broker := by
  cases h with
  | idle | closed => exact hR.around_core .refl
  | finished | started => exact hR.around_core .setState
  | wait _ _ hb =>
    obtain rfl | rfl := hb
    · exact hR.around_core .refl
    · exact hR.around_core .setState
  | @socket client_num i current_time fd_to_delete fd event b next hpc hi hfd hscan =>
    -- the socket of the scan whose turn it is
    have hat : socketAt s = some fd := by simp only [socketAt, hpc, if_pos hi, hfd]
    cases hscan with
    | add => exact hR.around_core .setState
    | control | alive => exact hR.around_core .refl
    | headerError _ _ hsend => exact hR.around (hR.trans (hR.touch ..) (hR.sendWill hsend))
    | short => exact hR.around (hR.touch ..)
    | handled _ hclient hpacket => exact hR.packet hat hclient hpacket (hR.refl _)
    | refused _ hclient hpacket _ herror =>
      refine hR.packet hat hclient hpacket ?_
      obtain rfl | ⟨data, rfl⟩ := handleError_eq_ok herror
      · exact hR.refl _
      · exact hR.wrote ..
    | hangup _ hsend => exact hR.around (hR.sendWill hsend)
    | timeout _ _ hsend => exact hR.around (hR.trans (hR.addCommand ..) (hR.sendWill hsend))
  | scanEnd _ _ hb =>
    obtain rfl | rfl := hb
    · exact hR.around_core .refl
    · exact hR.around_core .setState
  | close hpc => exact hR.around_core (.close hpc)

/-- Every step of the system is what handlers do around what they do not. -/
theorem system (hR : Handles R) {t : ServerThread} (h : system.Step s e t) :
    Around R s e s.broker t.broker := by
  cases system_cases h with
  | server hcase => exact hR.server hcase
  | addClient => exact hR.around_core (.addClient rfl)
  | start => exact hR.around_core .setState
  | qos hdoes => exact hR.around (hR.addCommands hdoes)
  | execute => exact hR.around_core .execute
  | rehash hb => exact hR.around_core (.rehash hb)

end Handles

/-! ## Operations around what is none -/

/-- The operations of a step: only the client of a socket is subscribed under it. -/
def FromClients (b : Broker) : Op → Prop
  | .addSubscribedClient sock ref => b.clients.lookup sock = some (some ref)
  | _ => True

/-- Operations of the handlers, what is none, and operations again. -/
def Steps (s : ServerThread) (e : SystemEvent) (b b' : Broker) : Prop :=
  ∃ b₁ b₂, Does (FromClients b) b b₁ ∧ Core s e b₁ b₂ ∧ Does (FromClients b₂) b₂ b'

/-- Noting the time of the last packet is one operation. -/
theorem does_touch (b : Broker) (pClient : ClientRef) (current_time : Time) :
    Does (FromClients b) b (touch b pClient current_time) :=
  .one (.setLastTime pClient current_time) trivial trivial

/-- Sending a will enters nobody into `subscribed_clients`. -/
theorem SendsWill.fromClients {b : Broker} {pClient : ClientRef} {op : Op}
    (h : SendsWill pClient op) : FromClients b op := by
  cases op with
  | addSubscribedClient => exact h.elim
  | _ => trivial

/-- A handler enters only the client of its own socket into `subscribed_clients`. -/
theorem Serves.fromClients {b : Broker} {fh : FixedHeader} {fd : Fd} {pClient : ClientRef}
    {client_id : Bytes} (hclient : b.clients.lookup fd = some (some pClient)) {op : Op}
    (h : Serves fh fd pClient client_id op) : FromClients b op := by
  cases op with
  | addSubscribedClient sock ref =>
    cases h with
    | subscribes h =>
      obtain ⟨rfl, rfl⟩ := h
      exact hclient
    | answers h | unsubscribes h | stores _ h | freesTopic h => exact h.elim
  | _ => trivial

/-- What is entered is judged by `clients` alone. -/
theorem FromClients.of_eq {b b' : Broker} (hclients : b'.clients = b.clients) {op : Op}
    (h : FromClients b' op) : FromClients b op := by
  cases op with
  | addSubscribedClient sock ref =>
    show b.clients.lookup sock = some (some ref)
    rw [← hclients]
    exact h
  | _ => trivial

/-- Operations of clients that are connected are a way to describe the handling. -/
theorem handles_does : Handles fun b b' => Does (FromClients b) b b' where
  refl b := .refl
  trans h h' := h.trans (h'.mono fun _ => FromClients.of_eq h.clients_eq)
  touch := does_touch
  addCommand b fd cmd := .addCommand fd cmd trivial
  wrote b fd data := .record _ trivial
  sendWill {b b' pClient} h :=
    ((does_sendWill b pClient (-1)).of_eq_ok h).mono fun _ => SendsWill.fromClients
  handlePacket {b b' fh data fd random err} htype h := by
    obtain rfl | ⟨ref, href, hdoes⟩ := (handlePacket_does _ _ data fd random htype).of_eq_ok h
    · exact .refl
    · exact hdoes.mono fun _ => Serves.fromClients href

/-- Every step of the system is operations, its core, and operations again. -/
theorem system_steps {s t : ServerThread} {e : SystemEvent} (h : system.Step s e t) :
    Steps s e s.broker t.broker := handles_does.system h

end Mqtt.Spec
