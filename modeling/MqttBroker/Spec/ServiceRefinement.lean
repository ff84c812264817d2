import MqttBroker.Spec.Queued
import MqttBroker.Spec.ServiceConnect
import MqttBroker.Spec.SubscribedClients

/-!
# The broker refines the service

Every step of the broker is a step of the service, and the broker does what the label says:
the action of the label is what happens to the broker in the step, the packet of the label is the
one that is read, and the command queue grows by the packets of the label. A run of the broker is
so a run of the service, in whatever order its threads take their steps.
-/

namespace Mqtt.Spec

open Mqtt.Native Mqtt.Native.Broker

/-- A descriptor that `accept` returns is positive, and is not that of the control socket. -/
def AcceptsSocket (s : ServerThread) (e : SystemEvent) : Prop :=
  ∀ sock ip now, e = .addClient sock ip now → 0 < sock ∧ sock ≠ s.broker.control_sock

instance (s : ServerThread) (e : SystemEvent) : Decidable (AcceptsSocket s e) :=
  match e with
  | .addClient sock _ _ => decidable_of_iff (0 < sock ∧ sock ≠ s.broker.control_sock)
    ⟨fun h _ _ _ he => (SystemEvent.addClient.inj he).1 ▸ h, fun h => h sock _ _ rfl⟩
  | .server _ | .start | .qos | .execute | .rehash => isTrue fun _ _ _ he => by cases he

/-! ## Between two steps -/

/-- What holds of the server thread between any two steps. -/
structure ThreadInv (s : ServerThread) : Prop where
  service : ServiceInv s.broker
  connected : AllConnected s.broker
  scans : ScansOnce s

/-- A run whose descriptors are possible keeps the invariants of all parts. -/
theorem threadInv_of_reachable {s : ServerThread}
    (h : (system.restrict AcceptsSocket).Reachable s) : ThreadInv s := by
  have hparts : SocketsPositive s.broker ∧ AllConnected s.broker ∧ ScansOnce s := by
    refine h.invariant (P := fun s => SocketsPositive s.broker ∧ AllConnected s.broker ∧
      ScansOnce s) ?_ ?_
    · intro s hinit
      refine ⟨?_, ?_, scansOnce_of_init hinit⟩ <;> obtain ⟨control_sock, rfl⟩ := hinit
      · exact fun fd ref hfd => nomatch hfd
      · exact fun fd hfd => nomatch hfd
    · -- a connection is an old one or the one that is added, whose socket is positive
      rintro s e t ⟨hpos, hall, hscans⟩ ⟨haccepts, hstep⟩
      have hconnections := system_connections hstep
      refine ⟨fun fd ref hfd => ?_, fun fd hfd => ?_, hscans.step ?_ hstep⟩
      · obtain hold | ⟨-, -, ip, now, he⟩ := hconnections.lookup hfd
        · exact hpos fd ref hold
        · exact (haccepts fd ip now he).1
      · obtain hold | ⟨hnew, -⟩ := hconnections.lookup hfd
        · exact hall fd hold
        · exact nomatch hnew
      · exact fun sock ip now he => (haccepts sock ip now he).2
  have hreach := h.of_restrict
  exact ⟨⟨ownClients_of_reachable hreach, subscribersConnected_of_reachable hreach, hparts.1,
    postponed_events_empty hreach⟩, hparts.2.1, hparts.2.2⟩

/-! ## What does not show -/

section serviceOf

variable {b b' : Broker} {ending : List Fd}

/-- The order of a hash map does not show. -/
theorem serviceOf_rehash (hb : Rehashed b b') : serviceOf b' ending = serviceOf b ending := by
  have hsessions : sessionAt b' = sessionAt b := by
    funext fd
    rw [sessionAt, sessionAt, UnorderedMap.lookup_eq_of_reordered hb.clients,
      UnorderedMap.lookup_eq_of_reordered hb.subscribed_clients]
    -- a rehash moves the filters of a client but loses none
    split
    · rename_i ref _
      have hfilters : (b'.heap ref).subscribed_topics.lookup = (b.heap ref).subscribed_topics.lookup :=
        funext fun f => (UnorderedMap.lookup_eq_of_reordered (hb.subscribed_topics ref) f).symm
      rw [sessionOf, sessionOf, hfilters, hb.others]
      rfl
    · rfl
  have hstored : stored b' = stored b := by
    funext client_id
    rw [stored, TopicStorage.qosGroup, stored, TopicStorage.qosGroup,
      UnorderedMap.lookup_eq_of_reordered hb.qos_2_topics]
  have hretained : b'.storage.getStoredValuePtr = b.storage.getStoredValuePtr := by
    rw [hb.others]
    rfl
  rw [serviceOf, serviceOf, hsessions, hstored, hretained]

theorem wrote_rehash (hb : Rehashed b b') : wrote b' = wrote b := by
  rw [hb.others]
  rfl

/-- A new client has an empty session. -/
theorem sessionOf_new (ip : Bytes) (now : Time) :
    sessionOf { ip, time_last_packet := now } false = { last := now } := by
  have hwill : willOf { ip, time_last_packet := now } = none := by
    have hflag : (0 : UInt8) &&& 0x4 = 0 := by decide
    simp [willOf, Client.isWillFlag, hflag]
  rw [sessionOf, hwill]
  congr 1

/-- `AddClient` with a new socket makes an empty session. -/
theorem serviceOf_addClient (h : ServiceInv b) {sock : Fd} (hnew : b.clients.lookup sock = none)
    (ip : Bytes) (now : Time) : serviceOf (b.addClient sock ip now).1 ending =
      { serviceOf b ending with
        sessions := Function.update (sessionAt b) sock (some { last := now }) } := by
  have hsubscribed : b.subscribed_clients.lookup sock = none := by
    cases hlookup : b.subscribed_clients.lookup sock with
    | none => rfl
    | some ref => exact nomatch hnew.symm.trans (h.mirrors sock ref hlookup)
  have hsessions : sessionAt (b.addClient sock ip now).1 =
      Function.update (sessionAt b) sock (some { last := now }) := by
    funext fd
    by_cases hfd : fd = sock
    · subst hfd
      have hclient : (b.addClient fd ip now).1.clients.lookup fd = some (some b.next_ref) := by
        rw [addClient, UnorderedMap.lookup_insertNew_self]
        simp only [setClient, hnew, Option.getD_none]
      have hsubscribed' : (b.addClient fd ip now).1.subscribed_clients.lookup fd = none :=
        hsubscribed
      have hheap : (b.addClient fd ip now).1.heap b.next_ref = { ip, time_last_packet := now } :=
        heap_setClient_self ..
      rw [Function.update_self, sessionAt]
      simp only [hclient, hsubscribed', hheap]
      exact congrArg some (sessionOf_new ip now)
    · have hclients : (b.addClient sock ip now).1.clients.lookup fd = b.clients.lookup fd :=
        UnorderedMap.lookup_insertNew_ne hfd
      rw [Function.update_of_ne hfd, sessionAt, sessionAt, hclients]
      split
      · -- no client has been where the new one is put
        rename_i ref hlookup
        have hheap : (b.addClient sock ip now).1.heap ref = b.heap ref :=
          heap_setClient_ne (h.own.lt hlookup).ne
        rw [hheap]
        rfl
      · rfl
  rw [serviceOf, hsessions]
  rfl

/-- `AddClient` with a socket that is there leaves all sessions as they are. -/
theorem serviceOf_addClient_again (h : ServiceInv b) {sock : Fd} {ref : ClientRef}
    (hold : b.clients.lookup sock = some (some ref)) (ip : Bytes) (now : Time) :
    serviceOf (b.addClient sock ip now).1 ending = serviceOf b ending := by
  -- the map refuses the socket; the new client is nobody's
  have hclients : (b.addClient sock ip now).1.clients = b.clients := by
    have hmem : sock ∈ b.clients := AList.lookup_isSome.mp (by rw [hold]; rfl)
    exact if_pos hmem
  have hsessions : sessionAt (b.addClient sock ip now).1 = sessionAt b := by
    funext fd
    rw [sessionAt, sessionAt, hclients]
    split
    · rename_i ref hlookup
      have hheap : (b.addClient sock ip now).1.heap ref = b.heap ref :=
        heap_setClient_ne (h.own.lt hlookup).ne
      rw [hheap]
      rfl
    · rfl
  rw [serviceOf, hsessions]
  rfl

end serviceOf

/-! ## Labels -/

/-- The packet that a label is about, with its connection. -/
def Service.Label.packet? (l : Service.Label) : Option (Fd × ClientPacket) :=
  match l.action with
  | .packet fd _ p => some (fd, p)
  | _ => none

/-- A packet that is read, with its socket. -/
abbrev Incoming := Fd × FixedHeader × Bytes

/-- What is read is the packet of the service. -/
def ReadAs (r : Incoming) (p : Fd × ClientPacket) : Prop := r.1 = p.1 ∧ Understood r.2.1 r.2.2 p.2

/-- What the scan reads at a socket. -/
def readAt (b : Broker) (fd : Fd) : SocketEvent → Option Incoming
  | .pollin _ (.packet first data _) =>
    if fd = b.control_sock then none else some (fd, ⟨first, data.length⟩, data)
  | _ => none

/-- What a step reads. -/
def incoming (s : ServerThread) (e : SystemEvent) : Option Incoming :=
  match e, socketAt s with
  | .server (.socket event), some fd => readAt s.broker fd event
  | _, _ => none

/-- The command that a sender thread takes out of the queue. -/
def taken (s : ServerThread) : SystemEvent → List FdWriteCommand
  | .execute => s.broker.commands.take 1
  | _ => []

/-! ## Actions -/

/-- What happens at a socket of the scan: a packet that is read, the end of a connection that is
    broken, cut short or overdue, or nothing that concerns the service. -/
inductive ScanActs (b : Broker) (fd : Fd) (now : Time) : SocketEvent → Service.Action → Prop
  /-- The control socket is no connection of a client. -/
  | control {event : SocketEvent} : fd = b.control_sock → event ≠ .hangup →
      ScanActs b fd now event .silent
  | packet {add : Bool} {first : UInt8} {data random : Bytes} {p : ClientPacket} :
      fd ≠ b.control_sock → Understood ⟨first, data.length⟩ data p →
      ScanActs b fd now (.pollin add (.packet first data random)) (.packet fd now p)
  | headerError {add : Bool} : fd ≠ b.control_sock →
      ScanActs b fd now (.pollin add .headerError) (.lost fd (some now))
  | short {add : Bool} : fd ≠ b.control_sock →
      ScanActs b fd now (.pollin add .short) (.short fd now)
  | hangup : ScanActs b fd now .hangup (.lost fd none)
  | alive {σ : Service.Session} : fd ≠ b.control_sock → sessionAt b fd = some σ →
      ¬ now - σ.last ≥ σ.alive.toNat + 5 → ScanActs b fd now .idle .silent
  | timeout {σ : Service.Session} : fd ≠ b.control_sock → sessionAt b fd = some σ →
      now - σ.last ≥ σ.alive.toNat + 5 → ScanActs b fd now .idle (.timeout fd now)

/-- What happens in a step of the broker. It is determined by the event and the state before it,
    but for what is read into a packet. -/
inductive Acts (s : ServerThread) : SystemEvent → Service.Action → Prop
  | accept {sock : Fd} {ip : Bytes} {now : Time} : s.broker.clients.lookup sock = none →
      Acts s (.addClient sock ip now) (.accept sock now)
  /-- `AddClient` refuses a socket that is there already. -/
  | again {sock : Fd} {ip : Bytes} {now : Time} : s.broker.clients.lookup sock ≠ none →
      Acts s (.addClient sock ip now) .silent
  | socket {fd : Fd} {event : SocketEvent} {action : Service.Action} : socketAt s = some fd →
      ScanActs s.broker fd (passTime s) event action → Acts s (.server (.socket event)) action
  | close {it : Fd} {rest : List Fd} : s.pc = .close (it :: rest) →
      Acts s (.server .next) (.close it)
  | next : (∀ it rest, s.pc ≠ .close (it :: rest)) → Acts s (.server .next) .silent
  | round {poll_error : Bool} {now : Time} : Acts s (.server (.round poll_error now)) .silent
  | start : Acts s .start .silent
  | qos : Acts s .qos .silent
  | execute : Acts s .execute .silent
  | rehash : Acts s .rehash .silent

/-- A step of the broker is the step of the service with a label. -/
structure Refines (s : ServerThread) (e : SystemEvent) (t : ServerThread) (l : Service.Label) :
    Prop where
  step : Service.Step (serviceOf s.broker (toDelete s)) l (serviceOf t.broker (toDelete t))
  acts : Acts s e l.action
  read : List.Forall₂ ReadAs (incoming s e).toList l.packet?.toList
  queued : taken s e ++ t.broker.commands = s.broker.commands ++ l.queued.map command
  written : wrote t.broker = wrote s.broker ++ l.written.map command

/-! ## The scan -/

/-- What the scan does at a socket is the step of the service with a label. -/
structure ScanRefines (b : Broker) (ending : List Fd) (fd : Fd) (now : Time) (event : SocketEvent)
    (b' : Broker) (next : ScanNext) (l : Service.Label) : Prop where
  step : Service.Step (serviceOf b ending) l
    (serviceOf b' (if next = .delete then ending ++ [fd] else ending))
  acts : ScanActs b fd now event l.action
  read : List.Forall₂ ReadAs (readAt b fd event).toList l.packet?.toList
  queued : b'.commands = b.commands ++ l.queued.map command
  written : wrote b' = wrote b ++ l.written.map command

section scan

variable {b b' : Broker} {ending : List Fd} {fd : Fd} {now : Time} {event : SocketEvent}
  {ref : ClientRef} {next : ScanNext}

/-- The broker has only another state. -/
theorem ScanRefines.silent (hacts : ScanActs b fd now event .silent)
    (hread : readAt b fd event = none) (hnext : next ≠ .delete)
    (hb : b' = b ∨ ∃ state, b' = b.setState state) :
    ScanRefines b ending fd now event b' next ⟨.silent, [], []⟩ := by
  have hshows : serviceOf b' ending = serviceOf b ending ∧ b'.commands = b.commands ∧
      wrote b' = wrote b := by
    obtain rfl | ⟨state, rfl⟩ := hb <;> exact ⟨rfl, rfl, rfl⟩
  refine ⟨?_, hacts, ?_, ?_, ?_⟩
  · rw [if_neg hnext, hshows.1]
    exact .silent
  · rw [hread]
    exact .nil
  · rw [hshows.2.1, List.map_nil, List.append_nil]
  · rw [hshows.2.2, List.map_nil, List.append_nil]

/-- A connection breaks: what it shows is the end of its session. -/
theorem ScanRefines.ends {l : Service.Label} {S' : Service} (hacts : ScanActs b fd now event l.action)
    (hread : readAt b fd event = none)
    (hstep : Service.Step (serviceOf b ending) l (S'.finish fd)) (hpacket : l.packet? = none)
    (hwritten : l.written = []) (hshows : Shows b ending l.queued b' S') :
    ScanRefines b ending fd now event b' .delete l := by
  refine ⟨?_, hacts, ?_, hshows.emits, ?_⟩
  · rw [if_pos rfl]
    rw [← hshows.shows] at hstep
    exact hstep
  · rw [hread, hpacket]
    exact .nil
  · rw [hwritten, List.map_nil, List.append_nil, hshows.writes]

/-- What `HandleError` writes is the answer to the refused packet. -/
theorem handleError_shows (ending : List Fd) {err : MqttErr}
    (herror : b.handleError err fd = .ok b') :
    b'.commands = b.commands ∧ wrote b' = wrote b ++ (errorAnswer fd err).map command ∧
      serviceOf b' ending = serviceOf b ending := by
  -- two errors are answered, by a CONNACK that is written at once
  have hconnack : ∀ code : ReasonCode, b.writeConnack fd code = .ok b' →
      b'.commands = b.commands ∧
      wrote b' = wrote b ++ [command (fd, .connack 0 code.code OrderedSet.empty)] ∧
      serviceOf b' ending = serviceOf b ending := by
    intro code h
    obtain ⟨answer, hcreate, hwrite⟩ := Except.bind_eq_ok_iff.mp h
    obtain rfl := Except.ok.inj hwrite
    rw [createMqttPacket_connack hcreate, wrote_record]
    exact ⟨rfl, rfl, rfl⟩
  cases err with
  | protocolVersionErr => exact hconnack _ herror
  | duplicateClientId => exact hconnack _ herror
  | _ =>
    obtain rfl := Except.ok.inj herror
    exact ⟨rfl, (List.append_nil _).symm, rfl⟩

/-- A client that is touched is the client of a session whose packet is read. -/
theorem touched (ending : List Fd) (now : Time) (h : ServiceInv b)
    (hclient : b.clients.lookup fd = some (some ref)) :
    ServiceInv (touch b ref now) ∧
      (touch b ref now).clients.lookup fd = some (some ref) ∧
      serviceOf (touch b ref now) ending = (serviceOf b ending).touch fd now ∧
      sessionOf ((touch b ref now).heap ref) ((touch b ref now).subscribed_clients.lookup fd).isSome =
        { sessionOf (b.heap ref) (b.subscribed_clients.lookup fd).isSome with last := now } := by
  refine ⟨h.of_eq rfl rfl rfl rfl, hclient, serviceOf_touch h.own hclient now, ?_⟩
  rw [heap_setClient_self]
  rfl

/-- A packet is read and handled. -/
theorem packet_refines {add : Bool} {first : UInt8} {data random : Bytes} {b₁ : Broker}
    {err : MqttErr} (h : ServiceInv b) (hcontrol : fd ≠ b.control_sock) (hending : fd ∉ ending)
    (hclient : b.clients.lookup fd = some (some ref))
    (hpacket : (touch b ref now).handlePacket ⟨first, data.length⟩ data fd random = .ok (b₁, err))
    (hnext : (err = .ok ∧ b' = b₁ ∧ next = .keep) ∨
      (err ≠ .ok ∧ b₁.handleError err fd = .ok b' ∧ next = .delete)) :
    ∃ l, ScanRefines b ending fd now (.pollin add (.packet first data random)) b' next l := by
  obtain ⟨h₀, hclient₀, hservice, hsession⟩ := touched ending now h hclient
  have hopen : (serviceOf b ending).Open fd _ := ⟨sessions_of_lookup hclient, hending⟩
  have hread : readAt b fd (.pollin add (.packet first data random)) =
      some (fd, ⟨first, data.length⟩, data) := if_neg hcontrol
  have hshows := handlePacket_shows ending h₀ hclient₀ hpacket
  rw [hsession] at hshows
  obtain hserved | hrefused := hshows
  -- the packet is served, and the connection stays
  · obtain ⟨rfl, p, queued, S', hunderstood, hhandles, hshows⟩ := hserved
    obtain ⟨-, rfl, rfl⟩ | ⟨hne, -⟩ := hnext
    · rw [hservice] at hhandles
      refine ⟨⟨.packet fd now p, queued, []⟩, ?_, .packet hcontrol hunderstood, ?_, hshows.emits,
        ?_⟩
      · rw [if_neg (by decide), hshows.shows]
        exact .packet hopen hhandles
      · rw [hread]
        exact .cons ⟨rfl, hunderstood⟩ .nil
      · rw [List.map_nil, List.append_nil]
        exact hshows.writes
    · exact absurd rfl hne
  -- the packet is refused: the error handler answers, past the queue, and the connection is marked
  · obtain ⟨hne, p, S', hunderstood, hhandles, hshows⟩ := hrefused
    obtain ⟨rfl, -, -⟩ | ⟨-, herror, rfl⟩ := hnext
    · exact absurd rfl hne
    · obtain ⟨hcommands, hwrote, hsame⟩ := handleError_shows ending herror
      rw [hservice] at hhandles
      refine ⟨⟨.packet fd now p, [], errorAnswer fd err⟩, ?_, .packet hcontrol hunderstood, ?_, ?_,
        ?_⟩
      · have hfinish := Service.Step.lastPacket hopen hhandles
        rw [← hshows.shows, ← hsame] at hfinish
        exact hfinish
      · rw [hread]
        exact .cons ⟨rfl, hunderstood⟩ .nil
      · exact hcommands.trans hshows.emits
      · exact hwrote.trans (congrArg (· ++ _) hshows.writes)

/-- At a socket without input the service ends a session that is overdue, and does nothing
    else. -/
theorem timeout_refines (h : ServiceInv b) (hcontrol : fd ≠ b.control_sock) (hending : fd ∉ ending)
    (hcheck : b.checkTimeout fd now = .ok (b', next)) :
    ∃ l, ScanRefines b ending fd now .idle b' next l := by
  obtain ⟨⟨b₀, ref⟩, hat, hrest⟩ := Except.bind_eq_ok_iff.mp hcheck
  obtain ⟨rfl, hclient⟩ := derefAt_eq_ok hat
  have hsession := @sessions_of_lookup _ ending _ _ hclient
  have hread : readAt b₀ fd .idle = none := rfl
  dsimp only at hrest
  split at hrest
  · rename_i hlate
    obtain ⟨answer, hcreate, hrest⟩ := Except.bind_eq_ok_iff.mp hrest
    obtain ⟨b₁, hsend, hresult⟩ := Except.bind_eq_ok_iff.mp hrest
    obtain ⟨rfl, rfl⟩ := Prod.mk.inj (Except.ok.inj hresult)
    -- the DISCONNECT is queued in front of what the will makes the broker send
    have hqueued : Shows b₀ ending [(fd, .disconnect ReasonCode.keepAliveTimeout.code)] _ _ :=
      .addCommand h fd (createMqttPacket_disconnect hcreate)
    obtain ⟨out, S', hwill, hshows⟩ := sendWill_shows ending hqueued.inv hclient hsend
    rw [hqueued.shows] at hwill
    have hacts : ScanActs b₀ fd now .idle (.timeout fd now) := .timeout hcontrol hsession hlate
    have hstep := Service.Step.timeout ⟨hsession, hending⟩ hlate hwill
    exact ⟨_, .ends hacts hread hstep rfl rfl (hqueued.trans hshows)⟩
  · rename_i hearly
    obtain ⟨rfl, rfl⟩ := Prod.mk.inj (Except.ok.inj hrest)
    have hacts : ScanActs b₀ fd now .idle .silent := .alive hcontrol hsession hearly
    exact ⟨_, .silent hacts hread (by decide) (.inl rfl)⟩

/-- Whatever the scan does at a socket is a step of the service. -/
theorem scan_refines (h : ServiceInv b) (hending : fd ∉ ending)
    (hscan : b.scanSocket fd now event = .ok (b', next)) :
    ∃ l, ScanRefines b ending fd now event b' next l := by
  have hcontrolled : fd = b.control_sock → readAt b fd event = none := fun hfd => by
    unfold readAt
    split
    · exact if_pos hfd
    · rfl
  -- one case for each thing that `poll` and `read` may report
  cases scanSocket_cases hscan with
  | @add input hfd =>
    have hacts : ScanActs b fd now (.pollin true input) .silent := .control hfd (by simp)
    exact ⟨_, .silent hacts (hcontrolled hfd) (by decide) (.inr ⟨_, rfl⟩)⟩
  | control hfd hevent =>
    have hacts : ScanActs b fd now event .silent := .control hfd hevent
    exact ⟨_, .silent hacts (hcontrolled hfd) (by decide) (.inl rfl)⟩
  | @headerError add ref _ hfd hclient hwill =>
    have hacts : ScanActs b fd now (.pollin add .headerError) (.lost fd (some now)) :=
      .headerError hfd
    have hread : readAt b fd (.pollin add .headerError) = none := rfl
    have hopen : (serviceOf b ending).Open fd _ := ⟨sessions_of_lookup hclient, hending⟩
    -- the time of the packet is noted before its header is read
    obtain ⟨h₀, hclient₀, hservice, -⟩ := touched ending now h hclient
    obtain ⟨out, S', hsends, hshows⟩ := sendWill_shows ending h₀ hclient₀ hwill
    rw [hservice, heap_setClient_self] at hsends
    have hshows' : Shows b ending out b' S' :=
      ⟨hshows.emits, hshows.writes, hshows.inv, hshows.shows⟩
    exact ⟨⟨.lost fd (some now), out, []⟩,
      .ends hacts hread (.lost hopen rfl hsends) rfl rfl hshows'⟩
  | @short add ref hfd hclient =>
    have hacts : ScanActs b fd now (.pollin add .short) (.short fd now) := .short hfd
    have hread : readAt b fd (.pollin add .short) = none := rfl
    have hopen : (serviceOf b ending).Open fd _ := ⟨sessions_of_lookup hclient, hending⟩
    obtain ⟨h₀, -, hservice, -⟩ := touched ending now h hclient
    have hshows : Shows b ending [] (touch b ref now) ((serviceOf b ending).touch fd now) :=
      ⟨.of_eq rfl, rfl, h₀, hservice⟩
    exact ⟨⟨.short fd now, [], []⟩, .ends hacts hread (.short hopen) rfl rfl hshows⟩
  | handled hfd hclient hpacket =>
    exact packet_refines h hfd hending hclient hpacket (.inl ⟨rfl, rfl, rfl⟩)
  | refused hfd hclient hpacket hne herror =>
    exact packet_refines h hfd hending hclient hpacket (.inr ⟨hne, herror, rfl⟩)
  | hangup hclient hwill =>
    have hacts : ScanActs b fd now .hangup (.lost fd none) := .hangup
    have hread : readAt b fd .hangup = none := rfl
    have hopen : (serviceOf b ending).Open fd _ := ⟨sessions_of_lookup hclient, hending⟩
    obtain ⟨out, S', hsends, hshows⟩ := sendWill_shows ending h hclient hwill
    exact ⟨⟨.lost fd none, out, []⟩, .ends hacts hread (.lost hopen rfl hsends) rfl rfl hshows⟩
  | alive hfd | timeout hfd =>
    -- the case does not say how late it is, but the check does
    rw [scanSocket, if_pos hfd] at hscan
    exact timeout_refines h hfd hending hscan

end scan

/-! ## Steps -/

section step

variable {s t : ServerThread} {e : SystemEvent}

/-- What does not show is a silent step. -/
theorem Refines.silent (hacts : Acts s e .silent) (hread : incoming s e = none)
    (hshows : serviceOf t.broker (toDelete t) = serviceOf s.broker (toDelete s))
    (hqueued : taken s e ++ t.broker.commands = s.broker.commands)
    (hwritten : wrote t.broker = wrote s.broker) : Refines s e t ⟨.silent, [], []⟩ := by
  refine ⟨?_, hacts, ?_, ?_, ?_⟩
  · rw [hshows]
    exact .silent
  · rw [hread]
    exact .nil
  · rw [hqueued, List.map_nil, List.append_nil]
  · rw [hwritten, List.map_nil, List.append_nil]

/-- A socket of the scan. -/
theorem scanSocket_of_step {event : SocketEvent} (h : s.step (.socket event) = .ok (some t)) :
    ∃ client_num i now fd_to_delete fd b next,
      s.pc = .scan client_num i now fd_to_delete ∧ socketAt s = some fd ∧
      s.broker.scanSocket fd now event = .ok (b, next) ∧
      t = { s with broker := b, pc := afterSocket client_num i now fd_to_delete fd next } := by
  unfold ServerThread.step at h
  split at h
  · rename_i heq
    exact nomatch heq
  · rename_i client_num i now fd_to_delete event' hpc heq
    obtain rfl := ServerEvent.socket.inj heq
    split at h
    · rename_i hi
      obtain ⟨t', hscan, ht⟩ := Except.bind_eq_ok_iff.mp h
      obtain rfl := Option.some.inj (Except.ok.inj ht)
      unfold ServerThread.scanAt at hscan
      -- behind the end of the sockets the step fails
      split at hscan
      · cases hscan
      · rename_i fd hfd
        obtain ⟨⟨b, next⟩, hsocket, hscan⟩ := Except.bind_eq_ok_iff.mp hscan
        have hat : socketAt s = some fd := by rw [socketAt, hpc]; exact (if_pos hi).trans hfd
        refine ⟨client_num, i, now, fd_to_delete, fd, b, next, hpc, hat, hsocket, ?_⟩
        cases next <;> exact (Except.ok.inj hscan).symm
    · simp at h
  all_goals simp_all

/-- The sockets to close behind a socket that was looked at. -/
theorem toDelete_afterSocket {client_num i : Nat} {now : Time} {fd_to_delete : List Fd} {fd : Fd}
    {b : Broker} {next : ScanNext} :
    toDelete { s with broker := b, pc := afterSocket client_num i now fd_to_delete fd next } =
      if next = .delete then fd_to_delete ++ [fd] else fd_to_delete := by
  cases next <;> rfl

/-- Every step of the server thread is a step of the service. -/
theorem server_refines {e : ServerEvent} (h : ThreadInv s) (hstep : s.step e = .ok (some t)) :
    ∃ l, Refines s (.server e) t l := by
  cases e with
  | socket event =>
    -- one socket of the scan; the label is that of the packet or of the end of the connection
    obtain ⟨client_num, i, now, fd_to_delete, fd, b, next, hpc, hat, hsocket, rfl⟩ :=
      scanSocket_of_step hstep
    have hdel : toDelete s = fd_to_delete := by rw [toDelete, hpc]
    have hnow : passTime s = now := by rw [passTime, hpc]
    have hread : incoming s (.server (.socket event)) = readAt s.broker fd event := by
      simp only [incoming, hat]
    obtain ⟨l, hl⟩ := scan_refines h.service (h.scans.notMem hat) hsocket
    refine ⟨l, ?_, .socket hat (hnow ▸ hl.acts), ?_, hl.queued, hl.written⟩
    · rw [toDelete_afterSocket, ← hdel]
      exact hl.step
    · rw [hread]
      exact hl.read
  | round poll_error now =>
    have hread : incoming s (.server (.round poll_error now)) = none := rfl
    cases serverStep_cases hstep with
    | idle => exact ⟨_, .silent .round hread rfl rfl rfl⟩
    | finished hpc =>
      refine ⟨_, .silent .round hread ?_ rfl rfl⟩
      rw [toDelete, toDelete, hpc]
      rfl
    | started hpc => exact ⟨_, .silent .round hread rfl rfl rfl⟩
    -- where `poll` has failed the state is another one, which does not show
    | wait hpc _ hb =>
      have hdel : toDelete s = [] := by rw [toDelete, hpc]
      obtain rfl | rfl := hb
      · exact ⟨_, .silent .round hread (by rw [hdel]; rfl) rfl rfl⟩
      · exact ⟨_, .silent .round hread (by rw [hdel]; rfl) rfl rfl⟩
  | next =>
    have hread : incoming s (.server .next) = none := rfl
    cases serverStep_cases hstep with
    | @scanEnd _ _ _ fd_to_delete _ hpc _ hb =>
      have hdel : toDelete s = fd_to_delete := by rw [toDelete, hpc]
      have hacts : Acts s (.server .next) .silent := .next fun it rest hclose => by
        cases hpc.symm.trans hclose
      obtain rfl | rfl := hb
      · exact ⟨_, .silent hacts hread (by rw [hdel]; rfl) rfl rfl⟩
      · exact ⟨_, .silent hacts hread (by rw [hdel]; rfl) rfl rfl⟩
    | @close it rest _ hpc hclient =>
      have hdel : toDelete s = it :: rest := by rw [toDelete, hpc]
      -- the marked connections are closed in their order
      refine ⟨⟨.close it, [], []⟩, ?_, .close hpc, ?_, ?_, ?_⟩
      · rw [hdel]
        have hclose : Service.Step (serviceOf s.broker (it :: rest)) ⟨.close it, [], []⟩ _ :=
          .close rfl (sessions_of_lookup hclient)
        rw [← serviceOf_closeConnection] at hclose
        exact hclose
      · rw [hread]
        exact .nil
      · exact (List.append_nil _).symm
      · exact (List.append_nil _).symm
    | closed hpc =>
      have hdel : toDelete s = [] := by rw [toDelete, hpc]
      have hacts : Acts s (.server .next) .silent := .next fun it rest hclose => by
        cases hpc.symm.trans hclose
      exact ⟨_, .silent hacts hread (by rw [hdel]; rfl) rfl rfl⟩

/-- Every step of the broker is a step of the service. -/
theorem step_refines (h : ThreadInv s) (hstep : system.Step s e t) : ∃ l, Refines s e t l := by
  obtain hstep | ⟨rfl, b, hb, rfl⟩ := hstep
  · cases e with
    | server e => exact server_refines h (step_of_systemStep_server hstep)
    | addClient sock ip now =>
      obtain rfl := Option.some.inj hstep
      -- a socket that is there already changes nothing that shows
      cases hlookup : s.broker.clients.lookup sock with
      | none =>
        have hnone : (serviceOf s.broker (toDelete s)).sessions sock = none := by
          simp only [serviceOf, sessionAt, hlookup]
        have haccept : Service.Step (serviceOf s.broker (toDelete s)) ⟨.accept sock now, [], []⟩
            (serviceOf (s.broker.addClient sock ip now).1 (toDelete s)) := by
          rw [serviceOf_addClient h.service hlookup]
          exact .accept hnone
        exact ⟨_, haccept, .accept hlookup, .nil, (List.append_nil _).symm,
          (List.append_nil _).symm⟩
      | some entry =>
        cases entry with
        | none => exact absurd hlookup (h.connected sock)
        | some ref =>
          have hacts : Acts s (.addClient sock ip now) .silent := .again fun hnone => by
            cases hlookup.symm.trans hnone
          exact ⟨_, .silent hacts rfl (serviceOf_addClient_again h.service hlookup ip now) rfl rfl⟩
    | start =>
      simp only [systemStep, Option.ite_none_right_eq_some] at hstep
      obtain ⟨hinit, ht⟩ := hstep
      obtain rfl := Option.some.inj ht
      -- no server thread runs, so nothing is marked
      have hdel : toDelete s = [] := by rw [toDelete, h.scans.init hinit]
      exact ⟨_, .silent .start rfl (by rw [hdel]; rfl) rfl rfl⟩
    | qos =>
      obtain ⟨b, hqos, rfl⟩ := qosThread_of_systemStep hstep
      obtain rfl := qosThread_eq_of_empty h.service.empty hqos
      exact ⟨_, .silent .qos rfl rfl rfl rfl⟩
    | execute =>
      simp only [systemStep] at hstep
      split at hstep
      · cases hstep
      · rename_i command commands hcommands
        obtain rfl := Option.some.inj hstep
        -- what a sender thread takes goes from the queue to what was sent
        refine ⟨_, .silent .execute rfl rfl ?_ rfl⟩
        rw [taken, hcommands]
        rfl
    | rehash => cases hstep
  · refine ⟨_, .silent .rehash rfl (serviceOf_rehash hb) ?_ (wrote_rehash hb)⟩
    rw [hb.others]
    rfl

end step

end Mqtt.Spec
