import MqttBroker.Spec.SystemStep

/-!
# Connections and their client ids

`AddClient` makes a new client for a new socket, and nothing else adds to
`clients`: every connection has a client of its own. `GetClientFd` returns the
first socket with an id, so a takeover leaves no other client with the id only
because there was at most one before.
-/

namespace Mqtt.Spec

open Mqtt.Native Mqtt.Native.Broker

/-- Every connection has a client of its own. -/
structure OwnClients (b : Broker) : Prop where
  lt : ∀ {fd ref}, b.clients.lookup fd = some (some ref) → ref < b.next_ref
  inj : ∀ {fd fd' ref}, b.clients.lookup fd = some (some ref) →
    b.clients.lookup fd' = some (some ref) → fd = fd'

/-- Two connections never have the same client id, unless it is empty. -/
def UniqueIds (b : Broker) : Prop :=
  ∀ fd fd' ref ref', b.clients.lookup fd = some (some ref) →
    b.clients.lookup fd' = some (some ref') →
    (b.heap ref).client_id = (b.heap ref').client_id → (b.heap ref).client_id ≠ [] → fd = fd'

/-! ## Connections -/

/-- The connections after a step were there before, except for one that `AddClient`
    adds. -/
structure ConnectionsStep (e : SystemEvent) (b b' : Broker) : Prop where
  lookup : ∀ {fd entry}, b'.clients.lookup fd = some entry → b.clients.lookup fd = some entry ∨
    (entry = some b.next_ref ∧ b.next_ref < b'.next_ref ∧ ∃ ip now, e = .addClient fd ip now)
  next_ref : b.next_ref ≤ b'.next_ref

/-- Behind `CloseConnection` the other entries are as they were. -/
theorem lookup_closeConnection {b : Broker} {it fd : Fd} {entry : Option ClientRef}
    (h : (b.closeConnection it).clients.lookup fd = some entry) :
    fd ≠ it ∧ b.clients.lookup fd = some entry := by
  by_cases hfd : fd = it
  · rw [hfd, closeConnection, delClient, AList.lookup_erase] at h
    simp at h
  · rw [closeConnection, delClient, AList.lookup_erase_ne hfd] at h
    exact ⟨hfd, h⟩

/-- Giving an id adds no connection. -/
theorem Identified.lookup {b b' : Broker} {pClient : ClientRef} {random : Bytes}
    {id : Option Bytes} (h : Identified b pClient random id b') {fd : Fd}
    {entry : Option ClientRef} (hfd : b'.clients.lookup fd = some entry) :
    b.clients.lookup fd = some entry := by
  cases h with
  | unused | generated => exact hfd
  | takenOver => exact (lookup_closeConnection hfd).2

/-- Giving an id makes no client. -/
theorem Identified.next_ref {b b' : Broker} {pClient : ClientRef} {random : Bytes}
    {id : Option Bytes} (h : Identified b pClient random id b') : b'.next_ref = b.next_ref := by
  cases h <;> rfl

/-- Editing a client changes no connection. -/
theorem Edits.clients {pClient : ClientRef} {b b' : Broker} (h : Edits pClient b b') :
    b'.clients = b.clients := by rw [h.eq_heap]

/-- Editing a client makes none. -/
theorem Edits.next_ref {pClient : ClientRef} {b b' : Broker} (h : Edits pClient b b') :
    b'.next_ref = b.next_ref := by rw [h.eq_heap]

/-- A CONNECT adds no connection. -/
theorem ConnectEffect.lookup {b b' : Broker} {pClient : ClientRef} {data random : Bytes}
    {err : MqttErr} (h : ConnectEffect b pClient data random b' err) {fd : Fd}
    {entry : Option ClientRef} (hfd : b'.clients.lookup fd = some entry) :
    b.clients.lookup fd = some entry := by
  cases h with
  | refused _ hedits => rwa [hedits.clients] at hfd
  | identified _ hedits _ hidentified hedits' =>
    rw [hedits'.clients] at hfd
    rw [← hedits.clients]
    exact hidentified.lookup hfd

/-- A CONNECT makes no client. -/
theorem ConnectEffect.next_ref {b b' : Broker} {pClient : ClientRef} {data random : Bytes}
    {err : MqttErr} (h : ConnectEffect b pClient data random b' err) :
    b'.next_ref = b.next_ref := by
  cases h with
  | refused _ hedits => exact hedits.next_ref
  | identified _ hedits _ hidentified hedits' =>
    exact hedits'.next_ref.trans (hidentified.next_ref.trans hedits.next_ref)

/-- Only `AddClient` adds a connection, and it makes a client of its own for it. -/
theorem Core.connections {s : ServerThread} {e : SystemEvent} {b b' : Broker}
    (h : Core s e b b') (hclients : b.clients = s.broker.clients) : ConnectionsStep e b b' := by
  cases h with
  | refl | setState | execute => exact ⟨.inl, Nat.le_refl _⟩
  | connect _ _ hclient _ hconnect =>
    -- a CONNECT takes at most a connection away
    obtain ⟨b₁, heffect, hdoes⟩ := connectHandler_effect (hclients ▸ hclient) hconnect
    constructor
    · intro fd entry hfd
      rw [hdoes.clients_eq] at hfd
      exact .inl (heffect.lookup hfd)
    · rw [hdoes.next_ref_eq, heffect.next_ref]
  | close => exact ⟨fun hfd => .inl (lookup_closeConnection hfd).2, Nat.le_refl _⟩
  | @addClient sock ip now he =>
    refine ⟨fun {fd entry} hfd => ?_, Nat.le_succ _⟩
    -- the entry is new, or it was there before
    by_cases hsock : fd = sock
    · subst hsock
      rw [Broker.addClient, UnorderedMap.lookup_insertNew_self] at hfd
      cases hold : b.clients.lookup fd with
      | none =>
        simp only [hold, Option.getD_none, Option.some.injEq, setClient] at hfd
        exact .inr ⟨hfd.symm, Nat.lt_succ_self _, ip, now, he⟩
      | some pClient =>
        simp only [hold, Option.getD_some, setClient] at hfd
        exact .inl hfd
    · rw [Broker.addClient, UnorderedMap.lookup_insertNew_ne hsock] at hfd
      exact .inl hfd
  | rehash hb =>
    refine ⟨fun {fd entry} hfd => .inl ?_, ?_⟩
    · rwa [UnorderedMap.lookup_eq_of_reordered hb.clients]
    · rw [hb.others]

/-- What a step of the system does to the connections. -/
theorem system_connections {s t : ServerThread} {e : SystemEvent} (h : system.Step s e t) :
    ConnectionsStep e s.broker t.broker := by
  obtain ⟨b₁, b₂, hd₁, hcore, hd₂⟩ := system_steps h
  have hstep := hcore.connections hd₁.clients_eq
  constructor
  · intro fd entry hfd
    rw [hd₂.clients_eq] at hfd
    rw [← hd₁.clients_eq, ← hd₁.next_ref_eq, hd₂.next_ref_eq]
    exact hstep.lookup hfd
  · rw [← hd₁.next_ref_eq, hd₂.next_ref_eq]
    exact hstep.next_ref

/-- Whose clients they are is seen in `clients` and `next_ref`. -/
theorem OwnClients.of_eq {b b' : Broker} (h : OwnClients b) (hclients : b'.clients = b.clients)
    (hnext : b'.next_ref = b.next_ref) : OwnClients b' := by
  constructor
  · intro fd ref hfd
    rw [hclients] at hfd
    rw [hnext]
    exact h.lt hfd
  · intro fd fd' ref hfd hfd'
    rw [hclients] at hfd hfd'
    exact h.inj hfd hfd'

/-- Every connection keeps a client of its own. -/
theorem OwnClients.step {b b' : Broker} {e : SystemEvent} (h : OwnClients b)
    (hstep : ConnectionsStep e b b') : OwnClients b' := by
  constructor
  · intro fd ref hfd
    obtain hold | ⟨hnew, hlt, -⟩ := hstep.lookup hfd
    · exact Nat.lt_of_lt_of_le (h.lt hold) hstep.next_ref
    · -- the reference of the new client is the last one
      obtain rfl := Option.some.inj hnew
      exact hlt
  · intro fd fd' ref hfd hfd'
    -- the reference of a new client is no older one's
    obtain hold | ⟨hnew, -, ip, now, he⟩ := hstep.lookup hfd
    · obtain hold' | ⟨hnew, -, -⟩ := hstep.lookup hfd'
      · exact h.inj hold hold'
      · obtain rfl := Option.some.inj hnew
        exact absurd (h.lt hold) (Nat.lt_irrefl _)
    · obtain rfl := Option.some.inj hnew
      obtain hold' | ⟨-, -, ip', now', he'⟩ := hstep.lookup hfd'
      · exact absurd (h.lt hold') (Nat.lt_irrefl _)
      · rw [he] at he'
        cases he'
        rfl

/-- In every run each connection has a client of its own. -/
theorem ownClients_of_reachable {s : ServerThread} (h : system.Reachable s) :
    OwnClients s.broker := by
  refine h.invariant (P := fun s => OwnClients s.broker) ?_ ?_
  · rintro _ ⟨control_sock, rfl⟩
    constructor
    · intro fd ref hfd
      simp at hfd
    · intro fd fd' ref hfd
      simp at hfd
  · intro s e t hs hstep
    exact hs.step (system_connections hstep)

/-! ## Client ids -/

/-- `GenRandom` is called: a CONNECT without a client id is read. -/
def GeneratesId (s : ServerThread) (e : SystemEvent) (random : Bytes) : Prop :=
  ∃ fd pClient add first data con_vh offset, socketAt s = some fd ∧
    s.broker.clients.lookup fd = some (some pClient) ∧
    e = .server (.socket (.pollin add (.packet first data random))) ∧
    (FixedHeader.mk first data.length).getType = PackType.CONNECT.code ∧
    ReadsId s.broker pClient data con_vh none offset

/-- What the environment of the broker guarantees: `GenRandom` returns an id that is
    not in use, and `main` adds sockets above zero only. -/
structure Environment (s : ServerThread) (e : SystemEvent) : Prop where
  random : ∀ random, GeneratesId s e random → ¬ InUse s.broker random
  sock : ∀ sock ip now, e = .addClient sock ip now → 0 < sock

/-- Every socket with a client is above zero. -/
def SocketsPositive (b : Broker) : Prop :=
  ∀ fd ref, b.clients.lookup fd = some (some ref) → 0 < fd

theorem UniqueIds.mono {b b' : Broker} (h : UniqueIds b)
    (hlookup : ∀ {fd ref}, b'.clients.lookup fd = some (some ref) →
      b.clients.lookup fd = some (some ref))
    (hids : ∀ ref, (b'.heap ref).client_id = (b.heap ref).client_id) : UniqueIds b' := by
  intro fd fd' ref ref' hfd hfd' hid hne
  rw [hids, hids] at hid
  rw [hids] at hne
  exact h fd fd' ref ref' (hlookup hfd) (hlookup hfd') hid hne

/-- Editing a client keeps the ids unique. -/
theorem UniqueIds.edits {b b' : Broker} {pClient : ClientRef} (h : UniqueIds b)
    (hedits : Edits pClient b b') : UniqueIds b' :=
  h.mono (fun hfd => by rwa [hedits.clients] at hfd) hedits.client_id

/-- A client gets an id that no client has. -/
theorem UniqueIds.setClient {b : Broker} {pClient : ClientRef} {c : Client} (h : UniqueIds b)
    (hown : OwnClients b) (hunused : c.client_id ≠ [] → ¬ InUse b c.client_id) :
    UniqueIds (b.setClient pClient c) := by
  have hid : ∀ ref, ref ≠ pClient →
      ((b.setClient pClient c).heap ref).client_id = (b.heap ref).client_id := fun ref href => by
    rw [heap_setClient_ne href]
  intro fd fd' ref ref' hfd hfd' heq hne
  -- one of the two may be the client that gets the id
  by_cases href : ref = pClient
  · by_cases href' : ref' = pClient
    · subst href href'
      exact hown.inj hfd hfd'
    · subst href
      rw [heap_setClient_self] at heq hne
      rw [hid ref' href'] at heq
      exact absurd ⟨fd', ref', hfd', heq.symm⟩ (hunused hne)
  · -- the other may be it as well
    rw [hid ref href] at heq hne
    by_cases href' : ref' = pClient
    · subst href'
      rw [heap_setClient_self] at heq
      exact absurd ⟨fd, ref, hfd, heq⟩ (hunused (heq ▸ hne))
    · rw [hid ref' href'] at heq
      exact h fd fd' ref ref' hfd hfd' heq hne

/-- Behind the only client with an id nobody has it. -/
theorem UniqueIds.closeConnection {b : Broker} (h : UniqueIds b) (it : Fd) :
    UniqueIds (b.closeConnection it) :=
  h.mono (fun hfd => (lookup_closeConnection hfd).2) fun _ => rfl

/-- Closing a connection leaves the others their clients. -/
theorem OwnClients.closeConnection {b : Broker} (h : OwnClients b) (it : Fd) :
    OwnClients (b.closeConnection it) where
  lt hfd := h.lt (lookup_closeConnection hfd).2
  inj hfd hfd' := h.inj (lookup_closeConnection hfd).2 (lookup_closeConnection hfd').2

/-- Giving a client its id keeps the ids unique: nobody has it, or its only holder is closed. -/
theorem UniqueIds.identified {b b' : Broker} {pClient : ClientRef} {random : Bytes}
    {id : Option Bytes} (h : UniqueIds b) (hown : OwnClients b) (hpos : SocketsPositive b)
    (hrandom : id = none → ¬ InUse b random) (hidentified : Identified b pClient random id b') :
    UniqueIds b' := by
  cases hidentified with
  | unused hfd =>
    refine h.setClient hown fun _ => ?_
    -- `GetClientFd` has found nobody: -1 is no socket
    obtain ⟨-, hunused⟩ | ⟨ref, href, -⟩ := getClientFd_eq_ok hfd
    · exact hunused
    · exact absurd (hpos _ _ href) (by decide)
  | @takenOver id check_fd hfd hne =>
    refine (h.closeConnection check_fd).setClient (hown.closeConnection check_fd) ?_
    rintro hid ⟨fd, ref, hlookup, heq⟩
    obtain ⟨hother, hlookup⟩ := lookup_closeConnection hlookup
    -- whoever had the id is the one whose connection is closed
    obtain ⟨hfd, -⟩ | ⟨ref', href', hid'⟩ := getClientFd_eq_ok hfd
    · exact hne hfd
    · have hheap : (b.heap ref).client_id = id := heq
      exact hother (h fd check_fd ref ref' hlookup href' (hheap.trans hid'.symm) (hheap ▸ hid))
  -- a generated id is new, by the assumption on `GenRandom`
  | generated => exact h.setClient hown fun _ => hrandom rfl

/-- What a CONNECT reads does not depend on operations before it. -/
theorem ReadsId.of_does {A : Op → Prop} {b b' : Broker} {pClient : ClientRef} {buf : Bytes}
    {con_vh : ConnectVH} {id : Option Bytes} {offset : Nat} (hdoes : Does A b b')
    (h : ReadsId b' pClient buf con_vh id offset) : ReadsId b pClient buf con_vh id offset := by
  have hdata : (b'.heap pClient).conn_properties = (b.heap pClient).conn_properties := by
    have hdata := congrArg Client.conn_properties (hdoes.connectData_eq pClient)
    exact hdata
  rwa [ReadsId, hdata] at h

/-- An id in use behind operations was in use before. -/
theorem InUse.of_does {A : Op → Prop} {b b' : Broker} {id : Bytes} (hdoes : Does A b b')
    (h : InUse b' id) : InUse b id := by
  obtain ⟨fd, ref, hlookup, hid⟩ := h
  rw [hdoes.clients_eq] at hlookup
  rw [hdoes.client_id_eq] at hid
  exact ⟨fd, ref, hlookup, hid⟩

/-- An id in use behind an edit was in use before. -/
theorem InUse.of_edits {b b' : Broker} {pClient : ClientRef} {id : Bytes}
    (hedits : Edits pClient b b') (h : InUse b' id) : InUse b id := by
  obtain ⟨fd, ref, hlookup, hid⟩ := h
  rw [hedits.clients] at hlookup
  rw [hedits.client_id] at hid
  exact ⟨fd, ref, hlookup, hid⟩

/-- A CONNECT keeps the ids unique. -/
theorem UniqueIds.connect {b b' : Broker} {pClient : ClientRef} {data random : Bytes}
    {err : MqttErr} (h : UniqueIds b) (hown : OwnClients b) (hpos : SocketsPositive b)
    (hrandom : ∀ con_vh offset, ReadsId b pClient data con_vh none offset → ¬ InUse b random)
    (heffect : ConnectEffect b pClient data random b' err) : UniqueIds b' := by
  cases heffect with
  | refused _ hedits => exact h.edits hedits
  | @identified con_vh id offset b₂ b₃ _ _ hreads hedits _ hidentified hedits' =>
    have hown₂ := hown.of_eq hedits.clients hedits.next_ref
    refine ((h.edits hedits).identified hown₂ ?_ ?_ hidentified).edits hedits'
    · rwa [SocketsPositive, hedits.clients]
    · rintro rfl huse
      exact hrandom con_vh offset hreads (huse.of_edits hedits)

/-- What is preserved, with what it is preserved by. -/
structure IdInv (b : Broker) : Prop where
  own : OwnClients b
  positive : SocketsPositive b
  unique : UniqueIds b

/-- A new client has no id yet. -/
theorem UniqueIds.addClient {b : Broker} (h : UniqueIds b) (hown : OwnClients b) (sock : Fd)
    (ip : Bytes) (now : Time) : UniqueIds (b.addClient sock ip now).1 := by
  have hstep : ConnectionsStep (.addClient sock ip now) b (b.addClient sock ip now).1 :=
    Core.connections (s := { broker := b }) (.addClient rfl) rfl
  -- the id of the new client is empty
  have hid : ∀ {fd ref}, (b.addClient sock ip now).1.clients.lookup fd = some (some ref) →
      (((b.addClient sock ip now).1.heap ref).client_id ≠ [] →
        b.clients.lookup fd = some (some ref) ∧
        ((b.addClient sock ip now).1.heap ref).client_id = (b.heap ref).client_id) := by
    intro fd ref hfd hne
    obtain hold | ⟨hnew, -, -⟩ := hstep.lookup hfd
    · refine ⟨hold, ?_⟩
      have href : ref ≠ b.next_ref := Nat.ne_of_lt (hown.lt hold)
      simp only [Broker.addClient, Broker.setClient, Function.update_of_ne href]
    · obtain rfl := Option.some.inj hnew
      simp [Broker.addClient, Broker.setClient] at hne
  intro fd fd' ref ref' hfd hfd' heq hne
  -- so both clients with an id are old ones
  obtain ⟨hold, heq₁⟩ := hid hfd hne
  obtain ⟨hold', heq₂⟩ := hid hfd' (heq ▸ hne)
  rw [heq₁, heq₂] at heq
  rw [heq₁] at hne
  exact h fd fd' ref ref' hold hold' heq hne

/-- Each step keeps the ids unique. -/
theorem IdInv.step {s t : ServerThread} {e : SystemEvent} (h : IdInv s.broker)
    (henv : Environment s e) (hstep : system.Step s e t) : IdInv t.broker := by
  have hconn := system_connections hstep
  refine ⟨h.own.step hconn, fun fd ref hfd => ?_, ?_⟩
  · obtain hold | ⟨-, -, ip, now, he⟩ := hconn.lookup hfd
    · exact h.positive fd ref hold
    · exact henv.sock fd ip now he
  · -- in front of and behind the core of a step no id is given
    obtain ⟨b₁, b₂, hd₁, hcore, hd₂⟩ := system_steps hstep
    have hunique₁ : UniqueIds b₁ :=
      h.unique.mono (fun hfd => by rwa [hd₁.clients_eq] at hfd) hd₁.client_id_eq
    have hown₁ := h.own.of_eq hd₁.clients_eq hd₁.next_ref_eq
    suffices hunique₂ : UniqueIds b₂ from
      hunique₂.mono (fun hfd => by rwa [hd₂.clients_eq] at hfd) hd₂.client_id_eq
    cases hcore with
    | refl => exact hunique₁
    | setState | execute => exact hunique₁
    -- only a CONNECT gives an id
    | @connect add first data random fd pClient _ _ he hat hclient htype hconnect =>
      rw [← hd₁.clients_eq] at hclient
      obtain ⟨b₃, heffect, hdoes⟩ := connectHandler_effect hclient hconnect
      -- the id is new, or its owner is taken over
      have hunique₃ : UniqueIds b₃ := by
        refine hunique₁.connect hown₁ ?_ (fun con_vh offset hreads huse => ?_) heffect
        · rw [SocketsPositive, hd₁.clients_eq]
          exact h.positive
        · rw [hd₁.clients_eq] at hclient
          exact henv.random random ⟨fd, pClient, add, first, data, con_vh, offset, hat, hclient, he,
            htype, hreads.of_does hd₁⟩ (huse.of_does hd₁)
      exact hunique₃.mono (fun hfd => by rwa [hdoes.clients_eq] at hfd) hdoes.client_id_eq
    | close => exact hunique₁.closeConnection _
    | addClient => exact hunique₁.addClient hown₁ _ _ _
    | rehash hb =>
      refine hunique₁.mono (fun hfd => ?_) fun ref => ?_
      · rwa [UnorderedMap.lookup_eq_of_reordered hb.clients]
      · rw [hb.others]

/-- In every reachable state two connections never have the same client id, unless it
    is empty. -/
theorem client_ids_unique {s : ServerThread} (h : (system.restrict Environment).Reachable s) :
    UniqueIds s.broker := by
  have hinv : IdInv s.broker := by
    refine h.invariant (P := fun s => IdInv s.broker) ?_ ?_
    · rintro _ ⟨control_sock, rfl⟩
      refine ⟨ownClients_of_reachable (.init ⟨control_sock, rfl⟩), ?_, ?_⟩
      · intro fd ref hfd
        simp at hfd
      · intro fd fd' ref ref' hfd
        simp at hfd
    · rintro s e t hs ⟨henv, hstep⟩
      exact hs.step henv hstep
  exact hinv.unique

/-! ## Two clients -/

/-- A CONNECT without a client id. -/
def connectWithoutId : Bytes := [0, 4, 0x4D, 0x51, 0x54, 0x54, 5, 0x02, 0, 60, 0, 0, 0]

/-- The client on socket 6 gets the id `b` from the broker, the one on socket 5 asks
    for the id `a`. -/
def connectTwo : List SystemEvent :=
  [.addClient 5 [] 0, .addClient 6 [] 0, .start, .server (.round false 0),
    .server (.round false 0),
    .server (.socket (.pollin false (.packet 0x10 connectWithoutId [0x62]))),
    .server (.socket (.pollin false (.packet 0x10 takeoverConnect [0x63])))]

/-- A check that an event is one of the environment: what is random in it is in use
    by no client. -/
def fromEnvironment (s : ServerThread) : SystemEvent → Bool
  | .addClient sock _ _ => 0 < sock
  | .server (.socket (.pollin _ (.packet _ _ random))) =>
    s.broker.clients.toList.all fun it => it.2.all fun ref =>
      (s.broker.heap ref).client_id ≠ random
  | _ => true

/-- What `fromEnvironment` checks. -/
private theorem environment_of_check {s : ServerThread} {e : SystemEvent}
    (h : fromEnvironment s e = true) : Environment s e := by
  constructor
  · rintro random ⟨fd, pClient, add, first, data, con_vh, offset, -, -, rfl, -⟩
    rintro ⟨fd', ref, hfd', hid⟩
    simp only [fromEnvironment, List.all_eq_true] at h
    have hall := h _ (UnorderedMap.mem_toList_iff.mpr hfd')
    simp [hid] at hall
  · rintro sock ip now rfl
    simpa [fromEnvironment] using h

/-- Two clients with the ids `a` and `b`. -/
theorem client_ids_unique_two :
    ∃ s, (system.restrict Environment).Reachable s ∧
      s.broker.clients.toList = [(6, some 1), (5, some 0)] ∧
      (s.broker.heap 1).client_id = [0x62] ∧ (s.broker.heap 0).client_id = [0x61] ∧
      UniqueIds s.broker := by
  have hrun : (connectTwo.foldlM (fun s e => if fromEnvironment s e then systemStep s e else none)
      { broker := { control_sock := 4 }, pc := .returned }).map
        (fun s => (s.broker.clients.toList, (s.broker.heap 1).client_id,
          (s.broker.heap 0).client_id)) = some ([(6, some 1), (5, some 0)], [0x62], [0x61]) := by
    decide +kernel
  obtain ⟨s, hs, hfinal⟩ := Option.map_eq_some_iff.mp hrun
  simp only [Prod.mk.injEq] at hfinal
  have hreach : (system.restrict Environment).Reachable s := by
    refine ⟨_, _, ⟨4, rfl⟩, LTS.run_of_foldlM (fun {s e t} hstep => ?_) hs⟩
    obtain ⟨hcheck, hstep⟩ := Option.ite_none_right_eq_some.mp hstep
    exact ⟨environment_of_check hcheck, .inl hstep⟩
  exact ⟨s, hreach, hfinal.1, hfinal.2.1, hfinal.2.2, client_ids_unique hreach⟩

end Mqtt.Spec
