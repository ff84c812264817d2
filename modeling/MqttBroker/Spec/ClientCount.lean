import Mathlib.Data.Int.Interval
import MqttBroker.Spec.Inbound
import MqttBroker.Spec.PollLoop

/-!
# The connection counter

`AddClient` counts a connection before it knows whether `clients` takes it, and `DelClient`
takes one off whether there was one. So `current_clients` drifts away from the size of
`clients` with each call that misses the map; a takeover and the closing of connections
behind a pass do not miss it.
-/

namespace Mqtt.Spec

open Mqtt.Native Mqtt.Native.Broker

/-- The counter is the number of clients. -/
def CountsClients (b : Broker) : Prop := b.current_clients.toNat = b.getClientCount

/-- How far the counter is ahead of the number of clients. -/
def drift (b : Broker) : UInt32 := b.current_clients - UInt32.ofNat b.getClientCount

/-- The drift is seen in `clients` and the counter. -/
theorem drift_congr {b b' : Broker} (hclients : b'.clients = b.clients)
    (hcount : b'.current_clients = b.current_clients) : drift b' = drift b := by
  rw [drift, drift, hcount, getClientCount_congr hclients]

/-- No operation moves the counter or a connection. -/
theorem Does.drift_eq {A : Op → Prop} {b b' : Broker} (h : Does A b b') : drift b' = drift b :=
  drift_congr h.clients_eq (congrArg (·.2.2.1) h.connections_eq)

/-! ## Calls -/

/-- A connection that `clients` does not take is counted all the same. -/
theorem drift_addClient (b : Broker) (sock : Fd) (ip : Bytes) (now : Time) :
    drift (b.addClient sock ip now).1 = drift b + if sock ∈ b.clients then 1 else 0 := by
  have hnew : (b.addClient sock ip now).2 = (b.clients.lookup sock).isNone := rfl
  have hcounter : (b.addClient sock ip now).1.current_clients = b.current_clients + 1 := rfl
  rw [drift, drift, hcounter, getClientCount_addClient, hnew]
  by_cases hmem : sock ∈ b.clients
  · obtain ⟨entry, hentry⟩ := Option.isSome_iff_exists.mp (AList.lookup_isSome.mpr hmem)
    -- the insertion changes nothing, and the client is counted already
    rw [if_pos hmem, hentry]
    simp only [Option.isNone_some, Bool.false_eq_true, if_false, Nat.add_zero]
    grind
  · rw [if_neg hmem, AList.lookup_eq_none.mpr hmem]
    simp only [Option.isNone_none, if_true, UInt32.ofNat_add]
    grind

/-- A connection that `clients` does not have is taken off all the same. -/
theorem drift_closeConnection (b : Broker) (fd : Fd) :
    drift (b.closeConnection fd) = drift b - if fd ∈ b.clients then 0 else 1 := by
  have hcounter : (b.closeConnection fd).current_clients = b.current_clients - 1 := rfl
  have hclients : (b.closeConnection fd).clients = b.clients.erase fd := rfl
  rw [drift, drift, hcounter, getClientCount_eq, getClientCount_eq, hclients, AList.keys_erase]
  by_cases hmem : fd ∈ b.clients
  · -- a connection that was there is one less on both sides
    have hkey := AList.mem_keys.mp hmem
    have hlen : b.clients.keys.length = (b.clients.keys.erase fd).length + 1 := by
      rw [List.length_erase_of_mem hkey]
      have hpos := List.length_pos_of_mem hkey
      omega
    rw [if_pos hmem, hlen, UInt32.ofNat_add]
    grind
  · -- one that was not there is counted down all the same
    rw [if_neg hmem, List.erase_of_not_mem fun hkey => hmem (AList.mem_keys.mpr hkey)]
    grind

/-! ## Steps of the threads -/

/-- Editing a client moves neither. -/
theorem Edits.drift {pClient : ClientRef} {b b' : Broker} (h : Edits pClient b b') :
    Spec.drift b' = Spec.drift b := by
  rw [h.eq_heap]
  exact drift_congr rfl rfl

/-- A connection that is taken over is one that `clients` has. -/
theorem Identified.drift {b b' : Broker} {pClient : ClientRef} {random : Bytes} {id : Option Bytes}
    (h : Identified b pClient random id b') : Spec.drift b' = Spec.drift b := by
  cases h with
  | unused | generated => exact drift_congr rfl rfl
  | @takenOver id check_fd hcheck hne =>
    obtain ⟨ref, href, -⟩ := (getClientFd_eq_ok hcheck).resolve_left fun h => hne h.1
    have hmem : check_fd ∈ b.clients := AList.lookup_isSome.mp (by rw [href]; rfl)
    have hclosed := drift_closeConnection b check_fd
    rw [if_pos hmem, UInt32.sub_zero] at hclosed
    exact (drift_congr rfl rfl).trans hclosed

/-- A CONNECT closes connections with the counter. -/
theorem ConnectEffect.drift {b b' : Broker} {pClient : ClientRef} {data random : Bytes}
    {err : MqttErr} (h : ConnectEffect b pClient data random b' err) :
    Spec.drift b' = Spec.drift b := by
  cases h with
  | refused _ hedits => exact hedits.drift
  | identified _ hedits _ hidentified hedits' =>
    rw [hedits'.drift, hidentified.drift, hedits.drift]

/-- The order of `clients` does not matter to their number. -/
theorem Rehashed.drift {b b' : Broker} (h : Rehashed b b') : Spec.drift b' = Spec.drift b := by
  rw [Spec.drift, Spec.drift, h.getClientCount, h.others]

/-- No step of the server thread misses `clients`. -/
theorem server_drift {s t : ServerThread} {e : ServerEvent} (h : system.Step s (.server e) t)
    (hcase : ServerCase s e t) : drift t.broker = drift s.broker := by
  cases hcase with
  | idle | finished | started | closed => rfl
  | wait _ _ hb | scanEnd _ _ hb =>
    obtain rfl | rfl := hb
    · rfl
    · rfl
  -- a packet works with operations, and a CONNECT with `CloseConnection`
  | socket hpc =>
    obtain ⟨b₁, b₂, hd₁, hcore, hd₂⟩ := system_steps h
    rw [hd₂.drift_eq, ← hd₁.drift_eq]
    cases hcore with
    | refl | setState | execute => rfl
    | connect _ _ hclient _ hconnect =>
      obtain ⟨b₃, heffect, hdoes⟩ := connectHandler_effect (hd₁.clients_eq ▸ hclient) hconnect
      rw [hdoes.drift_eq, heffect.drift]
    | close hclose => rw [hpc] at hclose; cases hclose
    | addClient he => cases he
    | rehash hb => exact hb.drift
  | @close it rest pClient hpc hclient =>
    -- the loop dereferences the client, so there is one
    have hmem : it ∈ s.broker.clients := AList.lookup_isSome.mp (by rw [hclient]; rfl)
    exact (drift_closeConnection s.broker it).trans (by rw [if_pos hmem, UInt32.sub_zero])

/-- No step but an `AddClient` at a socket that is in changes the drift of the count. -/
theorem system_drift {s t : ServerThread} {e : SystemEvent} (h : system.Step s e t) :
    drift t.broker = drift s.broker + match e with
      | .addClient sock _ _ => if sock ∈ s.broker.clients then 1 else 0
      | _ => 0 := by
  cases system_cases h with
  | server hcase => rw [server_drift h hcase, UInt32.add_zero]
  | addClient => exact drift_addClient ..
  | start | execute => exact (UInt32.add_zero _).symm
  | qos hdoes => exact hdoes.drift_eq.trans (UInt32.add_zero _).symm
  | rehash hb => exact hb.drift.trans (UInt32.add_zero _).symm

/-! ## Runs -/

/-- The threads of the broker, and whoever else calls `CloseConnection` or `DelClient`. -/
def closingSystem : LTS ServerThread (SystemEvent ⊕ Fd) where
  Init := system.Init
  Step s e t := match e with
    | .inl e => system.Step s e t
    | .inr fd => t = { s with broker := s.broker.closeConnection fd }

/-- `AddClient` gets a descriptor, which is no negative `int`. -/
def AddsDescriptor : SystemEvent ⊕ Fd → Prop
  | .inl (.addClient sock _ _) => 0 ≤ sock ∧ sock < 2 ^ 31
  | _ => True

/-- `AddClient` is for a new key, and a connection that is closed is there. -/
def MeetsClients (s : ServerThread) : SystemEvent ⊕ Fd → Prop
  | .inl (.addClient sock _ _) => sock ∉ s.broker.clients
  | .inr fd => fd ∈ s.broker.clients
  | _ => True

/-- What a step is to do for the counter. -/
structure CountsStep (s : ServerThread) (e : SystemEvent ⊕ Fd) (t : ServerThread) : Prop where
  counts : CountsClients t.broker
  /-- `AddClient` changes nothing when it returns `add_error`. -/
  add_error : ∀ sock ip now, e = .inl (.addClient sock ip now) →
    (s.broker.addClient sock ip now).2 = false → t.broker = s.broker
  /-- The counter does not go below zero. -/
  above : s.broker.current_clients = 0 → t.broker.current_clients ≠ 0 - 1

/-- All keys of `clients` are descriptors. -/
def DescriptorKeys (b : Broker) : Prop := ∀ fd ∈ b.clients, 0 ≤ fd ∧ fd < 2 ^ 31

/-- There are at most 2^31 descriptors. -/
theorem DescriptorKeys.getClientCount_le {b : Broker} (h : DescriptorKeys b) :
    b.getClientCount ≤ 2 ^ 31 := by
  have hsubset : b.clients.keys.toFinset ⊆ Finset.Ico 0 (2 ^ 31 : Int) := by
    intro fd hfd
    exact Finset.mem_Ico.mpr (h fd (AList.mem_keys.mpr (List.mem_toFinset.mp hfd)))
  have hnodup : b.clients.keys.Nodup := b.clients.nodupKeys
  have hcard := Finset.card_le_card hsubset
  rw [List.toFinset_card_of_nodup hnodup, Int.card_Ico] at hcard
  rw [getClientCount_eq]
  simpa using hcard

/-- With so few clients the counter is right when it has not drifted. -/
theorem DescriptorKeys.countsClients_iff {b : Broker} (h : DescriptorKeys b) :
    CountsClients b ↔ drift b = 0 := by
  have hle := h.getClientCount_le
  -- the number of clients fits into the counter
  have hcount : (UInt32.ofNat b.getClientCount).toNat = b.getClientCount := by
    rw [UInt32.toNat_ofNat']
    exact Nat.mod_eq_of_lt (by omega)
  rw [CountsClients, drift, UInt32.sub_eq_iff_eq_add, UInt32.zero_add, ← UInt32.toNat_inj, hcount]

/-- Sockets in `clients` stay descriptors. -/
theorem DescriptorKeys.step {s t : ServerThread} {e : SystemEvent ⊕ Fd}
    (h : DescriptorKeys s.broker) (hadds : AddsDescriptor e) (hstep : closingSystem.Step s e t) :
    DescriptorKeys t.broker := by
  intro fd hfd
  obtain ⟨entry, hentry⟩ := Option.isSome_iff_exists.mp (AList.lookup_isSome.mpr hfd)
  have hold : s.broker.clients.lookup fd = some entry → 0 ≤ fd ∧ fd < 2 ^ 31 := fun hlookup =>
    h fd (AList.lookup_isSome.mp (by rw [hlookup]; rfl))
  cases e with
  | inl e =>
    -- a new key is the socket of `AddClient`
    obtain hlookup | ⟨-, -, ip, now, rfl⟩ := (system_connections hstep).lookup hentry
    · exact hold hlookup
    · exact hadds
  | inr it =>
    obtain rfl : t = _ := hstep
    exact hold (lookup_closeConnection hentry).2

/-- A step drifts where it does not meet `clients`. -/
theorem drift_step {s t : ServerThread} {e : SystemEvent ⊕ Fd} (hstep : closingSystem.Step s e t)
    (hdrift : drift s.broker = 0) : drift t.broker = 0 ↔ MeetsClients s e := by
  cases e with
  | inl e =>
    rw [system_drift hstep, hdrift, UInt32.zero_add]
    cases e with
    | addClient sock ip now =>
      -- `AddClient` counts a client that `clients` refuses
      by_cases hmem : sock ∈ s.broker.clients
      · simp [MeetsClients, hmem]
      · simp [MeetsClients, hmem]
    | server | start | qos | execute | rehash => exact iff_of_true rfl trivial
  | inr fd =>
    obtain rfl : t = _ := hstep
    rw [drift_closeConnection, hdrift]
    by_cases hmem : fd ∈ s.broker.clients
    · simp [MeetsClients, hmem]
    · simp [MeetsClients, hmem]

/-- In a state with the right counter a step does right exactly when it meets `clients`. -/
theorem countsStep_iff {s t : ServerThread} {e : SystemEvent ⊕ Fd} (h : DescriptorKeys s.broker)
    (hadds : AddsDescriptor e) (hcounts : CountsClients s.broker)
    (hstep : closingSystem.Step s e t) : CountsStep s e t ↔ MeetsClients s e := by
  have ht := h.step hadds hstep
  have hmeets := drift_step hstep (h.countsClients_iff.mp hcounts)
  refine ⟨fun hright => hmeets.mp (ht.countsClients_iff.mp hright.counts), fun hmeet => ?_⟩
  have hcounts' := ht.countsClients_iff.mpr (hmeets.mpr hmeet)
  refine ⟨hcounts', ?_, fun _ hwrapped => ?_⟩
  · rintro sock ip now rfl herror
    -- the socket is new, so there is no error
    have hnew : (s.broker.addClient sock ip now).2 = (s.broker.clients.lookup sock).isNone := rfl
    rw [hnew, AList.lookup_eq_none.mpr hmeet] at herror
    cases herror
  · -- so many clients there are not
    have hle := ht.getClientCount_le
    have heq : t.broker.current_clients.toNat = t.broker.getClientCount := hcounts'
    rw [← heq, hwrapped] at hle
    exact absurd hle (by decide)

/-- In every run in which `AddClient` is for new keys and connections are closed that are
    there, the counter is the number of clients. The first step that is not so makes it
    wrong, and no other one. -/
theorem counts_step_iff {s : ServerThread}
    (h : (closingSystem.restrict fun s e => AddsDescriptor e ∧ MeetsClients s e).Reachable s) :
    CountsClients s.broker ∧ ∀ e t, AddsDescriptor e → closingSystem.Step s e t →
      (CountsStep s e t ↔ MeetsClients s e) := by
  have hinv : DescriptorKeys s.broker ∧ CountsClients s.broker := by
    refine h.invariant (P := fun s => DescriptorKeys s.broker ∧ CountsClients s.broker) ?_ ?_
    · rintro s ⟨control_sock, rfl⟩
      exact ⟨fun fd hfd => absurd hfd (AList.notMem_empty fd), rfl⟩
    · rintro s e t ⟨hkeys, hcounts⟩ ⟨⟨hadds, hmeets⟩, hstep⟩
      exact ⟨hkeys.step hadds hstep, ((countsStep_iff hkeys hadds hcounts hstep).mpr hmeets).counts⟩
  exact ⟨hinv.2, fun e t hadds hstep => countsStep_iff hinv.1 hadds hinv.2 hstep⟩

/-- The broker from its start on, with one client. -/
def oneAdded : ServerThread := { fromStart with broker := (fromStart.broker.addClient 5 [] 0).1 }

/-- The socket 5 is a descriptor. -/
theorem addsDescriptor_five : AddsDescriptor (.inl (.addClient 5 [] 0)) :=
  ⟨by decide, by decide⟩

/-- A broker that has added one client is reached. -/
theorem reachable_oneAdded :
    (closingSystem.restrict fun s e => AddsDescriptor e ∧ MeetsClients s e).Reachable oneAdded := by
  have hinit : (closingSystem.restrict fun s e => AddsDescriptor e ∧ MeetsClients s e).Reachable
      fromStart := .init ⟨4, rfl⟩
  refine hinit.step (e := .inl (.addClient 5 [] 0)) ⟨⟨addsDescriptor_five, ?_⟩, .inl rfl⟩
  exact AList.notMem_empty 5

/-- The client is counted, and closing its connection does right. -/
theorem counts_step_one_added : CountsClients oneAdded.broker ∧
    CountsStep oneAdded (.inr 5)
      { oneAdded with broker := oneAdded.broker.closeConnection 5 } := by
  obtain ⟨hcounts, hstep⟩ := counts_step_iff reachable_oneAdded
  have hmem : 5 ∈ oneAdded.broker.clients := AList.mem_keys.mpr (.head _)
  exact ⟨hcounts, (hstep (.inr 5) _ trivial rfl).mpr hmem⟩

/-- A client that is refused is counted, and a connection that is closed twice takes the
    counter below zero. -/
theorem refused_client_counted :
    (∃ s t, (closingSystem.restrict fun _ e => AddsDescriptor e).Reachable s ∧
      closingSystem.Step s (.inl (.addClient 5 [] 0)) t ∧
      (s.broker.addClient 5 [] 0).2 = false ∧ t.broker ≠ s.broker ∧
      t.broker.current_clients = 2 ∧ t.broker.getClientCount = 1) ∧
    ∃ s t, (closingSystem.restrict fun _ e => AddsDescriptor e).Reachable s ∧
      closingSystem.Step s (.inr 5) t ∧ s.broker.current_clients = 0 ∧
      t.broker.current_clients = 0 - 1 ∧ t.broker.getClientCount = 0 := by
  have hinit : (closingSystem.restrict fun _ e => AddsDescriptor e).Reachable fromStart :=
    .init ⟨4, rfl⟩
  have hone : (closingSystem.restrict fun _ e => AddsDescriptor e).Reachable oneAdded :=
    hinit.step ⟨addsDescriptor_five, .inl rfl⟩
  have hclosed : (closingSystem.restrict fun _ e => AddsDescriptor e).Reachable
      { oneAdded with broker := oneAdded.broker.closeConnection 5 } :=
    hone.step (e := .inr 5) ⟨trivial, rfl⟩
  refine ⟨⟨oneAdded, _, hone, .inl rfl, rfl, fun heq => ?_, rfl, rfl⟩,
    _, _, hclosed, rfl, rfl, rfl, rfl⟩
  exact absurd (congrArg Broker.current_clients heq) (by decide)

end Mqtt.Spec
