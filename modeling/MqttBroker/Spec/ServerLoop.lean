import MqttBroker.ForStd.Transition
import MqttBroker.Spec.ScanStep

/-!
# The server loop and its clients

`vec_fds` is a snapshot of the sockets in `clients`. The loop looks every socket
of it up again in each pass, so the two have to stay in step. A CONNECT that
takes a connection over removes a socket from `clients` in the middle of a pass
and sets the state to nothing else: that is the only step that breaks the
invariant of the loop.
-/

namespace Mqtt.Spec

open Mqtt.Native Mqtt.Native.Broker

/-- The socket the scan is at. -/
def socketAt (s : ServerThread) : Option Fd :=
  match s.pc with
  | .scan client_num i _ _ => if i < client_num then s.vec_fds[i]? else none
  | _ => none

/-- The event is one `poll` can report. -/
def PossibleAt (s : ServerThread) (e : ServerEvent) : Prop :=
  ∀ fd event, socketAt s = some fd → e = .socket event → Possible s.broker fd event

/-- A CONNECT is handled that takes a connection over. -/
def TakeoverAt (s : ServerThread) (e : ServerEvent) : Prop :=
  ∃ fd event, socketAt s = some fd ∧ e = .socket event ∧ ReadsTakeover s.broker fd event

/-- The server thread with no other thread beside it, from a broker whose sockets
    all have clients. -/
def serverLoop : LTS ServerThread ServerEvent where
  Init s := AllConnected s.broker ∧ s.broker.control_sock ∉ s.broker.clients ∧
    s.broker.state = .started ∧ s.pc = .loop
  Step s e t := PossibleAt s e ∧ s.step e = .ok (some t)

/-- The sockets that are still to be looked up in `clients` in a pass. -/
def lookedUp (s : ServerThread) : List Fd :=
  match s.pc with
  | .scan client_num i _ fd_to_delete =>
    ((s.vec_fds.take client_num).drop i).filter (· ≠ s.broker.control_sock) ++ fd_to_delete
  | .close fd_to_delete => fd_to_delete
  | _ => []

/-! ## The invariant -/

/-- `vec_fds` lists the sockets of the clients and the control socket. -/
def InStep (s : ServerThread) : Prop :=
  s.vec_fds = s.broker.clients.keys ++ [s.broker.control_sock]

/-- What holds of `vec_fds` and `fd_to_delete` where the thread is. -/
def PassInv (s : ServerThread) : ServerPc → Prop
  | .loop => s.broker.state = .wait_state → InStep s
  | .scan client_num i _ fd_to_delete => InStep s ∧ client_num = s.vec_fds.length ∧
      fd_to_delete.Nodup ∧ (∀ fd ∈ fd_to_delete, Connected s.broker fd ∧ fd ∈ s.vec_fds.take i)
  | .close fd_to_delete => (fd_to_delete ≠ [] → s.broker.state = .started) ∧
      (s.broker.state = .wait_state → InStep s) ∧
      fd_to_delete.Nodup ∧ ∀ fd ∈ fd_to_delete, Connected s.broker fd
  | .returned => True

/-- The invariant of the server loop. -/
structure LoopInv (s : ServerThread) : Prop where
  all : AllConnected s.broker
  control : s.broker.control_sock ∉ s.broker.clients
  pass : PassInv s s.pc

/-- Who is in `clients` is connected, when no entry is null. -/
theorem connected_of_mem {b : Broker} (hall : AllConnected b) {fd : Fd} (h : fd ∈ b.clients) :
    Connected b fd := by
  obtain ⟨pClient, hlookup⟩ := Option.isSome_iff_exists.mp (AList.lookup_isSome.mpr h)
  cases pClient with
  | none => exact absurd hlookup (hall fd)
  | some ref => exact ⟨ref, hlookup⟩

/-- The sockets of a pass are connected, except for the control socket. -/
theorem connected_of_inStep {s : ServerThread} (hall : AllConnected s.broker) (h : InStep s)
    {fd : Fd} (hfd : fd ∈ s.vec_fds) : Connected s.broker fd ∨ fd = s.broker.control_sock := by
  rw [h, List.mem_append, List.mem_singleton] at hfd
  exact hfd.imp_left fun hkey => connected_of_mem hall (AList.mem_keys.mpr hkey)

/-- A list that is in step with `clients` has no socket twice. -/
theorem nodup_of_inStep {s : ServerThread} (hcontrol : s.broker.control_sock ∉ s.broker.clients)
    (h : InStep s) : s.vec_fds.Nodup := by
  rw [h, List.nodup_append]
  refine ⟨s.broker.clients.nodupKeys, List.nodup_singleton _, ?_⟩
  rintro fd hkey _ hc rfl
  rw [List.mem_singleton] at hc
  exact hcontrol (hc ▸ AList.mem_keys.mpr hkey)

/-! ## One step -/

/-- In a list without repetitions an element does not occur before its index. -/
theorem notMem_take {l : List Fd} (hl : l.Nodup) {i : Nat} {fd : Fd}
    (h : l[i]? = some fd) : fd ∉ l.take i := by
  have htake : (l.take (i + 1)).Nodup := hl.sublist (List.take_sublist _ _)
  rw [List.take_add_one, h] at htake
  intro hmem
  exact (List.nodup_append.mp htake).2.2 fd hmem fd (by simp) rfl

/-- The scan goes on with the next socket. -/
private theorem scan_inv {s : ServerThread} {b : Broker} {client_num i : Nat} {now : Time}
    {fd_to_delete : List Fd} {fd : Fd} {event : SocketEvent} (h : LoopInv s)
    (hpc : s.pc = .scan client_num i now fd_to_delete) (hfd : s.vec_fds[i]? = some fd)
    (hstep : ScanStep event fd s.broker b) (hquiet : ¬ ReadsTakeover s.broker fd event)
    {j : Nat} {del : List Fd} (hj : i + 1 ≤ j)
    (hdel : del = fd_to_delete ∨ del = fd_to_delete ++ [fd] ∧ Connected s.broker fd) :
    LoopInv { s with broker := b, pc := .scan client_num j now del } := by
  have hclients := hstep.clients hquiet
  have hpass := h.pass
  rw [hpc] at hpass
  obtain ⟨hin, hnum, hnodup, hdelete⟩ := hpass
  -- the sockets before this one are those before the next one, too
  have hbefore : ∀ {fd'}, fd' ∈ s.vec_fds.take i → fd' ∈ s.vec_fds.take j := fun hmem =>
    (List.take_sublist_take_left (by omega)).subset hmem
  have hat : fd ∈ s.vec_fds.take j := by
    refine (List.take_sublist_take_left hj).subset ?_
    rw [List.take_add_one, hfd]
    simp
  refine ⟨by rw [AllConnected, hclients]; exact h.all, ?_, ?_⟩
  · rw [hstep.control_sock, hclients]
    exact h.control
  · simp only [PassInv, InStep, Connected, hstep.control_sock, hclients]
    refine ⟨hin, hnum, ?_⟩
    obtain rfl | ⟨rfl, hc⟩ := hdel
    · exact ⟨hnodup, fun fd' hmem => ⟨(hdelete fd' hmem).1, hbefore (hdelete fd' hmem).2⟩⟩
    · -- the socket has not been seen in this pass
      have hnew : fd ∉ fd_to_delete := fun hmem =>
        notMem_take (nodup_of_inStep h.control hin) hfd (hdelete fd hmem).2
      refine ⟨hnodup.append (List.nodup_singleton fd) (by simpa using hnew), fun fd' hmem => ?_⟩
      rw [List.mem_append, List.mem_singleton] at hmem
      obtain hmem | rfl := hmem
      · exact ⟨(hdelete fd' hmem).1, hbefore (hdelete fd' hmem).2⟩
      · exact ⟨hc, hat⟩

/-- A connection is closed. -/
private theorem close_inv {s : ServerThread} {it : Fd} {rest : List Fd} (h : LoopInv s)
    (hpc : s.pc = .close (it :: rest)) :
    LoopInv { s with broker := s.broker.closeConnection it, pc := .close rest } := by
  have hpass := h.pass
  rw [hpc] at hpass
  obtain ⟨hstarted, -, hnodup, hconn⟩ := hpass
  have hstate : s.broker.state = .started := hstarted (by simp)
  -- the socket is gone from `clients`, and from the list of those to close
  refine ⟨fun fd => ?_, fun hmem => ?_, fun _ => hstate, fun hwait => ?_, ?_, fun fd hfd => ?_⟩
  · by_cases hfd : fd = it
    · rw [hfd, closeConnection, delClient, AList.lookup_erase]
      simp
    · rw [closeConnection, delClient, AList.lookup_erase_ne hfd]
      exact h.all fd
  · exact h.control (AList.mem_erase.mp hmem).2
  · exact nomatch hstate.symm.trans hwait
  · exact (List.nodup_cons.mp hnodup).2
  · have hne : fd ≠ it := fun heq => (List.nodup_cons.mp hnodup).1 (heq ▸ hfd)
    obtain ⟨ref, href⟩ := hconn fd (.tail _ hfd)
    exact ⟨ref, (AList.lookup_erase_ne hne).trans href⟩

/-- A socket of the scan keeps the invariant and meets no null client, unless a CONNECT takes a
    connection over. -/
private theorem scanAt_inv {s : ServerThread} {client_num i : Nat} {now : Time}
    {fd_to_delete : List Fd} {event : SocketEvent} (h : LoopInv s)
    (hpc : s.pc = .scan client_num i now fd_to_delete) (hi : i < client_num)
    (hpos : PossibleAt s (.socket event)) (hquiet : ¬ TakeoverAt s (.socket event)) :
    (s.scanAt client_num i now fd_to_delete event).Sat LoopInv (· ≠ .nullClient) := by
  have hpass := h.pass
  rw [hpc] at hpass
  obtain ⟨hin, hnum, -, -⟩ := hpass
  obtain ⟨fd, hfd⟩ : ∃ fd, s.vec_fds[i]? = some fd :=
    ⟨_, List.getElem?_eq_getElem (by omega)⟩
  have hat : socketAt s = some fd := by
    simp only [socketAt, hpc, if_pos hi, hfd]
  have hread : ¬ ReadsTakeover s.broker fd event := fun ht =>
    hquiet ⟨fd, event, hat, rfl, ht⟩
  have hconn := connected_of_inStep h.all hin (List.mem_of_getElem? hfd)
  simp only [ServerThread.scanAt, hfd]
  apply ((scanSocket_step s.broker fd now event).mono (fun _ hr => hr) fun e he hnull =>
    he hnull h.all (hpos fd event hat rfl) hconn).bind
  rintro ⟨b, next⟩ ⟨hstep, hdelete⟩
  -- go on, note the socket for closing, or leave the scan
  cases next with
  | keep => exact scan_inv h hpc hfd hstep hread (Nat.le_refl _) (.inl rfl)
  | delete => exact scan_inv h hpc hfd hstep hread (Nat.le_refl _) (.inr ⟨rfl, hdelete rfl⟩)
  | stop => exact scan_inv h hpc hfd hstep hread hi (.inl rfl)

/-- A step without a takeover keeps the invariant and meets no null client. -/
theorem step_inv {s : ServerThread} {e : ServerEvent} (h : LoopInv s) (hpos : PossibleAt s e)
    (hquiet : ¬ TakeoverAt s e) :
    (s.step e).Sat (fun r => ∀ t ∈ r, LoopInv t) (· ≠ .nullClient) := by
  have hpass := h.pass
  have hsome : ∀ {t}, LoopInv t → ∀ t' ∈ some t, LoopInv t' := by
    rintro t ht _ ⟨⟩
    exact ht
  unfold ServerThread.step
  split
  · -- a round, by the state of the broker
    rename_i hpc
    rw [hpc] at hpass
    split
    · exact hsome h
    · apply hsome
      unfold ServerThread.started
      split
      · exact ⟨h.all, h.control, trivial⟩
      · refine ⟨h.all, h.control, ?_⟩
        change PassInv _ s.pc
        rw [hpc]
        intro _
        rw [InStep, ← UnorderedMap.keys_eq_map_toList]
        rfl
    · rename_i hwait
      have hin := hpass hwait
      -- the indexes of the scan are those of `vec_fds`
      have hlen : s.broker.getClientCount + 1 = s.vec_fds.length := by
        rw [hin, ← UnorderedMap.keys_eq_map_toList, getClientCount]
        simp
      apply hsome
      unfold ServerThread.waitState
      split <;> exact ⟨h.all, h.control, hin, hlen, List.nodup_nil, nofun⟩
  · -- a socket of the scan
    rename_i hpc
    split
    · rename_i hi
      apply (scanAt_inv h hpc hi hpos hquiet).bind
      exact fun t ht => hsome ht
    · exact nofun
  · -- the end of the scan
    rename_i hpc
    rw [hpc] at hpass
    obtain ⟨hin, -, hnodup, hdelete⟩ := hpass
    split
    · exact nofun
    · apply hsome
      unfold ServerThread.scanEnd
      split
      · rename_i hempty
        rw [List.isEmpty_iff] at hempty
        subst hempty
        exact ⟨h.all, h.control, fun hne => absurd rfl hne, fun _ => hin, hnodup, nofun⟩
      · exact ⟨h.all, h.control, fun _ => rfl, nofun, hnodup, fun fd hfd => (hdelete fd hfd).1⟩
  · rename_i it rest hpc
    rw [hpc] at hpass
    -- what is to be deleted has not been closed yet
    obtain ⟨ref, href⟩ := hpass.2.2.2 it (.head _)
    rw [ServerThread.closeNext, derefAt_eq href]
    exact hsome (close_inv h hpc)
  · rename_i hpc
    rw [hpc] at hpass
    exact hsome ⟨h.all, h.control, hpass.2.1⟩
  · exact nofun

/-- The invariant holds in all runs without a takeover. -/
theorem inv_of_reachable {s : ServerThread}
    (h : (serverLoop.restrict fun s e => ¬ TakeoverAt s e).Reachable s) : LoopInv s := by
  refine h.invariant (fun {s} hinit => ?_) fun {s e t} hs hstep => ?_
  · obtain ⟨hall, hcontrol, hstate, hpc⟩ := hinit
    refine ⟨hall, hcontrol, ?_⟩
    rw [hpc]
    exact fun hwait => nomatch hstate.symm.trans hwait
  · obtain ⟨hquiet, hpos, heq⟩ := hstep
    exact (step_inv hs hpos hquiet).of_eq_ok heq t rfl

/-- In every run of the server loop in which no CONNECT takes a connection over, every
    entry of `clients` has a client, every socket that is still to be looked up has
    one, and no possible step meets a null client. -/
theorem server_lookups_valid {s : ServerThread}
    (h : (serverLoop.restrict fun s e => ¬ TakeoverAt s e).Reachable s) :
    AllConnected s.broker ∧ (∀ fd ∈ lookedUp s, Connected s.broker fd) ∧
      ∀ e, PossibleAt s e → ¬ TakeoverAt s e → s.step e ≠ .error .nullClient := by
  have hinv := inv_of_reachable h
  have hpass := hinv.pass
  refine ⟨hinv.all, fun fd hfd => ?_, fun e hpos hquiet heq =>
    (step_inv hinv hpos hquiet).of_eq_error heq rfl⟩
  -- in the scan what is looked up is in the list, or already to be closed
  unfold lookedUp at hfd
  split at hfd
  · rename_i hpc
    rw [hpc] at hpass
    obtain ⟨hin, -, -, hdelete⟩ := hpass
    rw [List.mem_append, List.mem_filter] at hfd
    obtain ⟨hmem, hne⟩ | hmem := hfd
    · have hvec := List.mem_of_mem_take (List.mem_of_mem_drop hmem)
      exact (connected_of_inStep hinv.all hin hvec).resolve_right (by simpa using hne)
    · exact (hdelete fd hmem).1
  · rename_i hpc
    rw [hpc] at hpass
    exact hpass.2.2.2 fd hfd
  · exact nomatch hfd

/-- Two clients, on the sockets 6 and 5; the one on socket 5 has the id `a`. -/
def twoClients : ServerThread where
  broker := {
    heap := fun ref =>
      { ip := [], time_last_packet := 0, client_id := if ref = 0 then [0x61] else [] }
    clients := AList.insert 6 (some 1) (AList.insert 5 (some 0) ∅)
    current_clients := 2
    state := .started
    control_sock := 4 }

/-- Every event but a hangup is possible. -/
private theorem possibleAt_of_ne {s : ServerThread} {e : ServerEvent} (h : e ≠ .socket .hangup) :
    PossibleAt s e := by
  rintro fd event _ rfl _ rfl
  exact h rfl

/-- A round reads no packet. -/
private theorem not_takeoverAt_round {s : ServerThread} (poll_error : Bool) (now : Time) :
    ¬ TakeoverAt s (.round poll_error now) := by
  rintro ⟨fd, event, _, h, _⟩
  exact nomatch h

/-- The thread has polled the two clients. -/
def polled : ServerThread := twoClients.started.waitState false 0

/-- `polled` is reached by two rounds of the server thread. -/
private theorem polled_reachable :
    (serverLoop.restrict fun s e => ¬ TakeoverAt s e).Reachable polled := by
  have hinit : (serverLoop.restrict fun s e => ¬ TakeoverAt s e).Reachable twoClients := by
    refine .init ⟨fun fd => ?_, by decide, rfl, rfl⟩
    -- there are entries for the sockets 6 and 5 only, and none is null
    by_cases h6 : fd = 6
    · subst h6
      decide
    · by_cases h5 : fd = 5
      · subst h5
        decide
      · have hnone : twoClients.broker.clients.lookup fd = none :=
          (AList.lookup_insert_ne h6).trans
            ((AList.lookup_insert_ne h5).trans (AList.lookup_empty fd))
        rw [hnone]
        exact nofun
  have hstarted := hinit.step (e := .round false 0) (t := twoClients.started)
    ⟨not_takeoverAt_round _ _, possibleAt_of_ne nofun, rfl⟩
  exact hstarted.step (e := .round false 0) ⟨not_takeoverAt_round _ _, possibleAt_of_ne nofun, rfl⟩

/-- With two clients both sockets are looked up, and both are connected. -/
theorem server_lookups_valid_polled : lookedUp polled = [6, 5] ∧ AllConnected polled.broker ∧
    (∀ fd ∈ lookedUp polled, Connected polled.broker fd) ∧
      ∀ e, PossibleAt polled e → ¬ TakeoverAt polled e → polled.step e ≠ .error .nullClient :=
  ⟨rfl, server_lookups_valid polled_reachable⟩

/-- A CONNECT with the id `a` and the flag Clean Start. -/
def takeoverConnect : Bytes :=
  [0, 4, 0x4D, 0x51, 0x54, 0x54, 5, 0x02, 0, 60, 0, 0, 1, 0x61]

/-- The client on socket 6 takes the id of the one on socket 5, whose turn comes
    next in the same pass. -/
theorem takeover_meets_null_client : ∃ s, serverLoop.Reachable s ∧ 5 ∈ lookedUp s ∧
    s.broker.clients.lookup 5 = none ∧ PossibleAt s (.socket .idle) ∧
    s.step (.socket .idle) = .error .nullClient := by
  have hpolled : serverLoop.Reachable polled := polled_reachable.of_restrict
  have hstep := hpolled.step (e := .socket (.pollin false (.packet 0x10 takeoverConnect [])))
    ⟨possibleAt_of_ne nofun, rfl⟩
  exact ⟨_, hstep, by decide, rfl, possibleAt_of_ne nofun, rfl⟩

end Mqtt.Spec
