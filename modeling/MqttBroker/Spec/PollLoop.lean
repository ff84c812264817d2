import MqttBroker.Spec.EventLoop
import MqttBroker.Spec.Will

/-!
# The bound of the poll loop

In `wait_state` the server thread takes the number of sockets from `clients` and the
sockets from `vec_fds`, which it has built from `clients` some time before. Since then
the main thread may have inserted clients and a CONNECT may have taken connections
over; connections that are closed behind a pass do not count, as the list is built anew
before the next one.
-/

namespace Mqtt.Spec

open Mqtt.Native Mqtt.Native.Broker

/-- What has happened to `clients` since `vec_fds` was built. -/
structure Polled where
  /-- Clients the main thread has inserted. -/
  added : Nat := 0
  /-- Connections that were gone behind a socket of the scan. -/
  taken : Nat := 0
deriving DecidableEq

/-- A new list starts the counts anew; an insertion and a takeover are counted since. -/
def notePolled (s : EventLoop) (e : LoopEvent) (t : EventLoop) (g : Polled) : Polled :=
  match e with
  | .iterate => {}
  | .insert sock ip now =>
    if (s.thread.broker.addClient sock ip now).2 then { g with added := g.added + 1 } else g
  | .server (.socket _) => { g with
    taken := g.taken + (s.thread.broker.getClientCount - t.thread.broker.getClientCount) }
  | _ => g

/-- The list is that of a state of `clients`, but for what was noted since. -/
structure PollInv (s : EventLoop) (g : Polled) : Prop where
  closing : ∀ it rest, s.thread.pc = .close (it :: rest) → s.thread.broker.state = .started
  polled : s.within = .iterated ∨ s.thread.broker.state = .wait_state →
    ∃ fds, s.thread.vec_fds = fds ++ [s.thread.broker.control_sock] ∧
      s.thread.broker.getClientCount + g.taken = fds.length + g.added

/-! ## The number of clients -/

/-- `getClientCount` counts the sockets of `clients`. -/
theorem getClientCount_eq (b : Broker) : b.getClientCount = b.clients.keys.length := by
  rw [getClientCount, ← UnorderedMap.keys_eq_map_toList, List.length_map]

/-- Fewer connections are a smaller count. -/
theorem getClientCount_le {b b' : Broker} (h : ∀ fd ∈ b'.clients, fd ∈ b.clients) :
    b'.getClientCount ≤ b.getClientCount := by
  rw [getClientCount_eq, getClientCount_eq]
  refine (List.subperm_of_subset b'.clients.nodupKeys fun fd hfd => ?_).length_le
  exact AList.mem_keys.mp (h fd (AList.mem_keys.mpr hfd))

/-- `addClient` counts one more unless the socket is there. -/
theorem getClientCount_addClient (b : Broker) (sock : Fd) (ip : Bytes) (now : Time) :
    (b.addClient sock ip now).1.getClientCount =
      b.getClientCount + if (b.addClient sock ip now).2 then 1 else 0 := by
  have hclients : (b.addClient sock ip now).1.clients =
      b.clients.insertNew sock (some b.next_ref) := rfl
  have hnew : (b.addClient sock ip now).2 = (b.clients.lookup sock).isNone := rfl
  rw [getClientCount_eq, getClientCount_eq, hclients, hnew, UnorderedMap.insertNew]
  by_cases hmem : sock ∈ b.clients
  · obtain ⟨entry, hentry⟩ := Option.isSome_iff_exists.mp (AList.lookup_isSome.mpr hmem)
    simp [hmem, hentry]
  · have hkeys : sock ∉ b.clients.keys := fun hkey => hmem (AList.mem_keys.mpr hkey)
    rw [if_neg hmem, AList.keys_insert, List.erase_of_not_mem hkeys,
      AList.lookup_eq_none.mpr hmem]
    simp

/-- The count depends on `clients` alone. -/
theorem getClientCount_congr {b b' : Broker} (h : b'.clients = b.clients) :
    b'.getClientCount = b.getClientCount := by
  rw [getClientCount, getClientCount, h]

/-- A rehash changes no count. -/
theorem Rehashed.getClientCount {b b' : Broker} (h : Rehashed b b') :
    b'.getClientCount = b.getClientCount := by
  rw [Broker.getClientCount, Broker.getClientCount, UnorderedMap.toList, UnorderedMap.toList,
    List.length_map, List.length_map]
  exact h.clients.length_eq.symm

/-- A CONNECT removes no connection but the one it takes over. -/
theorem ConnectEffect.getClientCount {b b' : Broker} {pClient : ClientRef} {data random : Bytes}
    {err : MqttErr} (h : ConnectEffect b pClient data random b' err) :
    b'.getClientCount = b.getClientCount ∨ (b'.getClientCount + 1 = b.getClientCount ∧
      ∃ check_fd, ClosesConnection b pClient data check_fd) := by
  have hstays : ∀ fd, ¬ ClosesConnection b pClient data fd →
      b'.clients.lookup fd = b.clients.lookup fd := fun fd => h.stays
  cases h with
  | refused _ hedits => exact .inl (getClientCount_congr hedits.clients)
  | @identified con_vh id offset b₂ b₃ _ _ hreads hedits hflags hidentified hedits' =>
    have hcount := getClientCount_congr hedits.clients
    cases hidentified with
    | unused | generated => exact .inl ((getClientCount_congr hedits'.clients).trans hcount)
    | @takenOver id check_fd hcheck hne hclean =>
      obtain ⟨ref, href, -⟩ := (getClientFd_eq_ok hcheck).resolve_left fun h => hne h.1
      have hmem : check_fd ∈ b₂.clients.keys :=
        AList.mem_keys.mp (AList.lookup_isSome.mp (by rw [href]; rfl))
      have herased : b'.clients = b₂.clients.erase check_fd := hedits'.clients
      refine .inr ⟨?_, check_fd, ?_⟩
      · -- the connection that is taken over was there, so that one is gone
        rw [← hcount, getClientCount_eq, getClientCount_eq, herased, AList.keys_erase,
          List.length_erase_of_mem hmem]
        have hpos := List.length_pos_of_mem hmem
        omega
      · by_contra hnot
        have hlookup := hstays check_fd hnot
        rw [herased, AList.lookup_erase, ← hedits.clients, href] at hlookup
        cases hlookup

/-- The connections that are gone behind a socket were taken over, one at a time. -/
theorem taken_by_connect {s t : ServerThread} {event : SocketEvent}
    (h : s.step (.socket event) = .ok (some t)) :
    t.broker.getClientCount = s.broker.getClientCount ∨
      (t.broker.getClientCount + 1 = s.broker.getClientCount ∧
        ∃ fd ref add first data random check_fd, scannedClient s = some (fd, ref) ∧
          event = .pollin add (.packet first data random) ∧
          (FixedHeader.mk first data.length).getType = PackType.CONNECT.code ∧
          ClosesConnection s.broker ref data check_fd) := by
  obtain ⟨b₁, b₂, hd₁, hcore, hd₂⟩ := system_steps (system_of_server h)
  have hcount₁ := getClientCount_congr hd₁.clients_eq
  rw [getClientCount_congr hd₂.clients_eq, ← hcount₁]
  cases hcore with
  | refl | setState | execute => exact .inl rfl
  -- only a CONNECT takes a connection away
  | @connect add first data random fd pClient b' err he hat hclient htype hconnect =>
    obtain rfl := ServerEvent.socket.inj (SystemEvent.server.inj he)
    obtain ⟨b₃, heffect, hdoes⟩ := connectHandler_effect (hd₁.clients_eq ▸ hclient) hconnect
    rw [getClientCount_congr hdoes.clients_eq]
    refine heffect.getClientCount.imp_right fun hgone => ?_
    obtain ⟨hcount, check_fd, con_vh, id, offset, hreads, hclean, hcheck, hne⟩ := hgone
    rw [getClientFd_congr hd₁.clients_eq hd₁.client_id_eq] at hcheck
    exact ⟨hcount, fd, pClient, add, first, data, random, check_fd,
      scannedClient_eq hat hclient, rfl, htype,
      ⟨con_vh, id, offset, hreads.of_does hd₁, hclean, hcheck, hne⟩⟩
  | close hpc => simp [ServerThread.step, hpc] at h
  | addClient he => cases he
  | rehash hb => exact .inl hb.getClientCount

/-! ## One step -/

/-- Connections are closed in state `started`. -/
theorem state_of_close {s t : ServerThread} {e : ServerEvent} {it : Fd} {rest : List Fd}
    (h : s.step e = .ok (some t)) (hpc : t.pc = .close (it :: rest))
    (hclosing : ∀ it rest, s.pc = .close (it :: rest) → s.broker.state = .started) :
    t.broker.state = .started := by
  cases serverStep_cases h with
  | idle hloop | finished hloop | started hloop | wait hloop => simp_all
  | @socket _ _ _ _ _ _ _ next => cases next <;> simp [afterSocket] at hpc
  | @scanEnd client_num i now fd_to_delete b hscan hi =>
    -- the scan ends with connections to close
    obtain rfl := ServerPc.close.inj hpc
    simp only [ServerThread.step, hscan, if_neg hi] at h
    have hb := congrArg (fun t : ServerThread => t.broker.state) (Option.some.inj (Except.ok.inj h))
    exact hb.symm
  | @close it' rest' pClient hclose => exact hclosing it' rest' hclose
  | closed => simp at hpc

/-- Where the server thread does not look at a socket and goes on to wait, it leaves
    `clients` alone. -/
theorem getClientCount_of_wait {s t : ServerThread} {e : ServerEvent}
    (h : s.step e = .ok (some t)) (he : ∀ event, e ≠ .socket event)
    (hwait : t.broker.state = .wait_state)
    (hclosing : ∀ it rest, s.pc = .close (it :: rest) → s.broker.state = .started) :
    t.broker.getClientCount = s.broker.getClientCount := by
  cases serverStep_cases h with
  | idle | started | closed => rfl
  | finished => simp [setState] at hwait
  | wait _ _ hb | scanEnd _ _ hb => obtain rfl | rfl := hb <;> rfl
  | @socket _ _ _ _ _ event => exact absurd rfl (he event)
  | @close it rest pClient hclose =>
    have hstarted := hclosing it rest hclose
    exact absurd (hstarted.symm.trans hwait) (by decide)

/-- A step of the server thread in a pass keeps the list and counts what it takes. -/
theorem PollInv.server {s : EventLoop} {g : Polled} {e : ServerEvent} {thread : ServerThread}
    (h : PollInv s g) (hwithin : s.within = .outside) (hpass : PassStep s.thread e thread)
    (hstep : s.thread.step e = .ok (some thread)) :
    ∀ {t : EventLoop}, t.thread = thread → t.within = s.within →
      PollInv t (notePolled s (.server e) t g) := by
  rintro t rfl hsame
  refine ⟨fun it rest hpc => state_of_close hstep hpc h.closing, fun hwait => ?_⟩
  have hwait' : t.thread.broker.state = .wait_state := by
    refine hwait.resolve_left ?_
    simp [hsame, hwithin]
  have hstate : s.thread.broker.state = .wait_state := by
    obtain heq | heq := hpass.state
    · exact heq.symm.trans hwait'
    · rw [heq] at hwait'
      cases hwait'
  -- the list stays, and what is gone from `clients` is counted as taken
  obtain ⟨fds, hvec, hcount⟩ := h.polled (.inr hstate)
  refine ⟨fds, ?_, ?_⟩
  · rw [hpass.vec_fds, hvec, (serverStep_cases hstep).control_sock]
  · have hle := getClientCount_le hpass.clients
    cases e with
    | socket event =>
      simp only [notePolled]
      omega
    | round | next =>
      simp only [notePolled]
      rw [getClientCount_of_wait hstep (by simp) hwait' h.closing]
      exact hcount

/-- Each step of the event loop keeps the bound. -/
theorem PollInv.step {s t : EventLoop} {e : LoopEvent} {g : Polled} (h : PollInv s g)
    (hphase : PhaseInv s) (hstep : eventLoop.Step s e t) : PollInv t (notePolled s e t g) := by
  -- the main thread changes the count at `insert` alone, and it is written down anew where
  -- the loop over the clients runs
  cases eventLoop_cases hstep with
  | @insert sock ip now b new hmain hadd =>
    have hcount := getClientCount_addClient s.thread.broker sock ip now
    have hcontrol : (s.thread.broker.addClient sock ip now).1.control_sock =
        s.thread.broker.control_sock := rfl
    have hstate := (addClient_eq hadd).1
    rw [hadd] at hcount hcontrol
    refine ⟨fun it rest hpc => hstate.trans (h.closing it rest hpc), fun hwait => ?_⟩
    -- one client more than when the sockets were collected, or a socket that was known
    obtain ⟨fds, hvec, heq⟩ := h.polled (hwait.imp_right hstate.symm.trans)
    refine ⟨fds, hvec.trans (by rw [← hcontrol]; rfl), ?_⟩
    simp only [notePolled, hadd, EventLoop.setBroker]
    cases new <;> simp only [Bool.false_eq_true, if_true, if_false] at hcount ⊢ <;> omega
  | testState => exact ⟨h.closing, h.polled⟩
  | sendCommand => exact ⟨h.closing, h.polled⟩
  | getState => exact ⟨h.closing, h.polled⟩
  | @start sock hmain hinit =>
    have hwithin := hphase.outside (hphase.returned.mpr (.inl hinit))
    refine ⟨fun _ _ _ => rfl, fun hwait => ?_⟩
    simp [EventLoop.setBroker, setState, hwithin] at hwait
  | hasStarted => exact ⟨h.closing, h.polled⟩
  | @makeThread sock hmain =>
    have hwithin := hphase.outside (hphase.returned.mpr (.inr ⟨sock, hmain⟩))
    have hstarted := hphase.making sock hmain
    refine ⟨fun _ _ _ => hstarted, fun hwait => ?_⟩
    simp [hwithin, hstarted] at hwait
  | count hwithin hpc hstarted =>
    refine ⟨fun _ _ _ => hstarted, fun hwait => ?_⟩
    simp [hstarted] at hwait
  | finish =>
    refine ⟨fun it rest hpc => by simp at hpc, fun hwait => ?_⟩
    simp [setState] at hwait
  | iterate hwithin =>
    have hstarted := (hphase.within (by simp [hwithin])).2
    refine ⟨fun _ _ _ => hstarted, fun _ => ⟨_, rfl, ?_⟩⟩
    simp only [notePolled, getClientCount_eq]
  | setWaitState hwithin =>
    have hpc := (hphase.within (by simp [hwithin])).1
    refine ⟨fun it rest hclose => ?_, fun _ => h.polled (.inl hwithin)⟩
    cases hpc.symm.trans hclose
  | @server e thread hwithin hat hadd hserver =>
    exact h.server hwithin (passStep_of_server hphase hat hserver) hserver rfl rfl

/-- In every run the list has the clients that were there when it was built. -/
theorem pollInv_of_reachable {s : EventLoop} {g : Polled}
    (h : (eventLoop.observe notePolled {}).Reachable (s, g)) : PollInv s g := by
  have hinv := h.observe_invariant (P := fun s g => PhaseInv s ∧ PollInv s g) ?_ ?_
  · exact hinv.2
  · rintro s ⟨control_sock, rfl⟩
    refine ⟨phaseInv_init control_sock, fun it rest hpc => ?_, fun hwait => ?_⟩
    · simp [EventLoop.init] at hpc
    · simp [EventLoop.init] at hwait
  · rintro s g e t ⟨hphase, hpoll⟩ hstep
    exact ⟨hphase.step hstep, hpoll.step hphase hstep⟩

/-! ## The bound -/

/-- Only in `wait_state` a round of the server thread begins a scan. -/
theorem wait_of_scan {s t : ServerThread} {poll_error : Bool} {now now' : Time}
    {client_num i : Nat} {del : List Fd} (h : s.step (.round poll_error now) = .ok (some t))
    (hpc : t.pc = .scan client_num i now' del) :
    s.broker.state = .wait_state ∧ client_num = s.broker.getClientCount + 1 ∧
      t.vec_fds = s.vec_fds ∧ t.broker.control_sock = s.broker.control_sock := by
  cases hloop : s.pc with
  | loop =>
    simp only [ServerThread.step, hloop] at h
    cases hstate : s.broker.state with
    | init =>
      simp only [hstate] at h
      obtain rfl := Option.some.inj (Except.ok.inj h)
      cases hloop.symm.trans hpc
    | started =>
      simp only [hstate] at h
      obtain rfl := Option.some.inj (Except.ok.inj h)
      unfold ServerThread.started at hpc
      split at hpc
      · cases hpc
      · cases hloop.symm.trans hpc
    -- a scan starts only here, with the clients of this moment
    | wait_state =>
      simp only [hstate] at h
      obtain rfl := Option.some.inj (Except.ok.inj h)
      obtain ⟨rfl, -, -, -⟩ := ServerPc.scan.inj hpc
      refine ⟨rfl, rfl, rfl, ?_⟩
      simp only [ServerThread.waitState]
      split <;> rfl
  | scan | close | returned => simp [ServerThread.step, hloop] at h

/-- The bound of the loop is the length of the list exactly if as many clients were
    inserted as were taken over since the list was built. Then the loop is at a socket of
    the list in every round, and last at the control socket. -/
theorem client_num_eq_iff {s t : EventLoop} {g : Polled} {poll_error : Bool}
    {now now' : Time} {client_num i : Nat} {del : List Fd}
    (h : (eventLoop.observe notePolled {}).Reachable (s, g))
    (hstep : eventLoop.Step s (.server (.round poll_error now)) t)
    (hpc : t.thread.pc = .scan client_num i now' del) :
    (client_num = t.thread.vec_fds.length ↔ g.added = g.taken) ∧
      (client_num = t.thread.vec_fds.length →
        (∀ i < client_num, ∃ fd, t.thread.vec_fds[i]? = some fd) ∧
        t.thread.vec_fds[client_num - 1]? = some t.thread.broker.control_sock) := by
  have hpoll := pollInv_of_reachable h
  cases eventLoop_cases hstep with
  | server hwithin hat hadd hserver =>
    obtain ⟨hstate, rfl, hvec, hcontrol⟩ := wait_of_scan hserver hpc
    obtain ⟨fds, hfds, hcount⟩ := hpoll.polled (.inr hstate)
    dsimp only
    rw [hvec, hfds, hcontrol]
    refine ⟨?_, fun heq => ⟨fun i hi => ?_, ?_⟩⟩
    · -- both sides are one more than a number of clients, the control socket
      simp only [List.length_append, List.length_singleton]
      omega
    · rw [heq] at hi
      exact ⟨_, List.getElem?_eq_getElem hi⟩
    · simp only [List.length_append, List.length_singleton] at heq
      rw [Nat.add_sub_cancel, show s.thread.broker.getClientCount = fds.length by omega]
      simp

/-- `client_num` in the scan. -/
def scanBound (s : EventLoop) : Option Nat :=
  match s.thread.pc with
  | .scan client_num _ _ _ => some client_num
  | _ => none

/-- A bound is that of a scan. -/
theorem pc_of_scanBound {s : EventLoop} {client_num : Nat} (h : scanBound s = some client_num) :
    ∃ i now del, s.thread.pc = .scan client_num i now del := by
  unfold scanBound at h
  split at h
  · rename_i n i now del hpc
    obtain rfl := Option.some.inj h
    exact ⟨i, now, del, hpc⟩
  · cases h

/-- A step of the event loop with its counts. -/
def observedStep (x : EventLoop × Polled) (e : LoopEvent) : Option (EventLoop × Polled) :=
  (x.1.step e).map fun t => (t, notePolled x.1 e t x.2)

/-- The server thread polls the clients on the sockets 6 and 5. Both send a CONNECT with the
    same id, so that the second one takes the connection of the first over, and a third
    client is inserted behind the pass. -/
def takenAndAdded : List LoopEvent :=
  [.insert 5 [] 0, .testState, .getState, .start, .makeThread, .insert 6 [] 0, .testState,
    .getState, .count, .iterate, .setWaitState, .server (.round false 0),
    .server (.socket (.pollin false (.packet 0x10 takeoverConnect []))),
    .server (.socket (.pollin false (.packet 0x10 takeoverConnect []))),
    .server (.socket .idle), .server .next, .server .next, .insert 7 [] 0]

/-- With one connection taken over and one client inserted the loop is at the sockets of the
    list, though other clients are connected by then. -/
theorem client_num_eq_iff_takenAndAdded : ∃ t : EventLoop, t.thread.vec_fds = [6, 5, 4] ∧
    t.thread.broker.clients.keys = [7, 5] ∧ scanBound t = some 3 ∧
      (∀ i < 3, ∃ fd, t.thread.vec_fds[i]? = some fd) ∧
      t.thread.vec_fds[2]? = some t.thread.broker.control_sock := by
  have hrun : (takenAndAdded.foldlM observedStep (EventLoop.init 4, {})).bind
      (fun x => (x.1.step (.server (.round false 0))).map
        fun t => (x.2, t.thread.vec_fds, t.thread.broker.clients.keys, scanBound t)) =
      some ({ added := 1, taken := 1 }, [6, 5, 4], [7, 5], some 3) := by decide +kernel
  obtain ⟨⟨s, g⟩, hs, ht⟩ := Option.bind_eq_some_iff.mp hrun
  obtain ⟨t, hstep, hfinal⟩ := Option.map_eq_some_iff.mp ht
  obtain ⟨rfl, hvec, hkeys, hscan⟩ := by simpa only [Prod.mk.injEq] using hfinal
  have hreach : (eventLoop.observe notePolled {}).Reachable (s, { added := 1, taken := 1 }) := by
    refine ⟨_, _, ⟨⟨4, rfl⟩, rfl⟩, LTS.run_of_foldlM (fun {x e y} hxy => ?_) hs⟩
    obtain ⟨u, hu, rfl⟩ := Option.map_eq_some_iff.mp hxy
    exact ⟨hu, rfl⟩
  obtain ⟨i, now, del, hpc⟩ := pc_of_scanBound hscan
  have hbound := client_num_eq_iff hreach hstep hpc
  exact ⟨t, hvec, hkeys, hscan, hbound.2 (hbound.1.mpr rfl)⟩

/-- A second client is inserted while the server thread waits. -/
def addedInWait : List LoopEvent := firstClient ++ [.setWaitState, .insert 6 [] 0]

/-- With a second one it runs past the end of the list. -/
theorem client_num_exceeds : ¬ ∀ s t poll_error now now' client_num i del,
    eventLoop.Reachable s → eventLoop.Step s (.server (.round poll_error now)) t →
    t.thread.pc = .scan client_num i now' del → client_num = t.thread.vec_fds.length := by
  intro h
  have hrun : (addedInWait.foldlM EventLoop.step (EventLoop.init 4)).bind
      (fun s => (s.step (.server (.round false 0))).map
        fun t => (t.thread.vec_fds, scanBound t)) =
      some ([5, 4], some 3) := by decide +kernel
  obtain ⟨s, hs, ht⟩ := Option.bind_eq_some_iff.mp hrun
  obtain ⟨t, hstep, hfinal⟩ := Option.map_eq_some_iff.mp ht
  obtain ⟨hvec, hscan⟩ := by simpa only [Prod.mk.injEq] using hfinal
  have hreach : eventLoop.Reachable s := ⟨_, _, ⟨4, rfl⟩, LTS.run_of_foldlM id hs⟩
  obtain ⟨i, now, del, hpc⟩ := pc_of_scanBound hscan
  -- were the claim true, there would be as many sockets in the list
  have hbound := h s t _ _ _ _ _ _ hreach hstep hpc
  rw [hvec] at hbound
  simp at hbound

end Mqtt.Spec
