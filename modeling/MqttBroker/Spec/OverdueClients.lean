import MqttBroker.Spec.KeepAlive
import MqttBroker.Spec.ServiceRefinement

/-!
# Clients that are overdue

The other side of the keep-alive: a pass leaves no client in that it has looked at and that is
overdue, whatever the packets of the pass and the other threads do meanwhile.
-/

namespace Mqtt.Spec

open Mqtt.Native Mqtt.Native.Broker

/-- The comparison of `ServerThread` with the time its pass has begun at. -/
def Overdue (c : Client) (now : Time) : Prop := now - c.time_last_packet ≥ c.alive.toNat + 5

instance (c : Client) (now : Time) : Decidable (Overdue c now) :=
  inferInstanceAs (Decidable (_ ≥ _))

/-- The last pass: when it has begun, and which clients it has looked at since. -/
structure Pass where
  now : Time := 0
  looked : List (Fd × ClientRef) := []

/-- The time of the pass and the clients that are marked in it. -/
def notePass (s : ServerThread) (e : SystemEvent) (t : ServerThread) (pass : Pass) : Pass :=
  match e with
  | .server (.round _ _) =>
    match t.pc with
    | .scan _ _ now _ => ⟨now, []⟩
    | _ => pass
  | .server (.socket _) => { pass with looked := pass.looked ++ (scannedClient s).toList }
  | _ => pass

/-- The system with its last pass. -/
def passSystem : LTS (ServerThread × Pass) SystemEvent :=
  (system.observe notePass {}).restrict fun x e => NewDescriptor x.1 e

/-! ## The invariant -/

/-- Of the clients that were looked at, none is left in that is overdue. -/
structure LookedInv (s : ServerThread) (pass : Pass) : Prop where
  scans : ScansOnce s
  own : OwnClients s.broker
  now : ∀ now, ScansAt s now → pass.now = now
  lt : ∀ p ∈ pass.looked, p.2 < s.broker.next_ref
  inTime : ∀ p ∈ pass.looked, Active s p.1 p.2 → ¬ Overdue (s.broker.heap p.2) pass.now

variable {s t : ServerThread} {pass : Pass} {e : SystemEvent} {fd : Fd} {ref : ClientRef}

/-- A client from which the pass has just read is not overdue. -/
theorem not_overdue_of_eq {c : Client} {now : Time} (h : c.time_last_packet = now) :
    ¬ Overdue c now := by
  have hlate : ∀ (now : Int) (alive : Nat), ¬ now - now ≥ alive + 5 := by omega
  rw [Overdue, h]
  exact hlate now c.alive.toNat

/-- A client that is active was so before with the members that are compared, and none of its
    packets was read; or one was read, and it is in time. -/
theorem overdue_of_active (hscans : ScansOnce s) (hown : OwnClients s.broker)
    (hstep : system.Step s e t) (hlt : ref < s.broker.next_ref) (hactive : Active t fd ref) :
    (Active s fd ref ∧ (∀ fh data, packetAt s e ≠ some (fd, ref, fh, data)) ∧
      ∀ now, Overdue (t.broker.heap ref) now ↔ Overdue (s.broker.heap ref) now) ∨
    (socketAt s = some fd ∧ ¬ Overdue (t.broker.heap ref) (passTime s)) := by
  cases active_cases hscans hown hstep hactive with
  | stays hbefore hother hkept =>
    obtain ⟨-, -, halive, htime⟩ := of_keptData hkept
    refine .inl ⟨hbefore, hother fd, fun now => ?_⟩
    rw [Overdue, Overdue, halive, htime]
  | new href => exact absurd hlt (Nat.not_lt.mpr href)
  | connect _ hpacket _ _ hsets =>
    exact .inr ⟨(socketAt_of_packetAt hpacket).1, not_overdue_of_eq hsets.time_last_packet⟩
  | packet _ hpacket _ hkept =>
    obtain ⟨-, -, -, htime⟩ := of_keptData hkept
    exact .inr ⟨(socketAt_of_packetAt hpacket).1, not_overdue_of_eq htime⟩

/-- The scan has looked at a client and has left it in: it has read a packet of it, or has found
    it in time. -/
theorem not_overdue_of_scanned {event : SocketEvent} (hscans : ScansOnce s)
    (hown : OwnClients s.broker) (hstep : s.step (.socket event) = .ok (some t))
    (hscanned : scannedClient s = some (fd, ref)) (hactive : Active t fd ref) :
    ¬ Overdue (t.broker.heap ref) (passTime s) := by
  obtain ⟨hat, hclient⟩ := scannedClient_eq_some hscanned
  have hsystem : system.Step s (.server (.socket event)) t := by
    refine step_of_systemStep ?_
    rw [systemStep, hstep]
    rfl
  obtain ⟨-, hother, hiff⟩ | ⟨-, hlate⟩ :=
    overdue_of_active hscans hown hsystem (hown.lt hclient) hactive
  · rw [hiff]
    obtain ⟨client_num, i, now, del, fd₁, b, next, hpc, hat₁, hsocket, rfl⟩ :=
      scanSocket_of_step hstep
    obtain rfl := Option.some.inj (hat.symm.trans hat₁)
    have hnow : passTime s = now := by rw [passTime, hpc]
    have hcontrol : fd ≠ s.broker.control_sock := by
      rintro rfl
      cases hclient.symm.trans hscans.control
    -- a client that is left in is not marked
    have hnext : next ≠ .delete := by
      rintro rfl
      exact hactive.2 (List.mem_append_right _ (.head _))
    cases scanSocket_cases hsocket with
    | add hfd | control hfd => exact absurd hfd hcontrol
    | headerError | short | refused | hangup | timeout => exact absurd rfl hnext
    -- a packet has been read, and its time is that of the pass
    | handled hfd hclient₁ =>
      obtain rfl := Option.some.inj (Option.some.inj (hclient₁.symm.trans hclient))
      exact absurd (packetAt_eq hat hclient hfd) (hother _ _)
    -- nothing has come, and the time has not run out
    | alive hfd =>
      rw [scanSocket, if_pos hfd, checkTimeout_keep_iff hclient] at hsocket
      rw [hnow]
      exact Int.not_le.mpr hsocket
  · exact hlate

/-- Each step of a pass keeps its looked-at clients timely or marked. -/
theorem LookedInv.step (h : LookedInv s pass) (hnew : NewDescriptor s e)
    (hstep : system.Step s e t) : LookedInv t (notePass s e t pass) := by
  have hconn := system_connections hstep
  have hscans := h.scans.step hnew hstep
  have hown := h.own.step hconn
  have hlt : ∀ p ∈ pass.looked, p.2 < t.broker.next_ref := fun p hp =>
    Nat.lt_of_lt_of_le (h.lt p hp) hconn.next_ref
  -- who was looked at before, and is still in
  have hbefore : ∀ p ∈ pass.looked, Active t p.1 p.2 → ¬ Overdue (t.broker.heap p.2) pass.now := by
    intro p hp hactive
    obtain ⟨hbefore, -, hiff⟩ | ⟨hat, hlate⟩ :=
      overdue_of_active h.scans h.own hstep (h.lt p hp) hactive
    · rw [hiff]
      exact h.inTime p hp hbefore
    · rw [h.now _ (scansAt_passTime hat)]
      exact hlate
  -- only a round of the outer loop begins a pass
  have hsame : (∀ poll_error now, e ≠ .server (.round poll_error now)) →
      ∀ now, ScansAt t now → pass.now = now := by
    intro hround now hscan
    obtain hscan | ⟨poll_error, he⟩ := scansAt_of_step hstep hscan
    · exact h.now now hscan
    · exact absurd he (hround poll_error now)
  cases e with
  | server e =>
    cases e with
    | round poll_error now =>
      rw [notePass]
      split
      -- a new pass begins, and nobody has been looked at
      · rename_i client_num i now' del hpc
        refine ⟨hscans, hown, fun now hscan => ?_, fun p hp => (nomatch hp), fun p hp => nomatch hp⟩
        obtain ⟨_, _, _, hpc'⟩ := hscan
        obtain ⟨-, -, rfl, -⟩ := ServerPc.scan.inj (hpc.symm.trans hpc')
        rfl
      · rename_i hpc
        refine ⟨hscans, hown, fun now hscan => ?_, hlt, hbefore⟩
        obtain ⟨_, _, _, hpc'⟩ := hscan
        exact absurd hpc' (hpc _ _ _ _)
    | socket event =>
      refine ⟨hscans, hown, hsame nofun, fun p hp => ?_, fun p hp hactive => ?_⟩
      · obtain hp | hp := List.mem_append.mp hp
        · exact hlt p hp
        · have hclient := (scannedClient_eq_some (Option.mem_toList.mp hp)).2
          exact Nat.lt_of_lt_of_le (h.own.lt hclient) hconn.next_ref
      · obtain hp | hp := List.mem_append.mp hp
        · exact hbefore p hp hactive
        -- the client of this socket has been read from, or is in time
        · have hscanned : scannedClient s = some p := Option.mem_toList.mp hp
          have hnow := h.now _ (scansAt_passTime (scannedClient_eq_some hscanned).1)
          obtain hstep | ⟨he, -⟩ := hstep
          · have hlate := not_overdue_of_scanned h.scans h.own (step_of_systemStep_server hstep)
              hscanned hactive
            rwa [← hnow] at hlate
          · exact nomatch he
    | next => exact ⟨hscans, hown, hsame nofun, hlt, hbefore⟩
  | addClient | start | qos | execute | rehash => exact ⟨hscans, hown, hsame nofun, hlt, hbefore⟩

/-- In every run a pass has closed or marked each client that it has looked at and that is
    overdue at its beginning: whoever is still in has been read from, or is in time. -/
theorem overdue_clients_closed {x : ServerThread × Pass} (h : passSystem.Reachable x) :
    ∀ p ∈ x.2.looked, x.1.broker.clients.lookup p.1 = some (some p.2) → p.1 ∉ toDelete x.1 →
      ¬ Overdue (x.1.broker.heap p.2) x.2.now := by
  have hinv : LookedInv x.1 x.2 := by
    refine h.observe_restrict_invariant (P := LookedInv) ?_ fun hinv hnew hstep =>
      hinv.step hnew hstep
    intro s hs
    refine ⟨scansOnce_of_init hs, ownClients_of_reachable (.init hs), ?_, fun p hp => (nomatch hp),
      fun p hp => nomatch hp⟩
    rintro now ⟨_, _, _, hpc⟩
    obtain ⟨control_sock, rfl⟩ := hs
    exact nomatch hpc
  exact fun p hp hclient hnot => hinv.inTime p hp ⟨hclient, hnot⟩

/-! ## The end of a pass -/

/-- How many steps the server thread has at most until its pass is over. -/
def passSteps (s : ServerThread) : Nat :=
  match s.pc with
  | .scan client_num i _ fd_to_delete => 2 * (client_num - i) + fd_to_delete.length + 2
  | .close fd_to_delete => fd_to_delete.length + 1
  | .loop | .returned => 0

/-- A step of the server thread. -/
def SystemEvent.isServer : SystemEvent → Bool
  | .server _ => true
  | _ => false

/-- Each step of the server thread in a pass leaves fewer of them. -/
theorem passSteps_server {e : ServerEvent} (hcase : ServerCase s e t) (hpc : s.pc ≠ .loop) :
    passSteps t < passSteps s := by
  cases hcase with
  | idle hloop | finished hloop | started hloop | wait hloop => exact absurd hloop hpc
  | @socket client_num i now del fd event b next hscan hi =>
    -- a socket is marked at most once, and its mark counts less than its look
    cases next <;> simp only [passSteps, hscan, afterSocket, List.length_append,
      List.length_singleton] <;> omega
  | scanEnd hscan hi =>
    simp only [passSteps, hscan]
    omega
  | close hclose => simp [passSteps, hclose]
  | closed hclose => simp [passSteps, hclose]

/-- The other threads leave the pass alone. -/
theorem passSteps_step (hstep : system.Step s e t) (hpc : s.pc ≠ .loop) :
    passSteps t ≤ passSteps s := by
  cases system_cases hstep with
  | server hcase => exact Nat.le_of_lt (passSteps_server hcase hpc)
  | start => exact Nat.zero_le _
  | addClient | qos | execute | rehash => exact Nat.le_refl _

/-- A pass over `client_num` sockets takes at most `2 * client_num + 2` further steps of the server
    thread, whatever the other threads do in between. -/
theorem pass_ends {client_num : Nat} {now : Time} {es : List SystemEvent}
    (hpc : s.pc = .scan client_num 0 now []) (h : system.Run s es t)
    (hlong : 2 * client_num + 2 < es.countP SystemEvent.isServer) :
    ∃ before u, before <+: es ∧ system.Run s before u ∧ u.pc = .loop := by
  have hserver : ∀ {s e t}, s.pc ≠ .loop → system.Step s e t → e.isServer →
      passSteps t < passSteps s := by
    intro s e t hpc hstep hkind
    cases system_cases hstep with
    | server hcase => exact passSteps_server hcase hpc
    | addClient | start | qos | execute | rehash => exact nomatch hkind
  have hsteps : passSteps s = 2 * client_num + 2 := by simp [passSteps, hpc]
  have hbound := h.reaches_or_bounded (fun s => s.pc = .loop) SystemEvent.isServer passSteps hserver
    fun hpc hstep => passSteps_step hstep hpc
  exact hbound.resolve_right fun hle => by omega

/-- A client has connected, and a pass begins. -/
def passBegun : List SystemEvent := connected ++ [.server (.round false 0)]

/-- A pass over a client and the control socket, while another client is added; and the next. -/
def twoPasses : List SystemEvent :=
  [.server (.socket .idle), .addClient 6 [] 0, .server (.socket .idle), .server .next,
    .server .next, .server (.round false 1), .server (.socket .idle), .server (.socket .idle)]

/-- The pass over the client and the control socket is at its beginning. -/
def atFirst : ServerPc → Bool
  | .scan 2 0 0 [] => true
  | _ => false

/-- A pass over one client comes to its end. -/
theorem pass_ends_twoPasses : ∃ s before u, s.pc = .scan 2 0 0 [] ∧ before <+: twoPasses ∧
    system.Run s before u ∧ u.pc = .loop := by
  have hrun : ((passBegun.foldlM systemStep fromStart).bind fun s =>
      (twoPasses.foldlM systemStep s).map fun _ => atFirst s.pc) = some true := by
    decide +kernel
  obtain ⟨s, -, hrun⟩ := Option.bind_eq_some_iff.mp hrun
  obtain ⟨t, ht, hcheck⟩ := Option.map_eq_some_iff.mp hrun
  have hpc : s.pc = .scan 2 0 0 [] := by
    unfold atFirst at hcheck
    split at hcheck
    · assumption
    · cases hcheck
  obtain ⟨before, u, hbefore⟩ :=
    pass_ends hpc (LTS.run_of_foldlM step_of_systemStep ht) (by decide)
  exact ⟨s, before, u, hpc, hbefore⟩

/-! ## Runs -/

/-- A step of the system with its last pass, if the socket is new. -/
def passStep (x : ServerThread × Pass) (e : SystemEvent) : Option (ServerThread × Pass) :=
  if NewDescriptor x.1 e then (systemStep x.1 e).map fun t => (t, notePass x.1 e t x.2) else none

theorem step_of_passStep {x y : ServerThread × Pass} {e : SystemEvent} (h : passStep x e = some y) :
    passSystem.Step x e y := by
  obtain ⟨hnew, hstep⟩ := Option.ite_none_right_eq_some.mp h
  exact ⟨hnew, LTS.observe_step_of_map step_of_systemStep hstep⟩

/-- Two clients are added, and a pass at the 70th second reads from the first one only. -/
def secondIsSilent : List SystemEvent :=
  [.addClient 5 [] 0, .addClient 6 [] 0, .start, .server (.round false 0),
    .server (.round false 70), .server (.socket .idle),
    .server (.socket (.pollin false (.packet 0xC0 [] []))), .server (.socket .idle), .server .next]

/-- The second one is marked, and the first one is in time. -/
theorem overdue_clients_closed_secondIsSilent : ∃ x, passSystem.Reachable x ∧
    x.2.now = 70 ∧ x.2.looked = [(6, 1), (5, 0)] ∧ toDelete x.1 = [6] ∧
    Overdue (x.1.broker.heap 1) 70 ∧ ¬ Overdue (x.1.broker.heap 0) 70 := by
  have hrun : (secondIsSilent.foldlM passStep (fromStart, {})).map (fun x =>
      decide (x.2.now = 70) && (decide (x.2.looked = [(6, 1), (5, 0)]) &&
        (decide (toDelete x.1 = [6]) && (decide (Overdue (x.1.broker.heap 1) 70) &&
          decide (x.1.broker.clients.lookup 5 = some (some 0)))))) = some true := by
    decide +kernel
  obtain ⟨x, hx, hcheck⟩ := Option.map_eq_some_iff.mp hrun
  simp only [Bool.and_eq_true, decide_eq_true_eq] at hcheck
  obtain ⟨hnow, hlooked, hdel, hlate, hclient⟩ := hcheck
  have hreach : passSystem.Reachable x :=
    ⟨(fromStart, {}), _, ⟨⟨4, rfl⟩, rfl⟩, LTS.run_of_foldlM step_of_passStep hx⟩
  have hin := overdue_clients_closed hreach (5, 0) (by rw [hlooked]; decide) hclient
    (by rw [hdel]; decide)
  exact ⟨x, hreach, hnow, hlooked, hdel, hlate, hnow ▸ hin⟩

end Mqtt.Spec
