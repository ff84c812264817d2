import MqttBroker.Spec.ActiveClients

/-!
# Keep Alive

`ServerThread` reads the clock once in a pass. A client with input gets this time as that of
its last packet, however late in the pass it is read; a client without is timed out five
seconds behind its keep-alive. The clock of the system goes on between steps, and what a
client has promised is counted from when its packets are really read.
-/

namespace Mqtt.Spec

open Mqtt.Native Mqtt.Native.Broker

/-! ## Clients in time -/

/-- A client whose last CONNECT was accepted. -/
structure Session where
  /-- The keep-alive of the CONNECT. -/
  alive : UInt16
  /-- When its last packet was read. -/
  read : Time
  /-- When the pass had begun in which it was. -/
  pass : Time
deriving DecidableEq

/-- The keep-alive of a CONNECT. -/
def keepAlive (data : Bytes) : UInt16 :=
  match ConnectVH.readFromBuf data with
  | .ok (con_vh, _) => con_vh.alive
  | .error _ => 0

/-- `time` returns what the clock shows. -/
def ReadsClock (clock : Time) : SystemEvent → Prop
  | .server (.round _ now) | .addClient _ _ now => now = clock
  | _ => True

/-- What is noted of the clients. -/
def noteRead (x : ServerThread × Time) (e : Nat ⊕ SystemEvent) (_ : ServerThread × Time)
    (history : ClientRef → Option Session) : ClientRef → Option Session :=
  match e with
  | .inl _ => history
  | .inr e =>
    match connectIn x.1 e, packetAt x.1 e with
    | some (ref, data, _, stat), _ => Function.update history ref
        (if stat = .ok then some ⟨keepAlive data, x.2, passTime x.1⟩ else none)
    | none, some (_, ref, _, _) => Function.update history ref
        ((history ref).map fun r => { r with read := x.2, pass := passTime x.1 })
    | none, none => history

/-- The system in time, with the clients that were accepted. -/
def aliveSystem :
    LTS ((ServerThread × Time) × (ClientRef → Option Session)) (Nat ⊕ SystemEvent) :=
  (system.timed ReadsClock).observe noteRead fun _ => none

/-- A pass has begun at `now`, and is at its sockets. -/
def ScansAt (s : ServerThread) (now : Time) : Prop :=
  ∃ client_num i fd_to_delete, s.pc = .scan client_num i now fd_to_delete

/-- A client respects its keep-alive, and no pass takes longer than five seconds. -/
structure KeepsAlive (ref : ClientRef) (x : (ServerThread × Time) × (ClientRef → Option Session))
    (e : Nat ⊕ SystemEvent) : Prop where
  new : ∀ e', e = .inr e' → NewDescriptor x.1.1 e'
  pass : ∀ now, ScansAt x.1.1 now → x.1.2 ≤ now + 5
  /-- With a keep-alive of 0 nothing is promised. -/
  respects : ∀ fd r, Active x.1.1 fd ref → x.2 ref = some r → r.alive ≠ 0 →
    x.1.2 ≤ r.read + r.alive.toNat

/-- Without input a client that was accepted is not timed out. -/
def NotTimedOut (ref : ClientRef) (x : (ServerThread × Time) × (ClientRef → Option Session)) :
    Prop :=
  ∀ fd r, scannedClient x.1.1 = some (fd, ref) → x.2 ref = some r →
    x.1.1.broker.checkTimeout fd (passTime x.1.1) = .ok (x.1.1.broker, .keep)

/-- With a keep-alive of 0 the pass begins less than five seconds behind the one in which the
    last packet was read. With another one, not both the packet was read in the fifth second
    of its pass and the promise runs out when this pass begins. -/
def InTime (ref : ClientRef) (x : (ServerThread × Time) × (ClientRef → Option Session)) : Prop :=
  ∀ fd r, scannedClient x.1.1 = some (fd, ref) → x.2 ref = some r →
    if r.alive = 0 then passTime x.1.1 < r.pass + 5
    else ¬ (r.read = r.pass + 5 ∧ passTime x.1.1 = r.read + r.alive.toNat)

/-! ## The pass -/

/-- A pass begins with the time its round has read. -/
theorem scansAt_of_step {s t : ServerThread} {e : SystemEvent} {now : Time}
    (hstep : system.Step s e t) (h : ScansAt t now) :
    ScansAt s now ∨ ∃ poll_error, e = .server (.round poll_error now) := by
  obtain ⟨client_num, i, fd_to_delete, hpc⟩ := h
  -- the time of a pass is set by `wait` and carried from socket to socket
  cases system_cases hstep with
  | server hcase =>
    cases hcase with
    | idle | started => exact .inl ⟨client_num, i, fd_to_delete, hpc⟩
    | finished | scanEnd | close | closed => cases hpc
    | @wait poll_error =>
      obtain ⟨-, -, rfl, -⟩ := ServerPc.scan.inj hpc
      exact .inr ⟨poll_error, rfl⟩
    | @socket num j current_time del fd event b next hat =>
      -- the next socket of the pass has its time
      refine .inl ⟨num, j, del, ?_⟩
      cases next with
      | keep | delete | stop =>
        obtain ⟨-, -, rfl, -⟩ := ServerPc.scan.inj hpc
        exact hat
  | start => cases hpc
  | addClient | qos | execute | rehash => exact .inl ⟨client_num, i, fd_to_delete, hpc⟩

/-- A scan has the time of its pass. -/
theorem scansAt_passTime {s : ServerThread} {fd : Fd} (hat : socketAt s = some fd) :
    ScansAt s (passTime s) := by
  cases hpc : s.pc with
  | scan client_num i now fd_to_delete =>
    exact ⟨client_num, i, fd_to_delete, by simp only [passTime, hpc]⟩
  | loop | close | returned => simp [socketAt, hpc] at hat

/-- The comparison of the scan. -/
theorem checkTimeout_keep_iff {b : Broker} {fd : Fd} {ref : ClientRef} {now : Time}
    (hclient : b.clients.lookup fd = some (some ref)) :
    b.checkTimeout fd now = .ok (b, .keep) ↔
      now - (b.heap ref).time_last_packet < (b.heap ref).alive.toNat + 5 := by
  rw [checkTimeout, derefAt_eq hclient, Except.ok_bind]
  dsimp only
  -- a late client is never kept: it is marked, or the call fails
  split
  · rename_i hlate
    refine iff_of_false (fun h => ?_) (Int.not_lt.mpr hlate)
    obtain ⟨answer, -, h⟩ := Except.bind_eq_ok_iff.mp h
    obtain ⟨b', -, h⟩ := Except.bind_eq_ok_iff.mp h
    cases h
  · rename_i hin
    exact iff_of_true rfl (Int.not_le.mp hin)

/-! ## The invariant -/

/-- What the client carries is what was noted, and a pass that is at its sockets has begun
    before the promise ran out. -/
structure OnRecord (s : ServerThread) (c : Client) (r : Session) : Prop where
  alive : c.alive = r.alive
  pass : c.time_last_packet = r.pass
  read : r.read ≤ r.pass + 5
  promise : ∀ now, ScansAt s now → r.alive ≠ 0 → now ≤ r.read + r.alive.toNat

structure AliveInv (ref : ClientRef) (x : (ServerThread × Time) × (ClientRef → Option Session)) :
    Prop where
  scans : ScansOnce x.1.1
  own : OwnClients x.1.1.broker
  fresh : x.1.1.broker.next_ref ≤ ref → x.2 ref = none
  clock : ∀ now, ScansAt x.1.1 now → now ≤ x.1.2
  active : ∀ fd r, Active x.1.1 fd ref → x.2 ref = some r →
    OnRecord x.1.1 (x.1.1.broker.heap ref) r

variable {s t : ServerThread} {clock : Time} {history : ClientRef → Option Session}
  {ref : ClientRef}

/-- Where no packet of a client is handled, nothing is noted of it. -/
theorem noteRead_of_ne {y : ServerThread × Time} {e : SystemEvent}
    (h : ∀ fd fh data, packetAt s e ≠ some (fd, ref, fh, data)) :
    noteRead (s, clock) (.inr e) y history ref = history ref := by
  -- a CONNECT, another packet, or none; each notes its own client only
  cases hconnect : connectIn s e with
  | some r =>
    obtain ⟨ref', data, b, stat⟩ := r
    obtain ⟨fd, fh, hpacket⟩ := packetAt_of_connectIn hconnect
    simp only [noteRead, hconnect]
    refine Function.update_of_ne ?_ _ _
    rintro rfl
    exact h fd fh data hpacket
  | none =>
    cases hpacket : packetAt s e with
    | none => simp only [noteRead, hconnect, hpacket]
    | some r =>
      obtain ⟨fd, ref', fh, data⟩ := r
      simp only [noteRead, hconnect, hpacket]
      refine Function.update_of_ne ?_ _ _
      rintro rfl
      exact h fd fh data hpacket

/-- A packet of a client is handled. -/
theorem OnRecord.read_now {c : Client} {r : Session} (halive : c.alive = r.alive)
    (hpass : c.time_last_packet = passTime s) (hread : r.read = clock) (hat : r.pass = passTime s)
    (hshort : clock ≤ passTime s + 5) (hclock : ∀ now, ScansAt t now → now ≤ clock) :
    OnRecord t c r := by
  refine ⟨halive, hpass.trans hat.symm, ?_, fun now hscan _ => ?_⟩
  · rw [hread, hat]
    exact hshort
  · rw [hread]
    exact Int.le_trans (hclock now hscan) (Int.le_add_of_nonneg_right (Int.natCast_nonneg _))

/-- A step of the system keeps the times of the client in order. -/
theorem AliveInv.system_step {e : SystemEvent} (h : AliveInv ref ((s, clock), history))
    (hkeeps : KeepsAlive ref ((s, clock), history) (.inr e)) (hstep : system.Step s e t)
    (hreads : ReadsClock clock e) :
    AliveInv ref ((t, clock), noteRead (s, clock) (.inr e) (t, clock) history) := by
  have hconn := system_connections hstep
  have hfresh : s.broker.next_ref ≤ ref →
      noteRead (s, clock) (.inr e) (t, clock) history ref = none := by
    intro href
    rw [noteRead_of_ne fun fd fh data hpacket => ?_]
    · exact h.fresh href
    · exact absurd (h.own.lt (socketAt_of_packetAt hpacket).2) (Nat.not_lt.mpr href)
  have hclock : ∀ now, ScansAt t now → now ≤ clock := by
    intro now hscan
    obtain hbefore | ⟨poll_error, rfl⟩ := scansAt_of_step hstep hscan
    · exact h.clock now hbefore
    · exact Int.le_of_eq hreads
  refine ⟨h.scans.step (hkeeps.new e rfl) hstep, h.own.step hconn,
    fun href => hfresh (Nat.le_trans hconn.next_ref href), hclock, fun fd r hactive hr => ?_⟩
  -- a packet is read while the pass is at its socket
  have hshort : ∀ {fd fh data}, packetAt s e = some (fd, ref, fh, data) → clock ≤ passTime s + 5 :=
    fun hpacket => hkeeps.pass _ (scansAt_passTime (socketAt_of_packetAt hpacket).1)
  show OnRecord t (t.broker.heap ref) r
  replace hr : noteRead (s, clock) (.inr e) (t, clock) history ref = some r := hr
  cases active_cases h.scans h.own hstep hactive with
  | stays hbefore hother hkept =>
    obtain ⟨-, -, halive, htime⟩ := of_keptData hkept
    rw [noteRead_of_ne hother] at hr
    have hrecord : OnRecord s (s.broker.heap ref) r := h.active fd r hbefore hr
    refine ⟨halive.trans hrecord.alive, htime.trans hrecord.pass, hrecord.read,
      fun now hscan hne => ?_⟩
    -- the pass goes on, or it begins now
    obtain hscan | ⟨poll_error, rfl⟩ := scansAt_of_step hstep hscan
    · exact hrecord.promise now hscan hne
    · -- the pass begins now
      have hnow : now = clock := hreads
      rw [hnow]
      exact hkeeps.respects fd r hbefore hr hne
  | new href =>
    rw [hfresh href] at hr
    cases hr
  | @connect fh data b _ hpacket hconnect hheap hsets =>
    have hnoted : some (Session.mk (keepAlive data) clock (passTime s)) = some r := by
      simpa only [noteRead, hconnect, Function.update_self, if_true] using hr
    obtain rfl := Option.some.inj hnoted
    refine .read_now ?_ hsets.time_last_packet rfl rfl (hshort hpacket) hclock
    obtain ⟨con_vh, offset, hread, -, halive⟩ := hsets.read
    rw [halive, keepAlive, hread]
  | @packet fh data hbefore hpacket hconnect hkept =>
    -- the keep-alive is still that of the CONNECT, and the packet counts from now
    obtain ⟨-, -, halive, htime⟩ := of_keptData hkept
    have hnoted : (history ref).map (fun r => { r with read := clock, pass := passTime s }) =
        some r := by
      simpa only [noteRead, hconnect, hpacket, Function.update_self] using hr
    obtain ⟨r₀, hr₀, rfl⟩ := Option.map_eq_some_iff.mp hnoted
    have hrecord : OnRecord s (s.broker.heap ref) r₀ := h.active fd r₀ hbefore hr₀
    exact .read_now (halive.trans hrecord.alive) htime rfl rfl (hshort hpacket) hclock

/-- `AliveInv` is kept while the clock goes on. -/
theorem AliveInv.tick (h : AliveInv ref ((s, clock), history)) (seconds : Nat) :
    AliveInv ref ((s, clock + seconds), history) := by
  refine ⟨h.scans, h.own, h.fresh, fun now hscan => ?_, h.active⟩
  exact Int.le_trans (h.clock now hscan) (Int.le_add_of_nonneg_right (Int.natCast_nonneg _))

/-- The invariant holds in all runs in which the client keeps its promise. -/
theorem aliveInv_of_reachable {x : (ServerThread × Time) × (ClientRef → Option Session)}
    (h : (aliveSystem.restrict (KeepsAlive ref)).Reachable x) : AliveInv ref x := by
  refine h.observe_restrict_invariant (P := fun s history => AliveInv ref (s, history)) ?_ ?_
  · rintro ⟨s, clock⟩ hs
    refine ⟨scansOnce_of_init hs, ownClients_of_reachable (.init hs), fun _ => rfl, ?_,
      fun fd r hfd => absurd hfd (not_active_of_init hs)⟩
    rintro now ⟨client_num, i, fd_to_delete, hpc⟩
    obtain ⟨control_sock, rfl⟩ := hs
    cases hpc
  · rintro ⟨s, clock⟩ history e ⟨t, clock'⟩ hs hkeeps hstep
    -- the clock goes on, or the system makes a step
    cases e with
    | inl seconds =>
      obtain ⟨rfl, rfl⟩ := Prod.mk.inj hstep
      exact hs.tick seconds
    | inr e =>
      obtain ⟨hstep, hreads, hclock⟩ := hstep
      obtain rfl : clock' = clock := hclock
      exact hs.system_step hkeeps hstep hreads

/-! ## The timeout -/

/-- A packet is read five seconds too late at most, and the next pass begins while the promise
    holds: only both bounds together are too late. -/
theorem late_iff {now pass read : Int} {alive : Nat} (hread : read ≤ pass + 5)
    (hpromise : now ≤ read + alive) :
    now - pass < alive + 5 ↔ ¬ (read = pass + 5 ∧ now = read + alive) := by
  omega

/-- In every run in which a client respects its keep-alive and no pass takes longer than five
    seconds, the client is not timed out exactly where it is in time. -/
theorem not_timed_out_iff {x : (ServerThread × Time) × (ClientRef → Option Session)}
    (h : (aliveSystem.restrict (KeepsAlive ref)).Reachable x) :
    NotTimedOut ref x ↔ InTime ref x := by
  have hinv := aliveInv_of_reachable h
  refine forall_congr' fun fd => forall_congr' fun r => imp_congr_right fun hscanned =>
    imp_congr_right fun hr => ?_
  obtain ⟨hat, hclient⟩ := scannedClient_eq_some hscanned
  have hrecord := hinv.active fd r ⟨hclient, hinv.scans.notMem hat⟩ hr
  -- the test in terms of what is recorded of the session
  rw [checkTimeout_keep_iff hclient, hrecord.alive, hrecord.pass]
  split
  · -- keep alive 0 is compared like any other
    rename_i hzero
    rw [hzero, Int.sub_lt_iff, Int.add_comm _ r.pass]
    rfl
  · rename_i hne
    exact late_iff hrecord.read (hrecord.promise _ (scansAt_passTime hat) hne)

/-! ## Runs -/

/-- A check that the clock is read as it shows. -/
def readsClock (clock : Time) : SystemEvent → Bool
  | .server (.round _ now) | .addClient _ _ now => now = clock
  | _ => true

/-- A check that a step adds no control socket, and that the client respects its keep-alive. -/
def keepsAlive (ref : ClientRef) (x : (ServerThread × Time) × (ClientRef → Option Session))
    (e : Nat ⊕ SystemEvent) : Bool :=
  e.elim (fun _ => true) (fun e => NewDescriptor x.1.1 e) &&
    ((match x.1.1.pc with
      | .scan _ _ now _ => x.1.2 ≤ now + 5
      | _ => true) &&
    (x.2 ref).all fun r => r.alive = 0 || x.1.2 ≤ r.read + r.alive.toNat)

/-- A step in time, with what is noted of the clients, where the client respects its keep-alive. -/
def aliveStep (ref : ClientRef) (x : (ServerThread × Time) × (ClientRef → Option Session))
    (e : Nat ⊕ SystemEvent) : Option ((ServerThread × Time) × (ClientRef → Option Session)) :=
  if keepsAlive ref x e then
    match e with
    | .inl seconds => some ((x.1.1, x.1.2 + seconds), x.2)
    | .inr e =>
      if readsClock x.1.2 e then (systemStep x.1.1 e).map fun t =>
        ((t, x.1.2), noteRead x.1 (.inr e) (t, x.1.2) x.2)
      else none
  else none

theorem step_of_aliveStep {ref : ClientRef}
    {x y : (ServerThread × Time) × (ClientRef → Option Session)} {e : Nat ⊕ SystemEvent}
    (h : aliveStep ref x e = some y) : (aliveSystem.restrict (KeepsAlive ref)).Step x e y := by
  obtain ⟨hcheck, h⟩ := Option.ite_none_right_eq_some.mp h
  simp only [keepsAlive, Bool.and_eq_true] at hcheck
  obtain ⟨hnew, hpass, hpromise⟩ := hcheck
  -- a new socket, no pass of an earlier time, and the promise of the client
  refine ⟨⟨?_, ?_, fun fd r _ hr hne => ?_⟩, ?_⟩
  · rintro e rfl
    exact of_decide_eq_true hnew
  · rintro now ⟨client_num, i, fd_to_delete, hpc⟩
    simpa [hpc] using hpass
  · simpa [hr, hne] using hpromise
  · cases e with
    | inl seconds =>
      obtain rfl := Option.some.inj h
      exact ⟨rfl, rfl⟩
    | inr e =>
      -- the step reads the clock where it reads a time
      obtain ⟨hreads, h⟩ := Option.ite_none_right_eq_some.mp h
      obtain ⟨t, ht, rfl⟩ := Option.map_eq_some_iff.mp h
      refine ⟨⟨.inl ht, ?_, rfl⟩, rfl⟩
      cases e with
      | addClient => simpa [readsClock, ReadsClock] using hreads
      | server e =>
        cases e with
        | round => simpa [readsClock, ReadsClock] using hreads
        | socket | next => trivial
      | start | qos | execute | rehash => trivial

/-- A broker without clients, at time 0. -/
def aliveStart : (ServerThread × Time) × (ClientRef → Option Session) :=
  ((fromStart, 0), fun _ => none)

/-- A client connects with a keep-alive; its CONNECT is read so many seconds behind the
    beginning of the pass. -/
def connectedIn (delay : Nat) (alive : UInt8) : List (Nat ⊕ SystemEvent) :=
  [.inr (.addClient 5 [] 0), .inr .start, .inr (.server (.round false 0)),
    .inr (.server (.round false 0)), .inl delay, .inr (.server (.socket (.pollin false
      (.packet 0x10 [0, 4, 0x4D, 0x51, 0x54, 0x54, 5, 2, 0, alive, 0, 0, 1, 0x61] [])))),
    .inr (.server (.socket .idle)), .inr (.server .next), .inr (.server .next)]

/-- Time passes, and a pass begins. -/
def later (seconds : Nat) (now : Time) : List (Nat ⊕ SystemEvent) :=
  [.inl seconds, .inr (.server (.round false now))]

/-- A check that the scan is at the client, of what was noted of it, and of the comparison. -/
def isAt (r : Session) (late : Bool)
    (x : (ServerThread × Time) × (ClientRef → Option Session)) : Bool :=
  let c := x.1.1.broker.heap 0
  scannedClient x.1.1 = some (5, 0) && (x.2 0 = some r &&
    decide (passTime x.1.1 - c.time_last_packet < c.alive.toNat + 5) = !late)

/-- A run to the turn of the client is one in which it kept its promise. -/
theorem at_of_run {r : Session} {late : Bool} {es : List (Nat ⊕ SystemEvent)}
    (h : (es.foldlM (aliveStep 0) aliveStart).map (isAt r late) = some true) :
    ∃ x, (aliveSystem.restrict (KeepsAlive 0)).Reachable x ∧ scannedClient x.1.1 = some (5, 0) ∧
      x.2 0 = some r ∧ (x.1.1.broker.checkTimeout 5 (passTime x.1.1) = .ok (x.1.1.broker, .keep) ↔
        late = false) := by
  obtain ⟨x, hx, hcheck⟩ := Option.map_eq_some_iff.mp h
  simp only [isAt, Bool.and_eq_true, decide_eq_true_eq] at hcheck
  obtain ⟨hscanned, hr, hlate⟩ := hcheck
  have hreach : (aliveSystem.restrict (KeepsAlive 0)).Reachable x :=
    ⟨aliveStart, es, ⟨⟨4, rfl⟩, rfl⟩, LTS.run_of_foldlM step_of_aliveStep hx⟩
  refine ⟨x, hreach, hscanned, hr, ?_⟩
  rw [checkTimeout_keep_iff (scannedClient_eq_some hscanned).2]
  cases late with
  | false => exact iff_of_true (of_decide_eq_true hlate) rfl
  | true => exact iff_of_false (of_decide_eq_false hlate) (by simp)

/-- A client with a keep-alive of 0 is timed out after five seconds; so is one that has
    promised a packet every second, where its CONNECT was read in the fifth second of a pass. -/
theorem client_timed_out :
    (∃ x, (aliveSystem.restrict (KeepsAlive 0)).Reachable x ∧ x.2 0 = some ⟨0, 0, 0⟩ ∧
      ¬ NotTimedOut 0 x) ∧
    ∃ x, (aliveSystem.restrict (KeepsAlive 0)).Reachable x ∧ x.2 0 = some ⟨1, 5, 0⟩ ∧
      ¬ NotTimedOut 0 x := by
  -- both runs end with a client that is not in time by the code
  have hlate : ∀ {r : Session} {es : List (Nat ⊕ SystemEvent)},
      (es.foldlM (aliveStep 0) aliveStart).map (isAt r true) = some true → ∃ x,
        (aliveSystem.restrict (KeepsAlive 0)).Reachable x ∧ x.2 0 = some r ∧
          ¬ NotTimedOut 0 x := by
    intro r es h
    obtain ⟨x, hreach, hscanned, hr, hlate⟩ := at_of_run h
    exact ⟨x, hreach, hr, fun hnot => absurd (hlate.mp (hnot 5 r hscanned hr)) (by simp)⟩
  have hzero : ((connectedIn 0 0 ++ later 5 5).foldlM (aliveStep 0) aliveStart).map
      (isAt ⟨0, 0, 0⟩ true) = some true := by decide +kernel
  have hone : ((connectedIn 5 1 ++ later 1 6).foldlM (aliveStep 0) aliveStart).map
      (isAt ⟨1, 5, 0⟩ true) = some true := by decide +kernel
  exact ⟨hlate hzero, hlate hone⟩

/-- With a keep-alive of 60 the client may be silent for a minute. -/
theorem not_timed_out_minute : ∃ x, (aliveSystem.restrict (KeepsAlive 0)).Reachable x ∧
    scannedClient x.1.1 = some (5, 0) ∧ x.2 0 = some ⟨60, 0, 0⟩ ∧
    (NotTimedOut 0 x ↔ InTime 0 x) ∧ NotTimedOut 0 x := by
  have hrun : ((connectedIn 0 60 ++ later 60 60).foldlM (aliveStep 0) aliveStart).map
      (isAt ⟨60, 0, 0⟩ false) = some true := by decide +kernel
  obtain ⟨x, hreach, hscanned, hr, -⟩ := at_of_run hrun
  refine ⟨x, hreach, hscanned, hr, not_timed_out_iff hreach, (not_timed_out_iff hreach).mpr ?_⟩
  intro fd r _ hr'
  obtain rfl := Option.some.inj (hr.symm.trans hr')
  rw [if_neg (by decide)]
  rintro ⟨hread, -⟩
  exact absurd hread (by decide)

end Mqtt.Spec
