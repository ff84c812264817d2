import MqttBroker.Spec.Outbound
import MqttBroker.Spec.ScanPass

/-!
# What is queued

Every step but those of the sender threads leaves the command queue as it is, or puts
commands behind those that are there. `Queues P` says so of two brokers, with a
property of the commands that are put.
-/

namespace Mqtt.Spec

open Mqtt.Native Mqtt.Native.Broker

/-- Commands with a property are queued behind those that are there. -/
def Queues (P : FdWriteCommand → Prop) (b b' : Broker) : Prop :=
  ∃ commands, b'.commands = b.commands ++ commands ∧ ∀ cmd ∈ commands, P cmd

namespace Queues

variable {P Q : FdWriteCommand → Prop} {b b' b'' : Broker}

/-- Nothing is queued where the queue stays. -/
theorem of_eq (h : b'.commands = b.commands) : Queues P b b' :=
  ⟨[], by rw [h, List.append_nil], by simp⟩

theorem refl (b : Broker) : Queues P b b := of_eq rfl

theorem trans (h : Queues P b b') (h' : Queues P b' b'') : Queues P b b'' := by
  obtain ⟨commands, heq, hP⟩ := h
  obtain ⟨commands', heq', hP'⟩ := h'
  refine ⟨commands ++ commands', by rw [heq', heq, List.append_assoc], fun cmd hmem => ?_⟩
  exact (List.mem_append.mp hmem).elim (hP cmd) (hP' cmd)

theorem mono (h : Queues P b b') (hPQ : ∀ cmd, P cmd → Q cmd) : Queues Q b b' := by
  obtain ⟨commands, heq, hP⟩ := h
  exact ⟨commands, heq, fun cmd hmem => hPQ cmd (hP cmd hmem)⟩

/-- `AddCommand` queues one command. -/
theorem addCommand {fd : Fd} {cmd : Bytes} (h : P ⟨fd, cmd⟩) : Queues P b (b.addCommand fd cmd) :=
  ⟨[⟨fd, cmd⟩], rfl, by simpa using h⟩

/-- The queue there was is the front of the queue. -/
theorem isPrefix (h : Queues P b b') : b.commands <+: b'.commands := by
  obtain ⟨commands, heq, -⟩ := h
  exact ⟨commands, heq.symm⟩

end Queues

/-- Operations of the handlers queue what they add. -/
theorem Does.queues {A : Op → Prop} {P : FdWriteCommand → Prop} {b b' : Broker} (h : Does A b b')
    (hP : ∀ fd cmd, A (.addCommand fd cmd) → P ⟨fd, cmd⟩) : Queues P b b' := by
  refine h.rel .refl .trans fun b op hop _ => ?_
  cases op with
  | addCommand fd cmd => exact .addCommand (hP fd cmd hop)
  | delQosEvent client_id packet_id =>
    obtain ⟨_, heq⟩ := delQosEvent_eq b client_id packet_id
    rw [Op.apply, heq]
    exact .of_eq rfl
  | _ => exact .of_eq rfl

/-- Edits of one client queue nothing. -/
theorem Edits.commands {pClient : ClientRef} {b b' : Broker} (h : Edits pClient b b') :
    b'.commands = b.commands := by rw [h.eq_heap]

/-- `handleMqttConnect` itself queues nothing. -/
theorem ConnectEffect.commands {b b' : Broker} {pClient : ClientRef} {data random : Bytes}
    {err : MqttErr} (h : ConnectEffect b pClient data random b' err) :
    b'.commands = b.commands := by
  cases h with
  | refused _ hedits => exact hedits.commands
  | identified _ hbefore _ hid hafter _ _ =>
    rw [hafter.commands, ← hbefore.commands]
    cases hid <;> rfl

/-! ## The steps of the threads -/

/-- A handler queues behind what is there. -/
theorem handlePacket_grows {b b' : Broker} {fh : FixedHeader} {data random : Bytes} {fd : Fd}
    {pClient : ClientRef} {err : MqttErr} (hclient : b.clients.lookup fd = some (some pClient))
    (h : b.handlePacket fh data fd random = .ok (b', err)) : Queues (fun _ => True) b b' := by
  by_cases htype : fh.getType = PackType.CONNECT.code
  · rw [handlePacket_connect _ _ _ _ htype] at h
    obtain ⟨b₁, heffect, hanswer⟩ := connectHandler_effect hclient h
    exact (Queues.of_eq heffect.commands).trans (hanswer.queues fun _ _ _ => trivial)
  · obtain rfl | ⟨ref, -, hdoes⟩ := (handlePacket_does b fh data fd random htype).of_eq_ok h
    · exact .refl _
    · exact hdoes.queues fun _ _ _ => trivial

/-- Noting the time of a packet queues nothing. -/
theorem queues_touch {P : FdWriteCommand → Prop} (b : Broker) (pClient : ClientRef) (now : Time) :
    Queues P b (touch b pClient now) := .of_eq rfl

/-- Looking at a socket queues behind what is there. -/
theorem ScanCase.grows {b b' : Broker} {fd : Fd} {now : Time} {event : SocketEvent}
    {next : ScanNext} (h : ScanCase b fd now event b' next) : Queues (fun _ => True) b b' := by
  have hwill : ∀ {b₁ b₂ : Broker} {pClient : ClientRef}, b₁.sendWill pClient = .ok b₂ →
      Queues (fun _ => True) b₁ b₂ := by
    intro b₁ b₂ pClient h
    exact ((does_sendWill b₁ pClient fd).of_eq_ok h).queues fun _ _ _ => trivial
  cases h with
  | add | control | short | alive => exact .of_eq rfl
  | headerError _ _ hsend => exact (queues_touch b _ now).trans (hwill hsend)
  | handled _ hclient hpacket =>
    exact (queues_touch b _ now).trans (handlePacket_grows (b := touch b _ now) hclient hpacket)
  | refused _ hclient hpacket _ herror =>
    refine (queues_touch b _ now).trans ((handlePacket_grows (b := touch b _ now) hclient
      hpacket).trans ?_)
    -- an error is answered by a direct write, or not at all
    obtain rfl | ⟨data, rfl⟩ := handleError_eq_ok herror
    · exact .refl _
    · exact .of_eq rfl
  | hangup _ hsend => exact hwill hsend
  | timeout _ _ hsend => exact (Queues.addCommand trivial).trans (hwill hsend)

/-- A step of the server thread puts commands behind the others. -/
theorem serverStep_grows {s t : ServerThread} {e : ServerEvent} (h : s.step e = .ok (some t)) :
    s.broker.commands <+: t.broker.commands := by
  cases serverStep_cases h with
  | socket _ _ _ hscan => exact hscan.grows.isPrefix
  | wait _ _ hb | scanEnd _ _ hb => obtain rfl | rfl := hb <;> exact List.prefix_rfl
  | _ => exact List.prefix_rfl

/-- Only the scan queues commands. -/
theorem serverStep_commands {s t : ServerThread} {e : ServerEvent} (h : s.step e = .ok (some t))
    (hpc : ∀ client_num i now fd_to_delete, s.pc ≠ .scan client_num i now fd_to_delete) :
    t.broker.commands = s.broker.commands := by
  cases serverStep_cases h with
  | socket hscan => exact absurd hscan (hpc _ _ _ _)
  | wait _ _ hb | scanEnd _ _ hb => obtain rfl | rfl := hb <;> rfl
  | _ => rfl

/-- `QoSThread` finds nothing to send. -/
theorem qosThread_eq_of_empty {b b' : Broker} (hempty : b.postponed_events = ∅)
    (h : b.qosThread = .ok b') : b' = b := by
  simp only [qosThread, hempty] at h
  exact (Except.ok.inj h).symm

/-- A server thread that has not returned has set another state than `init`. -/
theorem returned_of_init {s : ServerThread} (h : system.Reachable s) :
    s.broker.state = .init → s.pc = .returned := by
  refine h.invariant (P := fun s => s.broker.state = .init → s.pc = .returned) ?_ ?_
  · rintro _ ⟨control_sock, rfl⟩ -
    rfl
  · intro s e t hs hstep hinit
    -- the state `init` is left only by `Start`, and comes back when the thread has returned
    have hrunning : s.pc ≠ .returned → s.broker.state ≠ .init := fun hpc h => hpc (hs h)
    cases system_cases hstep with
    | server hcase =>
      cases hcase with
      | idle | finished => first | exact hs hinit | rfl
      | started => cases hinit
      | wait _ hwait hb =>
        obtain rfl | rfl := hb
        · exact absurd (hwait.symm.trans hinit) (by decide)
        · cases hinit
      | socket hpc _ _ hscan =>
        obtain heq | heq := hscan.state.1
        · -- a handler leaves the state or sets it to `started`
          exact absurd (heq.symm.trans hinit) (hrunning (by rw [hpc]; nofun))
        · exact absurd (heq.symm.trans hinit) (by decide)
      | scanEnd hpc _ hb =>
        obtain rfl | rfl := hb
        · exact absurd hinit (hrunning (by rw [hpc]; nofun))
        · cases hinit
      | close hpc => exact absurd hinit (hrunning (by rw [hpc]; nofun))
      | closed hpc => exact absurd hinit (hrunning (by rw [hpc]; nofun))
    | addClient | execute => exact hs hinit
    | start => cases hinit
    | qos hdoes => exact hs (hdoes.state_eq.symm.trans hinit)
    | rehash hb =>
      rw [hb.others] at hinit
      exact hs hinit

end Mqtt.Spec
