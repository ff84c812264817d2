import MqttBroker.Spec.ServiceRefinement

/-!
# Runs of the service

A run of the broker is a run of the service with the same traffic. What holds of every run of
the service is so said of the broker: each request is answered once and in order, and packet
ids are counted up.
-/

namespace Mqtt.Spec

open Mqtt.Native Mqtt.Native.Broker

/-! ## The run of a broker -/

/-- The events of a run, with what has been read and what the sender threads have taken out of
    the queue. -/
structure Traffic where
  events : List SystemEvent := []
  read : List Incoming := []
  sent : List FdWriteCommand := []

/-- What a step adds to the traffic. -/
def noteTraffic (s : ServerThread) (e : SystemEvent) (_ : ServerThread) (g : Traffic) :
    Traffic where
  events := g.events ++ [e]
  read := g.read ++ (incoming s e).toList
  sent := g.sent ++ taken s e

/-- The system with its traffic, where sockets are as `accept` returns them. -/
def trafficSystem : LTS (ServerThread × Traffic) SystemEvent :=
  (system.observe noteTraffic {}).restrict fun x e => AcceptsSocket x.1 e

/-- Each step of a run of the broker is the step of the service with its label, one after the
    other. -/
inductive Labelled : ServerThread × Traffic → List Service.Label → Prop
  | init {x : ServerThread × Traffic} : trafficSystem.Init x → Labelled x []
  | step {x y : ServerThread × Traffic} {e : SystemEvent} {ls : List Service.Label}
      {l : Service.Label} : Labelled x ls → trafficSystem.Step x e y → Refines x.1 e y.1 l →
      Labelled y (ls ++ [l])

/-- A run of the broker is the run of the service with the labels `ls`. -/
structure RunsAs (x : ServerThread × Traffic) (ls : List Service.Label) : Prop where
  labelled : Labelled x ls
  run : Service.machine.Run {} ls (serviceOf x.1.broker (toDelete x.1))
  read : List.Forall₂ ReadAs x.2.read (ls.filterMap Service.Label.packet?)
  queued : x.2.sent ++ x.1.broker.commands = (ls.flatMap Service.Label.queued).map command
  written : wrote x.1.broker = (ls.flatMap Service.Label.written).map command

/-- One more label has one more packet, if it has one. -/
theorem filterMap_packet_snoc (ls : List Service.Label) (l : Service.Label) :
    (ls ++ [l]).filterMap Service.Label.packet? =
      ls.filterMap Service.Label.packet? ++ l.packet?.toList := by
  rw [List.filterMap_append]
  cases hp : l.packet? <;> simp [hp]

/-- Before its first step the broker is the service before its first step. -/
theorem runsAs_init {x : ServerThread × Traffic} (h : trafficSystem.Init x) : RunsAs x [] := by
  obtain ⟨s, g⟩ := x
  have hlabelled : Labelled (s, g) [] := .init h
  obtain ⟨⟨control_sock, hs⟩, hg⟩ := h
  obtain rfl : s = _ := hs
  obtain rfl : g = {} := hg
  have hservice : serviceOf { control_sock } [] = {} := by
    rw [serviceOf]
    congr 1
  refine ⟨hlabelled, ?_, .nil, rfl, rfl⟩
  rw [toDelete, hservice]
  exact .nil

/-- A step of the broker that is the step of a label makes its run longer by the label. -/
theorem RunsAs.snoc {x y : ServerThread × Traffic} {e : SystemEvent} {ls : List Service.Label}
    {l : Service.Label} (h : RunsAs x ls) (hstep : trafficSystem.Step x e y)
    (hl : Refines x.1 e y.1 l) : RunsAs y (ls ++ [l]) := by
  have hlabelled := h.labelled.step hstep hl
  obtain ⟨s, g⟩ := x
  obtain ⟨t, g'⟩ := y
  obtain ⟨-, -, hnote⟩ := hstep
  obtain rfl : g' = noteTraffic s e t g := hnote
  refine ⟨hlabelled, h.run.snoc hl.step, ?_, ?_, ?_⟩
  · rw [filterMap_packet_snoc]
    exact List.rel_append h.read hl.read
  · -- what the step queues is behind what was queued before
    have hqueued := h.queued
    have hlast := hl.queued
    dsimp only at hqueued hlast
    rw [noteTraffic, List.append_assoc, hlast, ← List.append_assoc, hqueued,
      List.flatMap_append, List.map_append, List.flatMap_singleton]
  · have hwritten := h.written
    have hlast := hl.written
    dsimp only at hwritten hlast
    rw [hlast, hwritten, List.flatMap_append, List.map_append, List.flatMap_singleton]

/-- What holds of the server thread between any two steps holds with its traffic. -/
theorem threadInv_of_traffic {x : ServerThread × Traffic} (h : trafficSystem.Reachable x) :
    ThreadInv x.1 := by
  have hinit : ∀ {x}, trafficSystem.Init x → (system.restrict AcceptsSocket).Init x.1 := And.left
  have hstep : ∀ {x e y}, trafficSystem.Step x e y →
      (system.restrict AcceptsSocket).Step x.1 e y.1 := fun h => ⟨h.1, h.2.1⟩
  exact threadInv_of_reachable (h.simulate (f := Prod.fst) hinit fun h => ⟨_, hstep h⟩)

/-- A step of the broker is one more step of its run. -/
theorem RunsAs.step {x y : ServerThread × Traffic} {e : SystemEvent} {ls : List Service.Label}
    (h : RunsAs x ls) (hreach : trafficSystem.Reachable x) (hstep : trafficSystem.Step x e y) :
    ∃ l, Refines x.1 e y.1 l ∧ RunsAs y (ls ++ [l]) := by
  obtain ⟨l, hl⟩ := step_refines (threadInv_of_traffic hreach) hstep.2.1
  exact ⟨l, hl, h.snoc hstep hl⟩

/-- Every run of the broker has its labels. -/
theorem exists_runsAs {x : ServerThread × Traffic} (h : trafficSystem.Reachable x) :
    ∃ ls, RunsAs x ls := by
  suffices trafficSystem.Reachable x ∧ ∃ ls, RunsAs x ls from this.2
  refine h.invariant (P := fun x => trafficSystem.Reachable x ∧ ∃ ls, RunsAs x ls) ?_ ?_
  · intro x hinit
    exact ⟨.init hinit, [], runsAs_init hinit⟩
  · rintro x e y ⟨hreach, ls, hruns⟩ hstep
    obtain ⟨l, -, hruns'⟩ := hruns.step hreach hstep
    exact ⟨hreach.step hstep, ls ++ [l], hruns'⟩

/-- A step of the system with its traffic, if the socket is possible. -/
def trafficStep (x : ServerThread × Traffic) (e : SystemEvent) : Option (ServerThread × Traffic) :=
  if AcceptsSocket x.1 e then (systemStep x.1 e).map fun t => (t, noteTraffic x.1 e t x.2) else none

theorem step_of_trafficStep {x y : ServerThread × Traffic} {e : SystemEvent}
    (h : trafficStep x e = some y) : trafficSystem.Step x e y := by
  obtain ⟨haccepts, hstep⟩ := Option.ite_none_right_eq_some.mp h
  exact ⟨haccepts, LTS.observe_step_of_map step_of_systemStep hstep⟩

/-- Every run of the broker is a run of the service: step by step it does what the labels say, it
    reads the packets of the labels, it queues the packets of the labels in their order, and it
    shows the same state. -/
theorem broker_runs_as_service {x : ServerThread × Traffic} (h : trafficSystem.Reachable x) :
    ∃ ls, RunsAs x ls :=
  exists_runsAs h

/-- A client connects, subscribes to `t` with QoS 1 and publishes to itself twice; a sender
    thread takes the first answer. -/
def publishedTwice : List SystemEvent :=
  connected ++ pass 0x82 [0, 2, 0, 0, 1, 0x74, 1] ++ pass 0x32 [0, 1, 0x74, 0, 7, 0, 0x78] ++
    [.execute] ++ pass 0x32 [0, 1, 0x74, 0, 8, 0, 0x78]

/-- What the client has sent is read, and it is still connected. -/
theorem exists_publishedTwice : ∃ x, trafficSystem.Reachable x ∧ x.2.read.length = 4 ∧
    x.2.sent.length = 1 ∧ x.1.broker.commands.length = 5 ∧
    x.1.broker.clients.lookup 5 = some (some 0) := by
  have hrun : (publishedTwice.foldlM trafficStep (fromStart, {})).map (fun x =>
      decide (x.2.read.length = 4) && (decide (x.2.sent.length = 1) &&
        (decide (x.1.broker.commands.length = 5) &&
          decide (x.1.broker.clients.lookup 5 = some (some 0))))) = some true := by
    decide +kernel
  obtain ⟨x, hx, hcheck⟩ := Option.map_eq_some_iff.mp hrun
  simp only [Bool.and_eq_true, decide_eq_true_eq] at hcheck
  exact ⟨x, ⟨(fromStart, {}), _, ⟨⟨4, rfl⟩, rfl⟩, LTS.run_of_foldlM step_of_trafficStep hx⟩, hcheck⟩

/-- A run of one client that reads four packets. -/
theorem broker_runs_as_service_publishedTwice : ∃ x ls, RunsAs x ls ∧ x.2.read.length = 4 := by
  obtain ⟨x, hreach, hread, -⟩ := exists_publishedTwice
  obtain ⟨ls, hruns⟩ := broker_runs_as_service hreach
  exact ⟨x, ls, hruns, hread⟩

/-! ## Answers -/

namespace ServerPacket

/-- Only messages and the end of a connection come without a request. -/
def isAnswer : ServerPacket → Bool
  | publish _ _ _ _ | disconnect _ => false
  | _ => true

end ServerPacket

namespace ClientPacket

/-- The packet asks for an answer. -/
def isRequest : ClientPacket → Bool
  | connect _ _ _ _ | pubrec _ | pubrel _ | subscribe _ _ | unsubscribe _ _ | pingreq => true
  | publish qos _ _ _ => qos = 1 || qos = 2
  | _ => false

/-- The packets that may answer a request. -/
inductive Answers : ClientPacket → ServerPacket → Prop
  | connect {id : Option Bytes} {clean : Bool} {alive : UInt16} {will : Option Message}
      {properties : MqttPropertyChain} : Answers (.connect id clean alive will)
        (.connack (if clean then 0 else 1) ReasonCode.success.code properties)
  | puback {retain : Bool} {packet_id : UInt16} {m : Message} :
      Answers (.publish 1 retain packet_id m) (.puback packet_id)
  | hold {retain : Bool} {packet_id : UInt16} {m : Message} :
      Answers (.publish 2 retain packet_id m) (.pubrec packet_id)
  | pubrec {packet_id : UInt16} : Answers (.pubrec packet_id) (.pubrel packet_id)
  | pubrel {packet_id : UInt16} : Answers (.pubrel packet_id) (.pubcomp packet_id)
  | subscribe {packet_id : UInt16} {records : List (Bytes × UInt8)} {codes : List UInt8} :
      codes.length = records.length →
      Answers (.subscribe packet_id records) (.suback packet_id codes)
  | unsubscribe {packet_id : UInt16} {filters : List Bytes} {codes : List UInt8} :
      codes.length = filters.length →
      Answers (.unsubscribe packet_id filters) (.unsuback packet_id codes)
  | pingreq : Answers .pingreq .pingresp

end ClientPacket

/-- The requests of a connection, in their order. -/
def requestsOf (fd : Fd) (ps : List (Fd × ClientPacket)) : List ClientPacket :=
  (ps.filter fun p => p.1 = fd && p.2.isRequest).map Prod.snd

/-- The answers on a connection, in their order. -/
def answersOn (fd : Fd) (out : List Outgoing) : List ServerPacket :=
  (outTo fd out).filter ServerPacket.isAnswer

/-- The requests of two rows of packets, one behind the other. -/
theorem requestsOf_append (fd : Fd) (ps ps' : List (Fd × ClientPacket)) :
    requestsOf fd (ps ++ ps') = requestsOf fd ps ++ requestsOf fd ps' := by
  rw [requestsOf, List.filter_append, List.map_append]
  rfl

/-- The answers of two outputs, one behind the other. -/
theorem answersOn_append (fd : Fd) (out out' : List Outgoing) :
    answersOn fd (out ++ out') = answersOn fd out ++ answersOn fd out' := by
  rw [answersOn, outTo_append, List.filter_append]
  rfl

/-- Messages answer nothing. -/
theorem answersOn_eq_nil {fd : Fd} {out : List Outgoing}
    (h : ∀ p ∈ outTo fd out, p.isAnswer = false) : answersOn fd out = [] :=
  List.filter_eq_nil_iff.mpr fun p hp => by rw [h p hp]; simp

/-- Answers to one request on one connection. -/
theorem answersOn_cons (fd fd' : Fd) (p : ServerPacket) (hp : p.isAnswer = true)
    (out : List Outgoing) (hout : answersOn fd' out = []) :
    answersOn fd' ((fd, p) :: out) = if fd = fd' then [p] else [] := by
  have hsplit : answersOn fd' ((fd, p) :: out) = answersOn fd' [(fd, p)] ++ answersOn fd' out :=
    answersOn_append fd' [(fd, p)] out
  rw [hsplit, hout, List.append_nil, answersOn, outTo]
  by_cases hfd : fd = fd' <;> simp [hfd, hp]

namespace Service

variable {S S' : Service} {fd fd' : Fd} {σ σ' : Session} {out : List Outgoing}

/-- What a message makes the service send is no answer. -/
theorem Notifies.no_answer {name : Bytes} {data : Option MqttBinaryDataEntity}
    (h : S.Notifies name data out S') (fd : Fd) : answersOn fd out = [] := by
  refine answersOn_eq_nil fun p hp => ?_
  -- a connection gets a PUBLISH or nothing
  cases hσ : S.sessions fd with
  | none =>
    rw [(h.absent fd hσ).2] at hp
    exact nomatch hp
  | some σ =>
    obtain ⟨σ', -, hgets⟩ := h.present fd σ hσ
    generalize outTo fd out = ps at hp hgets
    cases hgets with
    | nothing => exact nomatch hp
    | publish =>
      obtain rfl := List.mem_singleton.mp hp
      rfl

/-- A will is no answer. -/
theorem SendsWill.no_answer {will : Option Message} (h : S.SendsWill will out S') (fd : Fd) :
    answersOn fd out = [] := by
  cases h with
  | nothing => rfl
  | sent hnotifies => exact hnotifies.no_answer fd

namespace Session

/-- Messages that are sent in turn are no answers. -/
theorem Sends.no_answer {options : UInt8} {ms : List Message} {ps : List ServerPacket}
    (h : σ.Sends options ms σ' ps) : ∀ p ∈ ps, p.isAnswer = false := by
  induction h with
  | nil => exact fun p hp => nomatch hp
  | cons _ _ ih => exact List.forall_mem_cons.mpr ⟨rfl, ih⟩

/-- Retained messages are no answers. -/
theorem SendsRetained.no_answer {retained : Bytes → Option MqttBinaryDataEntity}
    {records : List (Bytes × UInt8)} {ps : List ServerPacket}
    (h : σ.SendsRetained retained records σ' ps) : ∀ p ∈ ps, p.isAnswer = false := by
  induction h with
  | nil => exact fun p hp => nomatch hp
  | cons _ hsends _ ih => exact List.forall_mem_append.mpr ⟨hsends.no_answer, ih⟩

/-- There is one reason code for each filter. -/
theorem length_unsubscribeCodes (filters : List Bytes) :
    ∀ table : Bytes → Option UInt8, (unsubscribeCodes table filters).length = filters.length := by
  induction filters with
  | nil => exact fun _ => rfl
  | cons f rest ih => exact fun table => congrArg (· + 1) (ih _)

end Session

/-- A packet makes the service queue its answer, if it asks for one, and no other answer. -/
theorem Handles.answers {p : ClientPacket} {queued written : List Outgoing} {keep : Bool}
    (h : S.Handles fd σ p queued written keep S') (fd' : Fd) :
    List.Forall₂ ClientPacket.Answers (requestsOf fd' [(fd, p)]) (answersOn fd' queued) := by
  -- one request that has one answer, or none that has none
  have hone : ∀ {q : ServerPacket} {out : List Outgoing}, p.isRequest = true → q.isAnswer = true →
      p.Answers q → answersOn fd' out = [] →
      List.Forall₂ ClientPacket.Answers (requestsOf fd' [(fd, p)])
        (answersOn fd' ((fd, q) :: out)) := by
    intro q out hp hq hanswers hout
    rw [answersOn_cons fd fd' q hq out hout, requestsOf]
    by_cases hfd : fd = fd'
    · simp [hfd, hp, hanswers]
    · simp [hfd]
  have hnone : ∀ {out : List Outgoing}, p.isRequest = false → answersOn fd' out = [] →
      List.Forall₂ ClientPacket.Answers (requestsOf fd' [(fd, p)]) (answersOn fd' out) := by
    intro out hp hout
    rw [hout, requestsOf]
    simp [hp]
  have hnil : answersOn fd' [] = [] := rfl
  cases h with
  | connect => exact hone rfl rfl .connect hnil
  | badConnect | puback | pubcomp | disconnect | other => exact hnone rfl hnil
  | @publish qos retain packet_id m out S' hqos hnotifies =>
    -- only QoS 1 asks for an answer here
    by_cases hack : qos = 1
    · subst hack
      rw [if_pos rfl]
      exact hone rfl rfl .puback (hnotifies.no_answer fd')
    · rw [if_neg hack]
      exact hnone (by simp [ClientPacket.isRequest, hack, hqos]) (hnotifies.no_answer fd')
  | hold => exact hone rfl rfl .hold hnil
  | pubrec => exact hone rfl rfl .pubrec hnil
  | release _ hnotifies => exact hone rfl rfl .pubrel (hnotifies.no_answer fd')
  | unknown => exact hone rfl rfl .pubrel hnil
  -- the SUBACK is followed by messages
  | subscribe hsends =>
    refine hone rfl rfl (.subscribe List.length_replicate) (answersOn_eq_nil fun p hp => ?_)
    by_cases hfd : fd' = fd
    · rw [hfd, outTo_self] at hp
      exact hsends.no_answer p hp
    · rw [outTo_ne hfd] at hp
      exact nomatch hp
  | unsubscribe => exact hone rfl rfl (.unsubscribe (Session.length_unsubscribeCodes _ _)) hnil
  | pingreq => exact hone rfl rfl .pingreq hnil

/-- In each step a request of a connection is answered there, once, and nothing else is. -/
theorem Step.answers {l : Label} (h : S.Step l S') (fd : Fd) : List.Forall₂ ClientPacket.Answers
    (requestsOf fd l.packet?.toList) (answersOn fd l.queued) := by
  cases h with
  | accept | short | close | silent => exact .nil
  | packet _ hhandles | lastPacket _ hhandles => exact hhandles.answers fd
  | lost _ _ hwill =>
    rw [hwill.no_answer fd]
    exact .nil
  -- the DISCONNECT of a time-out answers nothing
  | @timeout fd₁ σ now out S' _ _ hwill =>
    have hdisconnect : answersOn fd [(fd₁, .disconnect ReasonCode.keepAliveTimeout.code)] = [] := by
      rw [answersOn, outTo]
      by_cases hfd : fd₁ = fd <;> simp [hfd, ServerPacket.isAnswer]
    have hsplit := answersOn_append fd [(fd₁, .disconnect ReasonCode.keepAliveTimeout.code)] out
    rw [hdisconnect, hwill.no_answer fd] at hsplit
    dsimp only
    rw [← List.singleton_append, hsplit]
    exact .nil

end Service

/-- However a run of the broker is labelled, and it can be, each request that is handled gets one
    answer: on its connection, of its kind and with its packet id, and in the order of the
    requests. Nothing else is answered. -/
theorem requests_answered_in_order {x : ServerThread × Traffic} (h : trafficSystem.Reachable x) :
    (∃ ls, RunsAs x ls) ∧ ∀ ls, RunsAs x ls → ∀ fd, List.Forall₂ ClientPacket.Answers
      (requestsOf fd (ls.filterMap Service.Label.packet?))
      (answersOn fd (ls.flatMap Service.Label.queued)) := by
  have hstep : ∀ {S : Service} {ls : List Service.Label} {l : Service.Label} {S' : Service},
      (∀ fd, List.Forall₂ ClientPacket.Answers
        (requestsOf fd (ls.filterMap Service.Label.packet?))
        (answersOn fd (ls.flatMap Service.Label.queued))) → Service.machine.Step S l S' →
      ∀ fd, List.Forall₂ ClientPacket.Answers
        (requestsOf fd ((ls ++ [l]).filterMap Service.Label.packet?))
        (answersOn fd ((ls ++ [l]).flatMap Service.Label.queued)) := by
    intro S ls l S' ih hstep fd
    rw [filterMap_packet_snoc, List.flatMap_append, List.flatMap_singleton, requestsOf_append,
      answersOn_append]
    exact List.rel_append (ih fd) (Service.Step.answers hstep fd)
  refine ⟨exists_runsAs h, fun ls hruns => ?_⟩
  -- one step answers what it reads, so a run answers all that it reads
  exact hruns.run.preserves_labels (P := fun _ ls => ∀ fd, List.Forall₂ ClientPacket.Answers
    (requestsOf fd (ls.filterMap Service.Label.packet?))
    (answersOn fd (ls.flatMap Service.Label.queued))) hstep fun _ => .nil

/-- The client has sent four packets; six commands were queued, the answers and two messages. -/
theorem requests_answered_in_order_publishedTwice :
    ∃ (x : ServerThread × Traffic) (ls : _), RunsAs x ls ∧ x.2.read.length = 4 ∧
      x.2.sent.length + x.1.broker.commands.length = 6 ∧
      List.Forall₂ ClientPacket.Answers (requestsOf 5 (ls.filterMap Service.Label.packet?))
        (answersOn 5 (ls.flatMap Service.Label.queued)) := by
  obtain ⟨x, hreach, hread, hsent, hcommands, -⟩ := exists_publishedTwice
  obtain ⟨⟨ls, hruns⟩, hanswered⟩ := requests_answered_in_order hreach
  exact ⟨x, ls, hruns, hread, by rw [hsent, hcommands], hanswered ls hruns 5⟩

end Mqtt.Spec
