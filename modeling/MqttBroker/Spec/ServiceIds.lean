import MqttBroker.Spec.ServiceRuns

/-!
# Packet ids of the service

The PUBLISH packets with QoS 1 or 2 that a connection gets are counted: whichever topics,
wills and retained messages they carry, their packet ids are 1, 2, 3 and so on.
-/

namespace Mqtt.Spec

open Mqtt.Native Mqtt.Native.Broker

/-! ## Counting -/

/-- The packet id of a PUBLISH with QoS 1 or 2. -/
def ServerPacket.publishId? : ServerPacket → Option UInt16
  | publish options packet_id _ _ => if options &&& 3 = 0 then none else some packet_id
  | _ => none

/-- The id of the packet behind `n` others; zero is left out. -/
def nthId (n : Nat) : UInt16 := UInt16.ofNat (n % 65535 + 1)

/-- The ids are the first ones, and `next_id` is the one behind them. -/
structure Counted (next_id : UInt16) (ids : List UInt16) : Prop where
  all : ids = (List.range ids.length).map nthId
  zero : next_id = 0 → ids.length % 65535 = 0
  next : next_id ≠ 0 → next_id = nthId ids.length

theorem Counted.nil : Counted 1 [] := ⟨rfl, fun h => absurd h (by decide), fun _ => rfl⟩

/-- An id that is used up. -/
theorem Counted.snoc {next_id : UInt16} {ids : List UInt16} (h : Counted next_id ids)
    (hne : next_id ≠ 0) : Counted (next_id + 1) (ids ++ [next_id]) := by
  have hid := h.next hne
  have hnat : next_id.toNat = ids.length % 65535 + 1 := by
    rw [hid, nthId, UInt16.toNat_ofNat']
    omega
  have hsucc : (next_id + 1).toNat = (ids.length % 65535 + 2) % 65536 := by
    rw [UInt16.toNat_add, hnat]
    rfl
  refine ⟨?_, fun hzero => ?_, fun hne' => ?_⟩
  · rw [List.length_append, List.length_singleton, List.range_succ, List.map_append, ← h.all,
      List.map_singleton, ← hid]
  · -- the counter wraps to 0 behind 65535
    rw [hzero] at hsucc
    rw [List.length_append, List.length_singleton]
    change 0 = _ at hsucc
    omega
  · have hne'' : (next_id + 1).toNat ≠ 0 := fun heq => hne' (UInt16.toNat_inj.mp heq)
    refine UInt16.toNat_inj.mp ?_
    rw [nthId, UInt16.toNat_ofNat', List.length_append, List.length_singleton]
    omega

/-- An id of zero is passed over. -/
theorem Counted.skip {ids : List UInt16} (h : Counted 0 ids) : Counted 1 ids := by
  refine ⟨h.all, fun hzero => absurd hzero (by decide), fun _ => ?_⟩
  rw [nthId, h.zero rfl]
  rfl

/-- The ids that a connection gets. -/
def idsOn (fd : Fd) (out : List Outgoing) : List UInt16 :=
  (outTo fd out).filterMap ServerPacket.publishId?

/-- The ids of two outputs, one behind the other. -/
theorem idsOn_append (fd : Fd) (out out' : List Outgoing) :
    idsOn fd (out ++ out') = idsOn fd out ++ idsOn fd out' := by
  rw [idsOn, outTo_append, List.filterMap_append]
  rfl

namespace Service

/-! ## One session -/

namespace Session

variable {σ σ' : Session}

/-- A message takes the next id if it has a QoS. -/
theorem counted_publish {ids : List UInt16} {options : UInt8} (h : Counted σ.next_id ids)
    (hnumbered : σ.Numbered options) (m : Message) : Counted (σ.number options).next_id
      (ids ++ [σ.publish options m].filterMap ServerPacket.publishId?) := by
  by_cases hqos : options &&& 3 = 0
  · have hnone : [σ.publish options m].filterMap ServerPacket.publishId? = [] := by
      simp [Session.publish, ServerPacket.publishId?, hqos]
    rw [hnone, List.append_nil, number]
    split
    · exact h
    · rename_i hoptions
      -- without QoS the id is zero, which only the counter may be
      have hzero : σ.next_id = 0 := by
        have hid := hnumbered.mp hqos
        rwa [packetId, if_neg hoptions] at hid
      rw [hzero] at h
      show Counted (σ.next_id + 1) ids
      rw [hzero]
      exact h.skip
  · have hoptions : options ≠ 0 := by
      rintro rfl
      exact hqos rfl
    have hid : σ.packetId options = σ.next_id := if_neg hoptions
    have hne : σ.next_id ≠ 0 := fun hzero => hqos (hnumbered.mpr (hid.trans hzero))
    have hsome : [σ.publish options m].filterMap ServerPacket.publishId? = [σ.next_id] := by
      simp [Session.publish, ServerPacket.publishId?, hqos, hid]
    rw [hsome, number, if_neg hoptions]
    exact h.snoc hne

/-- What a session gets is counted. -/
def CountsUp (σ σ' : Session) (ps : List ServerPacket) : Prop :=
  ∀ ids, Counted σ.next_id ids →
    Counted σ'.next_id (ids ++ ps.filterMap ServerPacket.publishId?)

/-- A session that keeps its counter has given no ids. -/
theorem CountsUp.of_eq (h : σ'.next_id = σ.next_id) : σ.CountsUp σ' [] := by
  intro ids hids
  rw [h, List.filterMap_nil, List.append_nil]
  exact hids

theorem CountsUp.trans {σ'' : Session} {ps ps' : List ServerPacket} (h : σ.CountsUp σ' ps)
    (h' : σ'.CountsUp σ'' ps') : σ.CountsUp σ'' (ps ++ ps') := by
  intro ids hids
  rw [List.filterMap_append, ← List.append_assoc]
  exact h' _ (h ids hids)

/-- A session that gets a message counts its id. -/
theorem Gets.counts {name : Bytes} {data : Option MqttBinaryDataEntity} {ps : List ServerPacket}
    (h : σ.Gets name data σ' ps) : σ.CountsUp σ' ps := by
  cases h with
  | nothing => exact .of_eq rfl
  | publish _ _ _ _ hnumbered => exact fun ids hids => counted_publish hids hnumbered _

/-- Messages that are sent in turn are counted in turn. -/
theorem Sends.counts {options : UInt8} {ms : List Message} {ps : List ServerPacket}
    (h : σ.Sends options ms σ' ps) : σ.CountsUp σ' ps := by
  induction h with
  | nil => exact .of_eq rfl
  | @cons σ σ' m ms ps hnumbered _ ih =>
    have hfirst : σ.CountsUp (σ.number options) [σ.publish options m] :=
      fun ids hids => counted_publish hids hnumbered m
    exact hfirst.trans ih

/-- The messages for the records of a SUBSCRIBE are counted in turn. -/
theorem SendsRetained.counts {retained : Bytes → Option MqttBinaryDataEntity}
    {records : List (Bytes × UInt8)} {ps : List ServerPacket}
    (h : σ.SendsRetained retained records σ' ps) : σ.CountsUp σ' ps := by
  induction h with
  | nil => exact .of_eq rfl
  | cons _ hsends _ ih => exact hsends.counts.trans ih

end Session

/-! ## The service -/

/-- Every session that is there afterwards was there, and what it gets is counted. -/
def Counts (S : Service) (out : List Outgoing) (S' : Service) : Prop :=
  ∀ fd σ', S'.sessions fd = some σ' → ∃ σ, S.sessions fd = some σ ∧ σ.CountsUp σ' (outTo fd out)

namespace Counts

variable {S S' S'' : Service} {fd : Fd} {out out' : List Outgoing}

/-- Nothing is counted where the sessions stay. -/
theorem of_sessions (h : S'.sessions = S.sessions) : S.Counts [] S' :=
  fun _ σ' hσ' => ⟨σ', h ▸ hσ', .of_eq rfl⟩

theorem trans (h : S.Counts out S') (h' : S'.Counts out' S'') : S.Counts (out ++ out') S'' := by
  intro fd σ'' hσ''
  obtain ⟨σ', hσ', hlater⟩ := h' fd σ'' hσ''
  obtain ⟨σ, hσ, hfirst⟩ := h fd σ' hσ'
  rw [outTo_append]
  exact ⟨σ, hσ, hfirst.trans hlater⟩

/-- A session is changed that gets packets. -/
theorem edit {σ : Session} {f : Session → Session} {ps : List ServerPacket}
    (hσ : S.sessions fd = some σ) (h : σ.CountsUp (f σ) ps) :
    S.Counts (ps.map fun p => (fd, p)) (S.edit fd f) := by
  intro fd' σ' hσ'
  by_cases hfd : fd' = fd
  · subst hfd
    rw [sessions_edit_self hσ] at hσ'
    obtain rfl := Option.some.inj hσ'
    rw [outTo_self]
    exact ⟨σ, hσ, h⟩
  · rw [sessions_edit_ne hfd] at hσ'
    rw [outTo_ne hfd]
    exact ⟨σ', hσ', .of_eq rfl⟩

/-- A session is changed, and not its counter. -/
theorem edit_quiet {f : Session → Session} (h : ∀ σ, (f σ).next_id = σ.next_id) :
    S.Counts [] (S.edit fd f) := by
  intro fd' σ' hσ'
  by_cases hfd : fd' = fd
  · subst hfd
    simp only [Service.edit, Function.update_self, Option.map_eq_some_iff] at hσ'
    obtain ⟨σ, hσ, rfl⟩ := hσ'
    exact ⟨σ, hσ, .of_eq (h σ)⟩
  · rw [sessions_edit_ne hfd] at hσ'
    exact ⟨σ', hσ', .of_eq rfl⟩

/-- A connection that is closed has no session to count for. -/
theorem drop : S.Counts [] (S.drop fd) := by
  intro fd' σ' hσ'
  by_cases hfd : fd' = fd
  · simp [Service.drop, hfd] at hσ'
  · simp only [Service.drop, Function.update_of_ne hfd] at hσ'
    exact ⟨σ', hσ', .of_eq rfl⟩

/-- A packet without a counted id. -/
theorem packet {p : ServerPacket} (hp : p.publishId? = none) (h : S.Counts out S') :
    S.Counts ((fd, p) :: out) S' := by
  intro fd' σ' hσ'
  obtain ⟨σ, hσ, hcounts⟩ := h fd' σ' hσ'
  refine ⟨σ, hσ, fun ids hids => ?_⟩
  have hids' : (outTo fd' ((fd, p) :: out)).filterMap ServerPacket.publishId? =
      (outTo fd' out).filterMap ServerPacket.publishId? := by
    by_cases hfd : fd = fd' <;> simp [outTo, hfd, hp]
  rw [hids']
  exact hcounts ids hids

end Counts

variable {S S' : Service} {fd : Fd} {σ : Session}

/-- A message for all sessions is counted in each. -/
theorem Notifies.counts {name : Bytes} {data : Option MqttBinaryDataEntity} {out : List Outgoing}
    (h : S.Notifies name data out S') : S.Counts out S' := by
  intro fd σ' hσ'
  cases hσ : S.sessions fd with
  | none => exact nomatch hσ'.symm.trans (h.absent fd hσ).1
  | some σ =>
    obtain ⟨σ'', hσ'', hgets⟩ := h.present fd σ hσ
    obtain rfl := Option.some.inj (hσ'.symm.trans hσ'')
    exact ⟨σ, rfl, hgets.counts⟩

/-- A will is counted as a message is. -/
theorem SendsWill.counts {will : Option Message} {out : List Outgoing}
    (h : S.SendsWill will out S') : S.Counts out S' := by
  cases h with
  | nothing => exact .of_sessions rfl
  | sent hnotifies => exact hnotifies.counts

/-- A CONNECT that takes an id numbers no message. -/
theorem TakesId.counts {clean : Bool} {id : Option Bytes} {σ' : Session}
    (h : S.TakesId fd σ clean id σ' S') : S.Counts [] S' := by
  cases h with
  | @unused id => exact .edit_quiet (f := fun σ => { σ with client_id := id }) fun _ => rfl
  | @takenOver id =>
    have hedit : S.Counts [] (S.edit fd fun σ => { σ with client_id := id }) :=
      .edit_quiet fun _ => rfl
    exact hedit.trans .drop
  | @generated random =>
    exact .edit_quiet (f := fun σ => { σ with client_id := random, generated := true }) fun _ => rfl

/-- Retaining a message gives no ids. -/
theorem counts_retain (retain : Bool) (m : Message) : S.Counts [] (S.retain retain m) := by
  refine .of_sessions ?_
  rw [Service.retain]
  split <;> rfl

/-- Whatever packet is handled, what the sessions get is counted. -/
theorem Handles.counts {p : ClientPacket} {queued written : List Outgoing} {keep : Bool}
    (h : S.Handles fd σ p queued written keep S') (hσ : S.sessions fd = some σ) :
    S.Counts queued S' := by
  cases h with
  | @connect id clean alive will σ' S₁ htakes =>
    have hset : S₁.Counts [] (S₁.edit fd fun σ => { σ with will, alive }) :=
      .edit_quiet fun _ => rfl
    have hconnack : (σ'.connack clean).publishId? = none := rfl
    exact .packet hconnack (htakes.counts.trans hset)
  | @badConnect S₁ f _ hid hleft =>
    have hset : S₁.Counts [] (S₁.edit fd f) := .edit_quiet fun σ => by rw [hleft σ]
    -- the id may have been taken before the rest was refused
    obtain rfl | ⟨_, _, _, htakes⟩ := hid
    · exact hset
    · exact htakes.counts.trans hset
  | @publish qos retain packet_id m out S' _ hnotifies =>
    have hcounts := (counts_retain (S := S) retain m).trans hnotifies.counts
    have hpuback : (ServerPacket.puback packet_id).publishId? = none := rfl
    split
    · exact .packet hpuback hcounts
    · exact hcounts
  | @hold retain packet_id m =>
    have hhold : (S.retain retain m).Counts []
        ((S.retain retain m).hold σ.client_id ⟨2, packet_id, m.1, some m.2⟩) := .of_sessions rfl
    have hpubrec : (ServerPacket.pubrec packet_id).publishId? = none := rfl
    exact .packet hpubrec ((counts_retain retain m).trans hhold)
  | puback | pubcomp | disconnect | other => exact .of_sessions rfl
  | pubrec | unknown | pingreq =>
    -- an acknowledgement goes out, and the sessions stay
    have hsame : S.Counts [] S := .of_sessions rfl
    exact .packet rfl hsame
  | @release packet_id topic out S₁ _ hnotifies =>
    have hrelease : S₁.Counts [] (S₁.release σ.client_id packet_id) := .of_sessions rfl
    have hcounts : S.Counts out (S₁.release σ.client_id packet_id) := by
      simpa only [List.append_nil] using hnotifies.counts.trans hrelease
    have hpubcomp : (ServerPacket.pubcomp packet_id).publishId? = none := rfl
    exact .packet hpubcomp hcounts
  | @subscribe packet_id records σ' ps hsends =>
    -- the retained messages count from where the counter of the session is
    have hcounts : σ.CountsUp { σ' with subscribed := true } ps :=
      fun ids hids => hsends.counts ids hids
    have hsuback : (ServerPacket.suback packet_id
        (List.replicate records.length 2)).publishId? = none := rfl
    exact .packet hsuback (.edit hσ hcounts)
  | @unsubscribe packet_id filters =>
    have hset : S.Counts [] (S.edit fd fun σ => σ.unsubscribe filters) := .edit_quiet fun _ => rfl
    exact .packet rfl hset

/-! ## Whole runs -/

/-- The label is the beginning of a connection. -/
def Label.accepts (fd : Fd) (l : Label) : Bool :=
  match l.action with
  | .accept fd' _ => fd' = fd
  | _ => false

/-- What has happened since the connection began. -/
def sinceAccept (fd : Fd) (ls : List Label) : List Label :=
  ls.foldl (fun since l => if l.accepts fd then [] else since ++ [l]) []

/-- An accept starts the labels of a connection anew. -/
theorem sinceAccept_snoc (fd : Fd) (ls : List Label) (l : Label) : sinceAccept fd (ls ++ [l]) =
    if l.accepts fd then [] else sinceAccept fd ls ++ [l] := by
  rw [sinceAccept, List.foldl_append]
  rfl

/-- The ids that a connection has got since its beginning. -/
def idsSince (fd : Fd) (ls : List Label) : List UInt16 :=
  idsOn fd ((sinceAccept fd ls).flatMap Label.queued)

/-- Nothing is queued when a connection begins; otherwise what is queued is counted. -/
theorem Step.counts {l : Label} (h : S.Step l S') (fd : Fd) : (∃ now, l = ⟨.accept fd now, [], []⟩ ∧
      S'.sessions fd = some { last := now }) ∨
    (l.accepts fd = false ∧ ∀ σ', S'.sessions fd = some σ' →
      ∃ σ, S.sessions fd = some σ ∧ σ.CountsUp σ' (outTo fd l.queued)) := by
  have hcounts : ∀ {S₁ : Service} {out : List Outgoing}, S.Counts out S₁ → ∀ σ',
      S₁.sessions fd = some σ' → ∃ σ, S.sessions fd = some σ ∧ σ.CountsUp σ' (outTo fd out) :=
    fun h => h fd
  have htouch : ∀ fd now, S.Counts [] (S.touch fd now) := fun fd now => .edit_quiet fun _ => rfl
  cases h with
  | @accept fd₁ now hnone =>
    -- a new session counts from 1
    by_cases hfd : fd₁ = fd
    · subst hfd
      exact .inl ⟨now, rfl, Function.update_self ..⟩
    · refine .inr ⟨decide_eq_false hfd, fun σ' hσ' => ⟨σ', ?_, .of_eq rfl⟩⟩
      exact (Function.update_of_ne (Ne.symm hfd) ..).symm.trans hσ'
  | packet hopen hhandles | lastPacket hopen hhandles =>
    refine .inr ⟨rfl, hcounts ?_⟩
    exact (htouch _ _).trans (hhandles.counts (sessions_edit_self hopen.1))
  | @lost fd₁ σ now out S₁ S' hopen hS₁ hwill =>
    -- the time of the last packet is no counter
    have hfirst : S.Counts [] S₁ := by
      rw [hS₁]
      cases now with
      | none => exact .of_sessions rfl
      | some now => exact htouch fd₁ now
    exact .inr ⟨rfl, hcounts (hfirst.trans hwill.counts)⟩
  | short => exact .inr ⟨rfl, hcounts (htouch _ _)⟩
  | timeout _ _ hwill => exact .inr ⟨rfl, hcounts (.packet rfl hwill.counts)⟩
  | close => exact .inr ⟨rfl, hcounts .drop⟩
  | silent => exact .inr ⟨rfl, hcounts (.of_sessions rfl)⟩

/-- The counter of a session is behind all that its connection has got. -/
theorem counted_of_run {ls : List Label} (h : machine.Run {} ls S) {fd : Fd} {σ : Session}
    (hσ : S.sessions fd = some σ) : Counted σ.next_id (idsSince fd ls) := by
  refine h.preserves_labels (P := fun S ls => ∀ σ, S.sessions fd = some σ →
    Counted σ.next_id (idsSince fd ls)) ?_ (fun σ hσ => nomatch hσ) σ hσ
  intro S ls l S' ih hstep σ' hσ'
  rw [idsSince, sinceAccept_snoc]
  -- the session is new, or it counts on
  obtain ⟨now, rfl, hnew⟩ | ⟨haccepts, hlater⟩ := Step.counts hstep fd
  · obtain rfl := Option.some.inj (hσ'.symm.trans hnew)
    have haccepts : Label.accepts fd ⟨.accept fd now, [], []⟩ = true := decide_eq_true rfl
    rw [if_pos haccepts]
    exact .nil
  · obtain ⟨σ, hσ, hcounts⟩ := hlater σ' hσ'
    rw [if_neg (by rw [haccepts]; simp), List.flatMap_append, List.flatMap_singleton, idsOn_append]
    exact hcounts _ (ih σ hσ)

end Service

/-! ## The broker -/

/-- The PUBLISH packets with QoS 1 and 2 that have been queued for a connected client since it
    was accepted have the packet ids 1, 2, 3 and so on; behind 65535 comes 1. -/
theorem packet_ids_consecutive {x : ServerThread × Traffic} (h : trafficSystem.Reachable x) :
    ∃ ls, RunsAs x ls ∧ ∀ fd ref, x.1.broker.clients.lookup fd = some (some ref) →
      Service.idsSince fd ls =
        (List.range (Service.idsSince fd ls).length).map fun n => UInt16.ofNat (n % 65535 + 1) := by
  obtain ⟨ls, hruns⟩ := exists_runsAs h
  refine ⟨ls, hruns, fun fd ref hclient => ?_⟩
  exact (Service.counted_of_run hruns.run (sessions_of_lookup hclient)).all

/-- A client that is sent its own message twice. -/
theorem packet_ids_consecutive_publishedTwice : ∃ x ls, RunsAs x ls ∧
    x.1.broker.clients.lookup 5 = some (some 0) ∧ Service.idsSince 5 ls =
      (List.range (Service.idsSince 5 ls).length).map fun n => UInt16.ofNat (n % 65535 + 1) := by
  obtain ⟨x, hreach, -, -, -, hclient⟩ := exists_publishedTwice
  obtain ⟨ls, hruns, hids⟩ := packet_ids_consecutive hreach
  exact ⟨x, ls, hruns, hclient, hids 5 0 hclient⟩

end Mqtt.Spec
