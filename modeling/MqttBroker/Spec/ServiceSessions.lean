import MqttBroker.Spec.ServiceIds

/-!
# Sessions of the service

What has happened on a connection since it was accepted says what its session is: which filters
it has, what its will is, and whether the connection is to be closed.
-/

namespace Mqtt.Spec

open Mqtt.Native Mqtt.Native.Broker

/-! ## One packet -/

namespace ClientPacket

/-- The filters of a connection behind a packet. -/
def filtersAfter (filters : Bytes → Option UInt8) : ClientPacket → Bytes → Option UInt8
  | subscribe _ records => Service.Session.filtersWith filters records
  | unsubscribe _ fs => Service.Session.filtersWithout filters fs
  | _ => filters

/-- The will of a connection behind a packet. -/
def willAfter (will : Option Message) : ClientPacket → Option Message
  | connect _ _ _ will => will
  | _ => will

/-- The retained messages behind a packet, of whatever connection. -/
def retainedAfter (retained : Bytes → Option MqttBinaryDataEntity) :
    ClientPacket → Bytes → Option MqttBinaryDataEntity
  | publish _ true _ m => Function.update retained m.1 (some m.2)
  | _ => retained

/-- The connection is closed behind the packet. -/
def ends : ClientPacket → Bool
  | badConnect | disconnect | other => true
  | _ => false

end ClientPacket

namespace Service

/-- A session behind the packets of its connection. -/
structure Session.Follows (σ σ' : Session) (ps : List ClientPacket) : Prop where
  filters : σ'.filters = ps.foldl ClientPacket.filtersAfter σ.filters
  subscribed : (∀ f, (σ.filters f).isSome → σ.subscribed) →
    ∀ f, (σ'.filters f).isSome → σ'.subscribed
  /-- A refused CONNECT may leave any will. -/
  will : (∀ p ∈ ps, p.ends = false) → σ'.will = ps.foldl ClientPacket.willAfter σ.will

namespace Session.Follows

variable {σ σ' σ'' : Session} {ps ps' : List ClientPacket}

/-- A session that keeps filters and will is behind no packet. -/
theorem of_eq (hfilters : σ'.filters = σ.filters) (hsubscribed : σ'.subscribed = σ.subscribed)
    (hwill : σ'.will = σ.will) : σ.Follows σ' [] :=
  ⟨hfilters, fun h f hf => by rw [hsubscribed]; exact h f (hfilters ▸ hf), fun _ => hwill⟩

/-- A packet that changes neither filters nor will. -/
theorem quiet {p : ClientPacket} (h : σ.Follows σ' [])
    (hfilters : ∀ filters, p.filtersAfter filters = filters)
    (hwill : ∀ will, p.willAfter will = will) :
    σ.Follows σ' [p] := by
  refine ⟨?_, h.subscribed, fun _ => ?_⟩
  · rw [List.foldl_cons, hfilters]
    exact h.filters
  · rw [List.foldl_cons, hwill]
    exact h.will fun p hp => nomatch hp

theorem trans (h : σ.Follows σ' ps) (h' : σ'.Follows σ'' ps') : σ.Follows σ'' (ps ++ ps') := by
  refine ⟨?_, fun hσ => h'.subscribed (h.subscribed hσ), fun hends => ?_⟩
  · rw [h'.filters, h.filters, List.foldl_append]
  · obtain ⟨hps, hps'⟩ := List.forall_mem_append.mp hends
    rw [h'.will hps', h.will hps, List.foldl_append]

end Session.Follows

/-- Every session that is there afterwards was there, and is behind the packet of its
    connection. -/
def Follows (S : Service) (packets : Fd → List ClientPacket) (S' : Service) : Prop :=
  ∀ fd σ', S'.sessions fd = some σ' → ∃ σ, S.sessions fd = some σ ∧ σ.Follows σ' (packets fd)

/-- The packets of one connection. -/
def packetOf (fd : Fd) (p : ClientPacket) (fd' : Fd) : List ClientPacket :=
  if fd = fd' then [p] else []

namespace Follows

variable {S S' S'' : Service} {fd : Fd} {p : ClientPacket} {packets : Fd → List ClientPacket}

/-- Sessions that stay are behind no packet. -/
theorem of_sessions (h : S'.sessions = S.sessions) : S.Follows (fun _ => []) S' :=
  fun _ σ' hσ' => ⟨σ', h ▸ hσ', .of_eq rfl rfl rfl⟩

theorem trans {packets' : Fd → List ClientPacket} (h : S.Follows packets S')
    (h' : S'.Follows packets' S'') : S.Follows (fun fd => packets fd ++ packets' fd) S'' := by
  intro fd σ'' hσ''
  obtain ⟨σ', hσ', hlast⟩ := h' fd σ'' hσ''
  obtain ⟨σ, hσ, hfirst⟩ := h fd σ' hσ'
  exact ⟨σ, hσ, hfirst.trans hlast⟩

/-- A session is changed by a packet. -/
theorem edit {f : Session → Session} (h : ∀ σ, S.sessions fd = some σ → σ.Follows (f σ) [p]) :
    S.Follows (packetOf fd p) (S.edit fd f) := by
  intro fd' σ' hσ'
  rw [packetOf]
  by_cases hfd : fd = fd'
  · subst hfd
    simp only [Service.edit, Function.update_self, Option.map_eq_some_iff] at hσ'
    obtain ⟨σ, hσ, rfl⟩ := hσ'
    rw [if_pos rfl]
    exact ⟨σ, hσ, h σ hσ⟩
  · rw [sessions_edit_ne (Ne.symm hfd)] at hσ'
    rw [if_neg hfd]
    exact ⟨σ', hσ', .of_eq rfl rfl rfl⟩

/-- A session is changed, but not in its filters and its will. -/
theorem edit_quiet {f : Session → Session} (h : ∀ σ : Session, σ.Follows (f σ) []) :
    S.Follows (fun _ => []) (S.edit fd f) := by
  intro fd' σ' hσ'
  by_cases hfd : fd' = fd
  · subst hfd
    simp only [Service.edit, Function.update_self, Option.map_eq_some_iff] at hσ'
    obtain ⟨σ, hσ, rfl⟩ := hσ'
    exact ⟨σ, hσ, h σ⟩
  · rw [sessions_edit_ne hfd] at hσ'
    exact ⟨σ', hσ', .of_eq rfl rfl rfl⟩

/-- A connection that is closed has no session behind its packets. -/
theorem drop : S.Follows (fun _ => []) (S.drop fd) := by
  intro fd' σ' hσ'
  by_cases hfd : fd' = fd
  · simp [Service.drop, hfd] at hσ'
  · simp only [Service.drop, Function.update_of_ne hfd] at hσ'
    exact ⟨σ', hσ', .of_eq rfl rfl rfl⟩

/-- A packet that changes neither filters nor will. -/
theorem quiet (h : S.Follows (fun _ => []) S')
    (hfilters : ∀ filters, p.filtersAfter filters = filters)
    (hwill : ∀ will, p.willAfter will = will) :
    S.Follows (packetOf fd p) S' := by
  intro fd' σ' hσ'
  obtain ⟨σ, hσ, hfollows⟩ := h fd' σ' hσ'
  rw [packetOf]
  split
  · exact ⟨σ, hσ, hfollows.quiet hfilters hwill⟩
  · exact ⟨σ, hσ, hfollows⟩

end Follows

section handles

variable {S S' : Service} {fd : Fd} {σ : Session}

/-- Numbering a message is behind no packet. -/
theorem Session.follows_number (σ : Session) (options : UInt8) :
    σ.Follows (σ.number options) [] := by
  rw [Session.number]
  split <;> exact .of_eq rfl rfl rfl

/-- A message changes neither filters nor will. -/
theorem Session.Gets.follows {σ' : Session} {name : Bytes} {data : Option MqttBinaryDataEntity}
    {ps : List ServerPacket} (h : σ.Gets name data σ' ps) : σ.Follows σ' [] := by
  cases h with
  | nothing => exact .of_eq rfl rfl rfl
  | publish => exact σ.follows_number _

/-- Messages that are sent in turn change neither. -/
theorem Session.Sends.follows {σ' : Session} {options : UInt8} {ms : List Message}
    {ps : List ServerPacket} (h : σ.Sends options ms σ' ps) : σ.Follows σ' [] := by
  induction h with
  | nil => exact .of_eq rfl rfl rfl
  | cons _ _ ih => exact (Session.follows_number _ options).trans ih

/-- Retained messages change neither. -/
theorem Session.SendsRetained.follows {σ' : Session}
    {retained : Bytes → Option MqttBinaryDataEntity} {records : List (Bytes × UInt8)}
    {ps : List ServerPacket} (h : σ.SendsRetained retained records σ' ps) : σ.Follows σ' [] := by
  induction h with
  | nil => exact .of_eq rfl rfl rfl
  | cons _ hsends _ ih => exact hsends.follows.trans ih

/-- A message for all sessions changes neither in any of them. -/
theorem Notifies.follows {name : Bytes} {data : Option MqttBinaryDataEntity} {out : List Outgoing}
    (h : S.Notifies name data out S') : S.Follows (fun _ => []) S' := by
  intro fd σ' hσ'
  cases hσ : S.sessions fd with
  | none => exact nomatch hσ'.symm.trans (h.absent fd hσ).1
  | some σ =>
    obtain ⟨σ'', hσ'', hgets⟩ := h.present fd σ hσ
    obtain rfl := Option.some.inj (hσ'.symm.trans hσ'')
    exact ⟨σ, rfl, hgets.follows⟩

/-- A will is sent as a message is. -/
theorem SendsWill.follows {will : Option Message} {out : List Outgoing}
    (h : S.SendsWill will out S') : S.Follows (fun _ => []) S' := by
  cases h with
  | nothing => exact .of_sessions rfl
  | sent hnotifies => exact hnotifies.follows

/-- A CONNECT that takes an id leaves filters and will alone. -/
theorem TakesId.follows {clean : Bool} {id : Option Bytes} {σ' : Session}
    (h : S.TakesId fd σ clean id σ' S') : S.Follows (fun _ => []) S' := by
  cases h with
  | unused | generated => exact .edit_quiet fun _ => .of_eq rfl rfl rfl
  | @takenOver id =>
    have hedit : S.Follows (fun _ => []) (S.edit fd fun σ => { σ with client_id := id }) :=
      .edit_quiet fun _ => .of_eq rfl rfl rfl
    exact hedit.trans .drop

/-- Retaining a message changes no session. -/
theorem follows_retain (retain : Bool) (m : Message) :
    S.Follows (fun _ => []) (S.retain retain m) := by
  refine .of_sessions ?_
  rw [Service.retain]
  split <;> rfl

/-- Whatever packet is handled, the sessions are behind it. -/
theorem Handles.follows {p : ClientPacket} {queued written : List Outgoing} {keep : Bool}
    (h : S.Handles fd σ p queued written keep S') (hσ : S.sessions fd = some σ) :
    S.Follows (packetOf fd p) S' := by
  have hsame : S.Follows (fun _ => []) S := .of_sessions rfl
  cases h with
  | @connect id clean alive will σ' S₁ htakes =>
    have hedit : S₁.Follows (packetOf fd (.connect id clean alive will))
        (S₁.edit fd fun σ => { σ with will, alive }) :=
      .edit fun σ _ => ⟨rfl, fun h => h, fun _ => rfl⟩
    exact htakes.follows.trans hedit
  | @badConnect S₁ f _ hid hleft =>
    have hlast : S₁.Follows (packetOf fd .badConnect) (S₁.edit fd f) := .edit fun σ _ => by
      rw [hleft σ]
      exact ⟨rfl, fun h => h, fun hends => by cases hends _ (.head _)⟩
    -- a refused CONNECT may have set the will of its session, which is then to be closed
    obtain rfl | ⟨_, _, _, htakes⟩ := hid
    · exact hlast
    · exact htakes.follows.trans hlast
  | publish _ hnotifies =>
    exact ((follows_retain _ _).trans hnotifies.follows).quiet (fun _ => rfl) fun _ => rfl
  | @hold retain packet_id m =>
    have hhold : (S.retain retain m).Follows (fun _ => [])
      ((S.retain retain m).hold σ.client_id ⟨2, packet_id, m.1, some m.2⟩) := .of_sessions rfl
    exact ((follows_retain _ _).trans hhold).quiet (fun _ => rfl) fun _ => rfl
  | puback | pubcomp | disconnect | other | pubrec | unknown | pingreq =>
    exact hsame.quiet (fun _ => rfl) fun _ => rfl
  | @release packet_id topic out S₁ _ hnotifies =>
    have hrelease : S₁.Follows (fun _ => []) (S₁.release σ.client_id packet_id) := .of_sessions rfl
    exact (hnotifies.follows.trans hrelease).quiet (fun _ => rfl) fun _ => rfl
  | @subscribe packet_id records σ' ps hsends =>
    -- the messages that are sent change no filters, so these are the ones of the records
    refine .edit fun σ₁ hσ₁ => ?_
    obtain rfl := Option.some.inj (hσ.symm.trans hσ₁)
    have hfollows := hsends.follows
    exact ⟨hfollows.filters, fun _ _ _ => rfl, fun _ => hfollows.will (List.forall_mem_nil _)⟩
  | @unsubscribe packet_id fs =>
    -- fewer filters are subscribed if all were
    refine .edit fun σ₁ _ => ⟨rfl, fun h f hf => ?_, fun _ => rfl⟩
    simp only [Session.unsubscribe, Session.filtersWithout] at hf
    split at hf
    · cases hf
    · exact h f hf

/-- Which packets end a connection does not depend on the state. -/
theorem Handles.keep_eq {p : ClientPacket} {queued written : List Outgoing} {keep : Bool}
    (h : S.Handles fd σ p queued written keep S') : keep = !p.ends := by
  cases h <;> rfl

/-- A will changes sessions alone. -/
theorem SendsWill.others {will : Option Message} {out : List Outgoing}
    (h : S.SendsWill will out S') : S' = { S with sessions := S'.sessions } := by
  cases h with
  | nothing => rfl
  | sent hnotifies => exact hnotifies.others

/-- A CONNECT that takes an id changes sessions alone. -/
theorem TakesId.others {clean : Bool} {id : Option Bytes} {σ' : Session}
    (h : S.TakesId fd σ clean id σ' S') : S' = { S with sessions := S'.sessions } := by
  cases h <;> rfl

/-- No packet marks a connection itself; its step does. -/
theorem Handles.ending_eq {p : ClientPacket} {queued written : List Outgoing} {keep : Bool}
    (h : S.Handles fd σ p queued written keep S') : S'.ending = S.ending := by
  -- retaining a message concerns no connection
  have hretain : ∀ retain m, (S.retain retain m).ending = S.ending := by
    intro retain m
    rw [Service.retain]
    split <;> rfl
  cases h with
  | connect htakes => exact (congrArg ending htakes.others :)
  | badConnect hid =>
    obtain rfl | ⟨_, _, _, htakes⟩ := hid
    · rfl
    · exact (congrArg ending htakes.others :)
  | publish _ hnotifies => exact (congrArg ending hnotifies.others).trans (hretain _ _)
  | hold => exact hretain _ _
  | release _ hnotifies => exact (congrArg ending hnotifies.others :)
  | _ => rfl

/-- What is retained are the messages of the packets, and no others. -/
theorem Handles.retained_eq {p : ClientPacket} {queued written : List Outgoing} {keep : Bool}
    (h : S.Handles fd σ p queued written keep S') : S'.retained = p.retainedAfter S.retained := by
  have hretain : ∀ qos packet_id retain m, (S.retain retain m).retained =
      (ClientPacket.publish qos retain packet_id m).retainedAfter S.retained := by
    intro qos packet_id retain m
    cases retain <;> rfl
  cases h with
  | connect htakes => exact (congrArg retained htakes.others :)
  | badConnect hid =>
    obtain rfl | ⟨_, _, _, htakes⟩ := hid
    · rfl
    · exact (congrArg retained htakes.others :)
  | publish _ hnotifies => exact (congrArg retained hnotifies.others).trans (hretain _ _ _ _)
  | hold => exact hretain _ _ _ _
  | release _ hnotifies => exact (congrArg retained hnotifies.others :)
  | _ => rfl

end handles

/-! ## One step -/

namespace Label

/-- The packets of a connection in a label. -/
def packetsFrom (fd : Fd) (l : Label) : List ClientPacket :=
  match l.action with
  | .packet fd' _ p => packetOf fd' p fd
  | _ => []

/-- What happens is about the connection, and is not its beginning. -/
def concerns (fd : Fd) (l : Label) : Bool :=
  match l.action with
  | .packet fd' _ _ | .lost fd' _ | .short fd' _ | .timeout fd' _ | .close fd' => fd' = fd
  | .accept _ _ | .silent => false

/-- A packet of the connection, which stays open. -/
def keeps (fd : Fd) (l : Label) : Bool :=
  match l.action with
  | .packet fd' _ p => fd' = fd && !p.ends
  | _ => false

/-- The connection ends. -/
def ends (fd : Fd) (l : Label) : Bool :=
  match l.action with
  | .packet fd' _ p => fd' = fd && p.ends
  | .lost fd' _ | .short fd' _ | .timeout fd' _ => fd' = fd
  | _ => false

end Label

section step

variable {S S' : Service} {l : Label} {fd : Fd} {σ' : Session}

/-- A session is new, or it is behind the packet of its connection. -/
theorem Step.follows (h : S.Step l S') (hσ' : S'.sessions fd = some σ') :
    (l.accepts fd = true ∧ ∃ now, σ' = { last := now }) ∨
    (l.accepts fd = false ∧
      ∃ σ, S.sessions fd = some σ ∧ σ.Follows σ' (l.packetsFrom fd)) := by
  have htouch : ∀ fd now, S.Follows (fun _ => []) (S.touch fd now) :=
    fun fd now => .edit_quiet fun _ => .of_eq rfl rfl rfl
  cases h with
  | @accept fd₁ now hnone =>
    have hσ' : Function.update S.sessions fd₁ (some { last := now }) fd = some σ' := hσ'
    -- the accepted connection has a new session
    by_cases hfd : fd₁ = fd
    · rw [hfd, Function.update_self] at hσ'
      exact .inl ⟨decide_eq_true hfd, now, (Option.some.inj hσ').symm⟩
    · rw [Function.update_of_ne (Ne.symm hfd)] at hσ'
      exact .inr ⟨decide_eq_false hfd, σ', hσ', .of_eq rfl rfl rfl⟩
  | packet hopen hhandles | lastPacket hopen hhandles =>
    have hlast := hhandles.follows (sessions_edit_self hopen.1)
    exact .inr ⟨rfl, (htouch _ _).trans hlast fd σ' hσ'⟩
  | @lost fd₁ σ now out S₁ S₂ hopen hS₁ hwill =>
    have hfirst : S.Follows (fun _ => []) S₁ := by
      rw [hS₁]
      cases now with
      | none => exact .of_sessions rfl
      | some now => exact htouch fd₁ now
    exact .inr ⟨rfl, hfirst.trans hwill.follows fd σ' hσ'⟩
  | short => exact .inr ⟨rfl, htouch _ _ fd σ' hσ'⟩
  | timeout _ _ hwill => exact .inr ⟨rfl, hwill.follows fd σ' hσ'⟩
  | @close fd₁ =>
    -- the closed connection has no session any more
    have hdrop : S.Follows (fun _ => []) (S.drop fd₁) := .drop
    exact .inr ⟨rfl, hdrop fd σ' hσ'⟩
  | silent => exact .inr ⟨rfl, σ', hσ', .of_eq rfl rfl rfl⟩

/-- Nothing happens on a connection that is to be closed, and a connection that ends is to be
    closed. -/
theorem Step.lives (h : S.Step l S') (hσ' : S'.sessions fd = some σ') :
    (fd ∈ S.ending → fd ∈ S'.ending) ∧ (l.concerns fd → fd ∉ S.ending ∧
      (l.keeps fd ∨ l.ends fd ∧ fd ∈ S'.ending)) := by
  -- whatever a step does, it only adds to the connections that are to be closed
  have hfinish : ∀ {S₁ : Service} {fd₁ : Fd}, S₁.ending = S.ending → fd ∈ S.ending →
      fd ∈ (S₁.finish fd₁).ending :=
    fun hending hmem => List.mem_append_left _ (hending ▸ hmem)
  have hends : ∀ {S₁ : Service} {fd₁ : Fd}, fd₁ = fd → fd ∈ (S₁.finish fd₁).ending :=
    fun hfd => List.mem_append_right _ (hfd ▸ .head _)
  cases h with
  | accept | silent => exact ⟨id, fun hconcerns => nomatch hconcerns⟩
  | packet hopen hhandles =>
    refine ⟨fun hmem => hhandles.ending_eq ▸ hmem, fun hconcerns => ?_⟩
    have hfd := of_decide_eq_true hconcerns
    refine ⟨hfd ▸ hopen.2, .inl ?_⟩
    -- whether the connection stays is said by the packet alone
    have hkeep := hhandles.keep_eq
    simp only [Label.keeps, hfd, decide_true, Bool.true_and, ← hkeep]
  | lastPacket hopen hhandles =>
    refine ⟨hfinish hhandles.ending_eq, fun hconcerns => ?_⟩
    have hfd := of_decide_eq_true hconcerns
    refine ⟨hfd ▸ hopen.2, .inr ⟨?_, hends hfd⟩⟩
    have hkeep := hhandles.keep_eq
    simp only [Label.ends, hfd, decide_true, Bool.true_and]
    simpa using hkeep.symm
  | @lost fd₁ σ now out S₁ S₂ hopen hS₁ hwill =>
    have hending : S₁.ending = S.ending := by
      rw [hS₁]
      cases now <;> rfl
    refine ⟨hfinish ((congrArg ending hwill.others).trans hending), fun hconcerns => ?_⟩
    have hfd := of_decide_eq_true hconcerns
    exact ⟨hfd ▸ hopen.2, .inr ⟨hconcerns, hends hfd⟩⟩
  | short hopen =>
    refine ⟨hfinish rfl, fun hconcerns => ?_⟩
    have hfd := of_decide_eq_true hconcerns
    exact ⟨hfd ▸ hopen.2, .inr ⟨hconcerns, hends hfd⟩⟩
  | timeout hopen _ hwill =>
    refine ⟨hfinish (congrArg ending hwill.others :), fun hconcerns => ?_⟩
    have hfd := of_decide_eq_true hconcerns
    exact ⟨hfd ▸ hopen.2, .inr ⟨hconcerns, hends hfd⟩⟩
  | @close fd₁ rest σ hending hσ =>
    -- the session of the connection that is closed is gone
    have hfd : fd₁ ≠ fd := by
      rintro rfl
      exact nomatch (Function.update_self ..).symm.trans hσ'
    refine ⟨fun hmem => ?_, fun hconcerns => absurd (of_decide_eq_true hconcerns) hfd⟩
    rw [hending] at hmem
    exact (List.mem_cons.mp hmem).resolve_left (Ne.symm hfd)

/-- A step retains what the packet in its label says. -/
theorem Step.retained_eq (h : S.Step l S') : S'.retained =
    (l.packet?.toList.map Prod.snd).foldl ClientPacket.retainedAfter S.retained := by
  cases h with
  | packet _ hhandles | lastPacket _ hhandles => exact hhandles.retained_eq
  | @lost _ _ now _ _ _ _ hS₁ hwill =>
    rw [Service.finish, congrArg retained hwill.others, hS₁]
    cases now <;> rfl
  | timeout _ _ hwill => exact (congrArg retained hwill.others :)
  | accept | short | close | silent => rfl

end step

/-! ## Whole runs -/

/-- The packets of a connection since it was accepted. -/
def packetsOn (fd : Fd) (ls : List Label) : List ClientPacket :=
  (sinceAccept fd ls).flatMap (Label.packetsFrom fd)

/-- What has happened on a connection since it was accepted. -/
def labelsOn (fd : Fd) (ls : List Label) : List Label :=
  (sinceAccept fd ls).filter (Label.concerns fd)

/-- The filters of a connection, from its packets. -/
def filtersOn (fd : Fd) (ls : List Label) : Bytes → Option UInt8 :=
  (packetsOn fd ls).foldl ClientPacket.filtersAfter fun _ => none

/-- The will of a connection, from its packets. -/
def willOn (fd : Fd) (ls : List Label) : Option Message :=
  (packetsOn fd ls).foldl ClientPacket.willAfter none

/-- The retained messages, from the packets of all connections. -/
def retainedIn (ls : List Label) : Bytes → Option MqttBinaryDataEntity :=
  ((ls.filterMap Label.packet?).map Prod.snd).foldl ClientPacket.retainedAfter fun _ => none

/-- The packets of a connection with one label more. -/
theorem packetsOn_snoc (fd : Fd) (ls : List Label) (l : Label) : packetsOn fd (ls ++ [l]) =
    if l.accepts fd then [] else packetsOn fd ls ++ l.packetsFrom fd := by
  rw [packetsOn, sinceAccept_snoc]
  split
  · rfl
  · rw [List.flatMap_append, List.flatMap_singleton]
    rfl

/-- The labels of a connection with one label more. -/
theorem labelsOn_snoc (fd : Fd) (ls : List Label) (l : Label) : labelsOn fd (ls ++ [l]) =
    if l.accepts fd then [] else labelsOn fd ls ++ [l].filter (Label.concerns fd) := by
  rw [labelsOn, sinceAccept_snoc]
  split
  · rfl
  · exact List.filter_append ..

/-- What is retained with one label more. -/
theorem retainedIn_snoc (ls : List Label) (l : Label) : retainedIn (ls ++ [l]) =
    (l.packet?.toList.map Prod.snd).foldl ClientPacket.retainedAfter (retainedIn ls) := by
  rw [retainedIn, filterMap_packet_snoc, List.map_append, List.foldl_append]
  rfl

/-- The history of a connection: packets, and then its end, if it is to be closed. -/
def LivesAs (fd : Fd) (ending : List Fd) (labels : List Label) : Prop :=
  ∃ (before : List Label) (last : Option Label), labels = before ++ last.toList ∧
    (∀ l ∈ before, l.keeps fd) ∧ ∀ l ∈ last, l.ends fd ∧ fd ∈ ending

/-- What the sessions are, from what has happened on their connections, and what is retained. -/
structure Recorded (S : Service) (ls : List Label) : Prop where
  filters : ∀ {fd σ}, S.sessions fd = some σ → σ.filters = filtersOn fd ls
  subscribed : ∀ {fd σ}, S.sessions fd = some σ → ∀ f, (σ.filters f).isSome → σ.subscribed
  lives : ∀ {fd σ}, S.sessions fd = some σ → LivesAs fd S.ending (labelsOn fd ls)
  will : ∀ {fd σ}, S.Open fd σ → σ.will = willOn fd ls
  retained : S.retained = retainedIn ls

section recorded

variable {S S' : Service} {ls : List Label} {l : Label} {fd : Fd} {σ' : Session}

/-- Nothing that keeps a connection open has ended it. -/
theorem packetsFrom_ends (h : S.Step l S') (hopen : S'.Open fd σ') :
    ∀ p ∈ l.packetsFrom fd, p.ends = false := by
  intro p hp
  have hlives := (h.lives hopen.1).2
  simp only [Label.packetsFrom, packetOf] at hp
  split at hp
  · rename_i fd' now p' haction
    split at hp
    · rename_i hfd
      obtain rfl := List.mem_singleton.mp hp
      -- the packet keeps the connection, or this one is to be closed
      obtain ⟨-, hkeeps | ⟨-, hmem⟩⟩ := hlives (by simp [Label.concerns, haction, hfd])
      · simpa [Label.keeps, haction, hfd] using hkeeps
      · exact absurd hmem hopen.2
    · exact nomatch hp
  · exact nomatch hp

/-- A connection goes on, or it ends and is marked. -/
theorem LivesAs.step (h : S.Step l S') (hσ' : S'.sessions fd = some σ')
    (hlives : LivesAs fd S.ending (labelsOn fd ls)) :
    LivesAs fd S'.ending (labelsOn fd ls ++ [l].filter (Label.concerns fd)) := by
  obtain ⟨before, last, heq, hbefore, hlast⟩ := hlives
  obtain ⟨hending, hconcerns⟩ := h.lives hσ'
  by_cases hl : l.concerns fd
  · obtain ⟨hopen, hl'⟩ := hconcerns hl
    obtain rfl : last = none :=
      Option.eq_none_iff_forall_not_mem.mpr fun l' hl' => hopen (hlast l' hl').2
    rw [heq, Option.toList_none, List.append_nil, List.filter_cons_of_pos hl, List.filter_nil]
    -- a packet more, or the end
    obtain hkeeps | hends := hl'
    · refine ⟨before ++ [l], none, (List.append_nil _).symm, ?_, fun l' hl' => nomatch hl'⟩
      exact List.forall_mem_append.mpr ⟨hbefore, List.forall_mem_singleton.mpr hkeeps⟩
    · refine ⟨before, some l, rfl, hbefore, fun l' hl' => ?_⟩
      obtain rfl := Option.some.inj hl'
      exact hends
  · rw [List.filter_cons_of_neg hl, List.filter_nil, List.append_nil]
    exact ⟨before, last, heq, hbefore, fun l' hl' => ⟨(hlast l' hl').1, hending (hlast l' hl').2⟩⟩

/-- Each step keeps the sessions behind the packets of their connections. -/
theorem Recorded.step (h : S.Recorded ls) (hstep : S.Step l S') : S'.Recorded (ls ++ [l]) := by
  constructor
  · intro fd σ' hσ'
    rw [filtersOn, packetsOn_snoc]
    obtain ⟨haccepts, now, rfl⟩ | ⟨haccepts, σ, hσ, hfollows⟩ := hstep.follows hσ'
    · rw [if_pos haccepts]
      rfl
    · rw [haccepts, if_neg Bool.false_ne_true, List.foldl_append, hfollows.filters, h.filters hσ]
      rfl
  · intro fd σ' hσ'
    obtain ⟨-, now, rfl⟩ | ⟨-, σ, hσ, hfollows⟩ := hstep.follows hσ'
    · exact fun f hf => nomatch hf
    · exact hfollows.subscribed (h.subscribed hσ)
  · intro fd σ' hσ'
    rw [labelsOn_snoc]
    obtain ⟨haccepts, -⟩ | ⟨haccepts, σ, hσ, -⟩ := hstep.follows hσ'
    · rw [if_pos haccepts]
      exact ⟨[], none, rfl, fun l hl => (nomatch hl), fun l hl => nomatch hl⟩
    · rw [haccepts, if_neg Bool.false_ne_true]
      exact (h.lives hσ).step hstep hσ'
  · -- a connection that is not to be closed was not to be closed before
    intro fd σ' hopen
    rw [willOn, packetsOn_snoc]
    obtain ⟨haccepts, now, rfl⟩ | ⟨haccepts, σ, hσ, hfollows⟩ := hstep.follows hopen.1
    · rw [if_pos haccepts]
      rfl
    · have hnot : fd ∉ S.ending := fun hmem => hopen.2 ((hstep.lives hopen.1).1 hmem)
      rw [haccepts, if_neg Bool.false_ne_true, List.foldl_append,
        hfollows.will (packetsFrom_ends hstep hopen), h.will ⟨hσ, hnot⟩]
      rfl
  · rw [retainedIn_snoc, hstep.retained_eq, h.retained]

/-- In every run the sessions are behind the packets of their connections. -/
theorem recorded_of_run (h : machine.Run {} ls S) : S.Recorded ls :=
  h.preserves_labels (P := Recorded) Recorded.step
    ⟨fun hσ => (nomatch hσ), fun hσ => (nomatch hσ), fun hσ => (nomatch hσ),
      fun hopen => (nomatch hopen.1), rfl⟩

end recorded

end Service

/-! ## The broker -/

/-- A socket that `poll` reports as hung up ends its connection. -/
theorem Refines.lost {s t : ServerThread} {fd : Fd} {l : Service.Label}
    (h : Refines s (.server (.socket .hangup)) t l) (hat : socketAt s = some fd) :
    l.action = .lost fd none := by
  have hacts := h.acts
  generalize l.action = action at hacts
  cases hacts with
  | socket hat' hscan =>
    obtain rfl := Option.some.inj (hat.symm.trans hat')
    cases hscan with
    | control _ hevent => exact absurd rfl hevent
    | hangup => rfl

/-- However a run of the broker is labelled, and it can be: on the connection of a client there
    were packets, and then it has ended at most once. Once it has, nothing is read from it any
    more, and it is marked; so a client whose connection has ended is gone when the next pass
    begins. -/
theorem connections_end_once {x : ServerThread × Traffic} (h : trafficSystem.Reachable x) :
    (∃ ls, RunsAs x ls) ∧ ∀ ls, RunsAs x ls → ∀ fd ref,
      x.1.broker.clients.lookup fd = some (some ref) →
      Service.LivesAs fd (toDelete x.1) (Service.labelsOn fd ls) := by
  refine ⟨exists_runsAs h, fun ls hruns fd ref hclient => ?_⟩
  have hrecorded := Service.recorded_of_run hruns.run
  exact hrecorded.lives (sessions_of_lookup hclient)

/-- The client has connected and subscribed, and the next pass has begun. -/
def readyToPublish : List SystemEvent :=
  connected ++ pass 0x82 [0, 2, 0, 0, 1, 0x74, 1] ++ [.server (.round false 0)]

/-- The client hangs up. Its connection ends behind its two packets, and is marked. -/
theorem connections_end_once_hangup : ∃ x ls l, RunsAs x (ls ++ [l]) ∧ x.2.read.length = 2 ∧
    x.1.broker.clients.lookup 5 = some (some 0) ∧ toDelete x.1 = [5] ∧ l.action = .lost 5 none ∧
    Service.labelsOn 5 (ls ++ [l]) = Service.labelsOn 5 ls ++ [l] ∧
    Service.LivesAs 5 [5] (Service.labelsOn 5 ls ++ [l]) := by
  have hrun : ((readyToPublish.foldlM trafficStep (fromStart, {})).bind fun x =>
      (trafficStep x (.server (.socket .hangup))).map fun y =>
        decide (socketAt x.1 = some 5) && (decide (y.2.read.length = 2) &&
          (decide (y.1.broker.clients.lookup 5 = some (some 0)) &&
            decide (toDelete y.1 = [5])))) = some true := by
    decide +kernel
  obtain ⟨x, hx, hrun⟩ := Option.bind_eq_some_iff.mp hrun
  obtain ⟨y, hy, hcheck⟩ := Option.map_eq_some_iff.mp hrun
  simp only [Bool.and_eq_true, decide_eq_true_eq] at hcheck
  obtain ⟨hat, hread, hclient, hdelete⟩ := hcheck
  have hreach : trafficSystem.Reachable x :=
    ⟨(fromStart, {}), _, ⟨⟨4, rfl⟩, rfl⟩, LTS.run_of_foldlM step_of_trafficStep hx⟩
  have hstep := step_of_trafficStep hy
  obtain ⟨ls, hruns⟩ := exists_runsAs hreach
  obtain ⟨l, hl, hruns'⟩ := hruns.step hreach hstep
  -- the step of a hang-up is labelled as a lost connection
  have hlost : l.action = .lost 5 none := hl.lost hat
  have hlabels : Service.labelsOn 5 (ls ++ [l]) = Service.labelsOn 5 ls ++ [l] := by
    rw [Service.labelsOn_snoc, if_neg (by simp [Service.Label.accepts, hlost])]
    simp [Service.Label.concerns, hlost]
  have hlives := (connections_end_once (hreach.step hstep)).2 _ hruns' 5 0 hclient
  rw [hlabels, hdelete] at hlives
  exact ⟨y, ls, l, hruns', hread, hclient, hdelete, hlost, hlabels, hlives⟩

end Mqtt.Spec
