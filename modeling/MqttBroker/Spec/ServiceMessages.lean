import MqttBroker.Spec.ServiceSessions

/-!
# Messages of the service

Where the messages come from and where they go: whatever is published to a connection was sent
by a client before, unchanged, and the connection has subscribed to a filter for it since it
was accepted.
-/

namespace Mqtt.Spec

open Mqtt.Native Mqtt.Native.Broker

/-! ## What packets carry -/

namespace ClientPacket

/-- The messages of a packet: that of a PUBLISH, and the will of a CONNECT. -/
def messages : ClientPacket → List Message
  | publish _ _ _ m => [m]
  | connect _ _ _ will => will.toList
  | _ => []

/-- The filters a packet subscribes to. -/
def filters : ClientPacket → List Bytes
  | subscribe _ records => records.map Prod.fst
  | _ => []

end ClientPacket

namespace Service

/-- The messages that clients have sent. -/
def messagesIn (ls : List Label) : List Message :=
  (ls.filterMap Label.packet?).flatMap fun p => p.2.messages

/-- The filters that a connection has subscribed to since it was accepted. -/
def askedOn (fd : Fd) (ls : List Label) : List Bytes :=
  (packetsOn fd ls).flatMap ClientPacket.filters

/-- The message of a PUBLISH. -/
inductive Publishes : Outgoing → Fd → Message → Prop
  | publish {fd : Fd} {options : UInt8} {packet_id : UInt16} {name : Bytes}
      {message : MqttBinaryDataEntity} :
      Publishes (fd, .publish options packet_id name message) fd (name, message)

/-! ## What the service knows -/

/-- All messages in the state were sent, and all filters in it were asked for. -/
structure Known (S : Service) (sent : List Message) (asked : Fd → List Bytes) : Prop where
  will : ∀ {fd σ m}, S.Open fd σ → σ.will = some m → m ∈ sent
  retained : ∀ {name data}, S.retained name = some data → (name, data) ∈ sent
  held : ∀ {client_id topic data}, topic ∈ S.held client_id → topic.data = some data →
    (topic.name, data) ∈ sent
  filters : ∀ {fd σ f}, S.sessions fd = some σ → (σ.filters f).isSome → f ∈ asked fd

/-- What is published was sent, and asked for. -/
def Justified (sent : List Message) (asked : Fd → List Bytes) (out : List Outgoing) : Prop :=
  ∀ o ∈ out, ∀ fd m, Publishes o fd m →
    m ∈ sent ∧ ∃ f ∈ asked fd, Selects f m.1 ∨ TakesName f m.1

section justified

variable {sent : List Message} {asked : Fd → List Bytes} {out out' : List Outgoing}

theorem Justified.nil : Justified sent asked [] := fun _ ho => nomatch ho

/-- Outputs with their reasons, one behind the other. -/
theorem Justified.append (h : Justified sent asked out) (h' : Justified sent asked out') :
    Justified sent asked (out ++ out') :=
  List.forall_mem_append.mpr ⟨h, h'⟩

/-- A packet that publishes nothing needs no justification. -/
theorem Justified.packet {fd : Fd} {p : ServerPacket} (h : Justified sent asked out)
    (hp : ∀ m, ¬ Publishes (fd, p) fd m) : Justified sent asked ((fd, p) :: out) := by
  refine List.forall_mem_cons.mpr ⟨fun fd' m hm => ?_, h⟩
  cases hm
  exact (hp _ .publish).elim

/-- An answer is no message, so that it needs no reason. -/
theorem Justified.answer {fd : Fd} {p : ServerPacket} (h : Justified sent asked out)
    (hp : p.isAnswer = true) : Justified sent asked ((fd, p) :: out) := by
  refine h.packet fun m hm => ?_
  cases hm
  cases hp

/-- It is enough to look at one connection at a time. -/
theorem justified_iff : Justified sent asked out ↔ ∀ fd, ∀ p ∈ outTo fd out, ∀ m,
    Publishes (fd, p) fd m → m ∈ sent ∧ ∃ f ∈ asked fd, Selects f m.1 ∨ TakesName f m.1 := by
  constructor
  · intro h fd p hp m hm
    obtain ⟨o, ho, rfl⟩ := List.mem_map.mp hp
    obtain ⟨hout, hfd⟩ := List.mem_filter.mp ho
    obtain rfl : o.1 = fd := by simpa using hfd
    exact h o hout o.1 m hm
  · rintro h ⟨fd, p⟩ ho fd' m hm
    have hp : p ∈ outTo fd out := List.mem_map.mpr ⟨(fd, p), List.mem_filter.mpr ⟨ho, by simp⟩, rfl⟩
    cases hm
    exact h fd _ hp _ .publish

end justified

section steps

variable {S S' : Service} {sent : List Message} {asked : Fd → List Bytes} {fd : Fd} {σ σ' : Session}

theorem Known.mono {sent' : List Message} {asked' : Fd → List Bytes} (h : S.Known sent asked)
    (hsent : sent ⊆ sent') (hasked : ∀ fd, asked fd ⊆ asked' fd) : S.Known sent' asked' :=
  ⟨fun hopen hwill => hsent (h.will hopen hwill), fun hdata => hsent (h.retained hdata),
    fun htopic hdata => hsent (h.held htopic hdata), fun hσ hf => hasked _ (h.filters hσ hf)⟩

/-- Nothing comes into the state: what a session still has, it had before. -/
theorem Known.of_sessions (h : S.Known sent asked) (hretained : S'.retained = S.retained)
    (hheld : S'.held = S.held) (hending : S.ending ⊆ S'.ending)
    (hsessions : ∀ {fd σ'}, S'.sessions fd = some σ' → ∃ σ, S.sessions fd = some σ ∧
      σ'.will = σ.will ∧ σ'.filters = σ.filters) : S'.Known sent asked := by
  refine ⟨fun {fd σ' m} hopen hwill => ?_, fun hdata => h.retained (hretained ▸ hdata),
    fun htopic hdata => h.held (hheld ▸ htopic) hdata, fun {fd σ' f} hσ' hf => ?_⟩
  · obtain ⟨σ, hσ, hwill', -⟩ := hsessions hopen.1
    exact h.will ⟨hσ, fun hmem => hopen.2 (hending hmem)⟩ (hwill' ▸ hwill)
  · obtain ⟨σ, hσ, -, hfilters⟩ := hsessions hσ'
    exact h.filters hσ (hfilters ▸ hf)

/-- A session gets what it has asked for, and keeps its will and its filters. -/
theorem Session.Gets.keeps {name : Bytes} {data : Option MqttBinaryDataEntity}
    {ps : List ServerPacket} (h : σ.Gets name data σ' ps) :
    σ'.will = σ.will ∧ σ'.filters = σ.filters := by
  cases h with
  | nothing => exact ⟨rfl, rfl⟩
  | publish =>
    rw [Session.number]
    split <;> exact ⟨rfl, rfl⟩

/-- A topic that comes to all sessions is known and goes where it was asked for. -/
theorem Notifies.known {name : Bytes} {data : Option MqttBinaryDataEntity} {out : List Outgoing}
    (h : S.Known sent asked) (hmessage : ∀ message, data = some message → (name, message) ∈ sent)
    (hnotifies : S.Notifies name data out S') :
    S'.Known sent asked ∧ Justified sent asked out := by
  constructor
  · refine h.of_sessions (by rw [hnotifies.others]) (by rw [hnotifies.others])
      (by rw [hnotifies.others]; exact List.Subset.refl _) fun {fd σ'} hσ' => ?_
    -- what a session gets leaves its will and its filters
    cases hσ : S.sessions fd with
    | none => exact nomatch hσ'.symm.trans (hnotifies.absent fd hσ).1
    | some σ =>
      obtain ⟨σ'', hσ'', hgets⟩ := hnotifies.present fd σ hσ
      obtain rfl := Option.some.inj (hσ'.symm.trans hσ'')
      exact ⟨σ, rfl, hgets.keeps⟩
  · refine justified_iff.mpr fun fd p hp m hm => ?_
    cases hσ : S.sessions fd with
    | none =>
      rw [(hnotifies.absent fd hσ).2] at hp
      exact nomatch hp
    | some σ =>
      obtain ⟨σ', -, hgets⟩ := hnotifies.present fd σ hσ
      generalize outTo fd out = ps at hp hgets
      cases hgets with
      | nothing => exact nomatch hp
      | @publish f options message _ hf hselects hdata _ =>
        obtain rfl := List.mem_singleton.mp hp
        cases hm
        exact ⟨hmessage message hdata, f, h.filters hσ (by rw [hf]; rfl), .inl hselects⟩

/-- A will that is sent was known. -/
theorem SendsWill.known {will : Option Message} {out : List Outgoing} (h : S.Known sent asked)
    (hmessage : ∀ m, will = some m → m ∈ sent) (hwill : S.SendsWill will out S') :
    S'.Known sent asked ∧ Justified sent asked out := by
  cases hwill with
  | nothing => exact ⟨h, .nil⟩
  | @sent m _ _ hnotifies =>
    refine Notifies.known h (fun message hdata => ?_) hnotifies
    rw [← Option.some.inj hdata]
    exact hmessage m rfl

/-- Messages that are sent change neither will nor filters. -/
theorem Session.Sends.known {options : UInt8} {ms : List Message} {ps : List ServerPacket}
    (h : σ.Sends options ms σ' ps) (fd : Fd) : σ'.will = σ.will ∧ σ'.filters = σ.filters ∧
      ∀ p ∈ ps, ∀ m, Publishes (fd, p) fd m → m ∈ ms := by
  induction h with
  | nil => exact ⟨rfl, rfl, fun p hp => nomatch hp⟩
  | @cons σ σ' m ms ps _ _ ih =>
    obtain ⟨hwill, hfilters, hps⟩ := ih
    -- numbering a message is the only change
    have hnumber : (σ.number options).will = σ.will ∧ (σ.number options).filters = σ.filters := by
      rw [Session.number]
      split <;> exact ⟨rfl, rfl⟩
    refine ⟨hwill.trans hnumber.1, hfilters.trans hnumber.2, fun p hp m' hm' => ?_⟩
    obtain rfl | hp := List.mem_cons.mp hp
    · cases hm'
      exact .head _
    · exact .tail _ (hps p hp m' hm')

/-- What is sent for a record is retained and its filter takes the name. -/
theorem Session.SendsRetained.known {retained : Bytes → Option MqttBinaryDataEntity}
    {records : List (Bytes × UInt8)} {ps : List ServerPacket}
    (h : σ.SendsRetained retained records σ' ps) (fd : Fd) : σ'.will = σ.will ∧
      σ'.filters = σ.filters ∧ ∀ p ∈ ps, ∀ m, Publishes (fd, p) fd m →
        retained m.1 = some m.2 ∧ ∃ f ∈ records.map Prod.fst, TakesName f m.1 := by
  induction h with
  | nil => exact ⟨rfl, rfl, fun p hp => nomatch hp⟩
  | @cons σ σ₁ σ₂ record records ms ps ps' htakes hsends _ ih =>
    obtain ⟨hwill, hfilters, hps⟩ := ih
    obtain ⟨hwill₁, hfilters₁, hms⟩ := hsends.known fd
    refine ⟨hwill.trans hwill₁, hfilters.trans hfilters₁, fun p hp m hm => ?_⟩
    obtain hp | hp := List.mem_append.mp hp
    · obtain ⟨hretained, htaken⟩ := (htakes.2 m).mp (hms p hp m hm)
      exact ⟨hretained, record.1, .head _, htaken⟩
    · obtain ⟨hretained, f, hf, htaken⟩ := hps p hp m hm
      exact ⟨hretained, f, .tail _ hf, htaken⟩

/-! ## Packets -/

/-- A session may get a will that was sent, and filters that were asked for. -/
theorem Known.editTo {f : Session → Session} (h : S.Known sent asked)
    (hwill : ∀ σ, S.sessions fd = some σ → ∀ m, (f σ).will = some m →
      m ∈ sent ∨ σ.will = some m)
    (hfilters : ∀ σ, S.sessions fd = some σ → ∀ g, ((f σ).filters g).isSome →
      g ∈ asked fd ∨ (σ.filters g).isSome) :
    (S.edit fd f).Known sent asked := by
  have hedited : ∀ {σ'}, (S.edit fd f).sessions fd = some σ' →
      ∃ σ, S.sessions fd = some σ ∧ f σ = σ' := by
    intro σ' hσ'
    simpa only [Service.edit, Function.update_self, Option.map_eq_some_iff] using hσ'
  refine ⟨fun {fd' σ' m} hopen hm => ?_, h.retained, h.held, fun {fd' σ' g} hσ' hg => ?_⟩
  · -- the will of the edited session was there before, or is known
    by_cases hfd : fd' = fd
    · subst hfd
      obtain ⟨σ, hσ, rfl⟩ := hedited hopen.1
      obtain hnew | hold := hwill σ hσ m hm
      · exact hnew
      · exact h.will ⟨hσ, hopen.2⟩ hold
    · exact h.will ⟨(sessions_edit_ne hfd).symm.trans hopen.1, hopen.2⟩ hm
  · by_cases hfd : fd' = fd
    · subst hfd
      obtain ⟨σ, hσ, rfl⟩ := hedited hσ'
      obtain hnew | hold := hfilters σ hσ g hg
      · exact hnew
      · exact h.filters hσ hold
    · exact h.filters ((sessions_edit_ne hfd).symm.trans hσ') hg

/-- An edit that leaves the will and the filters keeps what is known. -/
theorem Known.edit {f : Session → Session} (h : S.Known sent asked)
    (hf : ∀ σ, (f σ).will = σ.will ∧ (f σ).filters = σ.filters) :
    (S.edit fd f).Known sent asked :=
  h.editTo (fun σ _ _ hm => .inr ((hf σ).1.symm.trans hm))
    fun σ _ _ hg => .inr ((hf σ).2 ▸ hg)

/-- The time of a packet says nothing new. -/
theorem Known.touch {now : Time} (h : S.Known sent asked) : (S.touch fd now).Known sent asked :=
  h.edit fun _ => ⟨rfl, rfl⟩

/-- A connection that is closed takes its session with it. -/
theorem Known.drop (h : S.Known sent asked) : (S.drop fd).Known sent asked := by
  refine h.of_sessions rfl rfl (List.Subset.refl _) fun {fd' σ'} hσ' => ⟨σ', ?_, rfl, rfl⟩
  by_cases hfd : fd' = fd
  · simp [Service.drop, hfd] at hσ'
  · exact (Function.update_of_ne hfd ..).symm.trans hσ'

/-- A connection that is to be closed sends no will any more. -/
theorem Known.finish (h : S.Known sent asked) : (S.finish fd).Known sent asked :=
  h.of_sessions rfl rfl (List.subset_append_left _ _) fun {_ σ'} hσ' => ⟨σ', hσ', rfl, rfl⟩

/-- A session keeps its will and filters when it takes an id. -/
theorem Known.takesId {clean : Bool} {id : Option Bytes} (h : S.Known sent asked)
    (htakes : S.TakesId fd σ clean id σ' S') : S'.Known sent asked := by
  cases htakes with
  | unused | generated => exact h.edit fun _ => ⟨rfl, rfl⟩
  | @takenOver id =>
    have hedit : (S.edit fd fun σ => { σ with client_id := id }).Known sent asked :=
      h.edit fun _ => ⟨rfl, rfl⟩
    exact hedit.drop

/-- A known message may be retained. -/
theorem Known.retain {m : Message} (h : S.Known sent asked) (retain : Bool) (hm : m ∈ sent) :
    (S.retain retain m).Known sent asked := by
  rw [Service.retain]
  split
  · refine ⟨h.will, fun {name data} hdata => ?_, h.held, h.filters⟩
    have hdata : Function.update S.retained m.1 (some m.2) name = some data := hdata
    by_cases hname : name = m.1
    · rw [hname, Function.update_self] at hdata
      rw [hname, ← Option.some.inj hdata]
      exact hm
    · rw [Function.update_of_ne hname] at hdata
      exact h.retained hdata
  · exact h

/-- A known message may be held. -/
theorem Known.hold {client_id : Bytes} {topic : MqttTopic} (h : S.Known sent asked)
    (htopic : ∀ data, topic.data = some data → (topic.name, data) ∈ sent) :
    (S.hold client_id topic).Known sent asked := by
  refine ⟨h.will, h.retained, fun {client_id' topic' data} hmem hdata => ?_, h.filters⟩
  by_cases hid : client_id' = client_id
  · subst hid
    have hmem : topic' ∈ topic :: S.held client_id' := by
      simpa only [Service.hold, Function.update_self] using hmem
    obtain rfl | hmem := List.mem_cons.mp hmem
    · exact htopic data hdata
    · exact h.held hmem hdata
  · simp only [Service.hold, Function.update_of_ne hid] at hmem
    exact h.held hmem hdata

/-- A message that is no longer held need not be known. -/
theorem Known.release {client_id : Bytes} {packet_id : UInt16} (h : S.Known sent asked) :
    (S.release client_id packet_id).Known sent asked := by
  refine ⟨h.will, h.retained, fun {client_id' topic data} hmem hdata => ?_, h.filters⟩
  by_cases hid : client_id' = client_id
  · subst hid
    simp only [Service.release, Function.update_self] at hmem
    exact h.held (List.mem_of_mem_eraseP hmem) hdata
  · simp only [Service.release, Function.update_of_ne hid] at hmem
    exact h.held hmem hdata

/-- A session that has its new will is known again when the will was sent. -/
theorem Known.setWill {will : Option Message} {alive : UInt16} (h : S.Known sent asked)
    (hwill : ∀ m, will = some m → m ∈ sent) :
    (S.edit fd fun σ => { σ with will, alive }).Known sent asked :=
  h.editTo (fun _ _ m hm => .inl (hwill m hm)) fun _ _ _ hg => .inr hg

/-- A connection that is to be closed may have any will, which is not sent. -/
theorem Known.finish_leftBy {f : Session → Session} (h : S.Known sent asked)
    (hf : ∀ σ : Session, σ.LeftBy (f σ)) : ((S.edit fd f).finish fd).Known sent asked := by
  refine ⟨fun {fd' σ' m} hopen hm => ?_, h.retained, h.held, fun {fd' σ' g} hσ' hg => ?_⟩
  · -- the session that is edited ends, so that its will does not count
    have hnot := fun hmem => hopen.2 (List.mem_append_left [fd] hmem)
    have hfd : fd' ≠ fd := fun heq => hopen.2 (List.mem_append_right _ (heq ▸ .head _))
    exact h.will ⟨(sessions_edit_ne hfd).symm.trans hopen.1, hnot⟩ hm
  · by_cases hfd : fd' = fd
    · subst hfd
      have hσ'' : (S.edit fd' f).sessions fd' = some σ' := hσ'
      simp only [Service.edit, Function.update_self, Option.map_eq_some_iff] at hσ''
      obtain ⟨σ, hσ, rfl⟩ := hσ''
      rw [hf σ] at hg
      exact h.filters hσ hg
    · exact h.filters ((sessions_edit_ne hfd).symm.trans hσ') hg

/-- A packet brings its own messages and filters into the state, and nothing else. -/
theorem Handles.known {p : ClientPacket} {queued written : List Outgoing} {keep : Bool}
    (h : S.Known sent asked) (hσ : S.sessions fd = some σ) (hsent : p.messages ⊆ sent)
    (hasked : p.filters ⊆ asked fd) (hhandles : S.Handles fd σ p queued written keep S') :
    (if keep then S' else S'.finish fd).Known sent asked ∧ Justified sent asked queued := by
  cases hhandles with
  | connect htakes =>
    refine ⟨(h.takesId htakes).setWill fun m hm => hsent ?_, Justified.nil.answer rfl⟩
    rw [ClientPacket.messages, hm]
    exact .head _
  | badConnect hid hleft =>
    -- the connection ends, so that its will is not sent any more
    refine ⟨Known.finish_leftBy ?_ hleft, .nil⟩
    obtain rfl | ⟨_, _, _, htakes⟩ := hid
    · exact h
    · exact h.takesId htakes
  | @publish qos retain packet_id m _ _ _ hnotifies =>
    have hm : m ∈ sent := hsent (.head _)
    obtain ⟨hknown, hjustified⟩ := Notifies.known (h.retain retain hm) (fun message hdata => by
      rw [← Option.some.inj hdata]
      exact hm) hnotifies
    refine ⟨hknown, ?_⟩
    split
    · exact hjustified.answer rfl
    · exact hjustified
  | @hold retain packet_id m =>
    -- nothing is published before the PUBREL
    have hm : m ∈ sent := hsent (.head _)
    refine ⟨(h.retain retain hm).hold fun data hdata => ?_, Justified.nil.answer rfl⟩
    rw [← Option.some.inj hdata]
    exact hm
  | puback | pubcomp => exact ⟨h, .nil⟩
  | disconnect | other => exact ⟨h.finish, .nil⟩
  | pubrec | unknown | pingreq => exact ⟨h, Justified.nil.answer rfl⟩
  | release htopic hnotifies =>
    obtain ⟨hknown, hjustified⟩ := Notifies.known h
      (fun message hdata => h.held (List.mem_of_find?_eq_some htopic) hdata) hnotifies
    exact ⟨hknown.release, hjustified.answer rfl⟩
  | @subscribe packet_id records σ' ps hsends =>
    obtain ⟨hwill, hfilters, hps⟩ := hsends.known fd
    refine ⟨h.editTo (fun σ₁ hσ₁ m hm => .inr ?_) fun σ₁ hσ₁ f hf => ?_,
      Justified.answer (justified_iff.mpr fun fd' p hp m hm => ?_) rfl⟩
    · obtain rfl := Option.some.inj (hσ.symm.trans hσ₁)
      exact hwill.symm.trans hm
    · obtain rfl := Option.some.inj (hσ.symm.trans hσ₁)
      simp only [hfilters, Session.subscribe, Session.filtersWith, Option.isSome_or,
        Bool.or_eq_true, Option.isSome_map, List.find?_isSome, decide_eq_true_eq] at hf
      -- a filter was there before or is one of the packet
      obtain hold | ⟨record, hrecord, rfl⟩ := hf
      · exact .inr hold
      · exact .inl (hasked (List.mem_map_of_mem hrecord))
    -- what is retained is published to this connection only
    · by_cases hfd : fd' = fd
      · subst hfd
        rw [outTo_self] at hp
        obtain ⟨hretained, f, hf, htaken⟩ := hps p hp m hm
        exact ⟨h.retained hretained, f, hasked hf, .inr htaken⟩
      · rw [outTo_ne hfd] at hp
        cases hp
  | @unsubscribe packet_id filters =>
    refine ⟨h.editTo (fun _ _ _ hm => .inr hm) fun _ _ f hf => .inr ?_, Justified.nil.answer rfl⟩
    simp only [Session.unsubscribe, Session.filtersWithout] at hf
    split at hf
    · cases hf
    · exact hf

end steps

/-! ## Whole runs -/

/-- The messages of a run with one label more. -/
theorem messagesIn_snoc (ls : List Label) (l : Label) : messagesIn (ls ++ [l]) =
    messagesIn ls ++ l.packet?.toList.flatMap fun p => p.2.messages := by
  rw [messagesIn, filterMap_packet_snoc, List.flatMap_append]
  rfl

/-- The filters a connection has asked for with one label more. -/
theorem askedOn_snoc (fd : Fd) (ls : List Label) (l : Label) : askedOn fd (ls ++ [l]) =
    if l.accepts fd then []
    else askedOn fd ls ++ (l.packetsFrom fd).flatMap ClientPacket.filters := by
  rw [askedOn, packetsOn_snoc]
  split
  · rfl
  · rw [List.flatMap_append]
    rfl

/-- What is known stays known when the step is no new connection. -/
theorem Known.later {S : Service} {ls : List Label} {l : Label}
    (h : S.Known (messagesIn ls) (askedOn · ls)) (haccepts : ∀ fd, l.accepts fd = false) :
    S.Known (messagesIn (ls ++ [l])) (askedOn · (ls ++ [l])) := by
  refine h.mono ?_ fun fd => ?_
  · rw [messagesIn_snoc]
    exact List.subset_append_left _ _
  · rw [askedOn_snoc, haccepts fd, if_neg Bool.false_ne_true]
    exact List.subset_append_left _ _

/-- A new connection has no will, and has asked for nothing. -/
theorem Known.accept {S : Service} {ls : List Label} {fd : Fd} {now : Time}
    (h : S.Known (messagesIn ls) (askedOn · ls)) :
    Known { S with sessions := Function.update S.sessions fd (some { last := now }) }
      (messagesIn (ls ++ [⟨.accept fd now, [], []⟩]))
      (askedOn · (ls ++ [⟨.accept fd now, [], []⟩])) := by
  have hmessages : messagesIn (ls ++ [⟨.accept fd now, [], []⟩]) = messagesIn ls := by
    rw [messagesIn_snoc]
    exact List.append_nil _
  rw [hmessages]
  refine ⟨fun {fd' σ m} hopen hm => ?_, h.retained, h.held, fun {fd' σ f} hσ hf => ?_⟩
  · have hσ : Function.update S.sessions fd (some { last := now }) fd' = some σ := hopen.1
    -- a new session has neither a will nor filters
    by_cases hfd : fd' = fd
    · rw [hfd, Function.update_self] at hσ
      rw [← Option.some.inj hσ] at hm
      exact nomatch hm
    · rw [Function.update_of_ne hfd] at hσ
      exact h.will ⟨hσ, hopen.2⟩ hm
  · have hσ : Function.update S.sessions fd (some { last := now }) fd' = some σ := hσ
    by_cases hfd : fd' = fd
    · rw [hfd, Function.update_self] at hσ
      rw [← Option.some.inj hσ] at hf
      exact nomatch hf
    · rw [Function.update_of_ne hfd] at hσ
      have haccepts : Label.accepts fd' ⟨.accept fd now, [], []⟩ = false :=
        decide_eq_false (Ne.symm hfd)
      rw [askedOn_snoc, haccepts, if_neg Bool.false_ne_true]
      exact List.mem_append_left _ (h.filters hσ hf)

/-- A packet brings its messages and its filters with it. -/
theorem Known.packet {S S' : Service} {ls : List Label} {l : Label} {fd : Fd} {σ : Session}
    {now : Time} {p : ClientPacket} {queued written : List Outgoing} {keep : Bool}
    (h : S.Known (messagesIn ls) (askedOn · ls)) (hopen : S.Open fd σ)
    (hhandles : (S.touch fd now).Handles fd { σ with last := now } p queued written keep S')
    (hl : l.action = .packet fd now p) :
    (if keep then S' else S'.finish fd).Known (messagesIn (ls ++ [l])) (askedOn · (ls ++ [l])) ∧
      Justified (messagesIn (ls ++ [l])) (askedOn · (ls ++ [l])) queued := by
  -- a packet is no beginning of a connection
  have haccepts : ∀ fd', l.accepts fd' = false := fun fd' => by rw [Label.accepts, hl]
  have hpackets : l.packetsFrom fd = [p] := by
    rw [Label.packetsFrom, hl]
    exact if_pos rfl
  refine Handles.known (h.later haccepts).touch (sessions_edit_self hopen.1) ?_ ?_ hhandles
  · have hp : l.packet? = some (fd, p) := by rw [Label.packet?, hl]
    rw [messagesIn_snoc, hp]
    exact fun m hm => List.mem_append_right _ (by simpa using hm)
  · rw [askedOn_snoc, haccepts, hpackets]
    exact fun f hf => List.mem_append_right _ (by simpa using hf)

/-- One step: what is in the state stays known, and what is published is justified. -/
theorem Step.known {S S' : Service} {ls : List Label} {l : Label} (hstep : S.Step l S')
    (h : S.Known (messagesIn ls) (askedOn · ls)) :
    S'.Known (messagesIn (ls ++ [l])) (askedOn · (ls ++ [l])) ∧
      Justified (messagesIn (ls ++ [l])) (askedOn · (ls ++ [l])) l.queued := by
  cases hstep with
  | accept => exact ⟨h.accept, .nil⟩
  | packet hopen hhandles | lastPacket hopen hhandles =>
    exact h.packet hopen hhandles rfl
  | @lost fd σ now out S₁ S₂ hopen hS₁ hwill =>
    have hlater := h.later (l := ⟨.lost fd now, out, []⟩) fun _ => rfl
    -- the time of the last packet may be noted before the will is sent
    have hfirst : S₁.Known (messagesIn (ls ++ [⟨.lost fd now, out, []⟩]))
        (askedOn · (ls ++ [⟨.lost fd now, out, []⟩])) := by
      rw [hS₁]
      cases now with
      | none => exact hlater
      | some now => exact hlater.touch
    obtain ⟨hknown, hjustified⟩ := SendsWill.known hfirst (fun m hm => hlater.will hopen hm) hwill
    exact ⟨hknown.finish, hjustified⟩
  | @short fd σ now =>
    have hlater := h.later (l := ⟨.short fd now, [], []⟩) fun _ => rfl
    exact ⟨hlater.touch.finish, .nil⟩
  | @timeout fd σ now out S' hopen _ hwill =>
    have hlater := h.later (l := ⟨.timeout fd now,
      (fd, .disconnect ReasonCode.keepAliveTimeout.code) :: out, []⟩) fun _ => rfl
    obtain ⟨hknown, hjustified⟩ := SendsWill.known hlater (fun m hm => hlater.will hopen hm) hwill
    exact ⟨hknown.finish, hjustified.packet nofun⟩
  | @close fd rest σ hending hσ =>
    have hlater : (S.drop fd).Known _ _ := (h.later (l := ⟨.close fd, [], []⟩) fun _ => rfl).drop
    refine ⟨⟨fun {fd' σ' m} hopen hm => ?_, hlater.retained, hlater.held, hlater.filters⟩, .nil⟩
    -- the closed connection is the one without a session
    have hfd : fd' ≠ fd := by
      rintro rfl
      exact nomatch (Function.update_self ..).symm.trans hopen.1
    refine hlater.will ⟨hopen.1, fun hmem => ?_⟩ hm
    have hmem : fd' ∈ S.ending := hmem
    rw [hending] at hmem
    exact hopen.2 ((List.mem_cons.mp hmem).resolve_left hfd)
  | silent => exact ⟨h.later fun _ => rfl, .nil⟩

/-- What is in the state was sent and asked for in the run before. -/
theorem known_of_run {ls : List Label} {S : Service} (h : machine.Run {} ls S) :
    S.Known (messagesIn ls) (askedOn · ls) :=
  h.preserves_labels (P := fun S ls => S.Known (messagesIn ls) (askedOn · ls))
    (fun hknown hstep => (Step.known hstep hknown).1)
    ⟨fun hopen => (nomatch hopen.1), fun hdata => (nomatch hdata), fun htopic => (nomatch htopic),
      fun hσ => (nomatch hσ)⟩

end Service

/-! ## The broker -/

end Mqtt.Spec
