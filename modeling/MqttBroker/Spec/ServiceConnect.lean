import MqttBroker.Spec.ServiceTables

/-!
# CONNECT of the service

A CONNECT sets its client in three places: the head before the id, the id itself, and the will
and the login behind it. Only the id shows in other sessions.
-/

namespace Mqtt.Spec

open Mqtt.Native Mqtt.Native.Broker

/-! ## What is set besides the id -/

/-- The members of a client that only the id of a CONNECT or other packets set. -/
def connectFrame (c : Client) : Bytes × Bool × UInt16 × UnorderedMap Bytes UInt8 × Time :=
  (c.client_id, c.id_was_random_generated, c.packet_id_gen, c.subscribed_topics,
    c.time_last_packet)

/-- A client is set up to its frame. -/
def Frames (pClient : ClientRef) (b b' : Broker) : Prop :=
  ∃ c : Client, connectFrame c = connectFrame (b.heap pClient) ∧ b' = b.setClient pClient c

namespace Frames

variable {pClient : ClientRef} {b b' b'' : Broker}

theorem refl (b : Broker) : Frames pClient b b := ⟨b.heap pClient, rfl, (setClient_heap b _).symm⟩

/-- Fields outside of the frame are set. -/
theorem of_setClient {c : Client} (h : connectFrame c = connectFrame (b.heap pClient)) :
    Frames pClient b (b.setClient pClient c) := ⟨c, h, rfl⟩

theorem trans (h : Frames pClient b b') (h' : Frames pClient b' b'') : Frames pClient b b'' := by
  obtain ⟨c, hc, rfl⟩ := h
  obtain ⟨c', hc', rfl⟩ := h'
  rw [heap_setClient_self] at hc'
  exact ⟨c', hc'.trans hc, setClient_setClient b pClient c c'⟩

end Frames

/-- `HandleConnectWill` sets fields of the will alone. -/
theorem handleConnectWill_frames {b b' : Broker} {pClient : ClientRef} {buf : Bytes}
    {offset offset' : Nat} {err : MqttErr}
    (h : b.handleConnectWill pClient buf offset = .ok (b', err, offset')) :
    Frames pClient b b' := by
  unfold handleConnectWill at h
  -- without the will flag nothing is set
  split at h
  · obtain ⟨created, -, h⟩ := Except.bind_eq_ok_iff.mp h
    dsimp only at h
    split at h
    · obtain ⟨rfl, -⟩ := Prod.mk.inj (Except.ok.inj h)
      exact .of_setClient rfl
    · obtain ⟨⟨will_topic_name, offset₁⟩, -, h⟩ := Except.bind_eq_ok_iff.mp h
      obtain ⟨data_len, -, h⟩ := Except.bind_eq_ok_iff.mp h
      obtain ⟨pMessage, -, h⟩ := Except.bind_eq_ok_iff.mp h
      obtain ⟨rfl, -⟩ := Prod.mk.inj (Except.ok.inj h)
      rw [setClient_setClient, heap_setClient_self]
      exact .of_setClient rfl
  · obtain ⟨rfl, -⟩ := Prod.mk.inj (Except.ok.inj h)
    exact .refl b

/-- `HandleConnectLogin` sets the user name and the password alone. -/
theorem handleConnectLogin_frames {b b' : Broker} {pClient : ClientRef} {buf : Bytes}
    {offset : Nat} {err : MqttErr}
    (h : b.handleConnectLogin pClient buf offset = .ok (b', err)) : Frames pClient b b' := by
  unfold handleConnectLogin at h
  -- the user name, and behind it the password, if the flags name them
  split at h
  · obtain ⟨⟨user_name, user_name_len⟩, -, h⟩ := Except.bind_eq_ok_iff.mp h
    dsimp only at h
    split at h
    · obtain ⟨rfl, -⟩ := Prod.mk.inj (Except.ok.inj h)
      exact .refl b
    · rw [heap_setClient_self] at h
      split at h
      · obtain ⟨⟨pwd, pwd_len⟩, -, h⟩ := Except.bind_eq_ok_iff.mp h
        dsimp only at h
        split at h
        · obtain ⟨rfl, -⟩ := Prod.mk.inj (Except.ok.inj h)
          exact .of_setClient rfl
        · obtain ⟨rfl, -⟩ := Prod.mk.inj (Except.ok.inj h)
          rw [setClient_setClient]
          exact .of_setClient rfl
      · obtain ⟨rfl, -⟩ := Prod.mk.inj (Except.ok.inj h)
        exact .of_setClient rfl
  · obtain ⟨rfl, -⟩ := Prod.mk.inj (Except.ok.inj h)
    exact .refl b

/-- The id of a CONNECT is read and accepted; what is set before and behind it keeps to the
    frame. -/
inductive Connects (b : Broker) (pClient : ClientRef) (buf random : Bytes) : Broker → Prop
  | identified {con_vh : ConnectVH} {id : Option Bytes} {offset : Nat} {b₂ b₃ b' : Broker} :
      ReadsId b pClient buf con_vh id offset → Frames pClient b b₂ →
      (b₂.heap pClient).flags = con_vh.conn_flags → Identified b₂ pClient random id b₃ →
      Frames pClient b₃ b' → Connects b pClient buf random b'

/-- `handleMqttConnect` refuses a CONNECT, or gives the client its id and then its will and
    login. -/
theorem handleMqttConnect_connects {b b' : Broker} {pClient : ClientRef} {buf random : Bytes}
    {err : MqttErr} (h : b.handleMqttConnect pClient buf random = .ok (b', err)) :
    (err ≠ .ok ∧ Frames pClient b b') ∨ Connects b pClient buf random b' := by
  unfold handleMqttConnect at h
  obtain ⟨⟨con_vh, offset⟩, hread, h⟩ := Except.bind_eq_ok_iff.mp h
  dsimp only at h
  split at h
  · obtain ⟨rfl, rfl⟩ := Prod.mk.inj (Except.ok.inj h)
    exact .inl ⟨by simp, .refl b⟩
  · rename_i hversion
    -- the version is 5; the properties have to be read
    obtain ⟨created, hcreated, h⟩ := Except.bind_eq_ok_iff.mp h
    rw [heap_setClient_self] at hcreated h
    rw [setClient_setClient] at h
    split at h
    · rename_i herr
      obtain ⟨rfl, rfl⟩ := Prod.mk.inj (Except.ok.inj h)
      exact .inl ⟨herr, .of_setClient rfl⟩
    · rename_i herr
      obtain ⟨⟨id, id_len⟩, hid, h⟩ := Except.bind_eq_ok_iff.mp h
      dsimp only at h
      generalize hb₂ : Broker.setClient b pClient _ = b₂ at h
      have hframes₂ : Frames pClient b b₂ := hb₂ ▸ .of_setClient rfl
      have hflags₂ : (b₂.heap pClient).flags = con_vh.conn_flags := by
        rw [← hb₂, heap_setClient_self]
      obtain ⟨⟨b₃, err₃⟩, hidentify, hrest⟩ := Except.bind_eq_ok_iff.mp h
      dsimp only at hrest
      obtain ⟨hne, rfl⟩ | ⟨rfl, hidentified⟩ := handleConnectId_effect hidentify
      · -- the id is that of another client, which stays
        rw [if_pos hne] at hrest
        obtain ⟨rfl, rfl⟩ := Prod.mk.inj (Except.ok.inj hrest)
        exact .inl ⟨hne, hframes₂⟩
      · rw [if_neg (by simp)] at hrest
        have hreads : ReadsId b pClient buf con_vh id _ := ⟨offset, created, id_len, hread,
          not_not.mp hversion, hcreated, not_not.mp herr, hid, rfl⟩
        refine .inr (.identified hreads hframes₂ hflags₂ hidentified ?_)
        -- the will and the login may still be refused, with the id already set
        obtain ⟨⟨b₄, err₄, offset₄⟩, hwill, hrest⟩ := Except.bind_eq_ok_iff.mp hrest
        have hframes₄ := handleConnectWill_frames hwill
        dsimp only at hrest
        split at hrest
        · obtain ⟨rfl, -⟩ := Prod.mk.inj (Except.ok.inj hrest)
          exact hframes₄
        · exact hframes₄.trans (handleConnectLogin_frames hrest)

/-! ## The id -/

section handlers

variable {b b' : Broker} (ending : List Fd) {fh : FixedHeader} {data random : Bytes} {fd : Fd}
  {ref : ClientRef} {err : MqttErr}

/-- Clients with the same frame have sessions that differ in will and keep alive. -/
theorem sessionOf_of_frame {c c' : Client} (h : connectFrame c' = connectFrame c)
    (subscribed : Bool) :
    sessionOf c' subscribed =
      { sessionOf c subscribed with will := willOf c', alive := c'.alive } := by
  simp only [connectFrame, Prod.mk.injEq] at h
  obtain ⟨hid, hgenerated, hnext, htopics, htime⟩ := h
  rw [sessionOf, sessionOf, hid, hgenerated, hnext, htopics, htime]

/-- A client that is set up to its frame has a session with another will and keep-alive. -/
theorem Frames.shows (h : ServiceInv b) (hclient : b.clients.lookup fd = some (some ref))
    (hframes : Frames ref b b') : Shows b ending [] b' ((serviceOf b ending).edit fd fun σ =>
      { σ with will := willOf (b'.heap ref), alive := (b'.heap ref).alive }) := by
  obtain ⟨c, hc, rfl⟩ := hframes
  refine .setClient h hclient fun subscribed => ?_
  rw [heap_setClient_self, sessionOf_of_frame hc]

/-- The client gets its id as its session does. -/
theorem Connects.shows (h : ServiceInv b) (hclient : b.clients.lookup fd = some (some ref))
    (subscribed : Bool) (hconnects : Connects b ref data random b') :
    ∃ con_vh id offset σ' S', ReadsId b ref data con_vh id offset ∧
      (serviceOf b ending).TakesId fd (sessionOf (b.heap ref) subscribed)
        (con_vh.conn_flags &&& 0x2 != 0) id σ' S' ∧
      σ'.client_id = (b'.heap ref).client_id ∧
      σ'.generated = (b'.heap ref).id_was_random_generated ∧
      Shows b ending [] b' (S'.edit fd fun σ =>
        { σ with will := willOf (b'.heap ref), alive := (b'.heap ref).alive }) := by
  obtain ⟨hread, ⟨c₂, hc₂, rfl⟩, hflags, hidentified, c', hc', rfl⟩ := hconnects
  rename_i con_vh id offset b₃
  rw [heap_setClient_self] at hflags ⊢
  have hclean : (con_vh.conn_flags &&& 0x2 != 0) = c₂.isCleanFlag := by
    rw [Client.isCleanFlag, hflags]
  have hfind : ∀ id, (b.setClient ref c₂).getClientFd id = b.getClientFd id :=
    getClientFd_congr rfl (heap_setClient_congr (f := Client.client_id) (congrArg Prod.fst hc₂))
  have hgenerated : c₂.id_was_random_generated = (b.heap ref).id_was_random_generated :=
    congrArg (fun frame => frame.2.1) hc₂
  -- the id comes between two changes of the will and the keep-alive
  have hset : ∀ {c₃ : Client} {f : Service.Session → Service.Session},
      connectFrame c' = connectFrame c₃ →
      (∀ subscribed, { sessionOf c₃ subscribed with will := willOf c', alive := c'.alive } =
        { f (sessionOf c₂ subscribed) with will := willOf c', alive := c'.alive }) →
      (∀ σ w a, f { σ with will := w, alive := a } = { f σ with will := w, alive := a }) →
      Shows b ending [] (b.setClient ref c') (((serviceOf b ending).edit fd f).edit fd fun σ =>
        { σ with will := willOf c', alive := c'.alive }) := by
    intro c₃ f hframe hid hcomm
    rw [Service.edit_edit]
    refine .setClient h hclient fun subscribed => ?_
    rw [sessionOf_of_frame hframe, hid, sessionOf_of_frame hc₂, hcomm]
  refine ⟨con_vh, id, offset, ?_⟩
  rw [hclean]
  cases hidentified with
  | @unused id hunused =>
    rw [heap_setClient_self, heap_setClient_self] at hc'
    rw [hfind] at hunused
    rw [setClient_setClient, setClient_setClient]
    refine ⟨_, _, hread, .unused ?_, (congrArg Prod.fst hc').symm, ?_,
      hset hc' (fun _ => rfl) fun _ _ _ => rfl⟩
    · -- no socket is negative, so nobody has the id
      obtain ⟨-, hunused⟩ | ⟨ref', hneg, -⟩ := getClientFd_eq_ok hunused
      · intro fd' σ' hσ' hsame
        obtain ⟨ref', href', rfl⟩ := lookup_of_sessions hσ'
        exact hunused ⟨fd', ref', href', hsame⟩
      · exact absurd (h.positive _ _ hneg) (by decide)
    · exact ((congrArg (fun frame => frame.2.1) hc').trans hgenerated).symm
  | @takenOver id check_fd hused hne hclean' =>
    rw [heap_setClient_self, heap_setClient_self] at hc'
    rw [hfind] at hused
    rw [heap_setClient_self] at hclean'
    -- the broker closes the other connection first and the service drops it last
    obtain ⟨hminus, -⟩ | ⟨ref', href', hid'⟩ := getClientFd_eq_ok hused
    · exact absurd hminus hne
    · have hother : (serviceOf b ending).sessions _ = some _ := sessions_of_lookup href'
      have hclosed := hset (f := fun σ => { σ with client_id := id }) hc' (fun _ => rfl)
        fun _ _ _ => rfl
      have hall := hclosed.trans (.closeConnection hclosed.inv check_fd)
      rw [hclosed.shows, ← Service.drop_edit] at hall
      -- closing it leaves the objects of the clients alone
      have hbroker : (((b.setClient ref c₂).closeConnection check_fd).setClient ref
          { (b.setClient ref c₂).heap ref with client_id := id }).setClient ref c' =
            (b.setClient ref c').closeConnection check_fd := by
        rw [setClient_setClient]
        exact congrArg (fun b => Broker.closeConnection b check_fd) (setClient_setClient b ref c₂ c')
      rw [hbroker]
      exact ⟨_, _, hread, .takenOver hother hid' hclean', (congrArg Prod.fst hc').symm,
        ((congrArg (fun frame => frame.2.1) hc').trans hgenerated).symm, hall⟩
  | generated =>
    rw [heap_setClient_self, heap_setClient_self] at hc'
    rw [setClient_setClient, setClient_setClient]
    exact ⟨_, _, hread, .generated, (congrArg Prod.fst hc').symm,
      (congrArg (fun frame => frame.2.1) hc').symm, hset hc' (fun _ => rfl) fun _ _ _ => rfl⟩

/-! ## The handlers -/

/-- The CONNACK for a client is the one for its session. -/
theorem connack_eq {σ : Service.Session} {c : Client} (hid : σ.client_id = c.client_id)
    (hgenerated : σ.generated = c.id_was_random_generated) :
    σ.connack c.isCleanFlag = .connack (if c.isCleanFlag then 0 else 1) ReasonCode.success.code
      (connackProperties c) := by
  rw [Service.Session.connack, hid, hgenerated]
  rfl

/-- A CONNECT is accepted. -/
theorem connectHandler_shows (h : ServiceInv b) (subscribed : Bool)
    (htype : fh.getType = PackType.CONNECT.code) (hclient : b.clients.lookup fd = some (some ref))
    (hpacket : b.connectHandler data fd random = .ok (b', .ok)) :
    ServedAs b ending fd (sessionOf (b.heap ref) subscribed) fh data b' .ok := by
  rw [connectHandler, clientAt_eq hclient] at hpacket
  obtain ⟨⟨b₁, handle_stat⟩, hhandle, hpacket⟩ := Except.bind_eq_ok_iff.mp hpacket
  dsimp only at hpacket
  split at hpacket
  · rename_i hne
    exact absurd (Prod.mk.inj (Except.ok.inj hpacket)).2 hne
  · rename_i hok
    rw [not_not.mp hok] at hhandle
    obtain ⟨answer, hcreate, hresult⟩ := Except.bind_eq_ok_iff.mp hpacket
    obtain ⟨rfl, -⟩ := Prod.mk.inj (Except.ok.inj hresult)
    obtain ⟨hne, -⟩ | hconnects := handleMqttConnect_connects hhandle
    · exact absurd rfl hne
    obtain ⟨con_vh, id, offset, σ', S', hread, htakes, hid, hgenerated, hshows⟩ :=
      hconnects.shows ending h hclient subscribed
    obtain ⟨⟨con_vh', offset', hvh', hflags, halive⟩, -, hwill⟩ := handleMqttConnect_sets hhandle
    -- the header is read once
    have hfirst := hread
    obtain ⟨offset₁, _, _, hvh, -⟩ := hfirst
    obtain ⟨rfl, -⟩ := Prod.mk.inj (Except.ok.inj (hvh.symm.trans hvh'))
    have hclean : (con_vh.conn_flags &&& 0x2 != 0) = (b₁.heap ref).isCleanFlag := by
      rw [Client.isCleanFlag, hflags]
    -- the answer tells the session as it is behind the change of the id
    have hconnack : answer = (σ'.connack (con_vh.conn_flags &&& 0x2 != 0)).encode := by
      rw [hclean, connack_eq hid hgenerated]
      exact createMqttPacket_connack hcreate
    have hunderstood : Understood fh data (.connect id (con_vh.conn_flags &&& 0x2 != 0)
        (b₁.heap ref).alive (willOf (b₁.heap ref))) := by
      refine ⟨htype, b, ref, con_vh, offset, hread, rfl, halive, ?_⟩
      rw [willOf]
      -- only with its flag the will has been read
      by_cases hflag : (b₁.heap ref).isWillFlag
      · have hin := hwill hflag
        rw [if_pos hflag]
        obtain ⟨_, _, _, _, _, _, _, -, -, -, -, -, htopic⟩ := hwill hflag
        rw [htopic] at hin ⊢
        exact ⟨_, hin, rfl⟩
      · rw [if_neg hflag]
        rw [Client.isWillFlag, hflags] at hflag
        simpa using hflag
    exact ⟨rfl, _, _, _, hunderstood, .connect htakes,
      hshows.trans (hshows.shows ▸ .addCommand hshows.inv fd hconnack)⟩

/-- A CONNECT may set the will and the keep alive. -/
theorem leftBy_sets (will : Option Message) (alive : UInt16) (σ : Service.Session) :
    σ.LeftBy { σ with will, alive } := rfl

/-- An error is answered by a CONNACK or not at all. -/
theorem errorAnswer_cases (fd : Fd) (err : MqttErr) : errorAnswer fd err = [] ∨
    ∃ reason_code, errorAnswer fd err = [(fd, .connack 0 reason_code OrderedSet.empty)] := by
  cases err with
  | protocolVersionErr | duplicateClientId => exact .inr ⟨_, rfl⟩
  | _ => exact .inl rfl

/-- A CONNECT is refused. -/
theorem connectHandler_refused (h : ServiceInv b) (subscribed : Bool)
    (htype : fh.getType = PackType.CONNECT.code) (hclient : b.clients.lookup fd = some (some ref))
    (hpacket : b.connectHandler data fd random = .ok (b', err)) (hne : err ≠ .ok) :
    RefusedAs b ending fd (sessionOf (b.heap ref) subscribed) fh data b' err := by
  rw [connectHandler, clientAt_eq hclient] at hpacket
  obtain ⟨⟨b₁, handle_stat⟩, hhandle, hpacket⟩ := Except.bind_eq_ok_iff.mp hpacket
  dsimp only at hpacket
  split at hpacket
  · obtain ⟨rfl, rfl⟩ := Prod.mk.inj (Except.ok.inj hpacket)
    -- refused before or behind the id
    obtain ⟨-, hframes⟩ | hconnects := handleMqttConnect_connects hhandle
    · exact ⟨hne, .badConnect, _, htype,
        .badConnect (.inl rfl) (leftBy_sets _ _) (errorAnswer_cases fd _),
        hframes.shows ending h hclient⟩
    · obtain ⟨_, _, _, _, _, -, htakes, -, -, hshows⟩ :=
        hconnects.shows ending h hclient subscribed
      exact ⟨hne, .badConnect, _, htype,
        .badConnect (.inr ⟨_, _, _, htakes⟩) (leftBy_sets _ _) (errorAnswer_cases fd _), hshows⟩
  · obtain ⟨answer, -, hresult⟩ := Except.bind_eq_ok_iff.mp hpacket
    exact absurd (Prod.mk.inj (Except.ok.inj hresult)).2.symm hne

/-- A DISCONNECT ends its connection. -/
theorem disconnectHandler_shows {σ : Service.Session} (h : ServiceInv b)
    (htype : fh.getType = PackType.DISCONNECT.code)
    (hclient : b.clients.lookup fd = some (some ref))
    (hpacket : b.disconnectHandler fh data fd = .ok (b', err)) :
    RefusedAs b ending fd σ fh data b' err := by
  have hresult : b' = b ∧ err = .disconnect := by
    rw [disconnectHandler, derefAt_eq hclient, Except.ok_bind] at hpacket
    dsimp only at hpacket
    split at hpacket
    · obtain ⟨code, -, hresult⟩ := Except.bind_eq_ok_iff.mp hpacket
      obtain ⟨rfl, rfl⟩ := Prod.mk.inj (Except.ok.inj hresult)
      exact ⟨rfl, rfl⟩
    · obtain ⟨rfl, rfl⟩ := Prod.mk.inj (Except.ok.inj hpacket)
      exact ⟨rfl, rfl⟩
  obtain ⟨rfl, rfl⟩ := hresult
  exact ⟨by decide, .disconnect, _, htype, .disconnect, .refl h⟩

/-- Whatever packet is handled, the broker does what the service does with it. -/
theorem handlePacket_shows (h : ServiceInv b) (hclient : b.clients.lookup fd = some (some ref))
    (hpacket : b.handlePacket fh data fd random = .ok (b', err)) :
    let σ := sessionOf (b.heap ref) (b.subscribed_clients.lookup fd).isSome
    ServedAs b ending fd σ fh data b' err ∨ RefusedAs b ending fd σ fh data b' err := by
  intro σ
  unfold handlePacket at hpacket
  dsimp only at hpacket
  -- one case for each type, in the order of the handlers
  by_cases hpublish : fh.getType = PackType.PUBLISH.code
  · rw [if_pos hpublish] at hpacket
    exact .inl (publishHandler_shows ending h hpublish hclient hpacket)
  rw [if_neg hpublish] at hpacket
  by_cases hpuback : fh.getType = PackType.PUBACK.code
  · rw [if_pos hpuback] at hpacket
    exact .inl (pubackHandler_shows ending h hpuback hclient hpacket)
  rw [if_neg hpuback] at hpacket
  by_cases hpubrel : fh.getType = PackType.PUBREL.code
  · rw [if_pos hpubrel] at hpacket
    exact .inl (pubrelHandler_shows ending h hpubrel hclient hpacket)
  rw [if_neg hpubrel] at hpacket
  by_cases hpubrec : fh.getType = PackType.PUBREC.code
  · rw [if_pos hpubrec] at hpacket
    exact .inl (pubrecHandler_shows ending h hpubrec hclient hpacket)
  rw [if_neg hpubrec] at hpacket
  by_cases hpubcomp : fh.getType = PackType.PUBCOMP.code
  · rw [if_pos hpubcomp] at hpacket
    exact .inl (pubcompHandler_shows ending h hpubcomp hclient hpacket)
  rw [if_neg hpubcomp] at hpacket
  by_cases hping : fh.getType = PackType.PINGREQ.code
  · rw [if_pos hping] at hpacket
    exact .inl (pingHandler_shows ending h hping hclient hpacket)
  rw [if_neg hping] at hpacket
  by_cases hsubscribe : fh.getType = PackType.SUBSCRIBE.code
  · rw [if_pos hsubscribe] at hpacket
    exact .inl (subscribeHandler_shows ending h hsubscribe hclient hpacket)
  rw [if_neg hsubscribe] at hpacket
  by_cases hdisconnect : fh.getType = PackType.DISCONNECT.code
  · rw [if_pos hdisconnect] at hpacket
    exact .inr (disconnectHandler_shows ending h hdisconnect hclient hpacket)
  rw [if_neg hdisconnect] at hpacket
  by_cases hunsubscribe : fh.getType = PackType.UNSUBSCRIBE.code
  · rw [if_pos hunsubscribe] at hpacket
    exact .inl (unsubscribeHandler_shows ending h hunsubscribe hclient hpacket)
  rw [if_neg hunsubscribe] at hpacket
  by_cases hconnect : fh.getType = PackType.CONNECT.code
  · rw [if_pos hconnect] at hpacket
    by_cases herr : err = .ok
    · subst herr
      exact .inl (connectHandler_shows ending h _ hconnect hclient hpacket)
    · exact .inr (connectHandler_refused ending h _ hconnect hclient hpacket herr)
  rw [if_neg hconnect] at hpacket
  -- nobody handles the packet
  obtain ⟨rfl, rfl⟩ := Prod.mk.inj (Except.ok.inj hpacket)
  refine .inr ⟨by decide, .other, _, ?_, .other, .refl h⟩
  simp only [Understood, handledTypes, List.forall_mem_cons]
  exact ⟨hpublish, hpuback, hpubrel, hpubrec, hpubcomp, hping, hsubscribe, hdisconnect,
    hunsubscribe, hconnect, List.forall_mem_nil _⟩

end handlers

end Mqtt.Spec
