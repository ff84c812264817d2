import MqttBroker.Spec.ClientIds

/-!
# Rejected CONNECTs

A CONNECT that is rejected should leave the other clients alone. The takeover of an
older connection comes before the will, the user name and the password are looked
at, so a CONNECT that is refused for one of these has already closed it.
-/

namespace Mqtt.Spec

open Mqtt.Native Mqtt.Native.Broker

/-- The client of a socket is still there, as it was. -/
structure Unharmed (b b' : Broker) (fd : Fd) (ref : ClientRef) : Prop where
  connected : b'.clients.lookup fd = some (some ref)
  client_id : (b'.heap ref).client_id = (b.heap ref).client_id
  flags : (b'.heap ref).flags = (b.heap ref).flags
  subscribed_topics : (b'.heap ref).subscribed_topics = (b.heap ref).subscribed_topics
  will_topic : (b'.heap ref).will_topic = (b.heap ref).will_topic
  will_properties : (b'.heap ref).will_properties = (b.heap ref).will_properties
  subscribed_client : b'.subscribed_clients.lookup fd = b.subscribed_clients.lookup fd

/-- If `HandleMqttConnect` returns an error, every other client is still there, as it
    was. -/
def Harmless (b : Broker) (fd : Fd) (pClient : ClientRef) (buf random : Bytes) : Prop :=
  ∀ b' err, b.handleMqttConnect pClient buf random = .ok (b', err) → err ≠ .ok →
    ∀ fd' ref, fd' ≠ fd → b.clients.lookup fd' = some (some ref) → Unharmed b b' fd' ref

/-- The CONNECT asks for a clean start with the id of another connection, and its will
    properties, its user name or its password is refused. -/
def RefusedAfterTakeover (b : Broker) (fd : Fd) (pClient : ClientRef) (buf : Bytes) : Prop :=
  ∃ con_vh id offset check_fd, ReadsId b pClient buf con_vh (some id) offset ∧
    con_vh.conn_flags &&& 0x2 ≠ 0 ∧ b.getClientFd id = .ok check_fd ∧ check_fd ≠ -1 ∧
    check_fd ≠ fd ∧ RefusedLater { b.heap pClient with flags := con_vh.conn_flags } buf offset

/-! ## Without a takeover -/

/-- A client whose object and entries are as they were is unharmed. -/
theorem unharmed_of_eq_heap {b b' : Broker} {fd : Fd} {ref : ClientRef}
    (hclient : b'.clients.lookup fd = some (some ref)) (hheap : b'.heap ref = b.heap ref)
    (hsub : b'.subscribed_clients.lookup fd = b.subscribed_clients.lookup fd) :
    Unharmed b b' fd ref := by
  constructor
  · exact hclient
  all_goals first | rw [hheap] | exact hsub

/-- Editing a client changes no subscriber. -/
theorem Edits.subscribed_clients {pClient : ClientRef} {b b' : Broker} (h : Edits pClient b b') :
    b'.subscribed_clients = b.subscribed_clients := by rw [h.eq_heap]

/-- The client id concerns the sender and the connection that is taken over. -/
theorem Identified.others {b b' : Broker} {pClient : ClientRef} {random : Bytes}
    {id : Option Bytes} (h : Identified b pClient random id b') {fd : Fd} {ref : ClientRef}
    (hclient : b.clients.lookup fd = some (some ref)) (href : ref ≠ pClient)
    (hfd : ∀ id' check_fd, id = some id' → b.getClientFd id' = .ok check_fd → check_fd ≠ -1 →
      (b.heap pClient).isCleanFlag → fd ≠ check_fd) : Unharmed b b' fd ref := by
  cases h with
  | unused | generated => exact unharmed_of_eq_heap hclient (heap_setClient_ne href) rfl
  | @takenOver id' check_fd hcheck hne hclean =>
    have hother := hfd id' check_fd rfl hcheck hne hclean
    refine unharmed_of_eq_heap ?_ (heap_setClient_ne href) ?_
    · exact (AList.lookup_erase_ne hother).trans hclient
    · exact AList.lookup_erase_ne hother

/-- A CONNECT that is not refused behind a takeover harms no other client. -/
theorem harmless_of_not_refused {b : Broker} {fd : Fd} {pClient : ClientRef} {buf random : Bytes}
    (hown : OwnClients b) (hclient : b.clients.lookup fd = some (some pClient))
    (hnot : ¬ RefusedAfterTakeover b fd pClient buf) : Harmless b fd pClient buf random := by
  intro b' err h herr fd' ref hfd hother
  -- the other client is another object than the sender
  have href : ref ≠ pClient := by
    rintro rfl
    exact hfd (hown.inj hother hclient)
  cases handleMqttConnect_effect h with
  | refused _ hedits =>
    exact unharmed_of_eq_heap (by rw [hedits.clients]; exact hother) (hedits.heap_ne href)
      (by rw [hedits.subscribed_clients])
  | @identified con_vh id offset b₂ b₃ _ _ hreads hedits hflags hidentified hedits' _ hlater =>
    have hother₂ : b₂.clients.lookup fd' = some (some ref) := by rw [hedits.clients]; exact hother
    -- a connection that is closed for the id would be one of a takeover
    have hothers := hidentified.others hother₂ href (fun id' check_fd hid hcheck hne hclean heq => by
      subst hid heq
      rw [getClientFd_congr hedits.clients hedits.client_id] at hcheck
      refine hnot ⟨con_vh, id', offset, fd', hreads, ?_, hcheck, hne, hfd, hlater herr⟩
      simpa [Client.isCleanFlag, hflags] using hclean)
    have hheap : b'.heap ref = b₃.heap ref := hedits'.heap_ne href
    have hheap₂ : b₂.heap ref = b.heap ref := hedits.heap_ne href
    exact {
      connected := by rw [hedits'.clients]; exact hothers.connected
      client_id := by rw [hheap, hothers.client_id, hheap₂]
      flags := by rw [hheap, hothers.flags, hheap₂]
      subscribed_topics := by rw [hheap, hothers.subscribed_topics, hheap₂]
      will_topic := by rw [hheap, hothers.will_topic, hheap₂]
      will_properties := by rw [hheap, hothers.will_properties, hheap₂]
      subscribed_client := by
        rw [hedits'.subscribed_clients, hothers.subscribed_client, hedits.subscribed_clients] }

/-! ## With a takeover -/

/-- Will properties that do not parse are answered with an error. -/
theorem handleConnectWill_of_refused {b : Broker} {pClient : ClientRef} {buf : Bytes}
    {offset : Nat} (h : WillRefused (b.heap pClient) buf offset) :
    ∃ b' err offset', b.handleConnectWill pClient buf offset = .ok (b', err, offset') ∧
      err ≠ .ok := by
  obtain ⟨hwill, created, hcreated, herr⟩ := h
  rw [handleConnectWill, if_pos hwill, hcreated, Except.ok_bind]
  dsimp only
  rw [if_pos herr]
  exact ⟨_, created.err, offset, rfl, herr⟩

/-- A will that parses is read to its end. -/
theorem handleConnectWill_of_ends {b : Broker} {pClient : ClientRef} {buf : Bytes}
    {offset offset' : Nat} (h : WillEnds (b.heap pClient) buf offset offset') :
    ∃ b', b.handleConnectWill pClient buf offset = .ok (b', .ok, offset') := by
  unfold WillEnds at h
  split at h
  · rename_i hwill
    -- each of its parts is read
    obtain ⟨created, will_topic_name, offset₁, data_len, pMessage, hcreated, herr, hname, hlen,
      hmessage, rfl⟩ := h
    rw [handleConnectWill, if_pos hwill, hcreated, Except.ok_bind]
    dsimp only
    rw [if_neg (not_not.mpr herr), hname, Except.ok_bind]
    dsimp only
    rw [hlen, Except.ok_bind, hmessage]
    exact ⟨_, rfl⟩
  · rename_i hwill
    subst h
    refine ⟨b, ?_⟩
    rw [handleConnectWill, if_neg hwill]
    rfl

/-- A name or a password that is refused is answered with an error. -/
theorem handleConnectLogin_of_refused {b : Broker} {pClient : ClientRef} {buf : Bytes}
    {offset : Nat} (h : LoginRefused (b.heap pClient) buf offset) :
    ∃ b' err, b.handleConnectLogin pClient buf offset = .ok (b', err) ∧ err ≠ .ok := by
  obtain ⟨huser, user_name, user_name_len, hname, hcase⟩ := h
  rw [handleConnectLogin, if_pos huser, hname, Except.ok_bind]
  dsimp only
  cases user_name with
  | none => exact ⟨b, .userNameErr, rfl, by decide⟩
  | some name =>
    obtain hnone | ⟨hpwd, pwd_len, hread⟩ := hcase
    · simp at hnone
    · have hpwd' : Client.isPwdFlag { b.heap pClient with user_name := some name } = true := hpwd
      rw [if_neg (by simp), heap_setClient_self, if_pos hpwd', hread]
      exact ⟨_, .authFail, rfl, by decide⟩

/-- The rejected CONNECT has closed the connection with its id. -/
theorem handleMqttConnect_of_refused {b : Broker} {fd : Fd} {pClient : ClientRef}
    {buf : Bytes} (random : Bytes) (h : RefusedAfterTakeover b fd pClient buf) :
    ∃ b' err check_fd ref, b.handleMqttConnect pClient buf random = .ok (b', err) ∧ err ≠ .ok ∧
      check_fd ≠ fd ∧ b.clients.lookup check_fd = some (some ref) ∧
      b'.clients.lookup check_fd = none := by
  obtain ⟨con_vh, id, offset, check_fd, hreads, hclean, hcheck, hne, hother, hlater⟩ := h
  obtain ⟨offset₁, created, id_len, hread, hversion, hcreated, herr, hid, rfl⟩ := hreads
  obtain ⟨ref, href, -⟩ := (getClientFd_eq_ok hcheck).resolve_left fun h => hne h.1
  -- the broker before the client id
  generalize hb₂ : b.setClient pClient { b.heap pClient with
    mqtt_version := con_vh.version
    alive := con_vh.alive
    flags := con_vh.conn_flags
    conn_properties := created.chain } = b₂
  have hedits : Edits pClient b b₂ := hb₂ ▸ .of_setClient rfl
  have hflags : (b₂.heap pClient).flags = con_vh.conn_flags := by rw [← hb₂, heap_setClient_self]
  have hwill : (b₂.heap pClient).will_properties = (b.heap pClient).will_properties := by
    rw [← hb₂, heap_setClient_self]
  -- the broker behind it
  generalize hb₃ : (b₂.closeConnection check_fd).setClient pClient
    { b₂.heap pClient with client_id := id } = b₃
  have hidentify : b₂.handleConnectId pClient (some id) random = .ok (b₃, .ok) := by
    rw [← getClientFd_congr hedits.clients hedits.client_id] at hcheck
    have hclean₂ : (b₂.heap pClient).isCleanFlag = true := by
      simpa [Client.isCleanFlag, hflags] using hclean
    rw [handleConnectId, hcheck, Except.ok_bind, if_pos hne, if_pos hclean₂, ← hb₃]
    rfl
  have hflags₃ : (b₃.heap pClient).flags = con_vh.conn_flags := by
    rw [← hb₃, heap_setClient_self]
    exact hflags
  have hwill₃ : (b₃.heap pClient).will_properties = (b.heap pClient).will_properties := by
    rw [← hb₃, heap_setClient_self]
    exact hwill
  have hgone : b₃.clients.lookup check_fd = none := by
    rw [← hb₃]
    exact AList.lookup_erase check_fd b₂.clients
  have hlater₃ : RefusedLater (b₃.heap pClient) buf
      (if id_len ≠ 0 then offset₁ + created.size + id_len else offset₁ + created.size + 2) := by
    refine (refusedLater_congr ?_ ?_ _ _).mpr hlater
    · exact hflags₃
    · exact hwill₃
  have hstart : ∀ result,
      (b₃.handleConnectWill pClient buf
          (if id_len ≠ 0 then offset₁ + created.size + id_len else offset₁ + created.size + 2) >>=
        fun r => if r.2.1 ≠ .ok then pure (r.1, r.2.1)
          else r.1.handleConnectLogin pClient buf r.2.2) = .ok result →
      b.handleMqttConnect pClient buf random = .ok result := by
    intro result hresult
    rw [handleMqttConnect_eq hread hversion hcreated herr hid, hb₂, hidentify, Except.ok_bind]
    exact hresult
  -- refused for the will, or behind it for the login
  obtain hrefused | ⟨offset', hends, hlogin⟩ := hlater₃
  · obtain ⟨b', err, offset', heq, hne'⟩ := handleConnectWill_of_refused hrefused
    refine ⟨b', err, check_fd, ref, hstart _ ?_, hne', hother, href, ?_⟩
    · rw [heq, Except.ok_bind]
      dsimp only
      rw [if_pos hne']
      rfl
    · rw [(handleConnectWill_effect heq).1.clients]
      exact hgone
  · obtain ⟨b₄, heq⟩ := handleConnectWill_of_ends hends
    obtain ⟨hedits₄, hflags₄, -⟩ := handleConnectWill_effect heq
    have hlogin₄ : LoginRefused (b₄.heap pClient) buf offset' := by
      simpa only [LoginRefused, Client.isUserNameFlag, Client.isPwdFlag, hflags₄] using hlogin
    obtain ⟨b', err, heq', hne'⟩ := handleConnectLogin_of_refused hlogin₄
    refine ⟨b', err, check_fd, ref, hstart _ ?_, hne', hother, href, ?_⟩
    · rw [heq, Except.ok_bind]
      exact heq'
    · rw [(handleConnectLogin_effect heq').1.clients, hedits₄.clients]
      exact hgone

/-- In a reachable state a rejected CONNECT leaves every other client alone exactly
    when it is not refused behind a takeover. -/
theorem rejected_connect_harmless_iff {s : ServerThread} (h : system.Reachable s) {fd : Fd}
    {pClient : ClientRef} (hclient : s.broker.clients.lookup fd = some (some pClient))
    (buf random : Bytes) :
    Harmless s.broker fd pClient buf random ↔ ¬ RefusedAfterTakeover s.broker fd pClient buf := by
  constructor
  · intro hharmless hrefused
    obtain ⟨b', err, check_fd, ref, heq, hne, hother, href, hgone⟩ :=
      handleMqttConnect_of_refused random hrefused
    have hconnected := (hharmless b' err heq hne check_fd ref hother href).connected
    rw [hgone] at hconnected
    simp at hconnected
  · exact harmless_of_not_refused (ownClients_of_reachable h) hclient

/-- A CONNECT with the id `a`, the flags Clean Start and User Name, and an empty user
    name. -/
def emptyUserName : Bytes :=
  [0, 4, 0x4D, 0x51, 0x54, 0x54, 5, 0x82, 0, 60, 0, 0, 1, 0x61, 0, 0]

/-- The clients on the sockets 5 and 6 have connected, the one on socket 5 with the
    id `a`. The client on socket 6 sends another CONNECT with this id: it is refused for
    its empty user name, and the client on socket 5 is gone. -/
theorem rejected_connect_closes_other :
    ∃ s, system.Reachable s ∧ s.broker.clients.lookup 6 = some (some 1) ∧
      s.broker.clients.lookup 5 = some (some 0) ∧
      (∃ b', s.broker.handleMqttConnect 1 emptyUserName [] = .ok (b', .userNameErr) ∧
        b'.clients.lookup 5 = none) ∧
      ¬ Harmless s.broker 6 1 emptyUserName [] := by
  have hrun : (connectTwo.foldlM systemStep
      { broker := { control_sock := 4 }, pc := .returned }).map
        (fun s => (s.broker.clients.lookup 6, s.broker.clients.lookup 5,
          (s.broker.handleMqttConnect 1 emptyUserName []).toOption.map fun r =>
            (r.2, r.1.clients.lookup 5))) =
        some (some (some 1), some (some 0), some (.userNameErr, none)) := by
    decide +kernel
  obtain ⟨s, hs, hfinal⟩ := Option.map_eq_some_iff.mp hrun
  simp only [Prod.mk.injEq, Option.map_eq_some_iff] at hfinal
  obtain ⟨h6, h5, ⟨b', err⟩, hhandle, herr, hgone⟩ := hfinal
  -- the CONNECT of the second client is refused for its empty user name
  have heq : s.broker.handleMqttConnect 1 emptyUserName [] = .ok (b', .userNameErr) := by
    cases hx : s.broker.handleMqttConnect 1 emptyUserName [] with
    | error e => simp [hx, Except.toOption] at hhandle
    | ok r =>
      simp only [hx, Except.toOption, Option.some.injEq] at hhandle
      rw [hhandle, show err = .userNameErr from herr]
  refine ⟨s, reachable_of_steps 4 hs, h6, h5, ⟨b', heq, hgone⟩, fun hharmless => ?_⟩
  have hconnected := (hharmless b' _ heq (by decide) 5 0 (by decide) h5).connected
  rw [hgone] at hconnected
  simp at hconnected

/-- A CONNECT with the id `a` that does not ask for a clean start. -/
def duplicateId : Bytes := [0, 4, 0x4D, 0x51, 0x54, 0x54, 5, 0, 0, 60, 0, 0, 1, 0x61]

/-- The client on socket 6 sends a CONNECT with the id of the client on socket 5 and without
    Clean Start. It is refused, and the client on socket 5 is still there as it was. -/
theorem rejected_connect_harmless_duplicate :
    ∃ s b', system.Reachable s ∧ s.broker.clients.lookup 6 = some (some 1) ∧
      s.broker.clients.lookup 5 = some (some 0) ∧
      s.broker.handleMqttConnect 1 duplicateId [] = .ok (b', .duplicateClientId) ∧
      Unharmed s.broker b' 5 0 := by
  have hrun : (connectTwo.foldlM systemStep
      { broker := { control_sock := 4 }, pc := .returned }).map
        (fun s => (s.broker.clients.lookup 6, s.broker.clients.lookup 5,
          (s.broker.handleMqttConnect 1 duplicateId []).toOption.map Prod.snd)) =
        some (some (some 1), some (some 0), some .duplicateClientId) := by
    decide +kernel
  obtain ⟨s, hs, hfinal⟩ := Option.map_eq_some_iff.mp hrun
  simp only [Prod.mk.injEq] at hfinal
  obtain ⟨h6, h5, herr⟩ := hfinal
  have hreach := reachable_of_steps 4 hs
  -- it does not ask for a clean start, so no connection is taken over
  have hnot : ¬ RefusedAfterTakeover s.broker 6 1 duplicateId := by
    rintro ⟨con_vh, id, offset, check_fd, ⟨offset₁, created, id_len, hread, -⟩, hclean, -⟩
    have hheader : ConnectVH.readFromBuf duplicateId = .ok (⟨4, [0x4D, 0x51, 0x54, 0x54], 5, 0, 60⟩, 10) :=
      rfl
    obtain ⟨rfl, -⟩ := Prod.mk.inj (Except.ok.inj (hread.symm.trans hheader))
    exact hclean rfl
  cases hhandle : s.broker.handleMqttConnect 1 duplicateId [] with
  | error e => simp [hhandle, Except.toOption] at herr
  | ok r =>
    obtain ⟨b', err⟩ := r
    obtain rfl : err = .duplicateClientId := by simpa [hhandle, Except.toOption] using herr
    have hharmless := (rejected_connect_harmless_iff hreach h6 duplicateId []).mpr hnot
    exact ⟨s, b', hreach, h6, h5, hhandle,
      hharmless b' _ hhandle (by decide) 5 0 (by decide) h5⟩

end Mqtt.Spec
