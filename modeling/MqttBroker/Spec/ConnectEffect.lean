import MqttBroker.Spec.PacketStep

/-!
# The effect of a CONNECT

`HandleMqttConnect` reads on while it changes the broker. Up to the client id it
sets members of the sender only; the id may close an older connection; the will
and the login behind it are members of the sender again, and may still be refused.
-/

namespace Mqtt.Spec

open Mqtt.Native Mqtt.Native.Broker

/-- Members of a client other than its id are set. -/
def Edits (pClient : ClientRef) (b b' : Broker) : Prop :=
  ∃ c : Client, c.client_id = (b.heap pClient).client_id ∧ b' = b.setClient pClient c

/-- Setting a client to what it is changes nothing. -/
theorem setClient_heap (b : Broker) (pClient : ClientRef) :
    b.setClient pClient (b.heap pClient) = b := by
  rw [setClient, Function.update_eq_self]

/-- Of two values that a client is set to the second one stays. -/
theorem setClient_setClient (b : Broker) (pClient : ClientRef) (c c' : Client) :
    (b.setClient pClient c).setClient pClient c' = b.setClient pClient c' := by
  simp only [setClient, Function.update_idem]

namespace Edits

variable {pClient : ClientRef} {b b' b'' : Broker}

theorem refl (b : Broker) : Edits pClient b b := ⟨b.heap pClient, rfl, (setClient_heap b _).symm⟩

theorem trans (h : Edits pClient b b') (h' : Edits pClient b' b'') : Edits pClient b b'' := by
  obtain ⟨c, hc, rfl⟩ := h
  obtain ⟨c', hc', rfl⟩ := h'
  rw [heap_setClient_self] at hc'
  exact ⟨c', hc'.trans hc, setClient_setClient b pClient c c'⟩

/-- Setting all but the id of a client is an edit. -/
theorem of_setClient {c : Client} (h : c.client_id = (b.heap pClient).client_id) :
    Edits pClient b (b.setClient pClient c) := ⟨c, h, rfl⟩

/-- An edit leaves all ids alone. -/
theorem client_id (h : Edits pClient b b') (ref : ClientRef) :
    (b'.heap ref).client_id = (b.heap ref).client_id := by
  obtain ⟨c, hc, rfl⟩ := h
  exact heap_setClient_congr (f := Client.client_id) hc ref

/-- An edit leaves the other clients alone. -/
theorem heap_ne (h : Edits pClient b b') {ref : ClientRef} (href : ref ≠ pClient) :
    b'.heap ref = b.heap ref := by
  obtain ⟨c, -, rfl⟩ := h
  exact heap_setClient_ne href

/-- All but the client is as before. -/
theorem eq_heap (h : Edits pClient b b') : b' = { b with heap := b'.heap } := by
  obtain ⟨c, -, rfl⟩ := h
  rfl

end Edits

/-! ## What is read -/

/-- The will of a CONNECT is refused. -/
def WillRefused (c : Client) (buf : Bytes) (offset : Nat) : Prop :=
  c.isWillFlag ∧ ∃ created, c.will_properties.create (buf.drop offset) = .ok created ∧
    created.err ≠ .ok

/-- The will of a CONNECT, if it has one, is accepted and ends at `offset'`. -/
def WillEnds (c : Client) (buf : Bytes) (offset offset' : Nat) : Prop :=
  if c.isWillFlag then
    ∃ created will_topic_name offset₁ data_len pMessage,
      c.will_properties.create (buf.drop offset) = .ok created ∧ created.err = .ok ∧
      readString buf (offset + created.size) = .ok (will_topic_name, offset₁) ∧
      convertToHost2Bytes buf offset₁ = .ok data_len ∧
      MqttBinaryDataEntity.ofBuf data_len buf (offset₁ + 2) = .ok pMessage ∧
      offset' = offset₁ + 2 + data_len.toNat
  else offset' = offset

/-- The user name of a CONNECT is empty, or its password is. -/
def LoginRefused (c : Client) (buf : Bytes) (offset : Nat) : Prop :=
  c.isUserNameFlag ∧ ∃ user_name user_name_len,
    createMqttStringEntity (buf.drop offset) = .ok (user_name, user_name_len) ∧
    (user_name = none ∨ c.isPwdFlag ∧ ∃ pwd_len,
      createMqttBinaryDataEntity (buf.drop (offset + user_name_len)) = .ok (none, pwd_len))

/-- What follows the client id of a CONNECT at `offset` is refused. -/
def RefusedLater (c : Client) (buf : Bytes) (offset : Nat) : Prop :=
  WillRefused c buf offset ∨ ∃ offset', WillEnds c buf offset offset' ∧ LoginRefused c buf offset'

/-- Only flags and will properties matter for what follows the client id. -/
theorem refusedLater_congr {c c' : Client} (hflags : c.flags = c'.flags)
    (hwill : c.will_properties = c'.will_properties) (buf : Bytes) (offset : Nat) :
    RefusedLater c buf offset ↔ RefusedLater c' buf offset := by
  have hw : c.isWillFlag = c'.isWillFlag := by rw [Client.isWillFlag, hflags, Client.isWillFlag]
  have hu : c.isUserNameFlag = c'.isUserNameFlag := by
    rw [Client.isUserNameFlag, hflags, Client.isUserNameFlag]
  have hp : c.isPwdFlag = c'.isPwdFlag := by rw [Client.isPwdFlag, hflags, Client.isPwdFlag]
  simp only [RefusedLater, WillRefused, WillEnds, LoginRefused, hw, hu, hp, hwill]

/-- A CONNECT is read up to the client id, and goes on at `offset`. -/
def ReadsId (b : Broker) (pClient : ClientRef) (buf : Bytes) (con_vh : ConnectVH)
    (id : Option Bytes) (offset : Nat) : Prop :=
  ∃ offset₁ created id_len, ConnectVH.readFromBuf buf = .ok (con_vh, offset₁) ∧
    con_vh.version = 5 ∧
    (b.heap pClient).conn_properties.create (buf.drop offset₁) = .ok created ∧
    created.err = .ok ∧
    createMqttStringEntity (buf.drop (offset₁ + created.size)) = .ok (id, id_len) ∧
    offset = if id_len ≠ 0 then offset₁ + created.size + id_len else offset₁ + created.size + 2

/-! ## The client id -/

/-- What `GetClientFd` finds is the socket of a client with the id; it finds nothing
    where no client has it. -/
theorem getClientFd_eq_ok {b : Broker} {id : Bytes} {check_fd : Fd}
    (h : b.getClientFd id = .ok check_fd) :
    (check_fd = -1 ∧ ¬ InUse b id) ∨ ∃ ref, b.clients.lookup check_fd = some (some ref) ∧
      (b.heap ref).client_id = id := by
  -- the loop returns at the first client with the id, so the rest does not matter
  have hloop : ∀ its : List (Fd × Option ClientRef), b.findClientFd id its = .ok check_fd →
      (check_fd = -1 ∧ ∀ fd ref, (fd, some ref) ∈ its → (b.heap ref).client_id ≠ id) ∨
        ∃ ref, (check_fd, some ref) ∈ its ∧ (b.heap ref).client_id = id := by
    intro its h
    induction its with
    | nil =>
      obtain rfl := Except.ok.inj h
      exact .inl ⟨rfl, fun _ _ hmem => absurd hmem List.not_mem_nil⟩
    | cons it rest ih =>
      rw [findClientFd] at h
      obtain ⟨ref, href, h⟩ := Except.bind_eq_ok_iff.mp h
      -- the loop follows the pointer of every entry
      have hit : it.2 = some ref := by
        cases hit : it.2 with
        | none => simp [hit, deref] at href
        | some ref' => simpa [hit, deref] using href
      split at h
      · -- this client has the id
        rename_i hid
        obtain rfl := Except.ok.inj h
        exact .inr ⟨ref, by rw [← hit]; exact .head _, hid⟩
      · rename_i hid
        obtain ⟨hfd, hnone⟩ | ⟨ref', hmem, hid'⟩ := ih h
        · refine .inl ⟨hfd, fun fd ref' hmem => ?_⟩
          obtain heq | hmem := List.mem_cons.mp hmem
          · rw [← heq] at hit
            rw [Option.some.inj hit]
            exact hid
          · exact hnone fd ref' hmem
        · exact .inr ⟨ref', .tail _ hmem, hid'⟩
  obtain ⟨hfd, hnone⟩ | ⟨ref, hmem, hid⟩ := hloop _ h
  · refine .inl ⟨hfd, ?_⟩
    rintro ⟨fd, ref, hlookup, hid⟩
    exact hnone fd ref (UnorderedMap.mem_toList_iff.mpr hlookup) hid
  · exact .inr ⟨ref, UnorderedMap.mem_toList_iff.mp hmem, hid⟩

/-- `GetClientFd` looks at nothing but the ids of the connected clients. -/
theorem getClientFd_congr {b b' : Broker} (hclients : b'.clients = b.clients)
    (hids : ∀ ref, (b'.heap ref).client_id = (b.heap ref).client_id) (id : Bytes) :
    b'.getClientFd id = b.getClientFd id := by
  have hloop : ∀ its, b'.findClientFd id its = b.findClientFd id its := by
    intro its
    induction its with
    | nil => rfl
    | cons it rest ih => simp only [findClientFd, hids, ih]
  rw [getClientFd, getClientFd, hclients, hloop]

/-! ## The stages -/

/-- The id of a CONNECT is accepted. -/
inductive Identified (b : Broker) (pClient : ClientRef) (random : Bytes) :
    Option Bytes → Broker → Prop
  | unused {id : Bytes} : b.getClientFd id = .ok (-1) → Identified b pClient random (some id)
      (b.setClient pClient { b.heap pClient with client_id := id })
  | takenOver {id : Bytes} {check_fd : Fd} : b.getClientFd id = .ok check_fd → check_fd ≠ -1 →
      (b.heap pClient).isCleanFlag → Identified b pClient random (some id)
        ((b.closeConnection check_fd).setClient pClient { b.heap pClient with client_id := id })
  | generated : Identified b pClient random none (b.setClient pClient { b.heap pClient with
      client_id := random
      id_was_random_generated := true })

/-- The client id is refused and nothing has changed, or the client has got an id. -/
theorem handleConnectId_effect {b b' : Broker} {pClient : ClientRef} {id : Option Bytes}
    {random : Bytes} {err : MqttErr} (h : b.handleConnectId pClient id random = .ok (b', err)) :
    (err ≠ .ok ∧ b' = b) ∨ (err = .ok ∧ Identified b pClient random id b') := by
  unfold handleConnectId at h
  cases id with
  | none =>
    obtain ⟨rfl, rfl⟩ := Prod.mk.inj (Except.ok.inj h)
    exact .inr ⟨rfl, .generated⟩
  | some id =>
    obtain ⟨check_fd, hfd, h⟩ := Except.bind_eq_ok_iff.mp h
    dsimp only at h
    split at h
    · -- the id is in use: with Clean Start the older connection is closed
      rename_i hne
      split at h
      · rename_i hclean
        obtain ⟨rfl, rfl⟩ := Prod.mk.inj (Except.ok.inj h)
        exact .inr ⟨rfl, .takenOver hfd hne hclean⟩
      · obtain ⟨rfl, rfl⟩ := Prod.mk.inj (Except.ok.inj h)
        exact .inl ⟨by simp, rfl⟩
    · -- nobody has the id
      rename_i hfd'
      rw [not_not.mp hfd'] at hfd
      obtain ⟨rfl, rfl⟩ := Prod.mk.inj (Except.ok.inj h)
      exact .inr ⟨rfl, .unused hfd⟩

/-- The will is written to the client, unless its properties are refused. -/
theorem handleConnectWill_effect {b b' : Broker} {pClient : ClientRef} {buf : Bytes}
    {offset offset' : Nat} {err : MqttErr}
    (h : b.handleConnectWill pClient buf offset = .ok (b', err, offset')) :
    Edits pClient b b' ∧ (b'.heap pClient).flags = (b.heap pClient).flags ∧
      ((err ≠ .ok ∧ WillRefused (b.heap pClient) buf offset) ∨
        (err = .ok ∧ WillEnds (b.heap pClient) buf offset offset')) := by
  unfold handleConnectWill at h
  by_cases hwill : (b.heap pClient).isWillFlag
  · rw [if_pos hwill] at h
    obtain ⟨created, hcreated, h⟩ := Except.bind_eq_ok_iff.mp h
    dsimp only at h
    split at h
    · -- the properties are refused
      rename_i herr
      simp only [Except.pure_eq_ok, Except.ok.injEq, Prod.mk.injEq] at h
      obtain ⟨rfl, rfl, rfl⟩ := h
      refine ⟨.of_setClient rfl, ?_, .inl ⟨herr, hwill, created, hcreated, herr⟩⟩
      rw [heap_setClient_self]
    · rename_i herr
      -- properties, topic name, length and message, one behind the other
      obtain ⟨⟨will_topic_name, offset₁⟩, hname, h⟩ := Except.bind_eq_ok_iff.mp h
      obtain ⟨data_len, hlen, h⟩ := Except.bind_eq_ok_iff.mp h
      obtain ⟨pMessage, hmessage, h⟩ := Except.bind_eq_ok_iff.mp h
      simp only [Except.pure_eq_ok, Except.ok.injEq, Prod.mk.injEq] at h
      obtain ⟨rfl, rfl, rfl⟩ := h
      rw [setClient_setClient, heap_setClient_self]
      refine ⟨.of_setClient rfl, ?_, .inr ⟨rfl, ?_⟩⟩
      · rw [heap_setClient_self]
      · rw [WillEnds, if_pos hwill]
        exact ⟨created, _, _, _, _, hcreated, not_not.mp herr, hname, hlen, hmessage, rfl⟩
  · rw [if_neg hwill] at h
    simp only [Except.pure_eq_ok, Except.ok.injEq, Prod.mk.injEq] at h
    obtain ⟨rfl, rfl, rfl⟩ := h
    exact ⟨.refl b, rfl, .inr ⟨rfl, by rw [WillEnds, if_neg hwill]⟩⟩

/-- Name and password are written to the client, unless they are refused. -/
theorem handleConnectLogin_effect {b b' : Broker} {pClient : ClientRef} {buf : Bytes}
    {offset : Nat} {err : MqttErr}
    (h : b.handleConnectLogin pClient buf offset = .ok (b', err)) :
    Edits pClient b b' ∧ (b'.heap pClient).flags = (b.heap pClient).flags ∧
      (err ≠ .ok → LoginRefused (b.heap pClient) buf offset) := by
  unfold handleConnectLogin at h
  by_cases huser : (b.heap pClient).isUserNameFlag
  · rw [if_pos huser] at h
    obtain ⟨⟨user_name, user_name_len⟩, hname, h⟩ := Except.bind_eq_ok_iff.mp h
    dsimp only at h
    split at h
    · -- an empty user name
      rename_i hnone
      obtain ⟨rfl, rfl⟩ := Prod.mk.inj (Except.ok.inj h)
      exact ⟨.refl b, rfl, fun _ => ⟨huser, _, _, hname, .inl (Option.isNone_iff_eq_none.mp hnone)⟩⟩
    · rw [heap_setClient_self] at h
      split at h
      · -- the password is behind the user name
        rename_i hpwd
        obtain ⟨⟨pwd, pwd_len⟩, hread, h⟩ := Except.bind_eq_ok_iff.mp h
        dsimp only at h
        split at h
        · -- an empty password
          rename_i hnone
          rw [Option.isNone_iff_eq_none] at hnone
          subst hnone
          obtain ⟨rfl, rfl⟩ := Prod.mk.inj (Except.ok.inj h)
          refine ⟨.of_setClient rfl, ?_, fun _ => ⟨huser, _, _, hname, .inr ⟨hpwd, _, hread⟩⟩⟩
          rw [heap_setClient_self]
        · obtain ⟨rfl, rfl⟩ := Prod.mk.inj (Except.ok.inj h)
          rw [setClient_setClient]
          refine ⟨.of_setClient rfl, ?_, fun hne => absurd rfl hne⟩
          rw [heap_setClient_self]
      · obtain ⟨rfl, rfl⟩ := Prod.mk.inj (Except.ok.inj h)
        refine ⟨.of_setClient rfl, ?_, fun hne => absurd rfl hne⟩
        rw [heap_setClient_self]
  · rw [if_neg huser] at h
    obtain ⟨rfl, rfl⟩ := Prod.mk.inj (Except.ok.inj h)
    exact ⟨.refl b, rfl, fun hne => absurd rfl hne⟩

/-- A CONNECT that is read up to its client id goes on with the id, the will and the
    login. -/
theorem handleMqttConnect_eq {b : Broker} {pClient : ClientRef} {buf random : Bytes}
    {con_vh : ConnectVH} {offset id_len : Nat} {created : MqttPropertyChain.Created}
    {id : Option Bytes} (hread : ConnectVH.readFromBuf buf = .ok (con_vh, offset))
    (hversion : con_vh.version = 5)
    (hcreated : (b.heap pClient).conn_properties.create (buf.drop offset) = .ok created)
    (herr : created.err = .ok)
    (hid : createMqttStringEntity (buf.drop (offset + created.size)) = .ok (id, id_len)) :
    b.handleMqttConnect pClient buf random =
      ((b.setClient pClient { b.heap pClient with
        mqtt_version := con_vh.version
        alive := con_vh.alive
        flags := con_vh.conn_flags
        conn_properties := created.chain }).handleConnectId pClient id random >>=
          fun r => if r.2 ≠ .ok then pure (r.1, r.2) else
            r.1.handleConnectWill pClient buf
              (if id_len ≠ 0 then offset + created.size + id_len else offset + created.size + 2) >>=
            fun r => if r.2.1 ≠ .ok then pure (r.1, r.2.1) else
              r.1.handleConnectLogin pClient buf r.2.2) := by
  rw [handleMqttConnect, hread, Except.ok_bind]
  dsimp only
  rw [if_neg (not_not.mpr hversion), heap_setClient_self, hcreated, Except.ok_bind]
  dsimp only
  rw [if_neg (not_not.mpr herr), hid, Except.ok_bind, setClient_setClient]

/-- What `HandleMqttConnect` does. -/
inductive ConnectEffect (b : Broker) (pClient : ClientRef) (buf random : Bytes) :
    Broker → MqttErr → Prop
  /-- It is refused before or at the client id. -/
  | refused {b' : Broker} {err : MqttErr} : err ≠ .ok → Edits pClient b b' →
      ConnectEffect b pClient buf random b' err
  /-- The client id is accepted; the will or the login may be refused. -/
  | identified {con_vh : ConnectVH} {id : Option Bytes} {offset : Nat} {b₂ b₃ b' : Broker}
      {err : MqttErr} : ReadsId b pClient buf con_vh id offset → Edits pClient b b₂ →
      (b₂.heap pClient).flags = con_vh.conn_flags → Identified b₂ pClient random id b₃ →
      Edits pClient b₃ b' → (b'.heap pClient).flags = con_vh.conn_flags →
      (err ≠ .ok → RefusedLater { b.heap pClient with flags := con_vh.conn_flags } buf offset) →
      ConnectEffect b pClient buf random b' err

/-- Getting an id changes neither the flags nor the will properties. -/
theorem Identified.data_eq {b b' : Broker} {pClient : ClientRef} {random : Bytes}
    {id : Option Bytes} (h : Identified b pClient random id b') :
    (b'.heap pClient).flags = (b.heap pClient).flags ∧
      (b'.heap pClient).will_properties = (b.heap pClient).will_properties := by
  cases h with
  | unused | takenOver | generated => simp only [heap_setClient_self, and_self]

/-- What `HandleMqttConnect` does, by the stage it comes to. -/
theorem handleMqttConnect_effect {b b' : Broker} {pClient : ClientRef} {buf random : Bytes}
    {err : MqttErr} (h : b.handleMqttConnect pClient buf random = .ok (b', err)) :
    ConnectEffect b pClient buf random b' err := by
  unfold handleMqttConnect at h
  obtain ⟨⟨con_vh, offset⟩, hread, h⟩ := Except.bind_eq_ok_iff.mp h
  dsimp only at h
  split at h
  · obtain ⟨rfl, rfl⟩ := Prod.mk.inj (Except.ok.inj h)
    exact .refused (by simp) (.refl b)
  · -- version 5
    rename_i hversion
    obtain ⟨created, hcreated, h⟩ := Except.bind_eq_ok_iff.mp h
    rw [heap_setClient_self] at hcreated h
    rw [setClient_setClient] at h
    split at h
    · rename_i herr
      obtain ⟨rfl, rfl⟩ := Prod.mk.inj (Except.ok.inj h)
      exact .refused herr (.of_setClient rfl)
    · rename_i herr
      obtain ⟨⟨id, id_len⟩, hid, h⟩ := Except.bind_eq_ok_iff.mp h
      dsimp only at h
      -- `b₂` has the header and the connection properties, `b₃` the id, `b₄` the will
      generalize hb₂ : Broker.setClient b pClient _ = b₂ at h
      have hedits₂ : Edits pClient b b₂ := hb₂ ▸ .of_setClient rfl
      have hflags₂ : (b₂.heap pClient).flags = con_vh.conn_flags := by
        rw [← hb₂, heap_setClient_self]
      have hwill₂ : (b₂.heap pClient).will_properties = (b.heap pClient).will_properties := by
        rw [← hb₂, heap_setClient_self]
      obtain ⟨⟨b₃, err₃⟩, hidentify, hrest⟩ := Except.bind_eq_ok_iff.mp h
      dsimp only at hrest
      obtain ⟨hne, rfl⟩ | ⟨rfl, hidentified⟩ := handleConnectId_effect hidentify
      · rw [if_pos hne] at hrest
        obtain ⟨rfl, rfl⟩ := Prod.mk.inj (Except.ok.inj hrest)
        exact .refused hne hedits₂
      · rw [if_neg (by simp)] at hrest
        obtain ⟨hflags₃, hwill₃⟩ := hidentified.data_eq
        have hreads : ReadsId b pClient buf con_vh id _ := ⟨offset, created, id_len, hread,
          not_not.mp hversion, hcreated, not_not.mp herr, hid, rfl⟩
        -- the will and the login are read with the flags of this CONNECT
        have hlater : ∀ offset, RefusedLater (b₃.heap pClient) buf offset →
            RefusedLater { b.heap pClient with flags := con_vh.conn_flags } buf offset := by
          intro offset
          refine (refusedLater_congr ?_ ?_ buf offset).mp
          · exact hflags₃.trans hflags₂
          · exact hwill₃.trans hwill₂
        obtain ⟨⟨b₄, err₄, offset₄⟩, hwill, hrest⟩ := Except.bind_eq_ok_iff.mp hrest
        dsimp only at hrest
        obtain ⟨hedits₄, hflags₄, hcase⟩ := handleConnectWill_effect hwill
        -- so is the login
        have hflags : (b₄.heap pClient).flags = con_vh.conn_flags :=
          hflags₄.trans (hflags₃.trans hflags₂)
        obtain ⟨hne, hrefused⟩ | ⟨rfl, hends⟩ := hcase
        · rw [if_pos hne] at hrest
          obtain ⟨rfl, rfl⟩ := Prod.mk.inj (Except.ok.inj hrest)
          exact .identified hreads hedits₂ hflags₂ hidentified hedits₄ hflags fun _ =>
            hlater _ (.inl hrefused)
        · rw [if_neg (by simp)] at hrest
          obtain ⟨hedits₅, hflags₅, hlogin⟩ := handleConnectLogin_effect hrest
          refine .identified hreads hedits₂ hflags₂ hidentified (hedits₄.trans hedits₅)
            (hflags₅.trans hflags) fun hne => hlater _ (.inr ⟨offset₄, hends, ?_⟩)
          have hc := hlogin hne
          simpa only [LoginRefused, Client.isUserNameFlag, Client.isPwdFlag, hflags₄] using hc

/-- The handler of CONNECT hands on what `HandleMqttConnect` returns. -/
theorem connectHandler_eq_ok {b b' : Broker} {data random : Bytes} {fd : Fd}
    {pClient : ClientRef} {err : MqttErr} (hclient : b.clients.lookup fd = some (some pClient))
    (h : b.connectHandler data fd random = .ok (b', err)) :
    ∃ b₁, b.handleMqttConnect pClient data random = .ok (b₁, err) ∧
      Does (fun op => ∃ answer, op = .addCommand fd answer) b₁ b' := by
  rw [connectHandler, clientAt_eq hclient] at h
  obtain ⟨⟨b₁, handle_stat⟩, hhandle, hrest⟩ := Except.bind_eq_ok_iff.mp h
  dsimp only at hrest
  split at hrest
  · obtain ⟨rfl, rfl⟩ := Prod.mk.inj (Except.ok.inj hrest)
    exact ⟨b₁, hhandle, .refl⟩
  · rename_i hok
    obtain ⟨answer, -, hanswer⟩ := Except.bind_eq_ok_iff.mp hrest
    obtain ⟨rfl, rfl⟩ := Prod.mk.inj (Except.ok.inj hanswer)
    rw [not_not.mp hok] at hhandle
    exact ⟨b₁, hhandle, .addCommand _ _ ⟨answer, rfl⟩⟩

/-- `MqttConnectPacketHandler::HandlePacket` with the client of a socket. -/
theorem connectHandler_effect {b b' : Broker} {data random : Bytes} {fd : Fd}
    {pClient : ClientRef} {err : MqttErr} (hclient : b.clients.lookup fd = some (some pClient))
    (h : b.connectHandler data fd random = .ok (b', err)) :
    ∃ b₁, ConnectEffect b pClient data random b₁ err ∧
      Does (fun op => ∃ answer, op = .addCommand fd answer) b₁ b' := by
  obtain ⟨b₁, hhandle, hdoes⟩ := connectHandler_eq_ok hclient h
  exact ⟨b₁, handleMqttConnect_effect hhandle, hdoes⟩

/-! ## What no CONNECT sets -/

/-- The members of a client that only other packets set. -/
def sessionState (c : Client) : UInt16 × UnorderedMap Bytes UInt8 :=
  (c.packet_id_gen, c.subscribed_topics)

/-- The clients keep what no CONNECT sets. -/
def KeepsState (b b' : Broker) : Prop :=
  ∀ ref, sessionState (b'.heap ref) = sessionState (b.heap ref)

theorem KeepsState.refl (b : Broker) : KeepsState b b := fun _ => rfl

theorem KeepsState.trans {b b' b'' : Broker} (h : KeepsState b b') (h' : KeepsState b' b'') :
    KeepsState b b'' := fun ref => (h' ref).trans (h ref)

/-- Setting the rest of a client keeps its session state. -/
theorem keepsState_setClient {b : Broker} {ref : ClientRef} {c : Client}
    (h : sessionState c = sessionState (b.heap ref)) : KeepsState b (b.setClient ref c) :=
  heap_setClient_congr (f := sessionState) h

/-- An id is no part of the session state. -/
theorem Identified.keepsState {b b' : Broker} {pClient : ClientRef} {random : Bytes}
    {id : Option Bytes} (h : Identified b pClient random id b') : KeepsState b b' := by
  cases h with
  | unused | generated => exact keepsState_setClient rfl
  | @takenOver id check_fd => exact keepsState_setClient (b := b.closeConnection check_fd) rfl

/-- Reading the will of a CONNECT keeps the session state of every client. -/
theorem handleConnectWill_keepsState {b b' : Broker} {pClient : ClientRef} {buf : Bytes}
    {offset offset' : Nat} {err : MqttErr}
    (h : b.handleConnectWill pClient buf offset = .ok (b', err, offset')) : KeepsState b b' := by
  unfold handleConnectWill at h
  -- without the will flag nothing is read
  split at h
  · obtain ⟨created, -, h⟩ := Except.bind_eq_ok_iff.mp h
    have hprops : KeepsState b (b.setClient pClient
        { b.heap pClient with will_properties := created.chain }) := keepsState_setClient rfl
    dsimp only at h
    split at h
    · obtain ⟨rfl, -⟩ := Prod.mk.inj (Except.ok.inj h)
      exact hprops
    · -- the will is set behind its properties
      obtain ⟨⟨will_topic_name, offset₁⟩, -, h⟩ := Except.bind_eq_ok_iff.mp h
      obtain ⟨data_len, -, h⟩ := Except.bind_eq_ok_iff.mp h
      obtain ⟨pMessage, -, h⟩ := Except.bind_eq_ok_iff.mp h
      obtain ⟨rfl, -⟩ := Prod.mk.inj (Except.ok.inj h)
      exact hprops.trans (keepsState_setClient rfl)
  · obtain ⟨rfl, -⟩ := Prod.mk.inj (Except.ok.inj h)
    exact .refl b

/-- Reading name and password of a CONNECT keeps the session state of every client. -/
theorem handleConnectLogin_keepsState {b b' : Broker} {pClient : ClientRef} {buf : Bytes}
    {offset : Nat} {err : MqttErr}
    (h : b.handleConnectLogin pClient buf offset = .ok (b', err)) : KeepsState b b' := by
  unfold handleConnectLogin at h
  split at h
  · obtain ⟨⟨user_name, user_name_len⟩, -, h⟩ := Except.bind_eq_ok_iff.mp h
    -- the name is set before the password is read
    have hname : KeepsState b (b.setClient pClient { b.heap pClient with user_name }) :=
      keepsState_setClient rfl
    dsimp only at h
    split at h
    · obtain ⟨rfl, -⟩ := Prod.mk.inj (Except.ok.inj h)
      exact .refl b
    · split at h
      · obtain ⟨⟨pwd, pwd_len⟩, -, h⟩ := Except.bind_eq_ok_iff.mp h
        dsimp only at h
        split at h
        · obtain ⟨rfl, -⟩ := Prod.mk.inj (Except.ok.inj h)
          exact hname
        · obtain ⟨rfl, -⟩ := Prod.mk.inj (Except.ok.inj h)
          exact hname.trans (keepsState_setClient rfl)
      · obtain ⟨rfl, -⟩ := Prod.mk.inj (Except.ok.inj h)
        exact hname
  · obtain ⟨rfl, -⟩ := Prod.mk.inj (Except.ok.inj h)
    exact .refl b

/-- `HandleMqttConnect` keeps subscriptions and counters of every client. -/
theorem handleMqttConnect_keepsState {b b' : Broker} {pClient : ClientRef} {buf random : Bytes}
    {err : MqttErr} (h : b.handleMqttConnect pClient buf random = .ok (b', err)) :
    KeepsState b b' := by
  unfold handleMqttConnect at h
  obtain ⟨⟨con_vh, offset⟩, -, h⟩ := Except.bind_eq_ok_iff.mp h
  dsimp only at h
  split at h
  · obtain ⟨rfl, -⟩ := Prod.mk.inj (Except.ok.inj h)
    exact .refl b
  · obtain ⟨created, -, h⟩ := Except.bind_eq_ok_iff.mp h
    rw [heap_setClient_self, setClient_setClient] at h
    -- the stages as in `handleMqttConnect_effect`
    generalize hb₂ : Broker.setClient b pClient _ = b₂ at h
    have hkeeps : KeepsState b b₂ := hb₂ ▸ keepsState_setClient rfl
    split at h
    · obtain ⟨rfl, -⟩ := Prod.mk.inj (Except.ok.inj h)
      exact hkeeps
    · obtain ⟨⟨id, id_len⟩, -, h⟩ := Except.bind_eq_ok_iff.mp h
      dsimp only at h
      obtain ⟨⟨b₃, err₃⟩, hidentify, hrest⟩ := Except.bind_eq_ok_iff.mp h
      dsimp only at hrest
      obtain ⟨hne, rfl⟩ | ⟨rfl, hidentified⟩ := handleConnectId_effect hidentify
      · rw [if_pos hne] at hrest
        obtain ⟨rfl, -⟩ := Prod.mk.inj (Except.ok.inj hrest)
        exact hkeeps
      · rw [if_neg (by simp)] at hrest
        obtain ⟨⟨b₄, err₄, offset₄⟩, hwill, hrest⟩ := Except.bind_eq_ok_iff.mp hrest
        -- the id may close a connection, whose session state stays in its client
        have hkeeps₄ := (hkeeps.trans hidentified.keepsState).trans (handleConnectWill_keepsState hwill)
        dsimp only at hrest
        split at hrest
        · obtain ⟨rfl, -⟩ := Prod.mk.inj (Except.ok.inj hrest)
          exact hkeeps₄
        · exact hkeeps₄.trans (handleConnectLogin_keepsState hrest)

/-- `connectHandler` keeps the session state of every client, whether it answers or not. -/
theorem connectHandler_keepsState {b b' : Broker} {data random : Bytes} {fd : Fd} {err : MqttErr}
    (h : b.connectHandler data fd random = .ok (b', err)) : KeepsState b b' := by
  unfold connectHandler at h
  rcases hat : b.clientAt fd with ⟨b₀, pClient⟩
  rw [hat] at h
  -- looking the client up may insert a null entry, which has no session state
  have hkeeps : KeepsState b b₀ := by
    obtain rfl : (b.clientAt fd).1 = b₀ := by rw [hat]
    exact .refl b
  cases pClient with
  | none =>
    obtain ⟨rfl, -⟩ := Prod.mk.inj (Except.ok.inj h)
    exact hkeeps
  | some pClient =>
    obtain ⟨⟨b₁, handle_stat⟩, hhandle, h⟩ := Except.bind_eq_ok_iff.mp h
    -- the answer is all that is added
    have hkeeps₁ := hkeeps.trans (handleMqttConnect_keepsState hhandle)
    dsimp only at h
    split at h
    · obtain ⟨rfl, -⟩ := Prod.mk.inj (Except.ok.inj h)
      exact hkeeps₁
    · obtain ⟨answer, -, h⟩ := Except.bind_eq_ok_iff.mp h
      obtain ⟨rfl, -⟩ := Prod.mk.inj (Except.ok.inj h)
      exact hkeeps₁

end Mqtt.Spec
