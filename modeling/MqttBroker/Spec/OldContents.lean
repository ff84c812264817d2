import MqttBroker.Spec.ConnectParse
import MqttBroker.Spec.DecodedChain

/-!
# Old contents of a chain

`Create` clears the chain it is called on only when the section announces properties. The
chains of a `Client` are used again by every CONNECT on its connection, so a section without
properties, or a CONNECT without a will, leaves there what an earlier one has brought.
-/

namespace Mqtt.Spec

open Mqtt.Native Mqtt.Native.Broker Mqtt.Native.MqttPropertyChain

/-- The buffers that `HandleMqttConnect` decodes the connection properties and, if the flags
    announce a will, the will properties from. -/
def connectSections (buf : Bytes) : Exec (Bytes × Option Bytes) := do
  let (con_vh, offset) ← ConnectVH.readFromBuf buf
  let created ← create OrderedSet.empty (buf.drop offset)
  let conn := buf.drop offset
  let offset := offset + created.size
  let (_, id_len) ← createMqttStringEntity (buf.drop offset)
  let offset := if id_len ≠ 0 then offset + id_len else offset + 2
  return (conn, if con_vh.conn_flags &&& 0x4 != 0 then some (buf.drop offset) else none)

/-- A chain is what a packet carried in a section, or empty if it carried none. -/
def Carried (section? : Option Bytes) (chain : MqttPropertyChain) : Prop :=
  match section? with
  | some buf => ∃ r, create OrderedSet.empty buf = .ok r ∧ r.err = .ok ∧ chain = r.chain
  | none => chain = OrderedSet.empty

/-- A packet has a section that announces properties. -/
def Announced (section? : Option Bytes) : Prop := ∃ buf ∈ section?, AnnouncesProperties buf

/-- What is left in the chain of a client, against what the packet carried. -/
theorem carried_iff_of_create {buf : Bytes} {chain : MqttPropertyChain} {r : Created}
    (h : create chain buf = .ok r) (hok : r.err = .ok) :
    Carried (some buf) r.chain ↔ Announced (some buf) ∨ chain = OrderedSet.empty := by
  obtain ⟨r', hr', hok', -, heq⟩ := create_chain_eq_iff (b := OrderedSet.empty) h hok
  have hcarried : Carried (some buf) r.chain ↔ r'.chain = r.chain := by
    constructor
    · rintro ⟨r'', hr'', -, hchain⟩
      obtain rfl := Except.ok.inj (hr'.symm.trans hr'')
      exact hchain.symm
    · exact fun hchain => ⟨r', hr', hok', hchain.symm⟩
  rw [hcarried, heq, Announced, eq_comm (a := OrderedSet.empty)]
  simp

/-- The stages of a CONNECT that is handled without error. -/
theorem handleMqttConnect_stages {b b' : Broker} {pClient : ClientRef} {buf random : Bytes}
    (h : b.handleMqttConnect pClient buf random = .ok (b', .ok)) :
    ∃ con_vh offset created id id_len b₁ b₂ offset',
      ConnectVH.readFromBuf buf = .ok (con_vh, offset) ∧
      (b.heap pClient).conn_properties.create (buf.drop offset) = .ok created ∧
      created.err = .ok ∧
      createMqttStringEntity (buf.drop (offset + created.size)) = .ok (id, id_len) ∧
      (b.setClient pClient { b.heap pClient with
        mqtt_version := con_vh.version
        alive := con_vh.alive
        flags := con_vh.conn_flags
        conn_properties := created.chain }).handleConnectId pClient id random = .ok (b₁, .ok) ∧
      b₁.handleConnectWill pClient buf (if id_len ≠ 0 then offset + created.size + id_len
        else offset + created.size + 2) = .ok (b₂, .ok, offset') ∧
      b₂.handleConnectLogin pClient buf offset' = .ok (b', .ok) := by
  unfold handleMqttConnect at h
  obtain ⟨⟨con_vh, offset⟩, hread, h⟩ := Except.bind_eq_ok_iff.mp h
  dsimp only at h
  split at h
  · cases Except.ok.inj h  -- another version
  · obtain ⟨created, hcreated, h⟩ := Except.bind_eq_ok_iff.mp h
    rw [heap_setClient_self] at hcreated h
    rw [setClient_setClient] at h
    split at h
    · -- the connection properties are refused
      rename_i herr
      exact absurd (Prod.mk.inj (Except.ok.inj h)).2 herr
    · rename_i herr
      obtain ⟨⟨id, id_len⟩, hid, h⟩ := Except.bind_eq_ok_iff.mp h
      obtain ⟨⟨b₁, err₁⟩, hidentify, h⟩ := Except.bind_eq_ok_iff.mp h
      dsimp only at h
      split at h
      · -- the client id is refused
        rename_i herr₁
        exact absurd (Prod.mk.inj (Except.ok.inj h)).2 herr₁
      · rename_i herr₁
        obtain rfl := not_not.mp herr₁
        obtain ⟨⟨b₂, err₂, offset'⟩, hwill, h⟩ := Except.bind_eq_ok_iff.mp h
        dsimp only at h
        split at h
        · -- the will is refused
          rename_i herr₂
          exact absurd (Prod.mk.inj (Except.ok.inj h)).2 herr₂
        · rename_i herr₂
          obtain rfl := not_not.mp herr₂
          exact ⟨con_vh, offset, created, id, id_len, b₁, b₂, offset', hread, hcreated,
            not_not.mp herr, hid, hidentify, hwill, h⟩

/-- The will properties of a client whose will is accepted. -/
theorem handleConnectWill_properties {b b' : Broker} {pClient : ClientRef} {buf : Bytes}
    {offset offset' : Nat}
    (h : b.handleConnectWill pClient buf offset = .ok (b', .ok, offset')) :
    if (b.heap pClient).isWillFlag then
      ∃ r, (b.heap pClient).will_properties.create (buf.drop offset) = .ok r ∧ r.err = .ok ∧
        (b'.heap pClient).will_properties = r.chain
    else (b'.heap pClient).will_properties = (b.heap pClient).will_properties := by
  unfold handleConnectWill at h
  split
  · rename_i hwill
    rw [if_pos hwill] at h
    obtain ⟨created, hcreated, h⟩ := Except.bind_eq_ok_iff.mp h
    dsimp only at h
    split at h
    · -- the will properties are refused
      rename_i herr
      exact absurd (Prod.mk.inj (Prod.mk.inj (Except.ok.inj h)).2).1 herr
    · rename_i herr
      obtain ⟨⟨name, offset₁⟩, -, h⟩ := Except.bind_eq_ok_iff.mp h
      obtain ⟨len, -, h⟩ := Except.bind_eq_ok_iff.mp h
      obtain ⟨message, -, h⟩ := Except.bind_eq_ok_iff.mp h
      obtain ⟨rfl, -⟩ := Prod.mk.inj (Except.ok.inj h)
      -- the topic and the message of the will are written to the client behind its properties
      refine ⟨created, hcreated, not_not.mp herr, ?_⟩
      rw [setClient_setClient, heap_setClient_self, heap_setClient_self]
  · rename_i hwill
    rw [if_neg hwill] at h
    obtain ⟨rfl, -⟩ := Prod.mk.inj (Except.ok.inj h)
    rfl

/-- The chains of a client behind a CONNECT, against what that packet carried. -/
theorem connect_carried_iff {b b' : Broker} {pClient : ClientRef} {buf random : Bytes}
    (h : b.handleMqttConnect pClient buf random = .ok (b', .ok)) :
    ∃ conn will, connectSections buf = .ok (conn, will) ∧
      (Carried (some conn) (b'.heap pClient).conn_properties ↔
        Announced (some conn) ∨ (b.heap pClient).conn_properties = OrderedSet.empty) ∧
      (Carried will (b'.heap pClient).will_properties ↔
        Announced will ∨ (b.heap pClient).will_properties = OrderedSet.empty) := by
  obtain ⟨con_vh, offset, created, id, id_len, b₁, b₂, offset', hread, hcreated, herr, hid,
    hidentify, hwill, hlogin⟩ := handleMqttConnect_stages h
  obtain ⟨generated, hheap₁⟩ := handleConnectId_heap hidentify
  obtain ⟨will_properties, will_topic, hheap₂⟩ := handleConnectWill_heap hwill
  obtain ⟨user_name, pwd, hheap⟩ := handleConnectLogin_heap hlogin
  rw [heap_setClient_self] at hheap₁
  -- the offsets do not depend on the chain that is decoded into
  obtain ⟨empty, hempty, -, hsize, -⟩ := create_chain_eq_iff (b := OrderedSet.empty) hcreated herr
  have hsections : connectSections buf = .ok (buf.drop offset,
      if con_vh.conn_flags &&& 0x4 != 0 then some (buf.drop (if id_len ≠ 0 then
        offset + created.size + id_len else offset + created.size + 2)) else none) := by
    simp only [connectSections, hread, Except.ok_bind, hempty, hsize, hid, Except.pure_eq_ok]
  -- the connection properties are written once, and no later stage touches them
  refine ⟨_, _, hsections, ?_, ?_⟩
  · have hconn : (b'.heap pClient).conn_properties = created.chain := by
      rw [hheap, hheap₂, hheap₁]
    rw [hconn]
    exact carried_iff_of_create hcreated herr
  · have hflag : (b₁.heap pClient).isWillFlag = (con_vh.conn_flags &&& 0x4 != 0) := by
      rw [hheap₁]
      rfl
    -- the will properties are cleared only when the will is read
    have hbefore : (b₁.heap pClient).will_properties = (b.heap pClient).will_properties := by
      rw [hheap₁]
    have hafter : (b'.heap pClient).will_properties = (b₂.heap pClient).will_properties := by
      rw [hheap]
    have hproperties := handleConnectWill_properties hwill
    rw [hflag, hbefore] at hproperties
    rw [hafter]
    split
    · rename_i hset
      rw [if_pos hset] at hproperties
      obtain ⟨r, hr, hok, hchain⟩ := hproperties
      rw [hchain]
      exact carried_iff_of_create hr hok
    · rename_i hclear
      rw [if_neg hclear] at hproperties
      rw [hproperties, Carried, Announced]
      simp

/-- What `Create` makes of a buffer does not depend on the chain it is called on, and a
    client has behind a CONNECT what that packet carried, exactly where the section announces
    properties or the old contents were the same. -/
theorem old_contents_iff (a b : MqttPropertyChain) (buf : Bytes) :
    (∀ r, create a buf = .ok r → r.err = .ok → ∃ r', create b buf = .ok r' ∧ r'.err = .ok ∧
      (r'.chain = r.chain ↔ AnnouncesProperties buf ∨ b = a)) ∧
    ∀ broker broker' pClient random,
      handleMqttConnect broker pClient buf random = .ok (broker', .ok) →
      ∃ conn will, connectSections buf = .ok (conn, will) ∧
        (Carried (some conn) (broker'.heap pClient).conn_properties ↔
          Announced (some conn) ∨ (broker.heap pClient).conn_properties = OrderedSet.empty) ∧
        (Carried will (broker'.heap pClient).will_properties ↔
          Announced will ∨ (broker.heap pClient).will_properties = OrderedSet.empty) := by
  constructor
  · intro r h hok
    obtain ⟨r', hr', hok', -, heq⟩ := create_chain_eq_iff (b := b) h hok
    exact ⟨r', hr', hok', heq⟩
  · intro broker broker' pClient random h
    exact connect_carried_iff h

/-- A client on socket 5. -/
def freshClient : Broker := (({ control_sock := 4 } : Broker).addClient 5 [] 0).1

/-- A CONNECT without a client id that has a session expiry interval of one second. -/
def connectWithInterval : Bytes :=
  [0, 4, 0x4D, 0x51, 0x54, 0x54, 5, 2, 0, 60, 5, 0x11, 0, 0, 0, 1, 0, 0]

/-- A CONNECT without a client id that has no properties. -/
def connectWithout : Bytes := [0, 4, 0x4D, 0x51, 0x54, 0x54, 5, 2, 0, 60, 0, 0, 0]

/-- The chain with a session expiry interval of one second. -/
def sessionExpiry : MqttPropertyChain := OrderedSet.empty.insert ⟨0x11, .fourByte 1⟩

/-- An empty section leaves two chains as different as they were, and so the properties of
    a first CONNECT are there behind a second one that has none. -/
theorem old_contents_stay :
    (∃ a b r r', create a [0] = .ok r ∧ r.err = .ok ∧ create b [0] = .ok r' ∧
      r'.chain ≠ r.chain) ∧
    ∃ b₁ b₂ conn will, freshClient.handleMqttConnect 0 connectWithInterval [0x72] = .ok (b₁, .ok) ∧
      b₁.handleMqttConnect 0 connectWithout [0x73] = .ok (b₂, .ok) ∧
      connectSections connectWithout = .ok (conn, will) ∧
      ¬ Carried (some conn) (b₂.heap 0).conn_properties := by
  refine ⟨⟨OrderedSet.empty, sessionExpiry, _, _, create_zero [], rfl, rfl, by decide⟩, ?_⟩
  -- the two packets one after the other, with what the client holds behind them
  have hrun : ((freshClient.handleMqttConnect 0 connectWithInterval [0x72]).toOption.bind
      fun r => (r.1.handleMqttConnect 0 connectWithout [0x73]).toOption.map
        fun r' => (r.2, r'.2, (r'.1.heap 0).conn_properties)) =
      some (.ok, .ok, sessionExpiry) := by decide +kernel
  cases hfirst : freshClient.handleMqttConnect 0 connectWithInterval [0x72] with
  | error e => simp [hfirst, Except.toOption] at hrun
  | ok r =>
    obtain ⟨b₁, err₁⟩ := r
    simp only [hfirst, Except.toOption, Option.bind_some] at hrun
    cases hsecond : b₁.handleMqttConnect 0 connectWithout [0x73] with
    | error e => simp [hsecond] at hrun
    | ok r' =>
      obtain ⟨b₂, err₂⟩ := r'
      simp only [hsecond, Option.map_some, Option.some.injEq, Prod.mk.injEq] at hrun
      obtain ⟨rfl, rfl, hkept⟩ := hrun
      -- the section of the second packet is empty
      have hsections : connectSections connectWithout = .ok ([0, 0, 0], none) := by decide +kernel
      refine ⟨b₁, b₂, [0, 0, 0], none, rfl, hsecond, hsections, ?_⟩
      rw [hkept]
      rintro ⟨r, hr, -, hchain⟩
      obtain rfl := Except.ok.inj ((create_zero [0, 0]).symm.trans hr)
      cases hchain

/-- A session expiry interval decides what is left in a chain, and behind a CONNECT that has
    one the client holds it. -/
theorem old_contents_replaced :
    (∃ r', create sessionExpiry [5, 0x11, 0, 0, 0, 2] = .ok r' ∧
      r'.chain = OrderedSet.empty.insert ⟨0x11, .fourByte 2⟩) ∧
    ∃ b', freshClient.handleMqttConnect 0 connectWithInterval [0x72] = .ok (b', .ok) ∧
      Carried (some (connectWithInterval.drop 10)) (b'.heap 0).conn_properties := by
  constructor
  · obtain ⟨r', hr', -, heq⟩ := (old_contents_iff OrderedSet.empty sessionExpiry
      [5, 0x11, 0, 0, 0, 2]).1 ⟨.ok, 6, OrderedSet.empty.insert ⟨0x11, .fourByte 2⟩⟩
      (by decide +kernel) rfl
    exact ⟨r', hr', heq.mpr (.inl ⟨5, 1, rfl, by decide⟩)⟩
  · have hrun : (freshClient.handleMqttConnect 0 connectWithInterval [0x72]).toOption.map
        Prod.snd = some .ok := by decide +kernel
    cases hfirst : freshClient.handleMqttConnect 0 connectWithInterval [0x72] with
    | error e => simp [hfirst, Except.toOption] at hrun
    | ok r =>
      obtain ⟨b', err⟩ := r
      simp only [hfirst, Except.toOption, Option.map_some, Option.some.injEq] at hrun
      subst hrun
      obtain ⟨conn, will, hsections, hconn, -⟩ := (old_contents_iff OrderedSet.empty
        OrderedSet.empty connectWithInterval).2 freshClient b' 0 [0x72] hfirst
      -- the section of the packet has a property
      have hread : connectSections connectWithInterval =
          .ok (connectWithInterval.drop 10, none) := by decide +kernel
      obtain ⟨rfl, -⟩ := Prod.mk.inj (Except.ok.inj (hsections.symm.trans hread))
      exact ⟨b', rfl, hconn.mpr (.inl ⟨_, rfl, 5, 1, by decide +kernel, by decide⟩)⟩

end Mqtt.Spec
