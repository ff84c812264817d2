import MqttBroker.Spec.ConnectEffect
import MqttBroker.Spec.HeaderRoundTrip

/-!
# CONNECT as it is written

A CONNECT body is a header and a row of fields, of which the flags say which are there.
`HandleMqttConnect` goes from field to field by the sizes that its helpers report, and
two of these are eight bits wide: behind a long client id or a long user name it reads
on inside that field. `ReadsOn` follows it there, and says which bodies are read as they
are written.
-/

namespace Mqtt.Spec

open Mqtt.Native Mqtt.Native.Broker

/-! ## Strings and binary values -/

/-- What stands behind a string. -/
theorem drop_of_encodeString {buf data rest : Bytes} {i : Nat}
    (h : buf.drop i = encodeString data ++ rest) : buf.drop (i + (2 + data.length)) = rest := by
  rw [← List.drop_drop, h]
  exact List.drop_left' (length_encodeString data)

/-- The will message is read like a string. -/
theorem readString_eq_ok_iff_ofBuf {buf : Bytes} {i j : Nat} {entity : MqttBinaryDataEntity} :
    readString buf i = .ok (entity.data, j) ↔ ∃ len, convertToHost2Bytes buf i = .ok len ∧
      MqttBinaryDataEntity.ofBuf len buf (i + 2) = .ok entity ∧ j = i + 2 + len.toNat := by
  constructor
  · intro h
    obtain ⟨len, hlen, h⟩ := Except.bind_eq_ok_iff.mp h
    obtain ⟨bs, hbs, h⟩ := Except.bind_eq_ok_iff.mp h
    obtain ⟨rfl, rfl⟩ := Prod.mk.inj (Except.ok.inj h)
    exact ⟨len, hlen, ofBuf_eq_ok_iff.mpr hbs, rfl⟩
  · rintro ⟨len, hlen, hentity, rfl⟩
    rw [readString, hlen, Except.ok_bind]
    dsimp only
    rw [ofBuf_eq_ok_iff.mp hentity]
    rfl

/-- `CreateMqttStringEntity` finds a string that is not empty, and its size modulo 256. -/
theorem createMqttStringEntity_eq_some_iff {buf data : Bytes} {size : Nat} :
    createMqttStringEntity buf = .ok (some data, size) ↔ data ≠ [] ∧ data.length ≤ 65535 ∧
      size = (2 + data.length) % 256 ∧ ∃ rest, buf = encodeString data ++ rest := by
  have hread := @readString_eq_ok_iff buf data 0 (2 + data.length)
  rw [List.drop_zero, Nat.zero_add] at hread
  simp only [true_and] at hread
  constructor
  · intro h
    obtain ⟨len, hlen, h⟩ := Except.bind_eq_ok_iff.mp h
    split at h
    · cases h
    · rename_i hne
      obtain ⟨bs, hbs, h⟩ := Except.bind_eq_ok_iff.mp h
      obtain ⟨hdata, rfl⟩ := Prod.mk.inj (Except.ok.inj h)
      obtain rfl := Option.some.inj hdata
      have hlength := (drop_of_readBytes hbs).2
      -- the same bytes, read as a string
      have hstring : readString buf 0 = .ok (bs, 2 + bs.length) := by
        simp only [readString, hlen, Except.ok_bind, Nat.zero_add, hbs, Except.pure_eq_ok, hlength]
      obtain ⟨hle, hrest⟩ := hread.mp hstring
      refine ⟨?_, hle, by rw [hlength], hrest⟩
      rintro rfl
      exact hne (UInt16.toNat_inj.mp hlength.symm)
  · -- a string that is not empty is read like any other
    rintro ⟨hne, hle, rfl, hrest⟩
    obtain ⟨len, hlen, h⟩ := Except.bind_eq_ok_iff.mp (hread.mpr ⟨hle, hrest⟩)
    obtain ⟨bs, hbs, h⟩ := Except.bind_eq_ok_iff.mp h
    obtain ⟨rfl, hsize⟩ := Prod.mk.inj (Except.ok.inj h)
    have hlength := (drop_of_readBytes hbs).2
    have hzero : len ≠ 0 := by
      rintro rfl
      exact hne (List.length_eq_zero_iff.mp hlength)
    rw [Nat.zero_add] at hbs
    rw [createMqttStringEntity, hlen, Except.ok_bind, if_neg hzero, hbs, hlength]
    rfl

/-- `CreateMqttBinaryDataEntity` finds the same bytes. -/
theorem createMqttBinaryDataEntity_eq_some_iff {buf : Bytes} {entity : MqttBinaryDataEntity}
    {size : Nat} : createMqttBinaryDataEntity buf = .ok (some entity, size) ↔
      createMqttStringEntity buf = .ok (some entity.data, size) := by
  unfold createMqttBinaryDataEntity createMqttStringEntity
  -- both readers take a length and the bytes behind it
  constructor
  · intro h
    obtain ⟨len, hlen, h⟩ := Except.bind_eq_ok_iff.mp h
    rw [hlen, Except.ok_bind]
    split at h
    · cases h
    · -- the length is not 0
      rename_i hne
      obtain ⟨e, he, h⟩ := Except.bind_eq_ok_iff.mp h
      obtain ⟨hdata, rfl⟩ := Prod.mk.inj (Except.ok.inj h)
      obtain rfl := Option.some.inj hdata
      rw [if_neg hne, ofBuf_eq_ok_iff.mp he]
      rfl
  · intro h
    obtain ⟨len, hlen, h⟩ := Except.bind_eq_ok_iff.mp h
    rw [hlen, Except.ok_bind]
    split at h
    · cases h
    · rename_i hne
      obtain ⟨bs, hbs, h⟩ := Except.bind_eq_ok_iff.mp h
      obtain ⟨hdata, rfl⟩ := Prod.mk.inj (Except.ok.inj h)
      obtain rfl := Option.some.inj hdata
      rw [if_neg hne, ofBuf_eq_ok_iff.mpr hbs]
      rfl

/-- An empty string is taken for none. -/
theorem createMqttStringEntity_nil (rest : Bytes) :
    createMqttStringEntity (encodeString [] ++ rest) = .ok (none, 0) := by
  have hlen : convertToHost2Bytes (encodeString [] ++ rest) 0 = .ok 0 :=
    convertToHost2Bytes_of_drop rfl
  rw [createMqttStringEntity, hlen]
  rfl

/-! ## Property sections -/

/-- A property section that `Create` decodes exactly, whatever follows it. -/
structure PropertySection where
  bytes : Bytes
  chain : MqttPropertyChain
  exact : ∀ rest, MqttPropertyChain.create OrderedSet.empty (bytes ++ rest) =
    .ok ⟨.ok, bytes.length, chain⟩

/-- A chain with a property in it is not empty. -/
theorem addProperty_ne_empty (chain : MqttPropertyChain) (p : MqttProperty) :
    chain.addProperty p ≠ OrderedSet.empty := by
  intro h
  obtain ⟨c, hc, -⟩ := OrderedSet.exists_key_insert.mpr (.inl rfl : p.id = p.id ∨
    ∃ c ∈ chain.toList, c.id = p.id)
  rw [show chain.insert p = OrderedSet.empty from h] at hc
  cases hc

/-- A loop that makes a round leaves a property behind. -/
theorem chain_ne_empty_of_createLoop {buf : Bytes} {r : MqttPropertyChain.Created}
    (hok : r.err = .ok) {fuel : Nat} : ∀ {left pos : Nat} {chain : MqttPropertyChain},
      MqttPropertyChain.createLoop buf fuel left pos chain = .ok r →
      0 < left ∨ chain ≠ OrderedSet.empty → r.chain ≠ OrderedSet.empty := by
  induction fuel with
  | zero => intro left pos chain h; exact nomatch h
  | succ fuel ih =>
    intro left pos chain h hstart
    rcases createLoop_inv h with ⟨rfl, rfl⟩ | ⟨-, -, rfl⟩ | ⟨-, p, bs, rest, -, -, h⟩
    · exact hstart.resolve_left (Nat.lt_irrefl 0)
    · exact nomatch hok
    · exact ih h (.inr (addProperty_ne_empty chain p))

/-- An empty section leaves the properties that were there before, any other one
    replaces them. -/
theorem PropertySection.create_eq (s : PropertySection) (chain : MqttPropertyChain)
    (rest : Bytes) : chain.create (s.bytes ++ rest) =
      .ok ⟨.ok, s.bytes.length, if s.chain = OrderedSet.empty then chain else s.chain⟩ := by
  have hexact := s.exact rest
  rw [MqttPropertyChain.create, MqttPropertyChain.createFuel] at hexact ⊢
  obtain ⟨decoded, hlen, h⟩ := Except.bind_eq_ok_iff.mp hexact
  rw [hlen, Except.ok_bind]
  cases decoded with
  | none => cases Except.ok.inj h
  | some field =>
    obtain ⟨len, k⟩ := field
    dsimp only at h ⊢
    -- only a section with properties clears the chain it is read into
    by_cases hpos : len > 0
    · rw [if_pos hpos] at h ⊢
      rw [if_neg (chain_ne_empty_of_createLoop rfl h (.inl hpos)), h]
    · rw [if_neg hpos] at h ⊢
      simp only [Except.pure_eq_ok, Except.ok.injEq, MqttPropertyChain.Created.mk.injEq,
        true_and] at h
      rw [if_pos h.2.symm, h.1]
      rfl

/-! ## Bodies -/

/-- What a well-formed CONNECT body of version 5 encodes. Of the fields behind the client
    id the body has those that the flags announce. -/
structure ConnectBody where
  prot_name_len : UInt16
  name : Bytes
  flags : UInt8
  alive : UInt16
  properties : PropertySection
  client_id : Bytes
  will_properties : PropertySection
  will_topic : Bytes
  will_message : MqttBinaryDataEntity
  user_name : Bytes
  pwd : MqttBinaryDataEntity
  name_length : name.length = 4
  client_id_le : client_id.length ≤ 65535
  will_topic_le : will_topic.length ≤ 65535
  user_name_le : user_name.length ≤ 65535
  will_qos_le : (flags &&& 0x18) >>> 3 ≤ 2

namespace ConnectBody

/-- Bit 7 of the flags. -/
def isUserNameFlag (m : ConnectBody) : Bool := m.flags &&& 0x80 != 0
/-- Bit 6 of the flags. -/
def isPwdFlag (m : ConnectBody) : Bool := m.flags &&& 0x40 != 0
/-- Bits 3 and 4 of the flags. -/
def willQoSFlag (m : ConnectBody) : UInt8 := (m.flags &&& 0x18) >>> 3
/-- Bit 2 of the flags. -/
def isWillFlag (m : ConnectBody) : Bool := m.flags &&& 0x4 != 0
/-- Bit 1 of the flags. -/
def isCleanFlag (m : ConnectBody) : Bool := m.flags &&& 0x2 != 0

/-- The header in front of the fields. -/
def header (m : ConnectBody) : ConnectVH := ⟨m.prot_name_len, m.name, 5, m.flags, m.alive⟩

/-- The bytes of the will. -/
def will (m : ConnectBody) : Bytes :=
  if m.isWillFlag then
    m.will_properties.bytes ++ (encodeString m.will_topic ++ encodeString m.will_message.data)
  else []

/-- The bytes of the user name and the password. -/
def login (m : ConnectBody) : Bytes :=
  (if m.isUserNameFlag then encodeString m.user_name else []) ++
    (if m.isPwdFlag then encodeString m.pwd.data else [])

/-- The bytes from the client id on. -/
def fields (m : ConnectBody) : Bytes := encodeString m.client_id ++ (m.will ++ m.login)

/-- The body. -/
def encode (m : ConnectBody) : Bytes :=
  encodeConnect m.header ++ (m.properties.bytes ++ m.fields)

end ConnectBody

/-- The will of a client after a CONNECT is what the body encodes, or was there before
    when the body has none. -/
def HoldsWill (m : ConnectBody) (c c' : Client) : Prop :=
  if m.isWillFlag then
    c'.will_properties = m.will_properties.chain ∧ c'.will_topic.name = m.will_topic ∧
      c'.will_topic.data = some m.will_message ∧ c'.will_topic.qos = m.willQoSFlag
  else c'.will_properties = c.will_properties ∧ c'.will_topic = c.will_topic

/-- The same for the user name and the password. -/
def HoldsLogin (m : ConnectBody) (c c' : Client) : Prop :=
  c'.user_name = (if m.isUserNameFlag then some m.user_name else c.user_name) ∧
    c'.pwd = if m.isPwdFlag then some m.pwd else c.pwd

/-- A client `c` has become `c'` by a CONNECT: it holds what the body encodes. -/
structure Holds (m : ConnectBody) (random : Bytes) (c c' : Client) : Prop where
  flags : c'.flags = m.flags
  alive : c'.alive = m.alive
  conn_properties : c'.conn_properties = m.properties.chain
  client_id : c'.client_id = if m.client_id = [] then random else m.client_id
  will : HoldsWill m c c'
  login : HoldsLogin m c c'

/-- `HandleMqttConnect` returns ok for a body, and the client holds what it encodes. -/
def ParsedAsWritten (b : Broker) (pClient : ClientRef) (m : ConnectBody) (random : Bytes) : Prop :=
  ∃ b', b.handleMqttConnect pClient m.encode random = .ok (b', .ok) ∧
    Holds m random (b.heap pClient) (b'.heap pClient)

/-! ## Where the fields are read -/

/-- At the head of `buf` stands the will of a body, for a client that has the properties
    `chain`; it takes `n` bytes. -/
def WillAt (m : ConnectBody) (chain : MqttPropertyChain) (buf : Bytes) (n : Nat) : Prop :=
  if m.isWillFlag then
    ∃ size rest, chain.create buf = .ok ⟨.ok, size, m.will_properties.chain⟩ ∧
      buf.drop size =
        encodeString m.will_topic ++ (encodeString m.will_message.data ++ rest) ∧
      n = size + (2 + m.will_topic.length) + (2 + m.will_message.data.length)
  else n = 0

/-- At the head of `buf` stands a user name, and the password where its size modulo 256
    leads to. Neither is empty. A password alone is not read, so the client has it. -/
def LoginAt (m : ConnectBody) (pwd : Option MqttBinaryDataEntity) (buf : Bytes) : Prop :=
  if m.isUserNameFlag then
    (m.user_name ≠ [] ∧ ∃ rest, buf = encodeString m.user_name ++ rest) ∧
      (m.isPwdFlag → m.pwd.data ≠ [] ∧ ∃ rest,
        buf.drop ((2 + m.user_name.length) % 256) = encodeString m.pwd.data ++ rest)
  else m.isPwdFlag → pwd = some m.pwd

section stages

variable {b b' : Broker} {pClient : ClientRef} {m : ConnectBody} {buf : Bytes} {offset : Nat}

/-- The will changes the will of the client and nothing else of it. -/
theorem handleConnectWill_heap {err : MqttErr} {offset' : Nat}
    (h : b.handleConnectWill pClient buf offset = .ok (b', err, offset')) :
    ∃ will_properties will_topic,
      b'.heap pClient = { b.heap pClient with will_properties, will_topic } := by
  unfold handleConnectWill at h
  -- without the flag no will is read
  by_cases hwill : (b.heap pClient).isWillFlag
  · rw [if_pos hwill] at h
    obtain ⟨created, -, h⟩ := Except.bind_eq_ok_iff.mp h
    dsimp only at h
    split at h
    · obtain ⟨rfl, -⟩ := Prod.mk.inj (Except.ok.inj h)
      exact ⟨_, _, heap_setClient_self ..⟩
    · obtain ⟨⟨name, offset₁⟩, -, h⟩ := Except.bind_eq_ok_iff.mp h
      obtain ⟨len, -, h⟩ := Except.bind_eq_ok_iff.mp h
      obtain ⟨entity, -, h⟩ := Except.bind_eq_ok_iff.mp h
      obtain ⟨rfl, -⟩ := Prod.mk.inj (Except.ok.inj h)
      rw [setClient_setClient, heap_setClient_self, heap_setClient_self]
      exact ⟨_, _, rfl⟩
  · rw [if_neg hwill] at h
    obtain ⟨rfl, -⟩ := Prod.mk.inj (Except.ok.inj h)
    exact ⟨_, _, rfl⟩

/-- The login changes the user name and the password of the client and nothing else of
    it. -/
theorem handleConnectLogin_heap {err : MqttErr}
    (h : b.handleConnectLogin pClient buf offset = .ok (b', err)) :
    ∃ user_name pwd, b'.heap pClient = { b.heap pClient with user_name, pwd } := by
  unfold handleConnectLogin at h
  -- the password is looked for behind a user name only
  by_cases huser : (b.heap pClient).isUserNameFlag
  · rw [if_pos huser] at h
    obtain ⟨⟨user_name, user_name_len⟩, -, h⟩ := Except.bind_eq_ok_iff.mp h
    dsimp only at h
    split at h
    · obtain ⟨rfl, -⟩ := Prod.mk.inj (Except.ok.inj h)
      exact ⟨_, _, rfl⟩
    · rw [heap_setClient_self] at h
      split at h
      · obtain ⟨⟨pwd, pwd_len⟩, -, h⟩ := Except.bind_eq_ok_iff.mp h
        dsimp only at h
        split at h
        · obtain ⟨rfl, -⟩ := Prod.mk.inj (Except.ok.inj h)
          exact ⟨_, _, heap_setClient_self ..⟩
        · obtain ⟨rfl, -⟩ := Prod.mk.inj (Except.ok.inj h)
          rw [setClient_setClient, heap_setClient_self]
          exact ⟨_, _, rfl⟩
      · obtain ⟨rfl, -⟩ := Prod.mk.inj (Except.ok.inj h)
        exact ⟨_, _, heap_setClient_self ..⟩
  · rw [if_neg huser] at h
    obtain ⟨rfl, -⟩ := Prod.mk.inj (Except.ok.inj h)
    exact ⟨_, _, rfl⟩

variable (hflags : (b.heap pClient).flags = m.flags)
include hflags

/-- The client has the will flag of the body. -/
theorem isWillFlag_eq : (b.heap pClient).isWillFlag = m.isWillFlag := by
  rw [Client.isWillFlag, ConnectBody.isWillFlag, hflags]

/-- The client has the user name flag of the body. -/
theorem isUserNameFlag_eq : (b.heap pClient).isUserNameFlag = m.isUserNameFlag := by
  rw [Client.isUserNameFlag, ConnectBody.isUserNameFlag, hflags]

/-- The client has the password flag of the body. -/
theorem isPwdFlag_eq : (b.heap pClient).isPwdFlag = m.isPwdFlag := by
  rw [Client.isPwdFlag, ConnectBody.isPwdFlag, hflags]

/-- The will is read as it is written exactly when it stands at the offset. -/
theorem handleConnectWill_iff {offset' : Nat} :
    (∃ b', b.handleConnectWill pClient buf offset = .ok (b', .ok, offset') ∧
      HoldsWill m (b.heap pClient) (b'.heap pClient)) ↔
    ∃ n, WillAt m (b.heap pClient).will_properties (buf.drop offset) n ∧ offset' = offset + n := by
  have hwill := isWillFlag_eq hflags
  unfold handleConnectWill HoldsWill WillAt
  rw [hwill]
  cases m.isWillFlag with
  | false =>
    simp only [Bool.false_eq_true, ↓reduceIte, Except.pure_eq_ok]
    constructor
    · rintro ⟨b', h, -⟩
      exact ⟨0, rfl, (Prod.mk.inj (Prod.mk.inj (Except.ok.inj h)).2).2.symm⟩
    · rintro ⟨n, rfl, rfl⟩
      exact ⟨b, rfl, rfl, rfl⟩
  | true =>
    simp only [↓reduceIte]
    constructor
    · rintro ⟨b', h, hchain, hname, hdata, -⟩
      obtain ⟨⟨err, size, chain⟩, hcreated, h⟩ := Except.bind_eq_ok_iff.mp h
      dsimp only at h
      split at h
      · rename_i herr
        exact absurd (Prod.mk.inj (Prod.mk.inj (Except.ok.inj h)).2).1 herr
      · rename_i herr
        obtain rfl := not_not.mp herr
        obtain ⟨⟨topic, offset₁⟩, htopic, h⟩ := Except.bind_eq_ok_iff.mp h
        obtain ⟨len, hlen, h⟩ := Except.bind_eq_ok_iff.mp h
        obtain ⟨message, hmessage, h⟩ := Except.bind_eq_ok_iff.mp h
        simp only [Except.pure_eq_ok, Except.ok.injEq, Prod.mk.injEq, true_and] at h
        obtain ⟨rfl, rfl⟩ := h
        simp only [setClient_setClient, heap_setClient_self, MqttTopic.new] at hchain hname hdata
        obtain rfl := Option.some.inj hdata
        subst hchain hname
        -- both strings stand one behind the other
        obtain ⟨-, rfl, rest, hdrop⟩ := readString_eq_ok_iff.mp htopic
        have hread := readString_eq_ok_iff_ofBuf.mpr ⟨len, hlen, hmessage, rfl⟩
        obtain ⟨-, hend, rest', hdrop'⟩ := readString_eq_ok_iff.mp hread
        rw [drop_of_encodeString hdrop] at hdrop'
        refine ⟨_, ⟨size, rest', hcreated, ?_, rfl⟩, by omega⟩
        rw [List.drop_drop, hdrop, hdrop']
    · -- what the body says is read and held
      rintro ⟨n, ⟨size, rest, hcreated, hdrop, rfl⟩, rfl⟩
      rw [List.drop_drop] at hdrop
      have htopic := readString_of_drop m.will_topic_le hdrop
      have hread := readString_of_drop (Nat.le_of_lt_succ m.will_message.size_lt)
        (drop_of_encodeString hdrop)
      obtain ⟨len, hlen, hmessage, hend⟩ := readString_eq_ok_iff_ofBuf.mp hread
      -- the constructor of the body keeps the QoS below 3
      have hqos : ¬ m.willQoSFlag > 2 := UInt8.not_lt.mpr m.will_qos_le
      have hoffset : offset + size + (2 + m.will_topic.length) + 2 + len.toNat =
          offset + (size + (2 + m.will_topic.length) + (2 + m.will_message.data.length)) := by
        omega
      rw [hcreated, Except.ok_bind]
      simp only [ne_eq, not_true_eq_false, ↓reduceIte, htopic, Except.ok_bind, hlen, hmessage,
        Except.pure_eq_ok, hoffset]
      refine ⟨_, rfl, ?_⟩
      simp only [setClient_setClient, heap_setClient_self, MqttTopic.new, true_and]
      rw [Client.willQoSFlag, hflags]
      exact if_neg hqos

/-- The user name and the password are read as they are written exactly when they stand
    at the offset, and neither is empty. -/
theorem handleConnectLogin_iff :
    (∃ b', b.handleConnectLogin pClient buf offset = .ok (b', .ok) ∧
      HoldsLogin m (b.heap pClient) (b'.heap pClient)) ↔
    LoginAt m (b.heap pClient).pwd (buf.drop offset) := by
  have huser := isUserNameFlag_eq hflags
  unfold handleConnectLogin HoldsLogin LoginAt
  rw [huser]
  -- the flags of the packet decide how many strings are read
  cases m.isUserNameFlag with
  | false =>
    simp only [Bool.false_eq_true, ↓reduceIte, Except.pure_eq_ok]
    constructor
    · rintro ⟨b', h, -, hheld⟩ hpwd
      obtain rfl := (Prod.mk.inj (Except.ok.inj h)).1
      rw [hheld, if_pos hpwd]
    · intro hheld
      refine ⟨b, rfl, rfl, ?_⟩
      split
      · rename_i hpwd
        exact hheld hpwd
      · rfl
  | true =>
    have hpwd : ∀ user_name, Client.isPwdFlag { b.heap pClient with user_name } = m.isPwdFlag :=
      fun _ => isPwdFlag_eq hflags
    simp only [↓reduceIte]
    constructor
    · -- what was read and is held is what the body says
      rintro ⟨b', h, hname, hheld⟩
      obtain ⟨⟨user_name, size⟩, hread, h⟩ := Except.bind_eq_ok_iff.mp h
      cases user_name with
      | none => cases h
      | some user_name =>
        simp only [Option.isNone_some, Bool.false_eq_true, ↓reduceIte, heap_setClient_self,
          hpwd] at h
        obtain ⟨hne, -, hsize, hrest⟩ := createMqttStringEntity_eq_some_iff.mp hread
        split at h
        · rename_i hflag
          obtain ⟨⟨pwd, size'⟩, hread', h⟩ := Except.bind_eq_ok_iff.mp h
          cases pwd with
          | none => cases h
          | some pwd =>
            obtain ⟨rfl, -⟩ := Prod.mk.inj (Except.ok.inj h)
            rw [setClient_setClient, heap_setClient_self] at hname hheld
            rw [if_pos hflag] at hheld
            obtain rfl := Option.some.inj hname
            obtain rfl := Option.some.inj hheld
            obtain ⟨hne', -, -, hrest'⟩ := createMqttStringEntity_eq_some_iff.mp
              (createMqttBinaryDataEntity_eq_some_iff.mp hread')
            -- the offset behind the user name is where the password starts
            rw [hsize, ← List.drop_drop] at hrest'
            exact ⟨⟨hne, hrest⟩, fun _ => ⟨hne', hrest'⟩⟩
        · rename_i hflag
          obtain ⟨rfl, -⟩ := Prod.mk.inj (Except.ok.inj h)
          rw [heap_setClient_self] at hname
          obtain rfl := Option.some.inj hname
          exact ⟨⟨hne, hrest⟩, fun hpos => absurd hpos hflag⟩
    · -- what the body says is read and held
      rintro ⟨⟨hne, hrest⟩, hlogin⟩
      have hread := createMqttStringEntity_eq_some_iff.mpr ⟨hne, m.user_name_le, rfl, hrest⟩
      simp only [hread, Except.ok_bind, Option.isNone_some, Bool.false_eq_true, ↓reduceIte,
        heap_setClient_self, hpwd, Except.pure_eq_ok]
      by_cases hflag : m.isPwdFlag = true
      · obtain ⟨hne', hrest'⟩ := hlogin hflag
        rw [List.drop_drop] at hrest'
        have hread' := createMqttBinaryDataEntity_eq_some_iff.mpr
          (createMqttStringEntity_eq_some_iff.mpr
            ⟨hne', Nat.le_of_lt_succ m.pwd.size_lt, rfl, hrest'⟩)
        simp only [hflag, ↓reduceIte, hread', Except.ok_bind, Option.isNone_some,
          Bool.false_eq_true]
        refine ⟨_, rfl, ?_⟩
        rw [setClient_setClient, heap_setClient_self]
        exact ⟨rfl, rfl⟩
      · simp only [hflag, Bool.false_eq_true, ↓reduceIte]
        refine ⟨_, rfl, ?_⟩
        rw [heap_setClient_self]
        exact ⟨rfl, rfl⟩

end stages

/-! ## The client id -/

/-- The client id as `CreateMqttStringEntity` gives it back. -/
def ConnectBody.id (m : ConnectBody) : Option Bytes :=
  if m.client_id = [] then none else some m.client_id

/-- What `HandleMqttConnect` goes over for a client id of `n` bytes. -/
def idSkip (n : Nat) : Nat := if (2 + n) % 256 ≠ 0 then (2 + n) % 256 else 2

/-- A client id that is accepted is the client's; of the rest of it only the mark of a
    generated id may change. -/
theorem handleConnectId_heap {b b' : Broker} {pClient : ClientRef} {id : Option Bytes}
    {random : Bytes} (h : b.handleConnectId pClient id random = .ok (b', .ok)) :
    ∃ generated, b'.heap pClient = { b.heap pClient with
      client_id := id.getD random, id_was_random_generated := generated } := by
  obtain ⟨hne, -⟩ | ⟨-, hidentified⟩ := handleConnectId_effect h
  · exact absurd rfl hne
  · cases hidentified with
    | unused | takenOver | generated => exact ⟨_, heap_setClient_self ..⟩

/-- A client id is accepted when no client has it or the older connection is closed. -/
theorem handleConnectId_ok_iff {b : Broker} {pClient : ClientRef} {id : Option Bytes}
    {random : Bytes} : (∃ b', b.handleConnectId pClient id random = .ok (b', .ok)) ↔
      ∀ i, id = some i → ∃ check_fd, b.getClientFd i = .ok check_fd ∧
        (check_fd = -1 ∨ (b.heap pClient).isCleanFlag) := by
  constructor
  · -- an id that was accepted is unused, or taken over
    rintro ⟨b', h⟩ i rfl
    obtain ⟨hne, -⟩ | ⟨-, hidentified⟩ := handleConnectId_effect h
    · exact absurd rfl hne
    · cases hidentified with
      | unused hfd => exact ⟨_, hfd, .inl rfl⟩
      | takenOver hfd _ hclean => exact ⟨_, hfd, .inr hclean⟩
  · intro h
    cases id with
    | none => exact ⟨_, rfl⟩
    | some i =>
      -- an id that is unused, or that Clean Start takes over
      obtain ⟨check_fd, hfd, hok⟩ := h i rfl
      unfold handleConnectId
      simp only [hfd, Except.ok_bind]
      by_cases hnone : check_fd = -1
      · rw [if_neg (not_not.mpr hnone)]
        exact ⟨_, rfl⟩
      · rw [if_pos hnone, if_pos (hok.resolve_left hnone)]
        exact ⟨_, rfl⟩

/-- The client id is read from the fields, and the offset goes behind it. -/
theorem createMqttStringEntity_fields (m : ConnectBody) : ∃ id_len,
    createMqttStringEntity m.fields = .ok (m.id, id_len) ∧
      ∀ offset, (if id_len ≠ 0 then offset + id_len else offset + 2) =
        offset + idSkip m.client_id.length := by
  unfold ConnectBody.fields ConnectBody.id idSkip
  by_cases hid : m.client_id = []
  · rw [hid, if_pos rfl]
    exact ⟨0, createMqttStringEntity_nil _, fun _ => rfl⟩
  · rw [if_neg hid]
    refine ⟨(2 + m.client_id.length) % 256, createMqttStringEntity_eq_some_iff.mpr
      ⟨hid, m.client_id_le, rfl, _, rfl⟩, fun offset => ?_⟩
    split <;> rfl

/-! ## The whole body -/

/-- The client when its id is read. -/
def ConnectBody.opened (m : ConnectBody) (c : Client) : Client :=
  { c with
    mqtt_version := 5
    alive := m.alive
    flags := m.flags
    conn_properties :=
      if m.properties.chain = OrderedSet.empty then c.conn_properties else m.properties.chain }

/-- Where the fields of a body are. -/
theorem drop_encode (m : ConnectBody) (i : Nat) :
    m.encode.drop (10 + m.properties.bytes.length + i) = m.fields.drop i := by
  rw [ConnectBody.encode, ← List.append_assoc, ← List.drop_drop, List.drop_left']
  rw [List.length_append, length_encodeConnect m.name_length]

/-- The body is read up to its client id, and goes on behind the bytes that are gone over
    for it. -/
theorem handleMqttConnect_encode (b : Broker) (pClient : ClientRef) (m : ConnectBody)
    (random : Bytes) : b.handleMqttConnect pClient m.encode random =
      ((b.setClient pClient (m.opened (b.heap pClient))).handleConnectId pClient m.id random >>=
        fun r => if r.2 ≠ .ok then .ok (r.1, r.2) else
          r.1.handleConnectWill pClient m.encode
            (10 + m.properties.bytes.length + idSkip m.client_id.length) >>=
          fun r => if r.2.1 ≠ .ok then .ok (r.1, r.2.1) else
            r.1.handleConnectLogin pClient m.encode r.2.2) := by
  have hread : ConnectVH.readFromBuf m.encode = .ok (m.header, 10) :=
    readFromBuf_encodeConnect m.name_length _
  have hsection : m.encode.drop 10 = m.properties.bytes ++ m.fields :=
    List.drop_left' (length_encodeConnect m.name_length)
  have hfields := drop_encode m 0
  rw [Nat.add_zero, List.drop_zero] at hfields
  obtain ⟨id_len, hid, hskip⟩ := createMqttStringEntity_fields m
  rw [← hfields] at hid
  rw [handleMqttConnect_eq hread rfl (hsection ▸ m.properties.create_eq _ _) rfl hid, hskip]
  rfl

/-- A CONNECT ends well when its three stages do. -/
theorem handleMqttConnect_encode_ok_iff {b b' : Broker} {pClient : ClientRef} {m : ConnectBody}
    {random : Bytes} : b.handleMqttConnect pClient m.encode random = .ok (b', .ok) ↔
      ∃ b₃ b₄ offset, (b.setClient pClient (m.opened (b.heap pClient))).handleConnectId pClient
          m.id random = .ok (b₃, .ok) ∧
        b₃.handleConnectWill pClient m.encode
          (10 + m.properties.bytes.length + idSkip m.client_id.length) = .ok (b₄, .ok, offset) ∧
        b₄.handleConnectLogin pClient m.encode offset = .ok (b', .ok) := by
  rw [handleMqttConnect_encode]
  constructor
  · intro h
    -- a CONNECT without an error has passed all three stages
    obtain ⟨⟨b₃, err₃⟩, hid, h⟩ := Except.bind_eq_ok_iff.mp h
    dsimp only at h
    split at h
    · rename_i hne
      exact absurd (Prod.mk.inj (Except.ok.inj h)).2 hne
    · rename_i herr
      obtain rfl := not_not.mp herr
      obtain ⟨⟨b₄, err₄, offset⟩, hwill, h⟩ := Except.bind_eq_ok_iff.mp h
      dsimp only at h
      split at h
      · rename_i hne
        exact absurd (Prod.mk.inj (Except.ok.inj h)).2 hne
      · rename_i herr
        obtain rfl := not_not.mp herr
        exact ⟨b₃, b₄, offset, hid, hwill, h⟩
  · -- three stages that end with ok are run one after the other
    rintro ⟨b₃, b₄, offset, hid, hwill, hlogin⟩
    simp only [hid, Except.ok_bind, ne_eq, not_true_eq_false, ↓reduceIte, hwill, hlogin]

/-- The body is read as it is written: what it encodes is found where the reader goes. -/
structure ReadsOn (b : Broker) (pClient : ClientRef) (m : ConnectBody) : Prop where
  /-- A client id that is not empty is no client's, or the older connection is closed. -/
  accepted : m.client_id ≠ [] → ∃ check_fd, b.getClientFd m.client_id = .ok check_fd ∧
    (check_fd = -1 ∨ m.isCleanFlag)
  /-- An empty property section comes to a client without properties. -/
  properties : m.properties.chain = OrderedSet.empty →
    (b.heap pClient).conn_properties = OrderedSet.empty
  /-- The will and the login stand behind the bytes that are gone over for the id. -/
  fields : ∃ n, WillAt m (b.heap pClient).will_properties
      (m.fields.drop (idSkip m.client_id.length)) n ∧
    LoginAt m (b.heap pClient).pwd (m.fields.drop (idSkip m.client_id.length + n))

/-- The id is accepted with the flags of the body. -/
theorem handleConnectId_opened_iff {b : Broker} {pClient : ClientRef} {m : ConnectBody}
    {random : Bytes} : (∃ b', (b.setClient pClient (m.opened (b.heap pClient))).handleConnectId
      pClient m.id random = .ok (b', .ok)) ↔ (m.client_id ≠ [] → ∃ check_fd,
        b.getClientFd m.client_id = .ok check_fd ∧ (check_fd = -1 ∨ m.isCleanFlag)) := by
  have hget : ∀ i, (b.setClient pClient (m.opened (b.heap pClient))).getClientFd i =
      b.getClientFd i := getClientFd_congr rfl (heap_setClient_congr rfl)
  rw [handleConnectId_ok_iff, heap_setClient_self, ConnectBody.id]
  simp only [hget]
  constructor
  · -- only an id that was sent can be in use
    intro h hne
    exact h _ (if_neg hne)
  · intro h i hi
    split at hi
    · cases hi
    · rename_i hne
      obtain rfl := Option.some.inj hi
      exact h hne

/-- What the client of a CONNECT holds, stage by stage. -/
theorem holds_iff_of_stages {m : ConnectBody} {random : Bytes} {c c₃ c₄ c' : Client}
    {generated : Bool} {will_properties : MqttPropertyChain} {will_topic : MqttTopic}
    {user_name : Option Bytes} {pwd : Option MqttBinaryDataEntity}
    (hid : c₃ = { m.opened c with
      client_id := m.id.getD random, id_was_random_generated := generated })
    (hwill : c₄ = { c₃ with will_properties, will_topic })
    (hlogin : c' = { c₄ with user_name, pwd }) :
    Holds m random c c' ↔
      (m.properties.chain = OrderedSet.empty → c.conn_properties = OrderedSet.empty) ∧
        HoldsWill m c₃ c₄ ∧ HoldsLogin m c₄ c' := by
  subst hid hwill hlogin
  constructor
  · intro h
    -- the connection properties are those of the body unless it has none
    refine ⟨fun hempty => ?_, h.will, h.login⟩
    have hheld := h.conn_properties
    simpa only [ConnectBody.opened, hempty, ↓reduceIte] using hheld
  · rintro ⟨hproperties, hwill, hlogin⟩
    refine ⟨rfl, rfl, ?_, ?_, hwill, hlogin⟩
    · show (if _ then _ else _) = _
      split
      · rename_i hempty
        rw [hproperties hempty, hempty]
      · rfl
    · show m.id.getD random = _
      rw [ConnectBody.id]
      split <;> rfl

/-- `HandleMqttConnect` returns ok and the client holds what a CONNECT body encodes if and
    only if the client id is accepted, an empty property section comes to a client that has
    no properties, and the will and the login that the flags announce stand where the
    handler goes on behind the client id and the user name. -/
theorem connect_parsed_iff (b : Broker) (pClient : ClientRef) (m : ConnectBody)
    (random : Bytes) : ParsedAsWritten b pClient m random ↔ ReadsOn b pClient m := by
  have hid : ∀ {b₃}, (b.setClient pClient (m.opened (b.heap pClient))).handleConnectId pClient m.id
      random = .ok (b₃, .ok) → ∃ generated, b₃.heap pClient = { m.opened (b.heap pClient) with
        client_id := m.id.getD random, id_was_random_generated := generated } := by
    intro b₃ h
    obtain ⟨generated, hheap⟩ := handleConnectId_heap h
    rw [heap_setClient_self] at hheap
    exact ⟨generated, hheap⟩
  -- the three stages one after the other, each on the client that the one before has left
  constructor
  · rintro ⟨b', h, hholds⟩
    obtain ⟨b₃, b₄, offset, hid₃, hwill, hlogin⟩ := handleMqttConnect_encode_ok_iff.mp h
    obtain ⟨generated, hheap₃⟩ := hid hid₃
    obtain ⟨will_properties, will_topic, hheap₄⟩ := handleConnectWill_heap hwill
    obtain ⟨user_name, pwd, hheap'⟩ := handleConnectLogin_heap hlogin
    obtain ⟨hproperties, hholdsWill, hholdsLogin⟩ :=
      (holds_iff_of_stages hheap₃ hheap₄ hheap').mp hholds
    -- no stage changes the flags
    have hflags₃ : (b₃.heap pClient).flags = m.flags := by rw [hheap₃]; rfl
    have hflags₄ : (b₄.heap pClient).flags = m.flags := by rw [hheap₄, hheap₃]; rfl
    obtain ⟨n, hwillAt, rfl⟩ := (handleConnectWill_iff hflags₃).mp ⟨b₄, hwill, hholdsWill⟩
    have hloginAt := (handleConnectLogin_iff hflags₄).mp ⟨b', hlogin, hholdsLogin⟩
    rw [drop_encode, hheap₃] at hwillAt
    rw [Nat.add_assoc _ (idSkip _), drop_encode, hheap₄, hheap₃] at hloginAt
    exact ⟨handleConnectId_opened_iff.mp ⟨b₃, hid₃⟩, hproperties, n, hwillAt, hloginAt⟩
  · -- the other way round each stage is one that ends well
    rintro ⟨haccepted, hproperties, n, hwillAt, hloginAt⟩
    obtain ⟨b₃, hid₃⟩ := handleConnectId_opened_iff.mpr haccepted
    obtain ⟨generated, hheap₃⟩ := hid hid₃
    have hflags₃ : (b₃.heap pClient).flags = m.flags := by rw [hheap₃]; rfl
    have hwillAt₃ : WillAt m (b₃.heap pClient).will_properties (m.encode.drop
        (10 + m.properties.bytes.length + idSkip m.client_id.length)) n := by
      rw [drop_encode, hheap₃]
      exact hwillAt
    obtain ⟨b₄, hwill, hholdsWill⟩ := (handleConnectWill_iff hflags₃).mpr ⟨n, hwillAt₃, rfl⟩
    obtain ⟨will_properties, will_topic, hheap₄⟩ := handleConnectWill_heap hwill
    have hflags₄ : (b₄.heap pClient).flags = m.flags := by rw [hheap₄, hheap₃]; rfl
    have hloginAt₄ : LoginAt m (b₄.heap pClient).pwd (m.encode.drop
        (10 + m.properties.bytes.length + idSkip m.client_id.length + n)) := by
      rw [Nat.add_assoc _ (idSkip _), drop_encode, hheap₄, hheap₃]
      exact hloginAt
    obtain ⟨b', hlogin, hholdsLogin⟩ := (handleConnectLogin_iff hflags₄).mpr hloginAt₄
    obtain ⟨user_name, pwd, hheap'⟩ := handleConnectLogin_heap hlogin
    have hconnect := handleMqttConnect_encode_ok_iff.mpr ⟨b₃, b₄, _, hid₃, hwill, hlogin⟩
    have hholds := (holds_iff_of_stages hheap₃ hheap₄ hheap').mpr
      ⟨hproperties, hholdsWill, hholdsLogin⟩
    exact ⟨b', hconnect, hholds⟩

/-! ## Short fields -/

/-- The will of a body is read where it stands. -/
theorem willAt_will_iff {m : ConnectBody} {chain : MqttPropertyChain} {n : Nat} :
    WillAt m chain (m.will ++ m.login) n ↔ n = m.will.length ∧
      (m.isWillFlag → m.will_properties.chain = OrderedSet.empty → chain = OrderedSet.empty) := by
  unfold WillAt ConnectBody.will
  cases m.isWillFlag with
  | false => simp
  | true =>
    simp only [↓reduceIte, List.append_assoc, PropertySection.create_eq, Except.ok.injEq,
      MqttPropertyChain.Created.mk.injEq, true_and, forall_const, List.length_append,
      length_encodeString, MqttStringEntity.size]
    constructor
    · rintro ⟨size, rest, ⟨rfl, hchain⟩, -, rfl⟩
      refine ⟨Nat.add_assoc .., fun hempty => ?_⟩
      rwa [if_pos hempty, hempty] at hchain
    · -- an empty section leaves the will properties as they were
      rintro ⟨rfl, hempty⟩
      refine ⟨_, m.login, ⟨rfl, ?_⟩, List.drop_left, (Nat.add_assoc ..).symm⟩
      split
      · rename_i hnone
        rw [hempty hnone, hnone]
      · rfl

/-- The login of a body is read where it stands, when the user name is short. -/
theorem loginAt_login_iff {m : ConnectBody} {pwd : Option MqttBinaryDataEntity}
    (huser : m.user_name.length ≤ 253) : LoginAt m pwd m.login ↔
      if m.isUserNameFlag then m.user_name ≠ [] ∧ (m.isPwdFlag → m.pwd.data ≠ [])
      else m.isPwdFlag → pwd = some m.pwd := by
  unfold LoginAt ConnectBody.login
  cases m.isUserNameFlag with
  | false => rfl
  | true =>
    -- the password stands behind the user name
    have hdrop : ∀ rest, (encodeString m.user_name ++ rest).drop ((2 + m.user_name.length) % 256) =
        rest := fun rest => List.drop_left' (by
      rw [length_encodeString, MqttStringEntity.size, Nat.mod_eq_of_lt (by omega)])
    simp only [↓reduceIte, hdrop]
    constructor
    · rintro ⟨⟨hne, -⟩, hpwd⟩
      exact ⟨hne, fun hflag => (hpwd hflag).1⟩
    · rintro ⟨hne, hpwd⟩
      refine ⟨⟨hne, _, rfl⟩, fun hflag => ⟨hpwd hflag, [], ?_⟩⟩
      rw [if_pos hflag, List.append_nil]

/-- With a client id and a user name of at most 253 bytes nothing is read in the wrong
    place. -/
theorem readsOn_short_iff {b : Broker} {pClient : ClientRef} {m : ConnectBody}
    (hid : m.client_id.length ≤ 253) (huser : m.user_name.length ≤ 253) :
    ReadsOn b pClient m ↔
      (m.client_id ≠ [] → ∃ check_fd, b.getClientFd m.client_id = .ok check_fd ∧
        (check_fd = -1 ∨ m.isCleanFlag)) ∧
      (m.properties.chain = OrderedSet.empty →
        (b.heap pClient).conn_properties = OrderedSet.empty) ∧
      (m.isWillFlag → m.will_properties.chain = OrderedSet.empty →
        (b.heap pClient).will_properties = OrderedSet.empty) ∧
      (if m.isUserNameFlag then m.user_name ≠ [] ∧ (m.isPwdFlag → m.pwd.data ≠ [])
      else m.isPwdFlag → (b.heap pClient).pwd = some m.pwd) := by
  have hskip : idSkip m.client_id.length = 2 + m.client_id.length := by
    rw [idSkip, Nat.mod_eq_of_lt (by omega), if_pos (by omega)]
  have hwill : m.fields.drop (2 + m.client_id.length) = m.will ++ m.login :=
    List.drop_left' (length_encodeString _)
  have hlogin : m.fields.drop (2 + m.client_id.length + m.will.length) = m.login := by
    rw [← List.drop_drop, hwill, List.drop_left]
  constructor
  · -- a short id is skipped as a whole, so will and login are read from their places
    rintro ⟨haccepted, hproperties, n, hwillAt, hloginAt⟩
    rw [hskip, hwill] at hwillAt
    obtain ⟨rfl, hempty⟩ := willAt_will_iff.mp hwillAt
    rw [hskip, hlogin] at hloginAt
    exact ⟨haccepted, hproperties, hempty, (loginAt_login_iff huser).mp hloginAt⟩
  · rintro ⟨haccepted, hproperties, hempty, hheld⟩
    refine ⟨haccepted, hproperties, m.will.length, ?_, ?_⟩
    · rw [hskip, hwill]
      exact willAt_will_iff.mpr ⟨rfl, hempty⟩
    · rw [hskip, hlogin]
      exact (loginAt_login_iff huser).mpr hheld

/-! ## Two bodies -/

/-- The property section without properties. -/
def emptySection : PropertySection := ⟨[0], OrderedSet.empty, create_zero⟩

/-- A broker with one client, which has not sent anything. -/
def oneClient : Broker := (({} : Broker).addClient 5 [] 0).1

/-- The client `a` with the user name `u` and the password `p`, and the will `w` under `t`. -/
def loginBody : ConnectBody where
  prot_name_len := 4
  name := [0x4D, 0x51, 0x54, 0x54]
  flags := 0xCE
  alive := 60
  properties := emptySection
  client_id := [0x61]
  will_properties := emptySection
  will_topic := [0x74]
  will_message := ⟨[0x77], by decide⟩
  user_name := [0x75]
  pwd := ⟨[0x70], by decide⟩
  name_length := rfl
  client_id_le := by decide
  will_topic_le := by decide
  user_name_le := by decide
  will_qos_le := by decide

/-- All of its fields are read as they are written. -/
theorem connect_parsed_login : ParsedAsWritten oneClient 0 loginBody [] :=
  (connect_parsed_iff oneClient 0 loginBody []).mpr
    ((readsOn_short_iff (by decide) (by decide)).mpr ⟨fun _ => ⟨-1, by decide, .inl rfl⟩,
      fun _ => rfl, fun _ _ => rfl, by decide⟩)

/-- The same user name behind a client id of 254 bytes. -/
def longIdBody : ConnectBody :=
  { loginBody with
    flags := 0x82
    client_id := List.replicate 254 0x61
    client_id_le := List.length_replicate.le.trans (by decide)
    will_qos_le := by decide }

/-- The id has 254 bytes, of which 0 are gone over behind its length: the user name is read
    out of the id. No client has the id. -/
theorem connect_long_id_misread : AllConnected oneClient ∧ ¬ InUse oneClient longIdBody.client_id ∧
    ¬ ParsedAsWritten oneClient 0 longIdBody [] := by
  have hlookup : ∀ {fd entry}, oneClient.clients.lookup fd = some entry → entry = some 0 := by
    intro fd entry h
    by_cases hfd : fd = 5
    · rw [hfd] at h
      exact (Option.some.inj h).symm
    · have hnone : oneClient.clients.lookup fd = none :=
        UnorderedMap.lookup_insertNew_ne hfd
      rw [hnone] at h
      cases h
  refine ⟨?_, ?_, ?_⟩
  · intro fd h
    cases hlookup h
  · -- nobody else has the id
    rintro ⟨fd, ref, h, hid⟩
    obtain rfl := Option.some.inj (hlookup h)
    exact nomatch hid
  · rintro ⟨b', h, -⟩
    have hfault : (oneClient.handleMqttConnect 0 longIdBody.encode []).toOption.isNone = true := by
      decide +kernel
    rw [h] at hfault
    cases hfault

end Mqtt.Spec
