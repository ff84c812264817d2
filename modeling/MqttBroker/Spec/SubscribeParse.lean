import MqttBroker.ForStd.Records
import MqttBroker.Native.SubscribeBody
import MqttBroker.Spec.ConnectParse

/-!
# Bodies of SUBSCRIBE and UNSUBSCRIBE

Behind a packet id and a property section these bodies are rows of records. The loops of
`HandleMqttSubscribe` and `HandleMqttUnsubscribe` return exactly when the row ends with the
packet, and then with the row itself; on any other body they leave it.
-/

namespace Mqtt.Spec

open Mqtt.Native Mqtt.Native.Broker Records

/-! ## Records -/

/-- A filter and its options. -/
def encodeSubscription (record : Bytes × UInt8) : Bytes := encodeString record.1 ++ [record.2]

/-- The two reads of `HandleMqttSubscribe` for a record. -/
def readSubscription (buf : Bytes) (offset : Nat) : Exec ((Bytes × UInt8) × Nat) := do
  let (topic_name, offset) ← readString buf offset
  let options ← readByte buf offset
  return ((topic_name, options), offset + 1)

/-- `readString` is a reader of strings of at most 65535 bytes. -/
theorem reads_readString (buf : Bytes) :
    Records.Reads (readString buf) encodeString (fun data => data.length ≤ 65535) buf where
  read_eq_ok_iff := by
    intro i j data
    rw [readString_eq_ok_iff, length_encodeString]
    rfl
  length_pos data := by
    rw [length_encodeString, MqttStringEntity.size]
    omega

/-- A name and its options are read as one record. -/
theorem reads_readSubscription (buf : Bytes) :
    Records.Reads (readSubscription buf) encodeSubscription
      (fun record => record.1.length ≤ 65535) buf where
  read_eq_ok_iff := by
    rintro i j ⟨topic_name, options⟩
    have hlen : (encodeSubscription (topic_name, options)).length = 2 + topic_name.length + 1 := by
      rw [encodeSubscription, List.length_append, length_encodeString, MqttStringEntity.size]
      rfl
    rw [hlen, encodeSubscription]
    -- the options stand behind the name that was read
    constructor
    · intro h
      obtain ⟨⟨name, k⟩, hname, h⟩ := Except.bind_eq_ok_iff.mp h
      obtain ⟨byte, hbyte, h⟩ := Except.bind_eq_ok_iff.mp h
      simp only [Except.pure_eq_ok, Except.ok.injEq, Prod.mk.injEq] at h
      obtain ⟨⟨rfl, rfl⟩, rfl⟩ := h
      obtain ⟨hle, rfl, rest, hdrop⟩ := readString_eq_ok_iff.mp hname
      have hrest := drop_of_readByte hbyte
      rw [drop_of_encodeString hdrop] at hrest
      exact ⟨hle, by omega, buf.drop (i + (2 + name.length) + 1), by
        rw [hdrop, hrest, List.append_assoc]
        rfl⟩
    · rintro ⟨hle, rfl, rest, hdrop⟩
      rw [List.append_assoc] at hdrop
      have hbyte : readByte buf (i + (2 + topic_name.length)) = .ok options :=
        readByte_of_drop (drop_of_encodeString hdrop)
      rw [readSubscription, readString_of_drop hle hdrop, Except.ok_bind]
      dsimp only
      rw [hbyte]
      rfl
  length_pos record := by
    rw [encodeSubscription, List.length_append]
    exact Nat.succ_pos _

/-! ## The loops -/

/-- `AddSubscription` for each record. -/
def addSubscriptions (b : Broker) (pClient : ClientRef) (records : List (Bytes × UInt8)) : Broker :=
  records.foldl (fun b record =>
    b.setClient pClient ((b.heap pClient).addSubscription record.1 record.2)) b

/-- The loop of `HandleMqttSubscribe` reads records and adds them to the client. -/
theorem subscribeRecords_eq (remaining_len : Nat) (buf : Bytes) (pClient : ClientRef) (fuel : Nat) :
    ∀ b offset reason_codes subscribe_topics,
      subscribeRecords remaining_len buf pClient fuel b offset reason_codes subscribe_topics =
        (readAll (readSubscription buf) .endless remaining_len fuel offset).map fun r =>
          (addSubscriptions b pClient r.1, reason_codes ++ List.replicate r.1.length 2,
            subscribe_topics ++ r.1, r.2) := by
  -- the accumulators of the loop only grow at their ends, so the row that is left to read
  -- goes behind what they hold
  induction fuel with
  | zero => intros; rfl
  | succ fuel ih =>
    intro b offset reason_codes subscribe_topics
    rw [subscribeRecords, readAll]
    split
    · rw [readSubscription]
      cases readString buf offset with
      | error fault => rfl
      | ok field =>
        obtain ⟨topic_name, offset⟩ := field
        simp only [Except.ok_bind]
        cases readByte buf offset with
        | error fault => rfl
        | ok options =>
          simp only [Except.ok_bind, Except.pure_eq_ok, ih]
          cases readAll (readSubscription buf) .endless remaining_len fuel (offset + 1) with
          | error fault => rfl
          | ok r =>
            simp only [Except.map, List.length_cons, List.replicate_succ, List.append_assoc,
              List.singleton_append, addSubscriptions, List.foldl_cons]
    · simp only [Except.map, List.length_nil, List.replicate_zero, List.append_nil,
        addSubscriptions, List.foldl_nil]

/-- The loop of `HandleMqttUnsubscribe` reads names. -/
theorem unsubscribeRecords_eq (remaining_len : Nat) (buf : Bytes) (fuel : Nat) :
    ∀ offset topics_to_unsubscribe,
      unsubscribeRecords remaining_len buf fuel offset topics_to_unsubscribe =
        (readAll (readString buf) .endless remaining_len fuel offset).map fun r =>
          (topics_to_unsubscribe ++ r.1, r.2) := by
  -- Induction on the fuel; what was read before stands in front
  induction fuel with
  | zero => intros; rfl
  | succ fuel ih =>
    intro offset topics_to_unsubscribe
    rw [unsubscribeRecords, readAll]
    split
    · cases readString buf offset with
      | error fault => rfl
      | ok field =>
        obtain ⟨topic_name, offset⟩ := field
        simp only [Except.ok_bind, ih]
        cases readAll (readString buf) .endless remaining_len fuel offset with
        | error fault => rfl
        | ok r => simp only [Except.map, List.append_assoc, List.singleton_append]
    · simp only [Except.map, List.append_nil]

/-- `Create` stops inside the buffer. -/
theorem createLoop_size_le {buf : Bytes} {fuel : Nat} : ∀ {left pos : Nat}
    {chain : MqttPropertyChain} {r : MqttPropertyChain.Created}, pos ≤ buf.length →
      MqttPropertyChain.createLoop buf fuel left pos chain = .ok r → r.size ≤ buf.length := by
  induction fuel with
  | zero => intro left pos chain r _ h; exact nomatch h
  | succ fuel ih =>
    intro left pos chain r hpos h
    rcases createLoop_inv h with ⟨-, rfl⟩ | ⟨-, -, rfl⟩ | ⟨-, p, bs, rest, hdrop, -, h⟩
    · exact hpos
    · exact hpos
    · -- the position grows by bytes that are really there
      have hlen := congrArg List.length hdrop
      rw [List.length_drop, List.length_append] at hlen
      exact ih (by omega) h

/-- `Create` does not go past the end of its buffer. -/
theorem create_size_le {buf : Bytes} {chain : MqttPropertyChain} {r : MqttPropertyChain.Created}
    (h : chain.create buf = .ok r) : r.size ≤ buf.length := by
  obtain ⟨decoded, hlen, h⟩ := Except.bind_eq_ok_iff.mp h
  -- a length field that cannot be read leaves the size 0
  cases decoded with
  | none =>
    obtain rfl := Except.ok.inj h
    exact Nat.zero_le _
  | some field =>
    have hk := (deCodeVarInt_bounds hlen).2.2.2
    dsimp only at h
    split at h
    · exact createLoop_size_le hk h
    · obtain rfl := Except.ok.inj h
      exact hk

/-- The reader of the id and the properties ends inside its buffer. -/
theorem readIdAndChain_le {buf : Bytes} {packet_id : UInt16} {p_chain : MqttPropertyChain}
    {offset : Nat} (h : readIdAndChain buf 0 = .ok (packet_id, p_chain, offset)) :
    offset ≤ buf.length := by
  obtain ⟨id, hid, h⟩ := Except.bind_eq_ok_iff.mp h
  obtain ⟨r, hr, h⟩ := Except.bind_eq_ok_iff.mp h
  simp only [Except.pure_eq_ok, Except.ok.injEq, Prod.mk.injEq] at h
  obtain ⟨rest, hrest⟩ := convertToHost2Bytes_eq_ok_iff.mp hid
  -- two bytes of the packet id, and what `Create` has read behind them
  have hlen := congrArg List.length hrest
  have hsize := create_size_le hr
  rw [List.length_drop] at hsize
  rw [List.length_drop, List.length_append, length_htons] at hlen
  omega

/-! ## Well-formed bodies -/

/-- A SUBSCRIBE body as it is written. -/
structure SubscribeRequest where
  packet_id : UInt16
  properties : PropertySection
  records : List (Bytes × UInt8)
  records_le : ∀ record ∈ records, record.1.length ≤ 65535

/-- An UNSUBSCRIBE body as it is written. -/
structure UnsubscribeRequest where
  packet_id : UInt16
  properties : PropertySection
  filters : List Bytes
  filters_le : ∀ filter ∈ filters, filter.length ≤ 65535

/-- The packet id and the properties in front of the records. -/
def encodeIdAndChain (packet_id : UInt16) (properties : PropertySection) : Bytes :=
  htons packet_id.toNat ++ properties.bytes

/-- The body of a SUBSCRIBE: id, properties, records. -/
def SubscribeRequest.encode (m : SubscribeRequest) : Bytes :=
  encodeIdAndChain m.packet_id m.properties ++ m.records.flatMap encodeSubscription

/-- The body of an UNSUBSCRIBE: id, properties, filters. -/
def UnsubscribeRequest.encode (m : UnsubscribeRequest) : Bytes :=
  encodeIdAndChain m.packet_id m.properties ++ m.filters.flatMap encodeString

/-- The id and the properties of a body are read back. -/
theorem readIdAndChain_encode (packet_id : UInt16) (properties : PropertySection) (rest : Bytes) :
    readIdAndChain (encodeIdAndChain packet_id properties ++ rest) 0 =
      .ok (packet_id, properties.chain, (encodeIdAndChain packet_id properties).length) := by
  rw [encodeIdAndChain, List.append_assoc]
  have hid : convertToHost2Bytes (htons packet_id.toNat ++ (properties.bytes ++ rest)) 0 =
      .ok packet_id := convertToHost2Bytes_of_drop rfl
  have hdrop : (htons packet_id.toNat ++ (properties.bytes ++ rest)).drop 2 =
      properties.bytes ++ rest := rfl
  simp only [readIdAndChain, hid, Except.ok_bind, Nat.zero_add, hdrop, properties.exact,
    Except.pure_eq_ok, List.length_append, length_htons]

/-- The loop behind the header returns the row of records that ends the body. -/
theorem readAll_encode {α : Type} {read : Nat → Exec (α × Nat)} {encode : α → Bytes}
    {valid : α → Prop} {head : Bytes} {as : List α}
    (h : Records.Reads read encode valid (head ++ as.flatMap encode)) (hvalid : ∀ a ∈ as, valid a) :
    readAll read .endless (head ++ as.flatMap encode).length
      ((head ++ as.flatMap encode).length + 1) head.length =
        .ok (as, (head ++ as.flatMap encode).length) :=
  (h.readAll_eq_ok_iff (by simp) (by omega)).mpr ⟨hvalid, List.drop_left, rfl⟩

/-- Where the records of a body start. -/
def SubscribeRequest.start (m : SubscribeRequest) : Nat :=
  (encodeIdAndChain m.packet_id m.properties).length

/-- Where the first filter stands. -/
def UnsubscribeRequest.start (m : UnsubscribeRequest) : Nat :=
  (encodeIdAndChain m.packet_id m.properties).length

/-- The header of a SUBSCRIBE is read back, up to its first record. -/
theorem SubscribeRequest.readHeader (m : SubscribeRequest) :
    readIdAndChain m.encode 0 = .ok (m.packet_id, m.properties.chain, m.start) :=
  readIdAndChain_encode m.packet_id m.properties (m.records.flatMap encodeSubscription)

/-- The header of an UNSUBSCRIBE is read back, up to its first filter. -/
theorem UnsubscribeRequest.readHeader (m : UnsubscribeRequest) :
    readIdAndChain m.encode 0 = .ok (m.packet_id, m.properties.chain, m.start) :=
  readIdAndChain_encode m.packet_id m.properties (m.filters.flatMap encodeString)

/-- The loop reads all the records and ends at the end of the body. -/
theorem SubscribeRequest.readRecords (m : SubscribeRequest) (b : Broker) (pClient : ClientRef) :
    subscribeRecords m.encode.length m.encode pClient (m.encode.length + 1) b m.start [] [] =
      .ok (addSubscriptions b pClient m.records, List.replicate m.records.length 2, m.records,
        m.encode.length) := by
  have hall := readAll_encode (reads_readSubscription m.encode) m.records_le
  rw [← SubscribeRequest.encode, ← SubscribeRequest.start] at hall
  rw [subscribeRecords_eq, hall]
  rfl

/-- The loop reads all the filters and ends at the end of the body. -/
theorem UnsubscribeRequest.readRecords (m : UnsubscribeRequest) :
    unsubscribeRecords m.encode.length m.encode (m.encode.length + 1) m.start [] =
      .ok (m.filters, m.encode.length) := by
  have hall := readAll_encode (reads_readString m.encode) m.filters_le
  rw [← UnsubscribeRequest.encode, ← UnsubscribeRequest.start] at hall
  rw [unsubscribeRecords_eq, hall]
  rfl

/-! ## What the filters do to the table -/

/-- Subscriptions change the table of their client only. -/
theorem addSubscriptions_eq (pClient : ClientRef) (records : List (Bytes × UInt8)) :
    ∀ b : Broker, addSubscriptions b pClient records =
      { b with heap := (addSubscriptions b pClient records).heap } := by
  induction records with
  | nil => exact fun b => rfl
  | cons record records ih =>
    intro b
    rw [addSubscriptions, List.foldl_cons, ← addSubscriptions, ih]
    rfl

/-- The table behind the records: each new filter is added with its options. -/
theorem addSubscriptions_subscribed_topics (ref : ClientRef) (records : List (Bytes × UInt8)) :
    ∀ b : Broker, ((addSubscriptions b ref records).heap ref).subscribed_topics =
      (b.heap ref).subscribed_topics.insertAllNew records := by
  induction records with
  | nil => exact fun b => rfl
  | cons record records ih =>
    intro b
    rw [addSubscriptions, List.foldl_cons, ← addSubscriptions, ih, heap_setClient_self]
    rfl

/-- The reason code for a filter of an UNSUBSCRIBE. -/
def unsubackCode (deleted : Bool) : UInt8 :=
  if deleted then ReasonCode.success.code else ReasonCode.noSubscriptionExisted.code

/-- The loop over the filters erases them in turn and writes down what was there. -/
theorem delSubscriptions_eq (ref : ClientRef) (topics : List Bytes) :
    ∀ (b : Broker) (reason_codes : List UInt8),
      (delSubscriptions ref topics b reason_codes).1.commands = b.commands ∧
      ((delSubscriptions ref topics b reason_codes).1.heap ref).subscribed_topics =
        (b.heap ref).subscribed_topics.eraseAll topics ∧
      (delSubscriptions ref topics b reason_codes).2 = reason_codes ++
        ((b.heap ref).subscribed_topics.erased topics).map unsubackCode := by
  induction topics with
  | nil => exact fun b reason_codes => ⟨rfl, rfl, (List.append_nil _).symm⟩
  | cons it rest ih =>
    intro b reason_codes
    -- the rest of the filters meets the table without this one
    obtain ⟨hcommands, htable, hcodes⟩ := ih
      (b.setClient ref ((b.heap ref).delSubscription it).1)
      (reason_codes ++ [unsubackCode ((b.heap ref).delSubscription it).2])
    rw [heap_setClient_self] at htable hcodes
    refine ⟨hcommands, htable, hcodes.trans ?_⟩
    rw [List.append_assoc]
    rfl

/-! ## The handler -/

/-- A well-formed SUBSCRIBE: its filters are entered, the SUBACK is queued, and the retained
    messages follow. -/
theorem subscribeHandler_request {b : Broker} {fd : Fd} {ref : ClientRef}
    (hclient : b.clients.lookup fd = some (some ref)) (first : UInt8) (m : SubscribeRequest) :
    b.subscribeHandler ⟨first, m.encode.length⟩ m.encode fd = (do
      let b ← sendAllRetained fd m.records ((addSubscriptions b ref m.records).addCommand fd
        (reasonsPacket .SUBACK m.packet_id (List.replicate m.records.length 2)))
      return (b.addSubscribedClient fd ref, .ok)) := by
  have hloop : subscribeLoop m.encode.length m.encode ref (m.encode.length + 1) b m.start [] [] =
      .ok (addSubscriptions b ref m.records, List.replicate m.records.length 2, m.records) := by
    rw [subscribeLoop_eq_map, m.readRecords]
    rfl
  simp only [subscribeHandler, clientAt_eq hclient, SubscribeVH.ofBuf, readIdAndProperties_eq, m.readHeader,
    Except.ok_bind, Except.pure_eq_ok, deref, hloop, createMqttPacket_suback]

/-- Well-formed bodies are decoded exactly. -/
theorem bodies_decoded :
    (∀ (b : Broker) (pClient : ClientRef) (first : UInt8) (m : SubscribeRequest),
      b.handleMqttSubscribe pClient ⟨first, m.encode.length⟩ m.encode =
        .ok ⟨addSubscriptions b pClient m.records, ⟨m.packet_id, m.properties.chain⟩,
          List.replicate m.records.length 2, m.records, m.encode.length⟩) ∧
    (∀ (first : UInt8) (m : UnsubscribeRequest),
      handleMqttUnsubscribe ⟨first, m.encode.length⟩ m.encode =
        .ok ⟨⟨m.packet_id, m.properties.chain⟩, m.filters, m.encode.length⟩) := by
  constructor
  · intro b pClient first m
    simp only [handleMqttSubscribe, m.readHeader, Except.ok_bind, m.readRecords]
    rfl
  · intro first m
    simp only [handleMqttUnsubscribe, m.readHeader, Except.ok_bind, m.readRecords]
    rfl

/-! ## Malformed bodies -/

/-- The records of a body start where its properties were read to, and end with the body. -/
def EndsWithRecords {α : Type} (encode : α → Bytes) (valid : α → Prop) (body : Bytes) : Prop :=
  ∃ packet_id p_chain offset, readIdAndChain body 0 = .ok (packet_id, p_chain, offset) ∧
    ∃ as : List α, (∀ a ∈ as, valid a) ∧ body.drop offset = as.flatMap encode

/-- The records of a SUBSCRIBE end with the body. -/
def SubscriptionsEnd (body : Bytes) : Prop :=
  EndsWithRecords encodeSubscription (fun record => record.1.length ≤ 65535) body

/-- The records of an UNSUBSCRIBE end with the body. -/
def FiltersEnd (body : Bytes) : Prop :=
  EndsWithRecords encodeString (fun filter => filter.length ≤ 65535) body

/-- The packet is answered with an error, and no client is subscribed to anything else than
    before. -/
def Refuses (b : Broker) (handler : Exec (Broker × MqttErr)) : Prop :=
  ∃ b' err, handler = .ok (b', err) ∧ err ≠ .ok ∧
    ∀ ref, (b'.heap ref).subscribed_topics = (b.heap ref).subscribed_topics

/-- No byte behind the body is read, and a body whose records do not end with it is refused. -/
def ReadsInside {α : Type} (b : Broker) (parse : Exec α) (ends : Prop)
    (handler : Exec (Broker × MqttErr)) : Prop :=
  parse ≠ .error .outOfBounds ∧ (¬ ends → Refuses b handler)

/-- The handlers of both packets return no error. -/
theorem subscribeHandler_err {b b' : Broker} {fh : FixedHeader} {data : Bytes} {fd : Fd}
    {err : MqttErr} (h : b.subscribeHandler fh data fd = .ok (b', err)) : err = .ok := by
  obtain ⟨-, -, -, -, -, -, -, -, -, -, -, -, -, herr⟩ := subscribeHandler_eq_ok h
  exact herr

/-- `unsubscribeHandler` returns no error. -/
theorem unsubscribeHandler_err {b b' : Broker} {fh : FixedHeader} {data : Bytes} {fd : Fd}
    {err : MqttErr} (h : b.unsubscribeHandler fh data fd = .ok (b', err)) : err = .ok := by
  obtain ⟨-, -, -, -, -, -, -, -, -, herr⟩ := unsubscribeHandler_eq_ok h
  exact herr

/-- The loop behind the header comes to an end when the records do. -/
theorem readAll_of_ends {α : Type} {read : Nat → Exec (α × Nat)} {encode : α → Bytes}
    {valid : α → Prop} {body : Bytes} (h : Records.Reads read encode valid body)
    (hends : EndsWithRecords encode valid body) :
    ∃ packet_id p_chain offset as, readIdAndChain body 0 = .ok (packet_id, p_chain, offset) ∧
      readAll read .endless body.length (body.length + 1) offset = .ok (as, body.length) := by
  obtain ⟨packet_id, p_chain, offset, hread, as, hvalid, hdrop⟩ := hends
  exact ⟨packet_id, p_chain, offset, as, hread,
    (h.readAll_eq_ok_iff (readIdAndChain_le hread) (by omega)).mpr ⟨hvalid, hdrop, rfl⟩⟩

/-- A handler reads inside of its body exactly when its parser comes to an end. -/
theorem readsInside_iff {α : Type} {b : Broker} {parse : Exec α} {ends : Prop}
    {handler : Exec (Broker × MqttErr)} (hparse : ends → ∃ r, parse = .ok r)
    (hhandler : ∀ b' err, handler = .ok (b', err) → err = .ok) :
    ReadsInside b parse ends handler ↔ ends := by
  constructor
  · rintro ⟨-, hrefuses⟩
    -- a body that has to be refused is not: there is no error to answer it with
    by_contra hnot
    obtain ⟨b', err, h, hne, -⟩ := hrefuses hnot
    exact hne (hhandler b' err h)
  · intro hends
    obtain ⟨r, hr⟩ := hparse hends
    refine ⟨?_, fun hnot => absurd hends hnot⟩
    rw [hr]
    exact nofun

/-- A body is read inside its bounds, or refused, exactly when its records end with it. -/
theorem malformed_refused_iff (b : Broker) (pClient : ClientRef) (first : UInt8) (body : Bytes)
    (fd : Fd) :
    (ReadsInside b (b.handleMqttSubscribe pClient ⟨first, body.length⟩ body)
        (SubscriptionsEnd body) (b.subscribeHandler ⟨first, body.length⟩ body fd) ↔
      SubscriptionsEnd body) ∧
    (ReadsInside b (handleMqttUnsubscribe ⟨first, body.length⟩ body)
        (FiltersEnd body) (b.unsubscribeHandler ⟨first, body.length⟩ body fd) ↔
      FiltersEnd body) := by
  constructor
  · refine readsInside_iff (fun hends => ?_) fun _ _ => subscribeHandler_err
    obtain ⟨packet_id, p_chain, offset, as, hread, hall⟩ :=
      readAll_of_ends (reads_readSubscription body) hends
    simp only [handleMqttSubscribe, hread, Except.ok_bind, subscribeRecords_eq, hall]
    exact ⟨_, rfl⟩
  · refine readsInside_iff (fun hends => ?_) fun _ _ => unsubscribeHandler_err
    obtain ⟨packet_id, p_chain, offset, as, hread, hall⟩ :=
      readAll_of_ends (reads_readString body) hends
    simp only [handleMqttUnsubscribe, hread, Except.ok_bind, unsubscribeRecords_eq, hall]
    exact ⟨_, rfl⟩

/-- A filter of five bytes of which one is there is read behind the body. -/
theorem short_filter_read_outside : ¬ ReadsInside oneClient
    (oneClient.handleMqttSubscribe 0 ⟨0x82, 6⟩ [0, 1, 0, 0, 5, 0x61])
    (SubscriptionsEnd [0, 1, 0, 0, 5, 0x61])
    (oneClient.subscribeHandler ⟨0x82, 6⟩ [0, 1, 0, 0, 5, 0x61] 5) := by
  rintro ⟨hinside, -⟩
  exact hinside rfl

end Mqtt.Spec
