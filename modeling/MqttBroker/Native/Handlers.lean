import MqttBroker.Native.Broker

/-!
# Packet handlers

The functions of `handlers.cpp`, the packet handlers with their dispatch, and
the error handlers. The log lines are left out except where an argument of one
reads memory: the reads are part of what the function does. The random client
id of `GenRandom` is an input.
-/

namespace Mqtt.Native

namespace Broker

/-! ## CONNECT -/

/-- `HandleMqttConnect`, the client id: `CONNECT` for a used id closes the older
    connection or is refused. -/
def handleConnectId (b : Broker) (pClient : ClientRef) (id : Option Bytes) (random : Bytes) :
    Exec (Broker × MqttErr) := do
  match id with
  | some id =>
    let check_fd ← b.getClientFd id
    -- `GetClientFd` also finds the client on its own socket
    if check_fd ≠ -1 then
      if (b.heap pClient).isCleanFlag then
        let b := b.closeConnection check_fd
        return (b.setClient pClient { b.heap pClient with client_id := id }, .ok)
      else return (b, .duplicateClientId)
    else return (b.setClient pClient { b.heap pClient with client_id := id }, .ok)
  | none =>
    return (b.setClient pClient { b.heap pClient with
      client_id := random
      id_was_random_generated := true }, .ok)

/-- `HandleMqttConnect`, the will: the error and the offset behind it. -/
def handleConnectWill (b : Broker) (pClient : ClientRef) (buf : Bytes) (offset : Nat) :
    Exec (Broker × MqttErr × Nat) := do
  if (b.heap pClient).isWillFlag then
    let created ← (b.heap pClient).will_properties.create (buf.drop offset)
    let b := b.setClient pClient { b.heap pClient with will_properties := created.chain }
    if created.err ≠ .ok then return (b, created.err, offset)
    let offset := offset + created.size
    let (will_topic_name, offset) ← readString buf offset
    let data_len ← convertToHost2Bytes buf offset
    let offset := offset + 2
    let pMessage ← MqttBinaryDataEntity.ofBuf data_len buf offset
    let will_topic := MqttTopic.new (b.heap pClient).willQoSFlag 1 will_topic_name (some pMessage)
    return (b.setClient pClient { b.heap pClient with will_topic }, .ok, offset + data_len.toNat)
  else return (b, .ok, offset)

/-- `HandleMqttConnect`, user name and password. -/
def handleConnectLogin (b : Broker) (pClient : ClientRef) (buf : Bytes) (offset : Nat) :
    Exec (Broker × MqttErr) := do
  if (b.heap pClient).isUserNameFlag then
    let (user_name, user_name_len) ← createMqttStringEntity (buf.drop offset)
    if user_name.isNone then return (b, .userNameErr)
    let b := b.setClient pClient { b.heap pClient with user_name }
    let offset := offset + user_name_len
    if (b.heap pClient).isPwdFlag then
      let (pwd, _) ← createMqttBinaryDataEntity (buf.drop offset)
      if pwd.isNone then return (b, .authFail)
      return (b.setClient pClient { b.heap pClient with pwd }, .ok)
    else return (b, .ok)
  else return (b, .ok)

/-- `HandleMqttConnect`. -/
def handleMqttConnect (b : Broker) (pClient : ClientRef) (buf : Bytes) (random : Bytes) :
    Exec (Broker × MqttErr) := do
  let (con_vh, offset) ← ConnectVH.readFromBuf buf
  if con_vh.version ≠ 5 then return (b, .protocolVersionErr)
  let b := b.setClient pClient { b.heap pClient with
    mqtt_version := con_vh.version
    alive := con_vh.alive
    flags := con_vh.conn_flags }
  let created ← (b.heap pClient).conn_properties.create (buf.drop offset)
  let b := b.setClient pClient { b.heap pClient with conn_properties := created.chain }
  if created.err ≠ .ok then return (b, created.err)
  let offset := offset + created.size
  let (id, id_len) ← createMqttStringEntity (buf.drop offset)
  let (b, err) ← b.handleConnectId pClient id random
  if err ≠ .ok then return (b, err)
  -- an empty id has a length of zero, and takes two bytes all the same
  let offset := if id_len ≠ 0 then offset + id_len else offset + 2
  let (b, err, offset) ← b.handleConnectWill pClient buf offset
  if err ≠ .ok then return (b, err)
  b.handleConnectLogin pClient buf offset

/-- The properties of a CONNACK, as `MqttPropertyChainBuilder` puts them together. -/
def connackProperties (c : Client) : MqttPropertyChain :=
  let properties : MqttPropertyChain := OrderedSet.empty
  let properties : MqttPropertyChain := if c.id_was_random_generated then
      properties.addProperty ⟨MqttPropertyId.assignedClientIdentifier.code, .mqttString c.client_id⟩
    else properties
  properties
    |>.addProperty ⟨MqttPropertyId.retainAvailable.code, .byte 1⟩
    |>.addProperty ⟨MqttPropertyId.maximumPacketSize.code, .fourByte 65535⟩
    |>.addProperty ⟨MqttPropertyId.wildcardSubscriptionAvailable.code, .byte 1⟩
    |>.addProperty ⟨MqttPropertyId.sharedSubscriptionAvailable.code, .byte 0⟩

/-- `MqttConnectPacketHandler::HandlePacket`. -/
def connectHandler (b : Broker) (data : Bytes) (fd : Fd) (random : Bytes) :
    Exec (Broker × MqttErr) := do
  let (b, pClient) := b.clientAt fd
  match pClient with
  | none => return (b, .handleError)
  | some pClient =>
    let (b, handle_stat) ← b.handleMqttConnect pClient data random
    if handle_stat ≠ .ok then return (b, handle_stat)
    let c := b.heap pClient
    let answer_vh : ConnactVH :=
      ⟨if c.isCleanFlag then 0 else 1, ReasonCode.success.code, connackProperties c⟩
    let answer ← createMqttPacket (packetByte .CONNACK) answer_vh
    return (b.addCommand fd answer, .ok)

/-! ## PUBLISH -/

/-- `HandleMqttPublish`; the log line reads the message with its full length, the
    message itself keeps sixteen bits of it. -/
def handleMqttPublish (fh : FixedHeader) (buf : Bytes) :
    Exec (PublishVH × MqttBinaryDataEntity) := do
  let (tmp_vh, offset) ← PublishVH.ofBuf (fh.qoS != 0) buf
  -- `p_vh = tmp_vh`; from `p_vh` the chain is moved on
  let p_chain ← tmp_vh.p_chain.copy
  -- a difference of two `uint32_t`
  let len := (fh.remaining_len + 2 ^ 32 - offset) % 2 ^ 32
  let _ ← readBytes buf offset len
  let message ← MqttBinaryDataEntity.ofBuf (UInt16.ofNat len) buf offset
  return ({ tmp_vh with p_chain }, message)

/-- `MqttPublishPacketHandler::HandlePacket`, the answer. -/
def answerPublish (b : Broker) (fh : FixedHeader) (packet_id : UInt16) (fd : Fd)
    (pClient : ClientRef) : Exec Broker := do
  let answer_vh : PubackVH := ⟨packet_id, ReasonCode.success.code, OrderedSet.empty⟩
  if fh.qoS = 1 then
    let answer ← createMqttPacket (packetByte .PUBACK) answer_vh
    return b.addCommand fd answer
  else if fh.qoS = 2 then
    let client_id := (b.heap pClient).client_id
    -- behind other messages the answer is kept, marked as a duplicate
    if !b.checkIfMoreMessages client_id then
      let data_packet ← createMqttPacket (packetByte .PUBREC) answer_vh
      return b.addCommand fd data_packet
    else
      let data_packet ← createMqttPacket (FHBuilder.packetType {} .PUBREC).withDup.build answer_vh
      return b.addQosEvent client_id ⟨data_packet, packet_id⟩
  else return b

/-- `MqttPublishPacketHandler::HandlePacket`. -/
def publishHandler (b : Broker) (fh : FixedHeader) (data : Bytes) (fd : Fd) :
    Exec (Broker × MqttErr) := do
  let (b, pClient) := b.clientAt fd
  let (vh, pMessage) ← handleMqttPublish fh data
  let pClient ← deref pClient
  let b := if fh.isRETAIN then
      { b with storage :=
        b.storage.storeTopicValue fh.qoS vh.packet_id vh.topic_name (some pMessage) }
    else b
  let b ← b.answerPublish fh vh.packet_id fd pClient
  let topic := MqttTopic.new fh.qoS vh.packet_id vh.topic_name (some pMessage)
  if fh.qoS ≠ 2 then
    let (b, _) ← b.notifyClients topic none
    return (b, .ok)
  else
    let client_id := (b.heap pClient).client_id
    let b := { b with storage := b.storage.addQoSTopic client_id topic }
    return (b.record (.received client_id topic), .ok)

/-! ## SUBSCRIBE and UNSUBSCRIBE -/

/-- The loop of `HandleMqttSubscribe`, `reason_codes` and `subscribe_topics` being
    what it has put into its lists. The buffer runs out before the fuel does. -/
def subscribeLoop (remaining_len : Nat) (buf : Bytes) (pClient : ClientRef) :
    (fuel : Nat) → Broker → (offset : Nat) → List UInt8 → List (Bytes × UInt8) →
      Exec (Broker × List UInt8 × List (Bytes × UInt8))
  | 0, _, _, _, _ => .error .endless
  | fuel + 1, b, offset, reason_codes, subscribe_topics =>
    if offset < remaining_len then do
      let (topic_name, offset) ← readString buf offset
      let options ← readByte buf offset
      -- subscribed before the next record is read
      let b := b.setClient pClient ((b.heap pClient).addSubscription topic_name options)
      subscribeLoop remaining_len buf pClient fuel b (offset + 1) (reason_codes ++ [2])
        (subscribe_topics ++ [(topic_name, options)])
    else .ok (b, reason_codes, subscribe_topics)

/-- The loop over the retained topics that match one filter. -/
def sendRetained (fd : Fd) (options : UInt8) : List MqttTopic → Broker → Exec Broker
  | [], b => .ok b
  | it_ret_topics :: rest, b => do
    let retain_topic := it_ret_topics.setQos options
    let b ← b.notifyClient fd retain_topic
    sendRetained fd options rest b

/-- The loop over the new subscriptions. -/
def sendAllRetained (fd : Fd) : List (Bytes × UInt8) → Broker → Exec Broker
  | [], b => .ok b
  | it :: rest, b => do
    let retain_topics ← b.storage.getMatchedTopics it.1
    let b ← sendRetained fd it.2 retain_topics.toList b
    sendAllRetained fd rest b

/-- `MqttSubscribePacketHandler::HandlePacket`. -/
def subscribeHandler (b : Broker) (fh : FixedHeader) (data : Bytes) (fd : Fd) :
    Exec (Broker × MqttErr) := do
  let (b, pClient) := b.clientAt fd
  let (packet_id, offset) ← SubscribeVH.ofBuf data
  -- `pClient` is not looked at before the first subscription
  let pClient ← deref pClient
  let (b, reason_codes, tpcs) ←
    subscribeLoop fh.remaining_len data pClient (data.length + 1) b offset [] []
  let answer_vh : SubackVH := ⟨packet_id, OrderedSet.empty, reason_codes⟩
  let answer ← createMqttPacket (packetByte .SUBACK) answer_vh
  let b := b.addCommand fd answer
  let b ← sendAllRetained fd tpcs b
  return (b.addSubscribedClient fd pClient, .ok)

/-- The loop of `HandleMqttUnsubscribe`. -/
def unsubscribeLoop (remaining_len : Nat) (buf : Bytes) :
    (fuel : Nat) → (offset : Nat) → List Bytes → Exec (List Bytes)
  | 0, _, _ => .error .endless
  | fuel + 1, offset, topics_to_unsubscribe =>
    if offset < remaining_len then do
      let (topic_name, offset) ← readString buf offset
      unsubscribeLoop remaining_len buf fuel offset (topics_to_unsubscribe ++ [topic_name])
    else .ok topics_to_unsubscribe

/-- The loop over the subscriptions to delete. -/
def delSubscriptions (pClient : ClientRef) :
    List Bytes → Broker → List UInt8 → Broker × List UInt8
  | [], b, reason_codes => (b, reason_codes)
  | it :: rest, b, reason_codes =>
    let (c, deleted) := (b.heap pClient).delSubscription it
    let code := if deleted then ReasonCode.success.code else ReasonCode.noSubscriptionExisted.code
    delSubscriptions pClient rest (b.setClient pClient c) (reason_codes ++ [code])

/-- `MqttUnsubscribePacketHandler::HandlePacket`. -/
def unsubscribeHandler (b : Broker) (fh : FixedHeader) (data : Bytes) (fd : Fd) :
    Exec (Broker × MqttErr) := do
  let (b, pClient) ← b.derefAt fd
  let (packet_id, offset) ← UnsubscribeVH.readFromBuf data
  let topics_to_unsubscribe ← unsubscribeLoop fh.remaining_len data (data.length + 1) offset []
  let (b, reason_codes) := delSubscriptions pClient topics_to_unsubscribe b []
  let answer_vh : UnsubAckVH := ⟨packet_id, OrderedSet.empty, reason_codes⟩
  let answer ← createMqttPacket (packetByte .UNSUBACK) answer_vh
  return (b.addCommand fd answer, .ok)

/-! ## Acknowledgements -/

/-- `MqttPubAckPacketHandler::HandlePacket`. -/
def pubackHandler (b : Broker) (data : Bytes) (fd : Fd) : Exec (Broker × MqttErr) := do
  let (b, pClient) := b.clientAt fd
  let packet_id ← PubackVH.readFromBuf data
  let pClient ← deref pClient
  let client_id := (b.heap pClient).client_id
  let b := (b.delQosEvent client_id packet_id).record (.acknowledged pClient .PUBACK packet_id)
  let b ← b.sendKeptMessage fd client_id
  return (b, .ok)

/-- `MqttPubRecPacketHandler::HandlePacket`. -/
def pubrecHandler (b : Broker) (data : Bytes) (fd : Fd) : Exec (Broker × MqttErr) := do
  let packet_id ← PubackVH.readFromBuf data
  let (b, pClient) ← b.derefAt fd
  let client_id := (b.heap pClient).client_id
  let b := (b.delQosEvent client_id packet_id).record (.acknowledged pClient .PUBREC packet_id)
  let answer_vh : TypicalVH := ⟨packet_id, ReasonCode.success.code, OrderedSet.empty⟩
  let answer ← createMqttPacket (packetByte .PUBREL ||| 0x02) answer_vh
  return (b.addCommand fd answer, .ok)

/-- `MqttPubRelPacketHandler::HandlePacket`. -/
def pubrelHandler (b : Broker) (data : Bytes) (fd : Fd) : Exec (Broker × MqttErr) := do
  let (b, pClient) := b.clientAt fd
  let packet_id ← PubackVH.readFromBuf data
  let pClient ← deref pClient
  let client_id := (b.heap pClient).client_id
  let answer_vh : TypicalVH := ⟨packet_id, ReasonCode.success.code, OrderedSet.empty⟩
  let answer ← createMqttPacket (packetByte .PUBCOMP) answer_vh
  let b := (b.addCommand fd answer).delQosEvent client_id packet_id
  let b ← b.sendKeptMessage fd client_id
  let b := b.record (.pubrel client_id packet_id)
  match b.storage.getQoSTopic client_id packet_id with
  | some topic =>
    let (b, _) ← b.notifyClients topic (some (client_id, packet_id))
    -- the id is looked up again, and nothing before has changed it
    let client_id := (b.heap pClient).client_id
    return ({ b with storage := b.storage.delQoSTopic client_id packet_id }, .ok)
  | none => return (b, .ok)

/-- `MqttPubCompPacketHandler::HandlePacket`. -/
def pubcompHandler (b : Broker) (data : Bytes) (fd : Fd) : Exec (Broker × MqttErr) := do
  let _ ← PubackVH.readFromBuf data
  let (b, pClient) ← b.derefAt fd
  let b ← b.sendKeptMessage fd (b.heap pClient).client_id
  return (b, .ok)

/-! ## PINGREQ and DISCONNECT -/

/-- `MqttPingPacketHandler::HandlePacket`. -/
def pingHandler (b : Broker) (fd : Fd) : Exec (Broker × MqttErr) := do
  let (b, _) ← b.derefAt fd
  let answer ← createMqttPacketEmpty (packetByte .PINGRESP)
  return (b.addCommand fd answer, .ok)

/-- `MqttDisconnectPacketHandler::HandlePacket`; the log line reads the reason
    code. -/
def disconnectHandler (b : Broker) (fh : FixedHeader) (data : Bytes) (fd : Fd) :
    Exec (Broker × MqttErr) := do
  let (b, _) ← b.derefAt fd
  if fh.remaining_len > 0 then
    let _ ← readByte data 0
    return (b, .disconnect)
  else return (b, .disconnect)

/-! ## Dispatch -/

/-- `MqttPacketHandler::HandlePacket`, the handlers in the order they were added. -/
def handlePacket (b : Broker) (fh : FixedHeader) (data : Bytes) (fd : Fd) (random : Bytes) :
    Exec (Broker × MqttErr) :=
  let type := fh.getType
  if type = PackType.PUBLISH.code then b.publishHandler fh data fd
  else if type = PackType.PUBACK.code then b.pubackHandler data fd
  else if type = PackType.PUBREL.code then b.pubrelHandler data fd
  else if type = PackType.PUBREC.code then b.pubrecHandler data fd
  else if type = PackType.PUBCOMP.code then b.pubcompHandler data fd
  else if type = PackType.PINGREQ.code then b.pingHandler fd
  else if type = PackType.SUBSCRIBE.code then b.subscribeHandler fh data fd
  else if type = PackType.DISCONNECT.code then b.disconnectHandler fh data fd
  else if type = PackType.UNSUBSCRIBE.code then b.unsubscribeHandler fh data fd
  else if type = PackType.CONNECT.code then b.connectHandler data fd random
  else .ok (b, .handleError)

section handlePacket

variable {fh : FixedHeader} (b : Broker) (data : Bytes) (fd : Fd) (random : Bytes)

/-- A PUBLISH goes to `publishHandler`. -/
theorem handlePacket_publish (htype : fh.getType = PackType.PUBLISH.code) :
    b.handlePacket fh data fd random = b.publishHandler fh data fd := by
  simp only [handlePacket, htype]
  rfl

/-- A PUBREL goes to `pubrelHandler`. -/
theorem handlePacket_pubrel (htype : fh.getType = PackType.PUBREL.code) :
    b.handlePacket fh data fd random = b.pubrelHandler data fd := by
  simp only [handlePacket, htype]
  rfl

/-- A SUBSCRIBE goes to `subscribeHandler`. -/
theorem handlePacket_subscribe (htype : fh.getType = PackType.SUBSCRIBE.code) :
    b.handlePacket fh data fd random = b.subscribeHandler fh data fd := by
  simp only [handlePacket, htype]
  rfl

/-- An UNSUBSCRIBE goes to `unsubscribeHandler`. -/
theorem handlePacket_unsubscribe (htype : fh.getType = PackType.UNSUBSCRIBE.code) :
    b.handlePacket fh data fd random = b.unsubscribeHandler fh data fd := by
  simp only [handlePacket, htype]
  rfl

/-- A CONNECT goes to `connectHandler`. -/
theorem handlePacket_connect (htype : fh.getType = PackType.CONNECT.code) :
    b.handlePacket fh data fd random = b.connectHandler data fd random := by
  simp only [handlePacket, htype]
  rfl

end handlePacket

/-- The CONNACK of `MqttProtocolVersionErr` and `MqttDuplicateIDErr`, written at
    once and not queued. -/
def writeConnack (b : Broker) (fd : Fd) (reason_code : ReasonCode) : Exec Broker := do
  let answer_vh : ConnactVH := ⟨0, reason_code.code, OrderedSet.empty⟩
  let data ← createMqttPacket (packetByte .CONNACK) answer_vh
  return b.record (.wrote fd data)

/-- `MqttErrorHandler::HandleError`. -/
def handleError (b : Broker) (error : MqttErr) (fd : Fd) : Exec Broker :=
  match error with
  | .protocolVersionErr => b.writeConnack fd .unsupportedProtocolVersion
  | .duplicateClientId => b.writeConnack fd .clientIdentifierNotValid
  | _ => .ok b

end Broker

end Mqtt.Native
