import MqttBroker.Spec.PublishPayload
import MqttBroker.Spec.ServiceMessages

/-!
# The output of a connection

Everything the broker queues for a connection is one stream of bytes. The fixed-header reader
gets it back packet by packet: no packet is too long for its length field, whatever the
clients send.
-/

namespace Mqtt.Spec

open Mqtt.Native Mqtt.Native.Broker

/-! ## Reading a stream -/

/-- `ReadFixedHeader` and `ReadData` on a stream, as often as there is something to read. -/
def readPackets : (fuel : Nat) → (stream : Bytes) → Option (List (FixedHeader × Bytes))
  | _, [] => some []
  | 0, _ :: _ => none
  | fuel + 1, stream =>
    match readFixedHeader stream with
    | .error _ => none
    | .ok (f_head, rest) =>
      if rest.length < f_head.remaining_len then none
      else (readPackets fuel (rest.drop f_head.remaining_len)).map
        ((f_head, rest.take f_head.remaining_len) :: ·)

namespace ServerPacket

/-- What the reader gets of a packet. -/
def frame (p : ServerPacket) : FixedHeader × Bytes := (⟨p.first, p.body.length⟩, p.body)

/-- A packet in front of others is read. -/
theorem readFixedHeader_encode_append {p : ServerPacket} (h : p.body.length < 2 ^ 28)
    (rest : Bytes) :
    readFixedHeader (p.encode ++ rest) = .ok (⟨p.first, p.body.length⟩, p.body ++ rest) := by
  have hnat : (UInt32.ofNat p.body.length).toNat = p.body.length := by
    rw [UInt32.toNat_ofNat', Nat.mod_eq_of_lt (by omega)]
  obtain ⟨hvar, hvalue⟩ := codeVarInt_spec (UInt32.ofNat p.body.length)
  rw [encode, packetBytes, List.cons_append, List.append_assoc,
    readFixedHeader_of_isVarInt hvar (length_codeVarInt_le (by omega)), hvalue, hnat]

/-- A packet takes at least its first byte. -/
theorem length_encode_pos (p : ServerPacket) : 0 < p.encode.length := Nat.succ_pos _

/-- A stream of packets is read packet by packet. -/
theorem readPackets_encode {ps : List ServerPacket} (h : ∀ p ∈ ps, p.body.length < 2 ^ 28)
    {fuel : Nat} (hfuel : ps.length ≤ fuel) :
    readPackets fuel (ps.flatMap encode) = some (ps.map frame) := by
  -- Induction on the packets; each takes a round of the reader
  induction ps generalizing fuel with
  | nil => cases fuel <;> rfl
  | cons p ps ih =>
    obtain ⟨hp, hps⟩ := List.forall_mem_cons.mp h
    -- a packet has at least two bytes, so the fuel lasts
    obtain ⟨fuel, rfl⟩ : ∃ n, fuel = n + 1 := Nat.exists_eq_add_one.mpr (by
      rw [List.length_cons] at hfuel
      omega)
    have hread := readFixedHeader_encode_append hp (ps.flatMap encode)
    have hcons : p.encode ++ ps.flatMap encode =
        p.first :: (codeVarInt (UInt32.ofNat p.body.length) ++ p.body ++ ps.flatMap encode) := rfl
    rw [List.flatMap_cons]
    rw [hcons] at hread ⊢
    rw [readPackets, hread]
    · dsimp only
      rw [if_neg (by rw [List.length_append]; omega), List.drop_left, List.take_left,
        ih hps (Nat.le_of_succ_le_succ hfuel)]
      rfl
    · exact fun heq => nomatch heq

/-- A stream has at least a byte for each packet. -/
theorem length_le_length_flatMap_encode (ps : List ServerPacket) :
    ps.length ≤ (ps.flatMap encode).length := by
  induction ps with
  | nil => exact Nat.zero_le _
  | cons p ps ih =>
    have hpos := p.length_encode_pos
    rw [List.flatMap_cons, List.length_cons, List.length_append]
    omega

end ServerPacket

/-! ## What is read is short -/

/-- A string that is read has at most 65535 bytes, and lies inside of the buffer. -/
theorem length_of_readString {buf data : Bytes} {i j : Nat} (h : readString buf i = .ok (data, j)) :
    data.length ≤ 65535 ∧ i + 2 ≤ j ∧ j ≤ buf.length := by
  obtain ⟨hle, rfl, rest, hdrop⟩ := readString_eq_ok_iff.mp h
  have hlen := congrArg List.length hdrop
  rw [List.length_drop, List.length_append, length_encodeString, MqttStringEntity.size] at hlen
  exact ⟨hle, by omega, by omega⟩

/-- A topic name that is read has at most 65535 bytes. -/
theorem length_of_ofBuf {is_packet_id_present : Bool} {buf : Bytes} {vh : PublishVH} {offset : Nat}
    (h : PublishVH.ofBuf is_packet_id_present buf = .ok (vh, offset)) :
    vh.topic_name.length ≤ 65535 := by
  obtain ⟨⟨topic_name, i⟩, hname, h⟩ := Except.bind_eq_ok_iff.mp h
  dsimp only at h
  -- the packet id may be missing, and says nothing about the name
  split at h
  · obtain ⟨packet_id, -, h⟩ := Except.bind_eq_ok_iff.mp h
    obtain ⟨read, -, h⟩ := Except.bind_eq_ok_iff.mp h
    obtain ⟨created, -, h⟩ := Except.bind_eq_ok_iff.mp h
    obtain ⟨rfl, -⟩ := Prod.mk.inj (Except.ok.inj h)
    exact (length_of_readString hname).1
  · obtain ⟨read, -, h⟩ := Except.bind_eq_ok_iff.mp h
    obtain ⟨created, -, h⟩ := Except.bind_eq_ok_iff.mp h
    obtain ⟨rfl, -⟩ := Prod.mk.inj (Except.ok.inj h)
    exact (length_of_readString hname).1

/-- The names of messages were read with a length in front. -/
theorem Understood.length_name {fh : FixedHeader} {data : Bytes} {p : ClientPacket}
    (h : Understood fh data p) : ∀ m ∈ p.messages, m.1.length ≤ 65535 := by
  -- only a will and a PUBLISH carry a message
  cases p with
  | connect id clean alive will =>
    obtain ⟨-, b, pClient, con_vh, offset, -, -, -, hwill⟩ := h
    cases will with
    | none => exact fun m hm => nomatch hm
    | some m =>
      -- the name has a length field of two bytes
      obtain ⟨topic, ⟨_, _, _, name, _, _, pMessage, _, _, hname, _, _, rfl⟩, hmessage⟩ := hwill
      intro m' hm'
      obtain rfl := List.mem_singleton.mp hm'
      obtain rfl := Option.some.inj hmessage
      exact (length_of_readString hname).1
  | publish qos retain packet_id m =>
    obtain ⟨-, -, -, vh, hpublish, hname, -⟩ := h
    intro m' hm'
    obtain rfl := List.mem_singleton.mp hm'
    -- and so has that of a PUBLISH
    obtain ⟨tmp_vh, offset, hread, -, htopic, -⟩ := handleMqttPublish_eq_ok_iff.mp hpublish
    rw [← hname, htopic]
    exact length_of_ofBuf hread
  | _ => exact fun m hm => nomatch hm

/-! ## Answers are short -/

/-- A record of a SUBSCRIBE takes at least three bytes. -/
theorem length_of_subscribeLoop {remaining_len : Nat} {buf : Bytes} {pClient : ClientRef}
    (fuel : Nat) {b b' : Broker} {offset : Nat} {reason_codes reason_codes' : List UInt8}
    {topics topics' : List (Bytes × UInt8)}
    (h : subscribeLoop remaining_len buf pClient fuel b offset reason_codes topics =
      .ok (b', reason_codes', topics')) :
    3 * topics'.length ≤ 3 * topics.length + (buf.length - offset) := by
  induction fuel generalizing b offset reason_codes topics with
  | zero => exact nomatch h
  | succ fuel ih =>
    rw [subscribeLoop] at h
    split at h
    · obtain ⟨⟨topic_name, i⟩, hname, h⟩ := Except.bind_eq_ok_iff.mp h
      obtain ⟨options, hbyte, h⟩ := Except.bind_eq_ok_iff.mp h
      obtain ⟨-, hi, -⟩ := length_of_readString hname
      -- each record takes a name and its options from the body
      have hlt : i < buf.length := (List.getElem?_eq_some_iff.mp (readByte_eq_ok_iff.mp hbyte)).1
      have hrest := ih h
      rw [List.length_append, List.length_singleton] at hrest
      omega
    · obtain ⟨-, h⟩ := Prod.mk.inj (Except.ok.inj h)
      obtain ⟨-, rfl⟩ := Prod.mk.inj h
      omega

/-- A filter of an UNSUBSCRIBE takes at least two bytes. -/
theorem length_of_unsubscribeLoop {remaining_len : Nat} {buf : Bytes} (fuel : Nat) {offset : Nat}
    {topics topics' : List Bytes}
    (h : unsubscribeLoop remaining_len buf fuel offset topics = .ok topics') :
    2 * topics'.length ≤ 2 * topics.length + (buf.length - offset) := by
  induction fuel generalizing offset topics with
  | zero => exact nomatch h
  | succ fuel ih =>
    rw [unsubscribeLoop] at h
    split at h
    · obtain ⟨⟨topic_name, i⟩, hname, h⟩ := Except.bind_eq_ok_iff.mp h
      -- each turn takes a name from the body
      obtain ⟨-, hi, hle⟩ := length_of_readString hname
      have hrest := ih h
      rw [List.length_append, List.length_singleton] at hrest
      omega
    · obtain rfl := Except.ok.inj h
      omega

/-- The running sum of `GetSize` has 16 bits. -/
theorem getSize_lt (chain : MqttPropertyChain) : chain.getSize < 2 ^ 16 := by
  have hfold : ∀ (ps : List MqttProperty) (n : Nat), n < 2 ^ 16 →
      ps.foldl (fun size it => (size + (it.size + 1)) % 2 ^ 16) n < 2 ^ 16 := by
    intro ps
    induction ps with
    | nil => exact fun _ hn => hn
    | cons p ps ih => exact fun n _ => ih _ (Nat.mod_lt _ (by decide))
  exact hfold _ _ (by decide)

/-- The properties of a CONNACK, in the order of their ids. -/
theorem toList_connackProperties (c : Client) : (connackProperties c).toList =
    (if c.id_was_random_generated then
      [⟨MqttPropertyId.assignedClientIdentifier.code, .mqttString c.client_id⟩] else []) ++
    [⟨MqttPropertyId.retainAvailable.code, .byte 1⟩,
      ⟨MqttPropertyId.maximumPacketSize.code, .fourByte 65535⟩,
      ⟨MqttPropertyId.wildcardSubscriptionAvailable.code, .byte 1⟩,
      ⟨MqttPropertyId.sharedSubscriptionAvailable.code, .byte 0⟩] := by
  cases hgenerated : c.id_was_random_generated <;> simp only [connackProperties, hgenerated] <;> rfl

/-- A CONNACK has little more than a client id. -/
theorem length_encodeChain_connack (c : Client) :
    (encodeChain (connackProperties c)).length ≤ c.client_id.length + 18 := by
  have hvar : (codeVarInt (UInt32.ofNat (connackProperties c).getSize)).length ≤ 4 := by
    refine length_codeVarInt_le ?_
    have hlt := getSize_lt (connackProperties c)
    rw [UInt32.toNat_ofNat']
    omega
  rw [encodeChain, List.length_append, length_encodeProperties, toList_connackProperties,
    List.map_append, List.sum_append]
  split <;> simp [MqttProperty.size, MqttEntity.size, MqttStringEntity.size] <;> omega

/-! ## Client ids are short -/

/-- A client id that is read has at most 65535 bytes. -/
theorem length_of_readsId {b : Broker} {pClient : ClientRef} {data id : Bytes} {con_vh : ConnectVH}
    {offset : Nat} (h : ReadsId b pClient data con_vh (some id) offset) : id.length ≤ 65535 := by
  obtain ⟨_, created, id_len, -, -, -, -, hid, -⟩ := h
  exact (createMqttStringEntity_eq_some_iff.mp hid).2.1

/-- The id that a CONNECT leaves its client with, read or generated, has at most 65535 bytes. -/
theorem Connects.length_client_id {b b' : Broker} {pClient : ClientRef} {buf random : Bytes}
    (h : Connects b pClient buf random b') (hrandom : random.length ≤ 23) :
    (b'.heap pClient).client_id.length ≤ 65535 := by
  cases h with
  | identified hread _ _ hidentified hframes =>
    obtain ⟨c, hc, rfl⟩ := hframes
    have hid : c.client_id = _ := congrArg Prod.fst hc
    rw [heap_setClient_self, hid]
    cases hidentified with
    | unused | takenOver =>
      rw [heap_setClient_self]
      exact length_of_readsId hread
    -- 23 characters
    | generated =>
      rw [heap_setClient_self]
      exact Nat.le_trans hrandom (by decide)

/-- What is read is shorter than 2^28 bytes, as `ReadVariableInt` has it, and a generated id has
    23 characters at most, as `HandleMqttConnect` asks for it. -/
def fits : SystemEvent → Bool
  | .server (.socket (.pollin _ (.packet _ data random))) =>
    decide (data.length < 2 ^ 28 ∧ random.length ≤ 23)
  | _ => true

/-- The ids of the clients that are left in are short. -/
def IdsShort (s : ServerThread) : Prop :=
  ∀ fd ref, Active s fd ref → (s.broker.heap ref).client_id.length ≤ 65535

/-- Every step keeps the client ids short. -/
theorem IdsShort.step {s t : ServerThread} {e : SystemEvent} (h : IdsShort s) (hs : ThreadInv s)
    (hfits : fits e) (hstep : system.Step s e t) : IdsShort t := by
  intro fd ref hactive
  have hkept : ∀ {c c' : Client}, keptData c = keptData c' → c.client_id = c'.client_id :=
    fun heq => by have hid := congrArg Client.client_id heq; exact hid
  cases active_cases hs.scans hs.service.own hstep hactive with
  | stays hbefore _ hsame =>
    rw [hkept hsame]
    exact h fd ref hbefore
  -- a new client has no id yet
  | new href =>
    obtain hold | ⟨hentry, -, ip, now, rfl⟩ := (system_connections hstep).lookup hactive.1
    · exact absurd (hs.service.own.lt hold) (Nat.not_lt.mpr href)
    · obtain rfl := Option.some.inj hentry
      cases system_cases hstep
      rw [Broker.addClient, heap_setClient_self]
      exact Nat.zero_le _
  | connect _ _ hconnect hheap =>
    rw [hheap]
    unfold connectIn at hconnect
    split at hconnect
    · split at hconnect
      · split at hconnect
        · rename_i hhandle
          -- its id was read with two bytes of length, or was generated
          obtain ⟨rfl, hrest⟩ := Prod.mk.inj (Option.some.inj hconnect)
          obtain ⟨rfl, rfl⟩ := Prod.mk.inj (Prod.mk.inj hrest).2
          obtain ⟨hne, -⟩ | hconnects := handleMqttConnect_connects hhandle
          · exact absurd rfl hne
          · exact hconnects.length_client_id (of_decide_eq_true hfits).2
        · cases hconnect
      · cases hconnect
    · cases hconnect
  | packet hbefore _ _ hsame =>
    rw [hkept hsame]
    exact h fd ref hbefore

/-! ## What is queued is short -/

/-- The body fits its length field. -/
def ServerPacket.Short (p : ServerPacket) : Prop := p.body.length < 2 ^ 28

/-- Of two rows that correspond an element of the second has one in the first. -/
theorem exists_of_forall₂ {α β : Type} {R : α → β → Prop} {as : List α} {bs : List β}
    (h : List.Forall₂ R as bs) {b : β} (hb : b ∈ bs) : ∃ a ∈ as, R a b := by
  induction h with
  | nil => exact nomatch hb
  | cons hab _ ih =>
    obtain rfl | hb := List.mem_cons.mp hb
    · exact ⟨_, .head _, hab⟩
    · obtain ⟨a, ha, hab⟩ := ih hb
      exact ⟨a, .tail _ ha, hab⟩

/-- What is queued is queued to its own socket. -/
theorem mem_outTo {o : Outgoing} {out : List Outgoing} (h : o ∈ out) : o.2 ∈ outTo o.1 out :=
  List.mem_map_of_mem (List.mem_filter.mpr ⟨h, by simp⟩)

/-- A list of reason codes has one for each record that was read. -/
theorem short_of_codes {packet_id : UInt16} {codes : List UInt8} (h : codes.length < 2 ^ 28 - 3) :
    (ServerPacket.suback packet_id codes).Short ∧
      (ServerPacket.unsuback packet_id codes).Short := by
  have hlen : (htons packet_id.toNat ++ 0 :: codes).length = codes.length + 3 := by
    rw [List.length_append, List.length_cons, length_htons]
    omega
  constructor <;> (show (htons packet_id.toNat ++ 0 :: codes).length < 2 ^ 28; omega)

namespace Service

variable {S S' : Service} {fd : Fd} {σ σ' : Session}

/-- An answer is short if the packet is, and the id of the client. -/
theorem Handles.answer_short {p : ClientPacket} {queued written : List Outgoing} {keep : Bool}
    {fh : FixedHeader} {data : Bytes} (h : S.Handles fd σ p queued written keep S')
    (hσ : S.sessions fd = some σ) (hunderstood : Understood fh data p)
    (hdata : data.length < 2 ^ 28)
    (hid : ∀ σ', S'.sessions fd = some σ' → σ'.client_id.length ≤ 65535) :
    ∀ o ∈ queued, o.2.isAnswer = true → o.2.Short := by
  rintro ⟨fd', answer⟩ ho hanswer
  obtain ⟨q, hq, hanswers⟩ := exists_of_forall₂ (h.answers fd')
    (List.mem_filter.mpr ⟨mem_outTo ho, hanswer⟩)
  -- the only packet that is answered is the one that is handled
  obtain rfl : q = p := by
    obtain ⟨r, hr, rfl⟩ := List.mem_map.mp hq
    rw [List.mem_singleton.mp (List.mem_filter.mp hr).1]
  cases hanswers with
  | connect =>
    cases h with
    | @connect id clean _ _ σ' S' htakes =>
      obtain ⟨-, heq⟩ := Prod.mk.inj (List.mem_singleton.mp ho)
      have hlen : σ'.client_id.length ≤ 65535 := by
        cases htakes with
        | unused | takenOver =>
          obtain ⟨-, b, pClient, con_vh, offset, hread, -⟩ := hunderstood
          exact length_of_readsId hread
        | @generated random =>
          have hnew := hid _ (sessions_edit_self (sessions_edit_self hσ))
          exact hnew
      rw [heq]
      refine Nat.lt_of_le_of_lt (Nat.add_le_add_right (length_encodeChain_connack _) 2) ?_
      show σ'.client_id.length + 18 + 2 < 2 ^ 28
      omega
  | puback | hold | pubrec | pubrel =>
    show (htons _ ++ [_, _]).length < _
    rw [List.length_append, length_htons]
    decide
  | subscribe hcodes =>
    -- each code stands for a record of the packet
    obtain ⟨-, -, _, _, _, _, _, _, -, hloop⟩ := hunderstood
    have hlen := length_of_subscribeLoop _ hloop
    rw [List.length_nil] at hlen
    exact (short_of_codes (by omega)).1
  | unsubscribe hcodes =>
    obtain ⟨-, offset, -, hloop⟩ := hunderstood
    have hlen := length_of_unsubscribeLoop _ hloop
    rw [List.length_nil] at hlen
    exact (short_of_codes (by omega)).2
  | pingreq => exact Nat.two_pow_pos 28

/-- A packet that ends its connection makes the service queue nothing. -/
theorem Handles.queued_of_last {p : ClientPacket} {queued written : List Outgoing}
    (h : S.Handles fd σ p queued written false S') : queued = [] := by
  cases h with
  | badConnect | disconnect | other => rfl

/-- The answers of a step are short if its packet is, and the ids of the clients. -/
theorem Step.answer_short {l : Label} (h : S.Step l S')
    (hread : ∀ fd now p, l.action = .packet fd now p →
      ∃ fh data, Understood fh data p ∧ data.length < 2 ^ 28)
    (hid : ∀ fd σ, S'.Open fd σ → σ.client_id.length ≤ 65535) :
    ∀ o ∈ l.queued, o.2.isAnswer = true → o.2.Short := by
  intro o ho hanswer
  -- what a will makes the service send is no answer
  have hwill : ∀ {S₁ S₂ : Service} {will : Option Message} {out : List Outgoing},
      S₁.SendsWill will out S₂ → o ∉ out := by
    intro S₁ S₂ will out hsends hmem
    have hnone := List.filter_eq_nil_iff.mp (hsends.no_answer o.1) _ (mem_outTo hmem)
    exact hnone hanswer
  cases h with
  | accept | short | close | silent => exact nomatch ho
  | @packet fd σ now p queued written S' hopen hhandles =>
    obtain ⟨fh, data, hunderstood, hdata⟩ := hread fd now p rfl
    -- the packet was read, so its parts are short
    refine hhandles.answer_short (sessions_edit_self hopen.1) hunderstood hdata (fun σ' hσ' => ?_)
      o ho hanswer
    exact hid fd σ' ⟨hσ', fun hmem => hopen.2 (hhandles.ending_eq ▸ hmem)⟩
  | lastPacket _ hhandles =>
    rw [hhandles.queued_of_last] at ho
    exact nomatch ho
  | lost _ _ hsends => exact (hwill hsends ho).elim
  | timeout _ _ hsends =>
    obtain rfl | ho := List.mem_cons.mp ho
    · exact nomatch hanswer
    · exact (hwill hsends ho).elim

end Service

/-! ## Runs -/

/-- The system with its traffic, where packets and generated ids have a possible length. -/
def streamSystem : LTS (ServerThread × Traffic) SystemEvent :=
  trafficSystem.restrict fun _ e => fits e

/-- The names of the messages in a run are short. -/
theorem RunsAs.length_name {x : ServerThread × Traffic} {ls : List Service.Label}
    (h : RunsAs x ls) : ∀ m ∈ Service.messagesIn ls, m.1.length ≤ 65535 := by
  intro m hm
  obtain ⟨p, hp, hm⟩ := List.mem_flatMap.mp hm
  obtain ⟨r, -, -, hunderstood⟩ := exists_of_forall₂ h.read hp
  exact hunderstood.length_name m hm

/-- What is published was sent, so its name is short. -/
theorem RunsAs.length_published {x : ServerThread × Traffic} {ls : List Service.Label}
    (h : RunsAs x ls) {o : Outgoing} (ho : o ∈ ls.flatMap Service.Label.queued) {fd : Fd}
    {m : Message} (hm : Service.Publishes o fd m) : m.1.length ≤ 65535 := by
  obtain ⟨l, hl, ho⟩ := List.mem_flatMap.mp ho
  obtain ⟨before, after, heq⟩ := List.append_of_mem hl
  obtain ⟨S, S', hrun, hstep⟩ := h.run.cut heq
  obtain ⟨hsent, -⟩ := (Service.Step.known hstep (Service.known_of_run hrun)).2 o ho fd m hm
  have hsplit : ls = (before ++ [l]) ++ after := heq.trans (List.append_cons before l after)
  refine h.length_name m ?_
  rw [hsplit, Service.messagesIn, List.filterMap_append, List.flatMap_append]
  exact List.mem_append_left _ hsent

/-- A packet that is read fits. -/
theorem length_of_incoming {s : ServerThread} {e : SystemEvent} {r : Incoming} (hfits : fits e)
    (h : incoming s e = some r) : r.2.2.length < 2 ^ 28 := by
  unfold incoming at h
  split at h
  · unfold readAt at h
    split at h
    · obtain ⟨-, h⟩ := Option.ite_none_left_eq_some.mp h
      obtain rfl := Option.some.inj h
      exact (of_decide_eq_true hfits).1
    · exact nomatch h
  · exact nomatch h

/-- A run whose packets are short up to here. -/
structure StreamInv (x : ServerThread × Traffic) (ls : List Service.Label) : Prop where
  runs : RunsAs x ls
  ids : IdsShort x.1
  short : ∀ o ∈ ls.flatMap Service.Label.queued, o.2.Short

/-- Each step adds a label, and what it queues is short enough for a remaining length. -/
theorem StreamInv.step {x y : ServerThread × Traffic} {e : SystemEvent} {ls : List Service.Label}
    (h : StreamInv x ls) (hreach : trafficSystem.Reachable x) (hfits : fits e)
    (hstep : trafficSystem.Step x e y) : ∃ l, StreamInv y (ls ++ [l]) := by
  obtain ⟨l, hl, hruns⟩ := h.runs.step hreach hstep
  have hids : IdsShort y.1 := h.ids.step (threadInv_of_traffic hreach) hfits hstep.2.1
  refine ⟨l, hruns, hids, fun o hmem => ?_⟩
  have ho := hmem
  rw [List.flatMap_append, List.flatMap_singleton] at ho
  obtain ho | ho := List.mem_append.mp ho
  · exact h.short o ho
  -- answers are short as the packets they answer, and what is forwarded as what was published
  cases hanswer : o.2.isAnswer with
  | true =>
    refine hl.step.answer_short (fun fd now p haction => ?_) (fun fd σ hopen => ?_) o ho hanswer
    · have hp : (fd, p) ∈ l.packet?.toList := by
        rw [Service.Label.packet?, haction]
        exact .head _
      obtain ⟨r, hr, -, hunderstood⟩ := exists_of_forall₂ hl.read hp
      exact ⟨r.2.1, r.2.2, hunderstood, length_of_incoming hfits (Option.mem_toList.mp hr)⟩
    · obtain ⟨ref, hlookup, rfl⟩ := lookup_of_sessions hopen.1
      exact hids fd ref ⟨hlookup, hopen.2⟩
  | false =>
    obtain ⟨fd, p⟩ := o
    cases p with
    | publish options packet_id name message =>
      exact length_encodePublish_lt (hruns.length_published hmem .publish) packet_id message
    | disconnect => exact (by decide : 2 < 2 ^ 28)
    | _ => cases hanswer

/-- Every run has labels whose packets are short. -/
theorem exists_streamInv {x : ServerThread × Traffic} (h : streamSystem.Reachable x) :
    ∃ ls, StreamInv x ls := by
  suffices trafficSystem.Reachable x ∧ ∃ ls, StreamInv x ls from this.2
  refine h.invariant (P := fun x => trafficSystem.Reachable x ∧ ∃ ls, StreamInv x ls) ?_ ?_
  · rintro ⟨s, g⟩ hinit
    obtain rfl : g = {} := hinit.2
    exact ⟨.init hinit, [], runsAs_init hinit,
      fun fd ref hactive => (not_active_of_init hinit.1 hactive).elim, fun o ho => nomatch ho⟩
  · rintro x e y ⟨hreach, ls, hstream⟩ ⟨hfits, hstep⟩
    obtain ⟨l, hstream'⟩ := hstream.step hreach hfits hstep
    exact ⟨hreach.step hstep, _, hstream'⟩

/-- The bytes that some commands write to a socket. -/
def outputTo (fd : Fd) (cmds : List FdWriteCommand) : Bytes :=
  (cmds.filter fun cmd => cmd.fd = fd).flatMap FdWriteCommand.cmd

/-- The bytes for a socket are those of its packets, one behind the other. -/
theorem outputTo_command (fd : Fd) (out : List Outgoing) :
    outputTo fd (out.map command) = (outTo fd out).flatMap ServerPacket.encode := by
  rw [outputTo, outTo, List.filter_map, List.flatMap_map, List.flatMap_map]
  rfl

/-- All packets of a stream. -/
def readStream (stream : Bytes) : Option (List (FixedHeader × Bytes)) :=
  readPackets stream.length stream

/-- A run reads back what it has queued for a connection. -/
theorem StreamInv.readStream_eq {x : ServerThread × Traffic} {ls : List Service.Label}
    (h : StreamInv x ls) (fd : Fd) : readStream (outputTo fd (x.2.sent ++ x.1.broker.commands)) =
      some ((outTo fd (ls.flatMap Service.Label.queued)).map ServerPacket.frame) := by
  rw [h.runs.queued, outputTo_command]
  refine ServerPacket.readPackets_encode (fun p hp => ?_)
    (ServerPacket.length_le_length_flatMap_encode _)
  obtain ⟨o, ho, rfl⟩ := List.mem_map.mp hp
  exact h.short o (List.mem_filter.mp ho).1

/-- What the broker queues for a connection, one command behind the other, is read back as the
    packets of the service, each with its own body and with nothing between them. -/
theorem output_read_back {x : ServerThread × Traffic} (h : streamSystem.Reachable x) :
    ∃ ls, RunsAs x ls ∧ ∀ fd, readStream (outputTo fd (x.2.sent ++ x.1.broker.commands)) =
      some ((outTo fd (ls.flatMap Service.Label.queued)).map ServerPacket.frame) := by
  obtain ⟨ls, hstream⟩ := exists_streamInv h
  exact ⟨ls, hstream.runs, hstream.readStream_eq⟩

/-- A step of the system with its traffic, if the lengths are possible. -/
def streamStep (x : ServerThread × Traffic) (e : SystemEvent) : Option (ServerThread × Traffic) :=
  if fits e then trafficStep x e else none

/-- The client that publishes to itself twice sends nothing that is too long. -/
theorem exists_streamed : ∃ x, streamSystem.Reachable x ∧ x.2.sent.length = 1 ∧
    x.1.broker.commands.length = 5 := by
  have hrun : (publishedTwice.foldlM streamStep (fromStart, {})).map (fun x =>
      decide (x.2.sent.length = 1) && decide (x.1.broker.commands.length = 5)) = some true := by
    decide +kernel
  obtain ⟨x, hx, hcheck⟩ := Option.map_eq_some_iff.mp hrun
  simp only [Bool.and_eq_true, decide_eq_true_eq] at hcheck
  have hstep : ∀ {x e y}, streamStep x e = some y → streamSystem.Step x e y := by
    intro x e y h
    obtain ⟨hfits, hstep⟩ := Option.ite_none_right_eq_some.mp h
    exact ⟨hfits, step_of_trafficStep hstep⟩
  exact ⟨x, ⟨(fromStart, {}), _, ⟨⟨4, rfl⟩, rfl⟩, LTS.run_of_foldlM hstep hx⟩, hcheck⟩

/-- One PUBLISH written and five commands queued; both streams are read back. -/
theorem output_read_back_publishedTwice : ∃ x ls, x.2.sent.length = 1 ∧
    x.1.broker.commands.length = 5 ∧ RunsAs x ls ∧
    ∀ fd, readStream (outputTo fd (x.2.sent ++ x.1.broker.commands)) =
      some ((outTo fd (ls.flatMap Service.Label.queued)).map ServerPacket.frame) := by
  obtain ⟨x, hreach, hsent, hcommands⟩ := exists_streamed
  obtain ⟨ls, hread⟩ := output_read_back hreach
  exact ⟨x, ls, hsent, hcommands, hread⟩

/-! ## What the packets say -/

namespace ServerPacket

/-- The packet as the one who reads it would have sent it, where both sides send such packets. -/
def asClient : ServerPacket → Option ClientPacket
  | publish options packet_id name message =>
    some (.publish (options &&& 3) false packet_id (name, message))
  | puback packet_id => some (.puback packet_id)
  | pubrec packet_id => some (.pubrec packet_id)
  | pubrel packet_id => some (.pubrel packet_id)
  | pubcomp packet_id => some (.pubcomp packet_id)
  | _ => none

/-- A PUBLISH has a packet id exactly with QoS 1 and 2, and no options but QoS bits and those
    of a SUBSCRIBE. -/
def WellMade (given : List UInt8) : ServerPacket → Prop
  | publish options packet_id _ _ =>
    (options &&& 3 = 0 ↔ packet_id = 0) ∧ (options &&& 3 = options ∨ options ∈ given)
  | _ => True

/-- No bit of the options reaches the packet type. -/
def Typed : ServerPacket → Prop
  | publish options _ _ _ => options &&& 0x60 = 0
  | _ => True

end ServerPacket

/-- The first byte is that of a PUBLISH exactly when the options leave its type alone. -/
theorem getType_publishFirst_iff (options : UInt8) :
    (FixedHeader.mk (publishFirst options) 0).getType = PackType.PUBLISH.code ↔
      options &&& 0x60 = 0 :=
  forall_byte (p := fun options =>
    (FixedHeader.mk (publishFirst options) 0).getType = PackType.PUBLISH.code ↔
      options &&& 0x60 = 0) (by decide +kernel) options

/-- The broker sends nothing with RETAIN. -/
theorem isRETAIN_publishFirst (options : UInt8) :
    (FixedHeader.mk (publishFirst options) 0).isRETAIN = false :=
  forall_byte (p := fun options => (FixedHeader.mk (publishFirst options) 0).isRETAIN = false)
    (by decide +kernel) options

/-- The header of an acknowledgement is read from its packet. -/
theorem readFromBuf_ack (packet_id : UInt16) (rest : Bytes) :
    PubackVH.readFromBuf (htons packet_id.toNat ++ rest) = .ok packet_id :=
  convertToHost2Bytes_of_drop rfl

/-- The two low bits leave the type alone. -/
theorem and_three_and_type (options : UInt8) : options &&& 3 &&& 0x60 = 0 :=
  forall_byte (p := fun options => options &&& 3 &&& 0x60 = 0) (by decide +kernel) options

namespace ServerPacket

variable {p : ServerPacket} {given given' : List UInt8}

theorem WellMade.mono (h : p.WellMade given) (hsub : given ⊆ given') : p.WellMade given' := by
  cases p with
  | publish => exact ⟨h.1, h.2.imp_right fun hmem => hsub hmem⟩
  | _ => trivial

/-- The options of a SUBSCRIBE may reach the type, QoS bits do not. -/
theorem WellMade.typed (h : p.WellMade given) (hgiven : ∀ options ∈ given, options &&& 0x60 = 0) :
    p.Typed := by
  cases p with
  | publish options =>
    obtain hqos | hmem := h.2
    · show options &&& 0x60 = 0
      rw [← hqos]
      exact and_three_and_type options
    · exact hgiven options hmem
  | _ => trivial

/-- The handlers of the broker understand what it sends, if its type is right. -/
theorem understood_iff {q : ClientPacket} (hq : p.asClient = some q) (h : p.WellMade given)
    (hname : ∀ m ∈ q.messages, m.1.length ≤ 65535) :
    Understood p.frame.1 p.frame.2 q ↔ p.Typed := by
  -- the broker itself reads PUBLISH and the four acknowledgements
  cases p with
  | publish options packet_id name message =>
    obtain rfl := Option.some.inj hq
    constructor
    · rintro ⟨htype, -⟩
      exact (getType_publishFirst_iff options).mp htype
    · intro htyped
      refine ⟨(getType_publishFirst_iff options).mpr htyped, (qoS_publishFirst options).symm,
        (isRETAIN_publishFirst options).symm, ⟨name, packet_id, OrderedSet.empty⟩, ?_, rfl, rfl⟩
      exact handleMqttPublish_encodePublish (hname _ (.head _))
        ((qoS_publishFirst options).symm ▸ h.1) rfl rfl
  | puback packet_id | pubrec packet_id | pubrel packet_id | pubcomp packet_id =>
    obtain rfl := Option.some.inj hq
    refine iff_of_true ⟨?_, readFromBuf_ack packet_id _⟩ trivial
    simp only [frame, first, FixedHeader.getType]
    decide
  | _ => exact nomatch hq

end ServerPacket

/-- The options that a packet subscribes with. -/
def ClientPacket.options : ClientPacket → List UInt8
  | subscribe _ records => records.map Prod.snd
  | _ => []

/-- The options that have come in on a socket. -/
def optionsOn (fd : Fd) (ps : List (Fd × ClientPacket)) : List UInt8 :=
  (ps.filter fun p => p.1 = fd).flatMap fun p => p.2.options

/-- The options given on a socket, one row behind the other. -/
theorem optionsOn_append (fd : Fd) (ps ps' : List (Fd × ClientPacket)) :
    optionsOn fd (ps ++ ps') = optionsOn fd ps ++ optionsOn fd ps' := by
  rw [optionsOn, List.filter_append, List.flatMap_append]
  rfl

/-- The options given by one packet on its own socket. -/
theorem optionsOn_self (fd : Fd) (p : ClientPacket) : optionsOn fd [(fd, p)] = p.options := by
  simp [optionsOn]

namespace Service

variable {S S' : Service} {fd : Fd} {σ σ' : Session} {out : List Outgoing}

/-- What subscribers are sent has two bits of options. -/
theorem Notifies.wellMade {name : Bytes} {data : Option MqttBinaryDataEntity}
    (h : S.Notifies name data out S') (given : List UInt8) : ∀ o ∈ out, o.2.WellMade given := by
  rintro ⟨fd, p⟩ ho
  have hp := mem_outTo ho
  cases hσ : S.sessions fd with
  | none =>
    rw [(h.absent fd hσ).2] at hp
    exact nomatch hp
  | some σ =>
    obtain ⟨σ', -, hgets⟩ := h.present fd σ hσ
    dsimp only at hp
    generalize outTo fd out = ps at hp hgets
    cases hgets with
    | nothing => exact nomatch hp
    -- the options of a PUBLISH are the two QoS bits
    | @publish _ options _ _ _ _ _ hnumbered =>
      obtain rfl := List.mem_singleton.mp hp
      exact ⟨hnumbered, .inl (and_three_and_three options)⟩

/-- The packets of a will are well made. -/
theorem SendsWill.wellMade {will : Option Message} (h : S.SendsWill will out S')
    (given : List UInt8) : ∀ o ∈ out, o.2.WellMade given := by
  cases h with
  | nothing => exact fun o ho => nomatch ho
  | sent hnotifies => exact hnotifies.wellMade given

namespace Session

/-- A retained message has all the options of its filter. -/
theorem Sends.wellMade {options : UInt8} {ms : List Message} {ps : List ServerPacket}
    (h : σ.Sends options ms σ' ps) : ∀ p ∈ ps, p.WellMade [options] := by
  induction h with
  | nil => exact fun p hp => nomatch hp
  | cons hnumbered _ ih =>
    exact List.forall_mem_cons.mpr ⟨⟨hnumbered, .inr (.head _)⟩, ih⟩

/-- Retained messages have the options of one of the filters. -/
theorem SendsRetained.wellMade {retained : Bytes → Option MqttBinaryDataEntity}
    {records : List (Bytes × UInt8)} {ps : List ServerPacket}
    (h : σ.SendsRetained retained records σ' ps) : ∀ p ∈ ps, p.WellMade (records.map Prod.snd) := by
  induction h with
  | nil => exact fun p hp => nomatch hp
  | cons _ hsends _ ih =>
    rw [List.map_cons]
    refine List.forall_mem_append.mpr ⟨fun p hp => (hsends.wellMade p hp).mono ?_,
      fun p hp => (ih p hp).mono (List.subset_cons_self _ _)⟩
    exact List.cons_subset_cons _ (List.nil_subset _)

end Session

/-- What a packet makes the service queue is well made, with the options of the packet. -/
theorem Handles.wellMade {p : ClientPacket} {queued written : List Outgoing} {keep : Bool}
    (h : S.Handles fd σ p queued written keep S') :
    ∀ o ∈ queued, o.2.WellMade (optionsOn o.1 [(fd, p)]) := by
  cases h with
  | badConnect | puback | pubcomp | disconnect | other => exact fun o ho => nomatch ho
  -- an acknowledgement is well made
  | connect | hold | pubrec | unknown | unsubscribe | pingreq =>
    exact List.forall_mem_singleton.mpr trivial
  | publish _ hnotifies =>
    refine List.forall_mem_append.mpr ⟨?_, fun o => hnotifies.wellMade _ o⟩
    split
    · exact List.forall_mem_singleton.mpr trivial
    · exact fun o ho => nomatch ho
  | release _ hnotifies => exact List.forall_mem_cons.mpr ⟨trivial, fun o => hnotifies.wellMade _ o⟩
  | subscribe hsends =>
    refine List.forall_mem_cons.mpr ⟨trivial, List.forall_mem_map.mpr fun p hp => ?_⟩
    rw [optionsOn_self]
    exact hsends.wellMade p hp

/-- What a step queues has options of two bits, or such as the packet it handles has given. -/
theorem Step.wellMade {l : Label} (h : S.Step l S') :
    ∀ o ∈ l.queued, o.2.WellMade (optionsOn o.1 l.packet?.toList) := by
  cases h with
  | accept | short | close | silent => exact fun o ho => nomatch ho
  | packet _ hhandles | lastPacket _ hhandles => exact hhandles.wellMade
  | lost _ _ hwill => exact fun o => hwill.wellMade _ o
  | timeout _ _ hwill => exact List.forall_mem_cons.mpr ⟨trivial, fun o => hwill.wellMade _ o⟩

/-- What a run queues has options of two bits, or such as were given on the socket. -/
theorem wellMade_of_run {ls : List Label} {S : Service} (h : machine.Run {} ls S) :
    ∀ o ∈ ls.flatMap Label.queued, o.2.WellMade (optionsOn o.1 (ls.filterMap Label.packet?)) :=
  h.preserves_labels
    (P := fun _ ls => ∀ o ∈ ls.flatMap Label.queued,
      o.2.WellMade (optionsOn o.1 (ls.filterMap Label.packet?)))
    (fun ih hstep => by
      rw [List.flatMap_append, List.flatMap_singleton, filterMap_packet_snoc]
      refine List.forall_mem_append.mpr ⟨fun o ho => (ih o ho).mono ?_,
        fun o ho => (hstep.wellMade o ho).mono ?_⟩ <;> rw [optionsOn_append]
      · exact List.subset_append_left _ _
      · exact List.subset_append_right _ _)
    fun o ho => nomatch ho

end Service

/-- Each PUBLISH and each acknowledgement that the broker queues is understood by its own handlers
    as the packet that it is, exactly if its options leave the packet type alone; and they do if
    those of the SUBSCRIBE packets of its connection do. -/
theorem output_understood {x : ServerThread × Traffic} (h : streamSystem.Reachable x) :
    ∃ ls, RunsAs x ls ∧ ∀ fd, ∃ frames,
      readStream (outputTo fd (x.2.sent ++ x.1.broker.commands)) = some frames ∧
      List.Forall₂ (fun frame p => ∀ q, ServerPacket.asClient p = some q →
          (Understood frame.1 frame.2 q ↔ p.Typed))
        frames (outTo fd (ls.flatMap Service.Label.queued)) ∧
      ((∀ options ∈ optionsOn fd (ls.filterMap Service.Label.packet?), options &&& 0x60 = 0) →
        ∀ p ∈ outTo fd (ls.flatMap Service.Label.queued), p.Typed) := by
  obtain ⟨ls, hstream⟩ := exists_streamInv h
  refine ⟨ls, hstream.runs, fun fd => ⟨_, hstream.readStream_eq fd, ?_, fun hgiven p hp => ?_⟩⟩
  · refine List.forall₂_map_left_iff.mpr (List.forall₂_same.mpr fun p hp q hq => ?_)
    obtain ⟨o, ho, rfl⟩ := List.mem_map.mp hp
    obtain ⟨hmem, -⟩ := List.mem_filter.mp ho
    refine ServerPacket.understood_iff hq (Service.wellMade_of_run hstream.runs.run o hmem)
      fun m hm => ?_
    obtain ⟨fd', p⟩ := o
    cases p with
    | publish =>
      -- a PUBLISH, whose message is a published one and short
      obtain rfl := Option.some.inj hq
      obtain rfl := List.mem_singleton.mp hm
      exact hstream.runs.length_published hmem .publish
    | puback | pubrec | pubrel | pubcomp =>
      obtain rfl := Option.some.inj hq
      exact nomatch hm
    | _ => exact nomatch hq
  · obtain ⟨o, ho, rfl⟩ := List.mem_map.mp hp
    obtain ⟨hmem, hfd⟩ := List.mem_filter.mp ho
    obtain rfl : o.1 = fd := of_decide_eq_true hfd
    exact (Service.wellMade_of_run hstream.runs.run o hmem).typed hgiven

/-- In the run with two PUBLISH packets no options spoil a type. -/
theorem output_understood_publishedTwice : ∃ x ls, x.2.sent.length = 1 ∧
    x.1.broker.commands.length = 5 ∧ RunsAs x ls ∧ ∀ fd, ∃ frames,
      readStream (outputTo fd (x.2.sent ++ x.1.broker.commands)) = some frames ∧
      List.Forall₂ (fun frame p => ∀ q, ServerPacket.asClient p = some q →
          (Understood frame.1 frame.2 q ↔ p.Typed))
        frames (outTo fd (ls.flatMap Service.Label.queued)) ∧
      ((∀ options ∈ optionsOn fd (ls.filterMap Service.Label.packet?), options &&& 0x60 = 0) →
        ∀ p ∈ outTo fd (ls.flatMap Service.Label.queued), p.Typed) := by
  obtain ⟨x, hreach, hsent, hcommands⟩ := exists_streamed
  obtain ⟨ls, hread⟩ := output_understood hreach
  exact ⟨x, ls, hsent, hcommands, hread⟩

end Mqtt.Spec
