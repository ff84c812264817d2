import MqttBroker.Spec.ConnectParse
import MqttBroker.Spec.PropertyCopy

/-!
# The payload of a PUBLISH

The payload is what the variable header leaves of the packet. `HandleMqttPublish` takes it
by the offset its reads have come to, in a sixteen bit length, and reports no error. It is
taken whole where the header can be read and copied and what is left of the packet fits.
-/

namespace Mqtt.Spec

open Mqtt.Native Mqtt.Native.Broker Mqtt.Native.MqttPropertyChain

/-! ## The variable header -/

/-- The topic name and, with QoS, the packet id of a PUBLISH stand before `j`. -/
def FieldsAt (fh : FixedHeader) (body topic_name : Bytes) (packet_id : UInt16) (j : Nat) : Prop :=
  ∃ i, readString body 0 = .ok (topic_name, i) ∧
    if fh.qoS != 0 then convertToHost2Bytes body i = .ok packet_id ∧ j = i + 2
    else packet_id = 0 ∧ j = i

/-- The variable header of a PUBLISH ends at `e`: behind as many bytes as its property section
    announces. -/
def HeaderEndsAt (fh : FixedHeader) (body topic_name : Bytes) (packet_id : UInt16) (e : Nat) : Prop :=
  ∃ j L k, FieldsAt fh body topic_name packet_id j ∧
    deCodeVarInt (body.drop j) = .ok (some (L, k)) ∧ e = j + (k + L)

variable {fh : FixedHeader} {body topic_name : Bytes} {packet_id : UInt16}

/-- The name and the id end at one place. -/
theorem FieldsAt.unique {topic_name' : Bytes} {packet_id' : UInt16} {j j' : Nat}
    (h : FieldsAt fh body topic_name packet_id j)
    (h' : FieldsAt fh body topic_name' packet_id' j') : j = j' := by
  obtain ⟨i, hname, h⟩ := h
  obtain ⟨i', hname', h'⟩ := h'
  obtain rfl := (Prod.mk.inj (Except.ok.inj (hname.symm.trans hname'))).2
  split at h
  · rename_i hqos
    rw [if_pos hqos] at h'
    rw [h.2, h'.2]
  · rename_i hqos
    rw [if_neg hqos] at h'
    rw [h.2, h'.2]

/-- The constructor of the header goes behind what `Create` has read. -/
theorem publishVH_ofBuf_eq_ok_iff {vh : PublishVH} {offset : Nat} :
    PublishVH.ofBuf (fh.qoS != 0) body = .ok (vh, offset) ↔
      ∃ j r, FieldsAt fh body vh.topic_name vh.packet_id j ∧
        create OrderedSet.empty (body.drop j) = .ok r ∧ vh.p_chain = r.chain ∧
        offset = j + r.size := by
  obtain ⟨name, id, p_chain⟩ := vh
  rw [PublishVH.ofBuf]
  constructor
  · intro h
    obtain ⟨⟨topic_name, i⟩, hname, h⟩ := Except.bind_eq_ok_iff.mp h
    dsimp only at h
    -- with QoS a packet id is read, without it is zero
    split at h
    · rename_i hqos
      obtain ⟨n, hn, h⟩ := Except.bind_eq_ok_iff.mp h
      simp only [Except.pure_eq_ok, Except.ok_bind] at h
      obtain ⟨r, hr, h⟩ := Except.bind_eq_ok_iff.mp h
      simp only [Except.ok.injEq, Prod.mk.injEq, PublishVH.mk.injEq] at h
      obtain ⟨⟨rfl, rfl, rfl⟩, rfl⟩ := h
      exact ⟨i + 2, r, ⟨i, hname, by rw [if_pos hqos]; exact ⟨hn, rfl⟩⟩, hr, rfl, rfl⟩
    · rename_i hqos
      simp only [Except.pure_eq_ok, Except.ok_bind] at h
      obtain ⟨r, hr, h⟩ := Except.bind_eq_ok_iff.mp h
      simp only [Except.ok.injEq, Prod.mk.injEq, PublishVH.mk.injEq] at h
      obtain ⟨⟨rfl, rfl, rfl⟩, rfl⟩ := h
      exact ⟨i, r, ⟨i, hname, by rw [if_neg hqos]; exact ⟨rfl, rfl⟩⟩, hr, rfl, rfl⟩
  · -- the other way the name, the id and the section are where the constructor reads them
    rintro ⟨j, r, ⟨i, hname, hid⟩, hr, rfl, rfl⟩
    dsimp only at hname hid
    rw [hname, Except.ok_bind]
    dsimp only
    split at hid
    · rename_i hqos
      obtain ⟨hn, rfl⟩ := hid
      rw [if_pos hqos, hn]
      simp only [Except.ok_bind, Except.pure_eq_ok, hr]
    · rename_i hqos
      obtain ⟨rfl, rfl⟩ := hid
      rw [if_neg hqos]
      simp only [Except.ok_bind, Except.pure_eq_ok, hr]

/-- What `HandleMqttPublish` returns: the header, its properties copied, and the message that
    starts behind it. -/
theorem handleMqttPublish_eq_ok_iff {vh : PublishVH} {message : MqttBinaryDataEntity} :
    handleMqttPublish fh body = .ok (vh, message) ↔ ∃ tmp_vh offset,
      PublishVH.ofBuf (fh.qoS != 0) body = .ok (tmp_vh, offset) ∧
      tmp_vh.p_chain.copy = .ok vh.p_chain ∧
      vh.topic_name = tmp_vh.topic_name ∧ vh.packet_id = tmp_vh.packet_id ∧
      (∃ log, readBytes body offset ((fh.remaining_len + 2 ^ 32 - offset) % 2 ^ 32) = .ok log) ∧
      MqttBinaryDataEntity.ofBuf
        (UInt16.ofNat ((fh.remaining_len + 2 ^ 32 - offset) % 2 ^ 32)) body offset =
          .ok message := by
  obtain ⟨name, id, chain⟩ := vh
  rw [handleMqttPublish]
  constructor
  · -- the header, the copy of its chain, the log line, and the message
    intro h
    obtain ⟨⟨tmp_vh, offset⟩, hvh, h⟩ := Except.bind_eq_ok_iff.mp h
    obtain ⟨p_chain, hcopy, h⟩ := Except.bind_eq_ok_iff.mp h
    obtain ⟨log, hlog, h⟩ := Except.bind_eq_ok_iff.mp h
    obtain ⟨entity, hentity, h⟩ := Except.bind_eq_ok_iff.mp h
    simp only [Except.pure_eq_ok, Except.ok.injEq, Prod.mk.injEq, PublishVH.mk.injEq] at h
    obtain ⟨⟨rfl, rfl, rfl⟩, rfl⟩ := h
    exact ⟨tmp_vh, offset, hvh, hcopy, rfl, rfl, ⟨log, hlog⟩, hentity⟩
  · rintro ⟨tmp_vh, offset, hvh, hcopy, rfl, rfl, ⟨log, hlog⟩, hmessage⟩
    dsimp only at hcopy
    simp only [hvh, Except.ok_bind, hcopy, hlog, hmessage, Except.pure_eq_ok]

/-! ## Binary data in front of the payload -/

/-- A row of properties does not go on where no property starts. -/
theorem Decodes.eq_zero_of_invalid {buf : Bytes} {left pos : Nat} {ps : List MqttProperty}
    (h : Decodes buf left pos ps) (hinv : Invalid (buf.drop pos)) : left = 0 := by
  cases h with
  | done => rfl
  | next _ hp _ =>
    rw [createProperty_of_invalid hinv] at hp
    cases hp

/-- Binary data that is long enough to be copied reaches at least 65536 bytes behind the end of
    its section: the section takes one or two bytes of it, and cannot go on behind these. -/
theorem Decodes.binaryData_end {buf : Bytes} {left pos : Nat} {ps : List MqttProperty}
    (h : Decodes buf left pos ps) (hbuf : buf.length < 2 ^ 28) (hleft : left < 2 ^ 32)
    (hpos : pos < 2 ^ 32) {p : MqttProperty} (hp : p ∈ ps) {entity : MqttBinaryDataEntity}
    (hentity : p.property = .binaryData entity) (hlong : 65534 ≤ entity.data.length) :
    (pos + left) % 2 ^ 32 + 65536 ≤ buf.length := by
  induction h with
  | done => exact nomatch hp
  | @next left pos s q qs hmore hq hrest ih =>
    rcases createProperty_inv hq with ⟨_, bs, rest, hsome, hdrop, hwire, rfl⟩ | ⟨hnone, -⟩
    · obtain rfl := Option.some.inj hsome
      -- the first property is the one in question, or it is further behind
      rcases List.mem_cons.mp hp with rfl | hp
      · have hlt := entity.size_lt
        cases hwire with
        | @mk id _ ws hid hvalue =>
          dsimp only at hentity
          subst hentity
          cases hvalue with
          | binaryData =>
            have hlen := congrArg List.length hdrop
            simp only [List.length_drop, List.length_append, List.length_cons,
              length_htons] at hlen hrest
            -- `Size` of the property is taken modulo 256, so the loop goes on inside it
            have hnext : (pos + (2 + entity.data.length + 1) % 256) % 2 ^ 32 =
                pos + (entity.data.length - 65533) := by omega
            rw [hnext] at hrest
            -- the next identifier is a byte of the length field
            have hinv : Invalid (buf.drop (pos + (entity.data.length - 65533))) := by
              rw [← List.drop_drop, hdrop]
              rcases (by omega : entity.data.length = 65534 ∨ entity.data.length = 65535) with
                hn | hn
              · rw [hn]
                exact @Invalid.unknownId 0xFF _ (by decide)
              · rw [hn]
                exact @Invalid.unknownId 0xFF _ (by decide)
            have hzero := hrest.eq_zero_of_invalid hinv
            omega
      · have hs : bs.length % 256 < 256 := Nat.mod_lt _ (by decide)
        have hend := ih (Nat.mod_lt _ (by decide)) (Nat.mod_lt _ (by decide)) hp
        -- the two counters keep their sum
        have hsum : ((pos + bs.length % 256) % 2 ^ 32 +
            (left + 2 ^ 32 - bs.length % 256) % 2 ^ 32) % 2 ^ 32 = (pos + left) % 2 ^ 32 := by omega
        rwa [hsum] at hend
    · cases hnone

/-! ## The payload -/

/-- `HandleMqttPublish` returns all bytes behind the variable header, and its offset is there. -/
def TakesWhole (fh : FixedHeader) (body : Bytes) : Prop :=
  ∃ vh message tmp_vh e, handleMqttPublish fh body = .ok (vh, message) ∧
    PublishVH.ofBuf (fh.qoS != 0) body = .ok (tmp_vh, e) ∧
    HeaderEndsAt fh body vh.topic_name vh.packet_id e ∧ e ≤ fh.remaining_len ∧
    message.data = body.drop e

/-- The packet handler hands an error of `HandleMqttPublish` on. -/
def RefusesPublish (b : Broker) (fh : FixedHeader) (body : Bytes) (fd : Fd) : Prop :=
  ∃ b' err, b.publishHandler fh body fd = .ok (b', err) ∧ err ≠ .ok

/-- The variable header stands in the body with properties that can be decoded and copied, and
    no more bytes are behind it than a message takes. -/
def PayloadFits (fh : FixedHeader) (body : Bytes) : Prop :=
  ∃ topic_name packet_id j L k ps, FieldsAt fh body topic_name packet_id j ∧
    deCodeVarInt (body.drop j) = .ok (some (L, k)) ∧ Decodes (body.drop j) L k ps ∧
    (∀ p ∈ ps, p.property.getType ≠ .binaryData) ∧
    j + (k + L) ≤ body.length ∧ body.length - (j + (k + L)) ≤ 65535

/-- The handler of a PUBLISH returns no error. -/
theorem publishHandler_err {b b' : Broker} {data : Bytes} {fd : Fd} {err : MqttErr}
    (h : b.publishHandler fh data fd = .ok (b', err)) : err = .ok := by
  unfold publishHandler at h
  rcases b.clientAt fd with ⟨b₀, pClient⟩
  obtain ⟨⟨vh, message⟩, -, h⟩ := Except.bind_eq_ok_iff.mp h
  obtain ⟨pClient, -, h⟩ := Except.bind_eq_ok_iff.mp h
  obtain ⟨b₁, -, h⟩ := Except.bind_eq_ok_iff.mp h
  split at h
  · obtain ⟨⟨b₂, topic⟩, -, h⟩ := Except.bind_eq_ok_iff.mp h
    exact (Prod.mk.inj (Except.ok.inj h)).2.symm
  · exact (Prod.mk.inj (Except.ok.inj h)).2.symm

/-- A chain that can be copied has no binary data when less than 65536 bytes are behind its
    section. -/
theorem not_binaryData_of_copyable {buf : Bytes} {L k : Nat} {ps : List MqttProperty}
    (hlen : deCodeVarInt buf = .ok (some (L, k))) (hps : Decodes buf L k ps)
    (hcopyable : Copyable (ps.foldl addProperty OrderedSet.empty)) (hbuf : buf.length < 2 ^ 28)
    (hfits : buf.length < k + L + 65536) : ∀ p ∈ ps, p.property.getType ≠ .binaryData := by
  intro p hp htype
  have hsum := sum_lt_of_deCodeVarInt hlen
  have htyped : ∀ q ∈ ps, WellTyped q := by
    intro q hq
    obtain ⟨bs, hwire⟩ := hps.wire q hq
    cases hwire with
    | mk hid _ => exact hid
  -- the chain has a property with this identifier, and it is binary data too
  obtain ⟨q, hq, hid⟩ := OrderedSet.exists_key_foldl_insert.mpr (.inr ⟨p, hp, rfl⟩ :
    (∃ c ∈ (OrderedSet.empty : MqttPropertyChain).toList, c.id = p.id) ∨ ∃ c ∈ ps, c.id = p.id)
  have hmem : q ∈ ps := (OrderedSet.mem_foldl_insert hq).resolve_left (by simp)
  have hqtype : q.property.getType = .binaryData := by
    have hq' := htyped q hmem
    rw [WellTyped, hid, htyped p hp, htype] at hq'
    exact (Option.some.inj hq').symm
  cases hentity : q.property with
  | binaryData entity =>
    -- and it has too few bytes to be copied
    have hend := hps.binaryData_end hbuf (by omega) (by omega) hmem hentity
      (hcopyable q hq entity hentity)
    rw [Nat.mod_eq_of_lt hsum] at hend
    omega
  | _ =>
    rw [hentity] at hqtype
    cases hqtype

/-- A payload that is taken whole fits, and what is in front of it can be decoded and copied. -/
theorem payloadFits_of_takesWhole (hlen : body.length = fh.remaining_len)
    (hlt : fh.remaining_len < 2 ^ 28) (h : TakesWhole fh body) : PayloadFits fh body := by
  obtain ⟨vh, message, tmp_vh, e, hpublish, hvh, hend, hle, hdata⟩ := h
  obtain ⟨tmp_vh', offset, hvh', hcopy, hname, hid, -, hmessage⟩ :=
    handleMqttPublish_eq_ok_iff.mp hpublish
  obtain ⟨rfl, rfl⟩ := Prod.mk.inj (Except.ok.inj (hvh.symm.trans hvh'))
  obtain ⟨j, L, k, hfields, hsection, rfl⟩ := hend
  obtain ⟨j', r, hfields', hcreate, hchain, hsize⟩ := publishVH_ofBuf_eq_ok_iff.mp hvh
  obtain rfl := hfields.unique hfields'
  -- the section was decoded to its end
  have hok : r.err = .ok := (create_size_iff hsection hcreate).mpr (by omega)
  obtain ⟨ps, ⟨L', k', hsection', hps⟩, hr⟩ := produces_of_create hok hcreate
  obtain ⟨rfl, rfl⟩ := deCodeVarInt_unique hsection hsection'
  -- the message has a length of sixteen bits
  have hsmall := (message.size_lt : message.data.length < 2 ^ 16)
  rw [hdata, List.length_drop] at hsmall
  -- its chain was copied without a read outside
  have hcopyable : Copyable r.chain := by
    rw [hchain, copy_eq_copyConstruct] at hcopy
    exact (copyConstruct_ok_iff ⟨_, _, hcreate, rfl⟩).mp ⟨_, hcopy⟩
  rw [hr] at hcopyable
  have hbuf : (body.drop j).length = body.length - j := List.length_drop
  exact ⟨_, _, j, L, k, ps, hfields, hsection, hps,
    not_binaryData_of_copyable hsection hps hcopyable (by omega) (by omega), by omega, by omega⟩

/-- The header of a PUBLISH whose payload fits is read and copied as it stands. -/
theorem header_of_payloadFits {j L k : Nat} {ps : List MqttProperty}
    (hfields : FieldsAt fh body topic_name packet_id j)
    (hsection : deCodeVarInt (body.drop j) = .ok (some (L, k)))
    (hps : Decodes (body.drop j) L k ps) (hnone : ∀ p ∈ ps, p.property.getType ≠ .binaryData) :
    ∃ chain, PublishVH.ofBuf (fh.qoS != 0) body =
        .ok (⟨topic_name, packet_id, chain⟩, j + (k + L)) ∧
      chain.copy = .ok chain := by
  obtain ⟨size, hcreate⟩ := Produces.create_eq ⟨L, k, hsection, hps⟩
  have hsize : size = k + L := (create_size_iff hsection hcreate).mp rfl
  refine ⟨_, publishVH_ofBuf_eq_ok_iff.mpr ⟨j, _, hfields, hcreate, rfl, by rw [hsize]⟩, ?_⟩
  rw [copy_eq_copyConstruct]
  refine (copyConstruct_eq_self_iff ⟨_, _, hcreate, rfl⟩).mpr ?_
  rintro ⟨p, hp, htype⟩
  exact hnone p ((OrderedSet.mem_foldl_insert hp).resolve_left (by simp)) htype

/-- The handler takes the whole payload where it fits. -/
theorem takesWhole_of_payloadFits (hlen : body.length = fh.remaining_len)
    (hlt : fh.remaining_len < 2 ^ 28) (h : PayloadFits fh body) : TakesWhole fh body := by
  obtain ⟨topic_name, packet_id, j, L, k, ps, hfields, hsection, hps, hnone, hle, hfits⟩ := h
  obtain ⟨chain, hvh, hcopy⟩ := header_of_payloadFits hfields hsection hps hnone
  -- the length of the packet does not wrap
  have hword : fh.remaining_len < 2 ^ 32 := Nat.lt_trans hlt (by decide)
  have hrest : (fh.remaining_len + 2 ^ 32 - (j + (k + L))) % 2 ^ 32 =
      (body.drop (j + (k + L))).length := by
    rw [List.length_drop]
    omega
  have hread : readBytes body (j + (k + L)) (body.drop (j + (k + L))).length =
      .ok (body.drop (j + (k + L))) := readBytes_of_drop (List.append_nil _).symm hle
  -- nor does the 16-bit number of bytes of the message
  have hsmall : (body.drop (j + (k + L))).length < 2 ^ 16 := by
    rw [List.length_drop]
    omega
  have hmessage : MqttBinaryDataEntity.ofBuf
      (UInt16.ofNat (body.drop (j + (k + L))).length) body (j + (k + L)) =
        .ok ⟨body.drop (j + (k + L)), hsmall⟩ := by
    rw [ofBuf_eq_ok_iff, UInt16.toNat_ofNat', Nat.mod_eq_of_lt hsmall, hread]
  have hpublish : handleMqttPublish fh body = .ok
      (⟨topic_name, packet_id, chain⟩, ⟨body.drop (j + (k + L)), hsmall⟩) := by
    refine handleMqttPublish_eq_ok_iff.mpr ⟨_, _, hvh, hcopy, rfl, rfl, ?_, ?_⟩
    · rw [hrest]
      exact ⟨_, hread⟩
    · rw [hrest, hmessage]
  exact ⟨_, _, _, _, hpublish, hvh, ⟨j, L, k, hfields, hsection, rfl⟩, by omega, rfl⟩

/-- The payload of a PUBLISH is taken whole, or the packet refused, exactly when the header can
    be decoded and copied and the payload fits. -/
theorem publish_payload_iff (b : Broker) (fd : Fd) (hlen : body.length = fh.remaining_len)
    (hlt : fh.remaining_len < 2 ^ 28) :
    TakesWhole fh body ∨ RefusesPublish b fh body fd ↔ PayloadFits fh body := by
  constructor
  · rintro (htakes | ⟨b', err, herr, hne⟩)
    · exact payloadFits_of_takesWhole hlen hlt htakes
    · exact absurd (publishHandler_err herr) hne
  · exact fun hfits => .inl (takesWhole_of_payloadFits hlen hlt hfits)

/-- A PUBLISH body without properties for the topic `t`. -/
def publishT (payload : Bytes) : Bytes := [0, 1, 0x74, 0] ++ payload

/-- Nothing is left of a message of 65536 bytes: its length is zero in sixteen bits. -/
theorem long_publish_shortened : (publishT (List.replicate 65536 0x78)).length = 65540 ∧
    (∃ vh message, handleMqttPublish ⟨0x30, 65540⟩ (publishT (List.replicate 65536 0x78)) =
      .ok (vh, message) ∧ message.data = []) ∧
    ¬ (TakesWhole ⟨0x30, 65540⟩ (publishT (List.replicate 65536 0x78)) ∨
      RefusesPublish oneClient ⟨0x30, 65540⟩ (publishT (List.replicate 65536 0x78)) 5) := by
  generalize hpayload : (List.replicate 65536 0x78 : Bytes) = payload
  have hlen : (publishT payload).length = 65540 := by
    rw [publishT, List.length_append, ← hpayload, List.length_replicate]
    rfl
  refine ⟨hlen, ?_⟩
  have hname : readString (publishT payload) 0 = .ok ([0x74], 3) :=
    readString_eq_ok_iff.mpr ⟨by decide, rfl, 0 :: payload, rfl⟩
  have hfields : FieldsAt ⟨0x30, 65540⟩ (publishT payload) [0x74] 0 3 := ⟨3, hname, rfl, rfl⟩
  have hsection : deCodeVarInt ((publishT payload).drop 3) = .ok (some (0, 1)) :=
    deCodeVarInt_of_isVarInt (.last (by decide : (0 : UInt8).toNat < 128)) (by decide) payload
  constructor
  · obtain ⟨chain, hvh, hcopy⟩ := header_of_payloadFits hfields hsection .done (by simp)
    -- the log line reads the whole message, and the entity takes none of it
    have hall : readBytes (publishT payload) 4 payload.length = .ok payload :=
      readBytes_of_drop (List.append_nil _).symm (by omega)
    have hnone : readBytes (publishT payload) 4 ([] : Bytes).length = .ok [] :=
      readBytes_of_drop (List.nil_append _).symm (by omega)
    rw [← hpayload, List.length_replicate, hpayload] at hall
    have hempty : handleMqttPublish ⟨0x30, 65540⟩ (publishT payload) =
        .ok (⟨[0x74], 0, chain⟩, ⟨[], by decide⟩) := handleMqttPublish_eq_ok_iff.mpr
      ⟨_, _, hvh, hcopy, rfl, rfl, ⟨_, hall⟩, ofBuf_eq_ok_iff.mpr hnone⟩
    exact ⟨_, _, hempty, rfl⟩
  · -- the payload does not fit, and no error is answered
    rintro (htakes | ⟨b', err, herr, hne⟩)
    · obtain ⟨_, _, j, L, k, _, hfields', hsection', -, -, -, hfits⟩ :=
        payloadFits_of_takesWhole hlen (by decide) htakes
      obtain rfl := hfields.unique hfields'
      obtain ⟨rfl, rfl⟩ := deCodeVarInt_unique hsection hsection'
      omega
    · exact hne (publishHandler_err herr)

/-- A message without properties is taken whole. -/
theorem plain_publish_taken : TakesWhole ⟨0x30, 5⟩ (publishT [0x78]) ∨
    RefusesPublish oneClient ⟨0x30, 5⟩ (publishT [0x78]) 5 :=
  (publish_payload_iff oneClient 5 rfl (by decide)).mpr
    ⟨[0x74], 0, 3, 0, 1, [], ⟨3, by decide +kernel, rfl, rfl⟩, rfl, .done, by simp, by decide,
      by decide⟩

end Mqtt.Spec
