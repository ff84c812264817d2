import MqttBroker.Spec.ServiceMessages

/-!
# Deliveries of the service

What subscribing is for: a message comes to exactly the connections whose packets have made a
filter for it, once to each.
-/

namespace Mqtt.Spec

open Mqtt.Native Mqtt.Native.Broker

namespace ServerPacket

/-- The packet carries a message. -/
def isPublish : ServerPacket → Bool
  | publish _ _ _ _ => true
  | _ => false

end ServerPacket

/-- The messages on a connection, in their order. -/
def publishedTo (fd : Fd) (out : List Outgoing) : List ServerPacket :=
  (outTo fd out).filter ServerPacket.isPublish

/-- A packet that is no PUBLISH is no message for anybody. -/
theorem publishedTo_cons {fd fd' : Fd} {p : ServerPacket} (hp : p.isPublish = false)
    (out : List Outgoing) : publishedTo fd ((fd', p) :: out) = publishedTo fd out := by
  by_cases hfd : fd' = fd <;> simp [publishedTo, outTo, hfd, hp]

namespace Service

/-- A message that is brought into the service, and goes to all sessions at once: with QoS 0
    or 1 that of a PUBLISH, with QoS 2 the one that a PUBREL releases, and the will of a
    connection that breaks. -/
inductive Brings (S : Service) (ls : List Label) :
    Action → Bytes → Option MqttBinaryDataEntity → Prop
  | publish {fd : Fd} {now : Time} {qos : UInt8} {retain : Bool} {packet_id : UInt16}
      {m : Message} : qos ≠ 2 →
      Brings S ls (.packet fd now (.publish qos retain packet_id m)) m.1 (some m.2)
  | release {fd : Fd} {now : Time} {σ : Session} {packet_id : UInt16} {topic : MqttTopic} :
      S.sessions fd = some σ → S.heldFor σ.client_id packet_id = some topic →
      Brings S ls (.packet fd now (.pubrel packet_id)) topic.name topic.data
  | lost {fd : Fd} {now : Option Time} {m : Message} : willOn fd ls = some m →
      Brings S ls (.lost fd now) m.1 (some m.2)
  | timeout {fd : Fd} {now : Time} {m : Message} : willOn fd ls = some m →
      Brings S ls (.timeout fd now) m.1 (some m.2)

/-- What a connection with some filters gets of a message: one PUBLISH, with the QoS of one of
    the filters that take it, and nothing if there is none. -/
inductive Delivered (filters : Bytes → Option UInt8) (name : Bytes)
    (data : Option MqttBinaryDataEntity) : List ServerPacket → Prop
  | nothing : (∀ f, (filters f).isSome → ¬ Selects f name) → Delivered filters name data []
  | publish {f : Bytes} {options : UInt8} {packet_id : UInt16} {message : MqttBinaryDataEntity} :
      filters f = some options → Selects f name → data = some message →
      Delivered filters name data [.publish (options &&& 3) packet_id name message]

/-- A message is sent as it is. -/
def IsPublish (options : UInt8) (m : Message) (p : ServerPacket) : Prop :=
  ∃ packet_id, p = .publish options packet_id m.1 m.2

/-- What comes back for the filters of a SUBSCRIBE: for each of them in turn the retained
    messages that it takes, in the order of their names and with its options. -/
inductive RetainedFor (retained : Bytes → Option MqttBinaryDataEntity) :
    List (Bytes × UInt8) → List ServerPacket → Prop
  | nil : RetainedFor retained [] []
  | cons {record : Bytes × UInt8} {records : List (Bytes × UInt8)} {ms : List Message}
      {ps ps' : List ServerPacket} : Session.Takes retained record.1 ms →
      List.Forall₂ (IsPublish record.2) ms ps → RetainedFor retained records ps' →
      RetainedFor retained (record :: records) (ps ++ ps')

section delivers

variable {S S' : Service} {fd : Fd} {σ : Session} {ls : List Label} {l : Label} {name : Bytes}
  {data : Option MqttBinaryDataEntity} {out : List Outgoing}

/-- A session without a SUBSCRIBE has no filters, so its filters say all. -/
theorem Session.Gets.delivered {σ' : Session} {ps : List ServerPacket} (h : σ.Gets name data σ' ps)
    (hsubscribed : ∀ f, (σ.filters f).isSome → σ.subscribed) :
    Delivered σ.filters name data (ps.filter ServerPacket.isPublish) := by
  cases h with
  | nothing hnot => exact .nothing fun f hf => hnot (hsubscribed f hf) f hf
  | publish _ hf hselects hdata _ => exact .publish hf hselects hdata

/-- `NotifyClients` delivers a message to a subscribed client. -/
theorem Notifies.delivered (h : S.Notifies name data out S') (hσ : S.sessions fd = some σ)
    (hsubscribed : ∀ f, (σ.filters f).isSome → σ.subscribed) :
    Delivered σ.filters name data (publishedTo fd out) := by
  obtain ⟨σ', -, hgets⟩ := h.present fd σ hσ
  exact hgets.delivered hsubscribed

/-- A will is delivered as a message is. -/
theorem SendsWill.delivered {m : Message} (h : S.SendsWill (some m) out S')
    (hσ : S.sessions fd = some σ) (hsubscribed : ∀ f, (σ.filters f).isSome → σ.subscribed) :
    Delivered σ.filters m.1 (some m.2) (publishedTo fd out) := by
  cases h with
  | sent hnotifies => exact hnotifies.delivered hσ hsubscribed

/-- Retaining a message changes no session. -/
theorem sessions_retain (retain : Bool) (m : Message) :
    (S.retain retain m).sessions = S.sessions := by
  rw [Service.retain]
  split <;> rfl

/-- A packet that brings a message makes the service deliver it. -/
theorem Handles.delivered {fd₁ : Fd} {σ₁ : Session} {now : Time} {p : ClientPacket}
    {queued written : List Outgoing} {keep : Bool}
    (h : S.Handles fd₁ σ₁ p queued written keep S') (hσ₁ : S.sessions fd₁ = some σ₁)
    (hbrings : S.Brings ls (.packet fd₁ now p) name data) (hσ : S.sessions fd = some σ)
    (hsubscribed : ∀ f, (σ.filters f).isSome → σ.subscribed) :
    Delivered σ.filters name data (publishedTo fd queued) := by
  cases hbrings with
  | publish hqos =>
    cases h with
    | publish _ hnotifies =>
      have hdelivered :=
        hnotifies.delivered ((congrFun (sessions_retain _ _) fd).trans hσ) hsubscribed
      split
      · rw [List.singleton_append, publishedTo_cons rfl]
        exact hdelivered
      · exact hdelivered
    | hold => exact absurd rfl hqos
  -- the held message of the packet id is the one that is sent
  | release hσ₂ hheld =>
    obtain rfl := Option.some.inj (hσ₁.symm.trans hσ₂)
    cases h with
    | release htopic hnotifies =>
      obtain rfl := Option.some.inj (hheld.symm.trans htopic)
      rw [publishedTo_cons rfl]
      exact hnotifies.delivered hσ hsubscribed
    | unknown hnone => exact nomatch hheld.symm.trans hnone

/-- Reading a packet changes no client id, so what it brings stays. -/
theorem Brings.touch {fd₁ : Fd} {now now' : Time} {p : ClientPacket}
    (h : S.Brings ls (.packet fd₁ now p) name data) :
    (S.touch fd₁ now').Brings ls (.packet fd₁ now p) name data := by
  cases h with
  | publish hqos => exact .publish hqos
  | release hσ hheld => exact .release (sessions_edit_self hσ) hheld

/-- What is known of the sessions is enough to say what they get. -/
theorem Step.delivered (h : S.Step l S') (hrecorded : S.Recorded ls)
    (hbrings : S.Brings ls l.action name data) (hσ : S.sessions fd = some σ) :
    Delivered (filtersOn fd ls) name data (publishedTo fd l.queued) := by
  have hfilters := hrecorded.filters hσ
  have hsubscribed := hrecorded.subscribed hσ
  -- the time of the last packet is no part of what is delivered
  have htouch : ∀ fd₁ now, ∃ σ', (S.touch fd₁ now).sessions fd = some σ' ∧
      σ'.filters = filtersOn fd ls ∧ ∀ f, (σ'.filters f).isSome → σ'.subscribed := by
    intro fd₁ now
    by_cases hfd : fd = fd₁
    · subst hfd
      exact ⟨_, sessions_edit_self hσ, hfilters, hsubscribed⟩
    · exact ⟨σ, (sessions_edit_ne hfd).trans hσ, hfilters, hsubscribed⟩
  cases h with
  | accept | short | close | silent => exact nomatch hbrings
  | packet hopen hhandles | lastPacket hopen hhandles =>
    obtain ⟨σ', hσ', hfilters, hsubscribed⟩ := htouch _ _
    rw [← hfilters]
    exact hhandles.delivered (sessions_edit_self hopen.1) hbrings.touch hσ' hsubscribed
  | @lost fd₁ σ₁ now out S₁ S₂ hopen hS₁ hwill =>
    obtain ⟨σ', hσ', hfilters, hsubscribed⟩ : ∃ σ', S₁.sessions fd = some σ' ∧
        σ'.filters = filtersOn fd ls ∧ ∀ f, (σ'.filters f).isSome → σ'.subscribed := by
      rw [hS₁]
      cases now with
      | none => exact ⟨σ, hσ, hfilters, hsubscribed⟩
      | some now => exact htouch fd₁ now
    cases hbrings with
    | lost hm =>
      -- the will is the one of the last CONNECT
      rw [hrecorded.will hopen, hm] at hwill
      rw [← hfilters]
      exact hwill.delivered hσ' hsubscribed
  | timeout hopen _ hwill =>
    cases hbrings with
    | timeout hm =>
      rw [hrecorded.will hopen, hm] at hwill
      rw [publishedTo_cons rfl, ← hfilters]
      exact hwill.delivered hσ hsubscribed

/-- Retained messages go out one after the other, with the options of the subscription. -/
theorem Session.Sends.published {σ σ' : Session} {options : UInt8} {ms : List Message}
    {ps : List ServerPacket} (h : σ.Sends options ms σ' ps) :
    List.Forall₂ (IsPublish options) ms ps := by
  induction h with
  | nil => exact .nil
  | cons _ _ ih => exact .cons ⟨_, rfl⟩ ih

/-- What is sent for the records of a SUBSCRIBE is the retained messages of its filters. -/
theorem Session.SendsRetained.published {σ σ' : Session}
    {retained : Bytes → Option MqttBinaryDataEntity} {records : List (Bytes × UInt8)}
    {ps : List ServerPacket} (h : σ.SendsRetained retained records σ' ps) :
    RetainedFor retained records ps := by
  induction h with
  | nil => exact .nil
  | cons htakes hsends _ ih => exact .cons htakes hsends.published ih

/-- A SUBSCRIBE makes the service queue its answer and the retained messages. -/
theorem Step.retained {now : Time} {packet_id : UInt16} {records : List (Bytes × UInt8)}
    (h : S.Step l S') (hrecorded : S.Recorded ls)
    (hl : l.action = .packet fd now (.subscribe packet_id records)) :
    ∃ ps, l.queued =
        (fd, .suback packet_id (List.replicate records.length 2)) :: ps.map (fun p => (fd, p)) ∧
      RetainedFor (retainedIn ls) records ps := by
  cases h with
  | accept | lost | short | timeout | close | silent => exact nomatch hl
  | packet _ hhandles =>
    obtain ⟨rfl, rfl, rfl⟩ := Action.packet.inj hl
    cases hhandles with
    | subscribe hsends =>
      have hpublished := hsends.published
      exact ⟨_, rfl, hrecorded.retained ▸ hpublished⟩
  | lastPacket _ hhandles =>
    obtain ⟨rfl, rfl, rfl⟩ := Action.packet.inj hl
    exact nomatch hhandles

end delivers

end Service

/-! ## The broker -/

/-- A PUBLISH of `x` under the topic `t`, with QoS 1 and packet id 7. -/
def publishOwn : SystemEvent :=
  .server (.socket (.pollin false (.packet 0x32 [0, 1, 0x74, 0, 7, 0, 0x78] [])))

/-- The packet of a step is the one that is understood. -/
theorem Refines.packet_eq {s t : ServerThread} {e : SystemEvent} {l : Service.Label} {fd : Fd}
    {fh : FixedHeader} {data : Bytes} {p : ClientPacket} (h : Refines s e t l)
    (hincoming : incoming s e = some (fd, fh, data)) (hunderstood : Understood fh data p)
    (hp : p.type ≠ some .CONNECT) : l.packet? = some (fd, p) := by
  have hread := h.read
  rw [hincoming] at hread
  cases hpacket : l.packet? with
  | none =>
    rw [hpacket] at hread
    cases hread
  | some q =>
    rw [hpacket] at hread
    cases hread with
    | cons hq _ =>
      obtain ⟨rfl, hq⟩ : fd = q.1 ∧ Understood fh data q.2 := hq
      rw [← hunderstood.unique hq hp]

/-- A label with a packet is about its being read. -/
theorem Service.Label.packet?_eq_some {l : Service.Label} {fd : Fd} {p : ClientPacket}
    (h : l.packet? = some (fd, p)) : ∃ now, l.action = .packet fd now p := by
  unfold Service.Label.packet? at h
  split at h
  · rename_i fd' now p' haction
    obtain ⟨rfl, rfl⟩ := Prod.mk.inj (Option.some.inj h)
    exact ⟨now, haction⟩
  · cases h

/-- The packet is a PUBLISH of `x` under `t` with QoS 1. -/
theorem understood_publishOwn : Understood ⟨0x32, 7⟩ [0, 1, 0x74, 0, 7, 0, 0x78]
    (.publish 1 false 7 ([0x74], ⟨[0x78], by decide⟩)) :=
  ⟨by decide, by decide, by decide, _, rfl, rfl, rfl⟩

/-- The client has published with RETAIN, and the next pass has begun. -/
def readyToSubscribe : List SystemEvent :=
  connected ++ pass 0x31 [0, 1, 0x74, 0, 0x78] ++ [.server (.round false 0)]

/-- A SUBSCRIBE for the filter `#` with QoS 1. -/
def subscribeAll : SystemEvent :=
  .server (.socket (.pollin false (.packet 0x82 [0, 2, 0, 0, 1, 0x23, 1] [])))

end Mqtt.Spec
