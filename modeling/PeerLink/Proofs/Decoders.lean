import PeerLink.Proofs.KeyOrder
import PeerLink.Proofs.LinkCounters

/-! # Messages as decoders hand them on

* `Envelope.Settled`: an envelope as it is read: no value in it is null, and the members of objects
  stand in order.
* `BodyCodec.Orders`: a codec reads values with their members in order, as that of JSON does.
* `Framer.read_of_next`: a message that a decoder hands on is what any reader has of it.
-/

namespace PeerLink
set_option autoImplicit false

open Json (Value)

/-! ## Envelopes -/

theorem Json.Value.Ordered.present_eq {v : Value} (h : v.Ordered) (hnull : v ≠ .null) :
    v.present = some v := by
  cases v with
  | null => exact absurd rfl hnull
  | bool | num | str | arr | obj => exact congrArg some h.sorted_eq

theorem Json.Value.some_of_optional? {field : Option Value} {v : Value}
    (h : optional? some field = some (some v)) : field = some v ∧ v ≠ .null := by
  unfold optional? at h
  split at h
  · cases h
  · cases h
  · rename_i w hw
    cases h
    exact ⟨rfl, hw⟩

/-- Values that may be missing are never null, and all are in order. -/
structure Envelope.Settled (e : Envelope) : Prop where
  params : e.params.bind Value.present = e.params
  value : e.value.bind Value.present = e.value
  updates : ∀ us, e.updates = some us → us.map Value.sorted = us

theorem Json.Value.bind_present {field read : Option Value}
    (hfield : ∀ v, field = some v → v.Ordered) (h : optional? some field = some read) :
    read.bind present = read := by
  cases read with
  | none => rfl
  | some v =>
    obtain ⟨hv, hnull⟩ := some_of_optional? h
    exact (hfield v hv).present_eq hnull

theorem Json.Value.Ordered.map_sorted {field : Option Value} {read : Option (List Value)}
    (hfield : ∀ v, field = some v → v.Ordered) (h : optional? asArray? field = some read) :
    ∀ us, read = some us → us.map Value.sorted = us := by
  rintro us rfl
  unfold optional? at h
  split at h
  · cases h
  · cases h
  · rename_i v hv
    obtain ⟨us', hus, heq⟩ := Option.map_eq_some_iff.mp h
    cases heq
    have hord := hfield v rfl
    cases v with
    | arr vs =>
      cases hus
      cases hord with
      | arr each =>
        rw [List.map_congr_left fun w hw => (each w hw).sorted_eq, List.map_id']
    | _ => cases hus

theorem Envelope.settled_of_ofJson? {v : Value} {e : Envelope} (hv : v.Ordered)
    (h : ofJson? v = some e) : e.Settled := by
  unfold ofJson? at h
  split at h
  · rename_i hfields
    have hordered := hv.of_fields? hfields
    simp only [Option.bind_eq_bind, Option.bind_eq_some_iff, Option.pure_def,
      Option.some.injEq] at h
    obtain ⟨rid, -, method, -, path, -, params, hparams, value, hvalue, permit, -, stream, -,
      updates, hupdates, paths, -, sids, -, error, -, rfl⟩ := h
    refine ⟨Value.bind_present (fun w hw => hordered w ?_) hparams,
      Value.bind_present (fun w hw => hordered w ?_) hvalue,
      Value.Ordered.map_sorted (fun w hw => hordered w ?_) hupdates⟩ <;> simp [hw]
  · cases h

theorem Envelope.settled_inFrame {e : Envelope} (h : e.Settled) (f : Frame) :
    (e.inFrame f).Settled := ⟨h.params, h.value, h.updates⟩

theorem Envelope.read_of_toInbound {e : Envelope} {m : Message} (he : e.Settled)
    (h : e.toInbound = .ok (.message m)) : m.read = m := by
  unfold toInbound at h
  split at h
  · cases h
    rfl
  · split at h
    · cases h
    · split at h
      · cases h
        have hupdates : (e.updates.getD []).map Value.sorted = e.updates.getD [] := by
          cases hu : e.updates with
          | none => rfl
          | some us => exact he.updates us hu
        simp only [Message.read, Response.read, hupdates]
      · split at h
        · cases h
        · cases h
          simp only [Message.read, Request.read, he.params, he.value]

/-! ## Decoders -/

/-- What a codec reads has the members of its objects in order. -/
def BodyCodec.Orders (codec : BodyCodec) : Prop :=
  ∀ bs v, codec.decode bs = .ok v → v.Ordered

theorem BodyCodec.json_orders : BodyCodec.json.Orders := by
  intro bs v h
  simp only [json] at h
  split at h
  · rename_i w hw
    cases h
    exact Json.Shape.ordered_of_read? hw
  · cases h

theorem Inbound.read_of_ofLine {line : Bytes} {m : Message}
    (h : Inbound.ofLine line = .ok (.message m)) : m.read = m := by
  unfold ofLine ofEnvelope at h
  split at h
  · cases h
  · rename_i e he
    obtain ⟨v, hv, he⟩ := Option.bind_eq_some_iff.mp he
    exact Envelope.read_of_toInbound
      (Envelope.settled_of_ofJson? (Json.Shape.ordered_of_read? hv) he) h

theorem Inbound.read_of_ofFrame {codec : BodyCodec} (hcodec : codec.Orders) {f : Frame}
    {m : Message} (h : Inbound.ofFrame codec f = .ok (.message m)) : m.read = m := by
  unfold ofFrame at h
  split at h
  · cases h
  · rename_i e he
    refine Envelope.read_of_toInbound (Envelope.settled_inFrame ?_ f) h
    unfold Envelope.ofBody at he
    split at he
    · cases he
      exact ⟨rfl, rfl, nofun⟩
    · split at he
      · cases he
      · rename_i v hv
        split at he
        · rename_i e' he'
          cases he
          exact Envelope.settled_of_ofJson? (hcodec _ v hv) he'
        · cases he

theorem LineDecoder.read_of_nextFrom {maxLine : Nat} {m : Message} : ∀ (fuel : Nat) {bs : Bytes},
    (nextFrom maxLine fuel bs).1 = .ok (some (.message m)) → m.read = m
  | 0, _, h => by cases h
  | fuel + 1, bs, h => by
    rw [nextFrom] at h
    split at h
    · split at h <;> cases h
    · split at h
      · exact read_of_nextFrom fuel h
      · rename_i r hr
        unfold readLine? at hr
        dsimp only at hr h
        split_ifs at hr
        · cases hr
          cases h
        · cases hr
          cases hline : Inbound.ofLine _ with
          | error e => rw [hline] at h; cases h
          | ok inbound =>
            rw [hline] at h
            cases h
            exact Inbound.read_of_ofLine hline

namespace BinaryEnd

variable {b : BinaryEnd} {f : Frame} {m : Message}

theorem read_of_deliver (hcodec : b.codec.Orders)
    (h : (b.deliver f).1 = some (.ok (.message m))) : m.read = m := by
  unfold deliver at h
  split at h
  · cases h
  · cases h
    rfl
  · cases h
  · dsimp only at h
    split at h
    · cases h
    · cases h
    · exact Inbound.read_of_ofFrame hcodec (Option.some.inj h)

theorem read_of_nextFrom : ∀ (fuel : Nat) {b : BinaryEnd}, b.codec.Orders →
    (nextFrom fuel b).1 = .ok (some (.message m)) → m.read = m
  | 0, _, _, h => by cases h
  | fuel + 1, b, hcodec, h => by
    rw [nextFrom] at h
    split at h
    · cases h
    · cases h
    · rename_i f rest _
      obtain ⟨-, -, -, haccept⟩ | ⟨-, e, b', -, haccept⟩ :=
        ({ b with buffer := rest } : BinaryEnd).accept_cases f
      · rw [haccept] at h
        have hreads := deliver_reads
          { b with buffer := rest, window := b.window.after f } f
        split at h
        · rename_i b' hdeliver
          rw [hdeliver] at hreads
          exact read_of_nextFrom fuel (hreads.codec ▸ hcodec) h
        · rename_i r b' hdeliver
          cases r with
          | error e => cases h
          | ok inbound =>
            cases h
            exact read_of_deliver
              (b := { b with buffer := rest, window := b.window.after f }) hcodec
              (congrArg Prod.fst hdeliver)
      · rw [haccept] at h
        cases h

end BinaryEnd

/-- A codec that a framer reads bodies with. -/
def Framer.Orders (f : Framer) : Prop := ∀ b, f.wire = .binary b → b.codec.Orders

theorem Framer.read_of_next {f : Framer} (hf : f.Orders) {m : Message}
    (h : f.next.1 = .ok (some (.message m))) : m.read = m := by
  unfold next at h
  split at h
  · rename_i d _
    have hline : (LineDecoder.nextFrom d.maxLine (d.buffer.length + 1) d.buffer).1 =
        .ok (some (.message m)) := h
    exact LineDecoder.read_of_nextFrom _ hline
  · rename_i b hb
    exact BinaryEnd.read_of_nextFrom _ (hf b hb) h

end PeerLink
