import PeerLink.Proofs.FeedRuns

/-! # Subscriptions converge

* `Feed.converges`: at rest the registry holds what the requester wants, and the requester has the
  values of the tree.
* `Feed.watched`: a value that is watched.
-/

namespace PeerLink
set_option autoImplicit false

namespace Feed
variable {c : Encoding} {f : Feed}

/-- What was asked for and is still wanted, with a path that is valid, is what the registry holds at
rest, and the last value of each of these subscriptions is the one that the tree has. -/
theorem converges (c : Encoding) {tree : MemoryTree Binding} (hwatches : tree.watches = [])
    (hvalues : ∀ path u, tree.readValue path = some u → u.Travels)
    (h : Reachable c tree f) (hquiet : f.Quiet) (sid : Nat) :
    f.responder.registry.view sid = f.requester.subscriptions.view sid ∧
      ∀ e, f.responder.registry.entries.get? sid = some e →
        f.requester.subscriptions.last? sid = f.tree.readValue e.path := by
  obtain ⟨ops, us, hkept⟩ := kept_of_reachable hwatches hvalues h
  have hnone : ∀ task, task ∉ f.tasks := by
    intro task hm
    rw [hquiet.tasks] at hm
    cases hm
  have hasks := hkept.asks
  have hbrings := hkept.brings
  rw [hquiet.up] at hasks
  rw [hquiet.down] at hbrings
  have hwaiting : f.responder.registry.ops = [] := by
    by_contra hne
    exact hnone _ (hkept.roused.draining (hkept.roused.waiting hne))
  have hqueued : f.responder.registry.queued = [] := by
    by_contra hne
    exact hnone _ (hkept.roused.sending (hkept.roused.queued hne))
  have hsub : f.requester.subscriptions.toSubscribe = [] := by
    by_contra hne
    exact hnone _ (hkept.flushing (hkept.coherent.ordered.scheduled (.inl hne)))
  have hun : f.requester.subscriptions.toUnsubscribe = [] := by
    by_contra hne
    exact hnone _ (hkept.flushing (hkept.coherent.ordered.scheduled (.inr hne)))
  have hcoherent := hkept.coherent
  rw [hasks.of_nil, hbrings.of_nil, hwaiting] at hcoherent
  exact hcoherent.settled hqueued hsub hun sid

/-! ## A value that is watched -/

/-- Messages are read as they were sent. -/
def plain (m : Message) : Except FrameError Inbound := .ok (.message m.read)

theorem after_eq_plain (hlegible : f.Legible c) (hping : .ping ∉ f.up ++ f.down) (m : Move) :
    f.after c.carry m = f.after plain m := by
  have hcarry : ∀ msg ∈ f.up ++ f.down, c.carry msg = plain msg := fun msg hm =>
    Encoding.carry_of_reads (hlegible msg hm) fun he => hping (he ▸ hm)
  cases m with
  | deliverUp =>
    rw [Feed.after, Feed.after]
    cases hup : f.up with
    | nil => rfl
    | cons msg up =>
      dsimp only
      rw [hcarry msg (List.mem_append_left _ (hup ▸ List.mem_cons_self))]
  | deliverDown now =>
    rw [Feed.after, Feed.after]
    cases hdown : f.down with
    | nil => rfl
    | cons msg down =>
      dsimp only
      rw [hcarry msg (List.mem_append_right _ (hdown ▸ List.mem_cons_self))]
  | _ => rfl

/-- Moves that fit, each with the messages that are on their way after it. -/
def Follows (c : Encoding) : Feed → List (Move × List Message) → Prop
  | _, [] => True
  | f, (m, ms) :: steps =>
    m.Fits f ∧ (f.after plain m).up ++ (f.after plain m).down = ms ∧
      (∀ msg ∈ ms, c.Reads msg ∧ msg ≠ .ping) ∧ Follows c (f.after plain m) steps

theorem Reachable.foldl {tree : MemoryTree Binding} :
    ∀ (steps : List (Move × List Message)) (f : Feed), Reachable c tree f →
      .ping ∉ f.up ++ f.down → Follows c f steps →
      Reachable c tree ((steps.map (·.1)).foldl (Feed.after plain) f)
  | [], _, h, _, _ => h
  | (m, ms) :: steps, f, h, hping, ⟨hfits, hnext, hreads, hrest⟩ => by
    have heq := after_eq_plain h.legible hping m
    have hmove := h.move m hfits fun msg hm => (hreads msg (hnext ▸ heq ▸ hm)).1
    rw [heq] at hmove
    refine Reachable.foldl steps _ hmove (fun hm => ?_) hrest
    exact (hreads _ (hnext ▸ hm)).2 rfl

def midnight : Timestamp := ⟨0, 0⟩

def watchRequest : Message :=
  .request { rid := 1, method := .subscribe, paths := [⟨"/a", 1, 1⟩, ⟨"b", 2, 0⟩] }

def watchNews : Message :=
  .response (.opened Response.updateRid
    [SubscriptionUpdate.toJson ⟨1, { value := .bool true, time := midnight }⟩ |>.sorted])

/-- Two subscriptions are asked for, one of them with a path that is not valid. -/
def watchSteps : List (Move × List Message) :=
  [(.connect 1, []), (.setValue midnight "/a" (.bool true), []), (.subscribe "/a" 1 none, []),
    (.subscribe "b" 0 none, []), (.run midnight 0, [watchRequest]),
    (.deliverUp, [.response (.closed 1)]), (.run midnight 0, [.response (.closed 1)]),
    (.run midnight 0, [.response (.closed 1), watchNews]),
    (.deliverDown midnight, [watchNews]), (.deliverDown midnight, [])]

def watched : Feed := (watchSteps.map (·.1)).foldl (Feed.after plain) (Feed.start {})

theorem watchRequest_sound : watchRequest.Sound .json where
  words := by
    refine ⟨fun n hn => Option.some.inj hn ▸ by decide, fun ps hps p hp => ?_, nofun⟩
    cases hps
    simp only [List.mem_cons, List.not_mem_nil, or_false] at hp
    obtain rfl | rfl := hp
    · exact ⟨by decide, by decide⟩
    · exact ⟨by decide, by decide⟩
  length := by decide +kernel
  codec := fun _ => ⟨by decide +kernel, by rfl⟩
  close := by
    intro r hr hclose
    cases hr
    cases hclose

def isNewsBody : Except FrameError Json.Value → Bool
  | .ok (.obj [(k, .arr [.obj [(a, .num (.nat 1)), (b, .str status), (c, .str ts),
      (d, .bool true)]])]) =>
    [k, a, b, status, c, ts, d] ==
      ["updates", "sid", "status", "ok", "ts", "1970-01-01T00:00:00Z", "value"]
  | _ => false

theorem watchNews_body : (Envelope.ofMessage watchNews).body.toJson.sorted =
    .obj [("updates", .arr [.obj [("sid", .num (.nat 1)), ("status", .str "ok"),
      ("ts", .str "1970-01-01T00:00:00Z"), ("value", .bool true)]])] := by rfl

theorem watchNews_sound : watchNews.Sound .json where
  words := ⟨fun n hn => Option.some.inj hn ▸ by decide, nofun, nofun⟩
  length := by decide +kernel
  codec := by
    intro _
    have hread : isNewsBody (BodyCodec.json.decode
        (BodyCodec.json.encode (Envelope.ofMessage watchNews).body.toJson.sorted)) = true := by
      decide +kernel
    refine ⟨by decide +kernel, ?_⟩
    unfold isNewsBody at hread
    split at hread
    · rename_i k a b status c ts d hv
      rw [hv, watchNews_body]
      simp only [beq_iff_eq, List.cons.injEq] at hread
      obtain ⟨rfl, rfl, rfl, rfl, rfl, rfl, rfl, -⟩ := hread
      rfl
    · cases hread
  close := nofun

theorem acknowledged_sound : (Message.response (.closed 1)).Sound .json where
  words := ⟨fun n hn => Option.some.inj hn ▸ by decide, nofun, nofun⟩
  length := by decide +kernel
  codec := nofun
  close := nofun

theorem midnight_travels : ValueUpdate.Travels { value := .bool true, time := midnight } where
  sorted := by simp [Json.Value.sorted]
  time := rfl

theorem reachable_watched : Reachable (.frames .json) {} watched := by
  have hrequest : ∀ msg ∈ [watchRequest], Encoding.Reads (.frames .json) msg ∧ msg ≠ .ping := by
    intro msg hm
    rw [List.mem_singleton.mp hm]
    exact ⟨watchRequest_sound, nofun⟩
  have hnews : ∀ msg ∈ [watchNews], Encoding.Reads (.frames .json) msg ∧ msg ≠ .ping := by
    intro msg hm
    rw [List.mem_singleton.mp hm]
    exact ⟨watchNews_sound, nofun⟩
  have hclosed : ∀ msg ∈ [Message.response (.closed 1)],
      Encoding.Reads (.frames .json) msg ∧ msg ≠ .ping := by
    intro msg hm
    rw [List.mem_singleton.mp hm]
    exact ⟨acknowledged_sound, nofun⟩
  have hboth : ∀ msg ∈ [Message.response (.closed 1), watchNews],
      Encoding.Reads (.frames .json) msg ∧ msg ≠ .ping := by
    intro msg hm
    rcases List.mem_cons.mp hm with rfl | hm
    · exact ⟨acknowledged_sound, nofun⟩
    · exact hnews msg hm
  have hnone : ∀ msg ∈ ([] : List Message), Encoding.Reads (.frames .json) msg ∧ msg ≠ .ping :=
    fun _ hm => absurd hm List.not_mem_nil
  have hfirst : 1 < wordBound := by decide
  have hsecond : 2 < wordBound := by decide
  refine Reachable.foldl watchSteps _ .start (fun hm => absurd hm List.not_mem_nil) ?_
  exact ⟨trivial, rfl, hnone, midnight_travels, rfl, hnone, hfirst, rfl, hnone, hsecond, rfl, hnone,
    trivial, rfl, hrequest, trivial, rfl, hclosed, trivial, rfl, hclosed, trivial, rfl, hboth,
    trivial, rfl, hnews, trivial, rfl, hnone, trivial⟩

theorem watched_converges : Reachable (.frames .json) {} watched ∧ watched.Quiet ∧
    watched.responder.registry.view 1 = some ("/a", 1) ∧
    watched.responder.registry.view 2 = none ∧
    watched.requester.subscriptions.last? 1 = some { value := .bool true, time := midnight } := by
  have hquiet : watched.Quiet := ⟨rfl, rfl, rfl⟩
  have hvalues : ∀ path u, ({} : MemoryTree Binding).readValue path = some u → u.Travels :=
    fun _ _ hu => absurd hu Table.get?_empty_ne
  have h1 := converges (.frames .json) rfl hvalues reachable_watched hquiet 1
  have h2 := converges (.frames .json) rfl hvalues reachable_watched hquiet 2
  exact ⟨reachable_watched, hquiet, h1.1, h2.1, h1.2 _ rfl⟩

end Feed
end PeerLink
