import LocalFirst.Proofs.RequestBooks

/-!
# Requests and marks of the calls under way

Traffic is a client with its round trips on their way.  It is bracketed when the recorded requests
are those of the round trips that were not cancelled, in the order in which they began, and the
marked entities are those with an unfinished push.
-/

namespace LocalFirst

/-- A round trip on its way. -/
structure RoundTrip extends Suspended where
  cancelled : Bool

/-- A client and the round trips of its calls, in the order in which they began. -/
structure Traffic where
  client : Client
  trips : List RoundTrip

namespace Traffic

/-- What may happen to a client with calls under way.  An answer may be any; it comes from a server
that may be another one each time. -/
inductive Event where
  | start (call : Call)
  | answer (place : Nat) (server : (request : Request) → request.Response)
  | commit (key : EntityKey) (operation : Update)
  | goOffline
  | applyVersionDiff (diff : VersionDiff)
  | pumpDiffs (diffs : List VersionDiff)
  | cancelPending
  | wake (now : Instant)

/-- The round trip that a call has begun, if it waits. -/
def begun : Except ClientError Progress → List RoundTrip
  | .ok (.waiting suspended) => [⟨suspended, false⟩]
  | _ => []

/-- Beside other round trips, a call has come to an outcome. -/
def reaching (trips : List RoundTrip) (outcome : Except ClientError Progress × Client) : Traffic :=
  ⟨outcome.2, trips ++ begun outcome.1⟩

def after (traffic : Traffic) : Event → Traffic
  | .start call => reaching traffic.trips (traffic.client.run (Client.start call))
  | .answer place server =>
      match traffic.trips[place]? with
      | none => traffic
      | some trip =>
          reaching (traffic.trips.eraseIdx place)
            (traffic.client.run (Client.resume trip.tag trip.flight (server trip.flight.request)))
  | .commit key operation =>
      { traffic with client := (traffic.client.run (Client.commit key operation)).2 }
  | .goOffline => { traffic with client := (traffic.client.run Client.goOffline).2 }
  | .applyVersionDiff diff =>
      { traffic with client := (traffic.client.run (Client.applyVersionDiff diff)).2 }
  | .pumpDiffs diffs => { traffic with client := (traffic.client.pumpDiffs 0 diffs).2.1 }
  | .cancelPending =>
      ⟨(traffic.client.run Client.cancelPending).2,
        traffic.trips.map fun trip => { trip with cancelled := true }⟩
  | .wake now => { traffic with client := { traffic.client with clock := now } }

def afterAll (traffic : Traffic) (events : List Event) : Traffic :=
  events.foldl after traffic

/-- The tags of the round trips that were not cancelled. -/
def awaited (trips : List RoundTrip) : List String :=
  (trips.filter fun trip => !trip.cancelled).map fun trip => trip.tag

/-- The entities with an unfinished push. -/
def pushing (trips : List RoundTrip) : List EntityKey :=
  trips.flatMap fun trip => trip.flight.claims

/-- The books of the client list the round trips on their way. -/
structure Bracketed (traffic : Traffic) : Prop where
  requests : traffic.client.requests = awaited traffic.trips
  claims : traffic.client.inFlight.Perm (pushing traffic.trips)
  once : traffic.client.inFlight.Nodup
  issued : ∀ trip ∈ traffic.trips, ∃ count < traffic.client.ids.issued,
    trip.tag = IdSource.identifier traffic.client.ids.node count
  distinct : (traffic.trips.map fun trip => trip.tag).Nodup
  reads : traffic.trips ≠ [] → traffic.client.state.QueueReads

theorem left_begun (result : Except ClientError Progress) :
    Client.left Progress.opening result = ⟨awaited (begun result), pushing (begun result)⟩ := by
  rcases result with error | ⟨result | suspended⟩
  · rfl
  · rfl
  · simp [Client.left, Progress.opening, Suspended.opening, begun, awaited, pushing]

theorem awaited_append (trips others : List RoundTrip) :
    awaited (trips ++ others) = awaited trips ++ awaited others := by
  simp [awaited]

theorem pushing_append (trips others : List RoundTrip) :
    pushing (trips ++ others) = pushing trips ++ pushing others :=
  List.flatMap_append

theorem tag_mem_awaited_begun {result : Except ClientError Progress} {trip : RoundTrip}
    (member : trip ∈ begun result) : trip.tag ∈ awaited (begun result) := by
  rcases result with error | ⟨result | suspended⟩
  · cases member
  · cases member
  · obtain rfl := List.mem_singleton.1 member
    exact List.mem_singleton_self _

theorem nodup_pushing_begun (result : Except ClientError Progress) :
    (pushing (begun result)).Nodup ∧ ((begun result).map fun trip => trip.tag).Nodup := by
  rcases result with error | ⟨result | ⟨tag, flight⟩⟩
  · simp [begun, pushing]
  · simp [begun, pushing]
  · cases flight <;> simp [begun, pushing, Flight.claims]

/-- What a call opens is listed behind the other round trips. -/
theorem Bracketed.reaching {before : Client} {trips : List RoundTrip}
    (bracketed : Bracketed ⟨before, trips⟩) {outcome : Except ClientError Progress × Client}
    (leaves : Client.Leaves before Progress.opening outcome) :
    Bracketed (reaching trips outcome) := by
  obtain ⟨result, client⟩ := outcome
  rw [Client.Leaves, left_begun] at leaves
  have newTag : ∀ trip ∈ begun result, ∃ count,
      trip.tag = IdSource.identifier before.ids.node count ∧ before.ids.issued ≤ count ∧
        count < client.ids.issued := fun trip member =>
    leaves.fresh _ (tag_mem_awaited_begun member)
  obtain ⟨newClaims, newTags⟩ := nodup_pushing_begun result
  exact {
    requests := by
      rw [Traffic.reaching, leaves.requests, bracketed.requests, awaited_append]
    claims := by
      rw [Traffic.reaching, pushing_append]
      exact leaves.claims.trans ((bracketed.claims.append_left _).trans List.perm_append_comm)
    once := by
      refine leaves.claims.nodup_iff.2 (List.nodup_append.2 ⟨newClaims, bracketed.once, ?_⟩)
      rintro key member _ marked rfl
      exact leaves.unclaimed key member marked
    issued := by
      intro trip member
      rw [Traffic.reaching, leaves.node]
      rcases List.mem_append.1 member with there | here
      · obtain ⟨count, below, isTag⟩ := bracketed.issued trip there
        exact ⟨count, Nat.lt_of_lt_of_le below leaves.issued, isTag⟩
      · obtain ⟨count, isTag, _, below⟩ := newTag trip here
        exact ⟨count, below, isTag⟩
    distinct := by
      rw [Traffic.reaching, List.map_append]
      refine List.nodup_append.2 ⟨bracketed.distinct, newTags, ?_⟩
      rintro tag there _ here rfl
      obtain ⟨old, oldMember, rfl⟩ := List.mem_map.1 there
      obtain ⟨new, newMember, same⟩ := List.mem_map.1 here
      obtain ⟨count, below, oldTag⟩ := bracketed.issued old oldMember
      obtain ⟨newCount, isTag, above, _⟩ := newTag new newMember
      -- the identifiers that had been issued are other ones
      rw [isTag, oldTag, IdSource.identifier_inj] at same
      exact Nat.not_le_of_lt below (same.2 ▸ above)
    reads := by
      intro nonempty
      refine leaves.reads ?_
      by_cases none : begun result = []
      · rw [Traffic.reaching, none, List.append_nil] at nonempty
        exact .inl (bracketed.reads nonempty)
      · obtain ⟨trip, member⟩ := List.exists_mem_of_ne_nil _ none
        exact .inr (List.ne_nil_of_mem (tag_mem_awaited_begun member)) }

/-- Nothing is opened while no call goes on. -/
theorem Bracketed.steady {traffic : Traffic} (bracketed : traffic.Bracketed) {client : Client}
    (steady : traffic.client.Steady client) : Bracketed { traffic with client := client } := by
  have leaves : Client.Leaves traffic.client Progress.opening (.ok (.finished .done), client) :=
    steady
  have reached := Bracketed.reaching bracketed leaves
  simpa [Traffic.reaching, begun] using reached

theorem claims_cases (flight : Flight) : flight.claims = [] ∨ ∃ key, flight.claims = [key] := by
  cases flight <;> simp [Flight.claims]

theorem awaited_sublist (trips : List RoundTrip) :
    (awaited trips).Sublist (trips.map fun trip => trip.tag) :=
  List.filter_sublist.map _

/-- When a round trip is over, it is neither recorded nor marked. -/
theorem Bracketed.without {client : Client} {trip : RoundTrip} {front back : List RoundTrip}
    (bracketed : Bracketed ⟨client, front ++ trip :: back⟩) :
    Bracketed ⟨client.without trip.toSuspended, front ++ back⟩ := by
  have claims : client.inFlight.Perm (trip.flight.claims ++ pushing (front ++ back)) := by
    have listed := bracketed.claims
    simp only [pushing, List.flatMap_append, List.flatMap_cons] at listed ⊢
    exact listed.trans (List.perm_append_comm_assoc ..)
  have gone : (client.without trip.toSuspended).state = (client.closing trip.tag).state ∧
      (client.without trip.toSuspended).ids = client.ids ∧
      (client.without trip.toSuspended).inFlight.Perm (pushing (front ++ back)) ∧
      (client.without trip.toSuspended).inFlight.Nodup := by
    rw [Client.without]
    obtain none | ⟨key, one⟩ := claims_cases trip.flight
    · rw [none] at claims ⊢
      exact ⟨rfl, rfl, claims, bracketed.once⟩
    · rw [one] at claims ⊢
      have erased := List.Perm.erase key claims
      rw [List.singleton_append, List.erase_cons_head] at erased
      exact ⟨rfl, rfl, erased, bracketed.once.erase key⟩
  obtain ⟨sameState, sameIds, unmarked, once⟩ := gone
  have distinct : trip.tag ∉ (front ++ back).map (fun trip => trip.tag) ∧
      ((front ++ back).map fun trip => trip.tag).Nodup := by
    have all := bracketed.distinct
    rw [(List.perm_middle.map _).nodup_iff] at all
    exact List.nodup_cons.1 all
  have notAwaited : trip.tag ∉ awaited (front ++ back) := fun member =>
    distinct.1 ((awaited_sublist _).subset member)
  have requests : (client.closing trip.tag).requests = awaited (front ++ back) := by
    have recorded : client.requests = awaited front ++ (awaited [trip] ++ awaited back) := by
      rw [← awaited_append, ← awaited_append]
      exact bracketed.requests
    change client.requests.erase trip.tag = _
    rw [awaited_append] at notAwaited ⊢
    cases cancelled : trip.cancelled with
    | true =>
        have none : awaited [trip] = [] := by simp [awaited, cancelled]
        rw [recorded, none, List.nil_append, List.erase_of_not_mem notAwaited]
    | false =>
        have one : awaited [trip] = [trip.tag] := by simp [awaited, cancelled]
        have notBefore : trip.tag ∉ awaited front := fun member =>
          notAwaited (List.mem_append_left _ member)
        rw [recorded, one, List.erase_append_right _ notBefore, List.singleton_append,
          List.erase_cons_head]
  exact {
    requests := by
      rw [Client.requests, sameState]
      exact requests
    claims := unmarked
    once := once
    issued := by
      intro other member
      rw [sameIds]
      refine bracketed.issued other ?_
      rw [List.mem_append, List.mem_cons]
      exact (List.mem_append.1 member).imp_right .inr
    distinct := distinct.2
    reads := by
      intro _
      rw [sameState]
      exact bracketed.reads (by simp) }

end Traffic

end LocalFirst
