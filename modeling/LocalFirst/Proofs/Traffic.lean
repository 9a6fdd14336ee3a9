import LocalFirst.Proofs.Brackets
import LocalFirst.Proofs.RoundTrips

/-!
# Calls at once

Several calls of one client may be under way at once, and their round trips are answered in any
order, while the client commits, applies diffs, or cancels what it waits for.  At every moment the
recorded requests are those of the round trips that are on their way and were not cancelled, in the
order in which they began, and the marked entities are those with an unfinished push.
-/

namespace LocalFirst

namespace Traffic

/-- Whatever happens, the books list the round trips on their way. -/
theorem Bracketed.after {traffic : Traffic} (bracketed : traffic.Bracketed) (event : Event) :
    (traffic.after event).Bracketed := by
  obtain ⟨client, trips⟩ := traffic
  cases event with
  | start call => exact bracketed.reaching (Client.opens_start call client)
  | answer place server =>
      rw [Traffic.after]
      cases found : trips[place]? with
      | none => exact bracketed
      | some trip =>
          obtain ⟨inside, isTrip⟩ := List.getElem?_eq_some_iff.1 found
          have parts : trips = trips.take place ++ trip :: trips.drop (place + 1) := by
            rw [← isTrip, List.getElem_cons_drop, List.take_append_drop]
          rw [List.eraseIdx_eq_take_drop_succ]
          rw [parts] at bracketed
          have marked : ∀ key ∈ trip.flight.claims, key ∈ client.inFlight := fun key member => by
            refine bracketed.claims.mem_iff.2 ?_
            exact List.mem_flatMap.2 ⟨trip, by simp, member⟩
          have queue : client.state.QueueReads := bracketed.reads (by simp)
          exact bracketed.without.reaching
            (Client.leaves_resume queue trip.tag marked bracketed.once _)
  | commit key operation =>
      exact bracketed.steady (Client.keeps_dispatch (by exact trivial) client).steady
  | goOffline => exact bracketed.steady (Client.keeps_dispatch (by exact trivial) client).steady
  | applyVersionDiff diff =>
      exact bracketed.steady (Client.keeps_applyVersionDiff diff client).steady
  | pumpDiffs diffs => exact bracketed.steady (Client.steady_pumpDiffs client 0 diffs)
  | wake now => exact bracketed.steady (Client.steady_of_same rfl rfl rfl (Nat.le_refl _))
  | cancelPending =>
      have queue : client.requests ≠ [] → client.state.QueueReads := fun some =>
        bracketed.reads fun none => some (by rw [bracketed.requests, none]; rfl)
      obtain ⟨count, after, ran, none, inFlight, ids, reads⟩ := Client.run_cancelPending queue
      rw [Traffic.after, ran]
      exact {
        requests := by
          rw [none, awaited, List.filter_eq_nil_iff.2 (by simp), List.map_nil]
        claims := by
          rw [inFlight, pushing, List.flatMap_map]
          exact bracketed.claims
        once := by
          rw [inFlight]
          exact bracketed.once
        issued := by
          intro trip member
          obtain ⟨before, isBefore, rfl⟩ := List.mem_map.1 member
          rw [ids]
          exact bracketed.issued before isBefore
        distinct := by
          rw [List.map_map]
          exact bracketed.distinct
        reads := fun some => reads (bracketed.reads (by simpa using some)) }

theorem Bracketed.afterAll {traffic : Traffic} (bracketed : traffic.Bracketed)
    (events : List Event) : (traffic.afterAll events).Bracketed := by
  induction events generalizing traffic with
  | nil => exact bracketed
  | cons event rest ih => exact ih (bracketed.after event)

/-- A client without requests and marks, and no call under way. -/
theorem bracketed_of_idle {client : Client} (noRequests : client.requests = [])
    (noMarks : client.inFlight = []) : Bracketed ⟨client, []⟩ where
  requests := noRequests
  claims := by rw [noMarks]; exact .refl _
  once := by simp [noMarks]
  issued := by rintro _ ⟨⟩
  distinct := .nil
  reads nonempty := absurd rfl nonempty

/-- The entity that a request pushes. -/
def pushed? : Request → Option EntityKey
  | .push request => some ⟨request.entityName, request.id⟩
  | _ => none

/-- The requests to push are among the unfinished pushes. -/
theorem pushed_sublist (trips : List RoundTrip) :
    (trips.filterMap fun trip => pushed? trip.flight.request).Sublist (pushing trips) := by
  induction trips with
  | nil => exact .slnil
  | cons trip rest ih =>
      have one : (pushed? trip.flight.request).toList.Sublist trip.flight.claims := by
        cases trip.flight with
        | push job next => exact .refl _
        | pull key kind => cases kind <;> exact .refl _
        | catchUp job kind next => cases kind <;> exact List.nil_sublist _
        | _ => exact .refl _
      rw [pushing, List.flatMap_cons, List.filterMap_cons]
      cases pushes : pushed? trip.flight.request with
      | none => exact ih.trans (List.sublist_append_right _ _)
      | some key =>
          rw [pushes] at one
          exact one.append ih

/-- In every moment of a run, the recorded requests are those of the round trips on their way that
were not cancelled, in order; the marked entities are those with an unfinished push; no two requests
push one entity; and when no call is under way, nothing is recorded and nothing marked. -/
theorem bracketed_of_run (client : Client) (noRequests : client.state.network.requests = [])
    (noMarks : client.inFlight = []) (events : List Event) :
    let traffic := afterAll ⟨client, []⟩ events
    traffic.client.state.network.requests = awaited traffic.trips ∧
      (awaited traffic.trips).Nodup ∧
      (∀ key, key ∈ traffic.client.inFlight ↔ ∃ trip ∈ traffic.trips, key ∈ trip.flight.claims) ∧
      traffic.client.inFlight.Nodup ∧
      (traffic.trips.filterMap fun trip => pushed? trip.flight.request).Nodup ∧
      (traffic.trips = [] →
        traffic.client.state.network.requests = [] ∧ traffic.client.inFlight = []) := by
  intro traffic
  have bracketed : traffic.Bracketed := (bracketed_of_idle noRequests noMarks).afterAll events
  refine ⟨bracketed.requests, (awaited_sublist _).nodup bracketed.distinct, fun key => ?_,
    bracketed.once, ?_, fun none => ?_⟩
  · rw [bracketed.claims.mem_iff]
    exact List.mem_flatMap
  · exact (pushed_sublist _).nodup (bracketed.claims.nodup_iff.1 bracketed.once)
  · have requests := bracketed.requests
    have claims := bracketed.claims
    rw [none] at requests claims
    exact ⟨requests, List.perm_nil.1 claims⟩

/-- A client that follows two notes, one of them with a commit. -/
def noteKeeper : Client :=
  .ofStore (.ofState LocalState.twoNotes 8) {} ⟨1, 0⟩ default

/-- Push a note, fetch the other one, and push the first again. -/
def crossing : List Event :=
  [.start (.push ⟨"note", "n2"⟩), .start (.follow ⟨"note", "n1"⟩), .start (.push ⟨"note", "n2"⟩)]

/-- The server is not reached, the fetch fails first. -/
def unreached : List Event :=
  [.answer 1 fun _ => .error (.network "no route"), .answer 0 fun _ => .error (.network "no route")]

/-- Two round trips are on their way, then they fail, and nothing is left of them. -/
theorem bracketed_of_run_crossing :
    noteKeeper.state.network.requests = [] ∧ noteKeeper.inFlight = [] ∧
      (let crossed := afterAll ⟨noteKeeper, []⟩ crossing
      crossed.trips.length = 2 ∧
        crossed.client.state.network.requests = awaited crossed.trips ∧
        ⟨"note", "n2"⟩ ∈ crossed.client.inFlight) ∧
      let settled := afterAll ⟨noteKeeper, []⟩ (crossing ++ unreached)
      settled.client.state.network.requests = [] ∧ settled.client.inFlight = [] := by
  obtain ⟨requests, _, marks, _⟩ := bracketed_of_run noteKeeper rfl rfl crossing
  obtain ⟨_, _, _, _, _, ends⟩ := bracketed_of_run noteKeeper rfl rfl (crossing ++ unreached)
  have pushes : pushing (afterAll ⟨noteKeeper, []⟩ crossing).trips = [⟨"note", "n2"⟩] := rfl
  have marked : ⟨"note", "n2"⟩ ∈ pushing (afterAll ⟨noteKeeper, []⟩ crossing).trips := by
    rw [pushes]
    exact List.mem_singleton_self _
  exact ⟨rfl, rfl, ⟨rfl, requests, (marks _).2 (List.mem_flatMap.1 marked)⟩, ends rfl⟩

end Traffic

end LocalFirst
