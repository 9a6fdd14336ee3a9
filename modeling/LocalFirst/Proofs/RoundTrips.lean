import LocalFirst.Proofs.OpenedTrips

/-!
# Round trips on their way

A call records a request when it begins a round trip and takes it out again when it goes on with
the answer.  A push marks its entity before its request and removes the mark however it ends, also
after the pull that may follow.  So the books of a client, which are the recorded requests and the
marked entities, list the round trips on their way and nothing else, whatever calls are under way
at once, in whatever order they are answered, and whatever the answers are.
-/

namespace LocalFirst

namespace Client

variable {α : Type}

/-- A request can always be taken out. -/
theorem run_removeNetworkRequest {client : Client} (queue : client.state.QueueReads)
    (tag : String) :
    ∃ after, client.run (dispatch (.removeNetworkRequest tag)) = (.ok (), after) ∧
      after.requests = client.requests.erase tag ∧ after.inFlight = client.inFlight ∧
        after.ids = client.ids ∧ after.state.QueueReads := by
  obtain ⟨next, reduced, nextQueue⟩ :=
    LocalState.exists_reduce_removeNetworkRequest queue client.clock tag
  have closed := LocalState.reduce_removeNetworkRequest reduced
  obtain ⟨result, store, ran, ⟨rfl, reducedTo⟩ | ⟨_, error, rfl⟩⟩ :=
    run_dispatch_store client (.removeNetworkRequest tag)
  · obtain rfl := Except.ok.inj (reduced.symm.trans reducedTo)
    exact ⟨_, ran, congrArg NetworkState.requests closed, rfl, rfl, nextQueue⟩
  · obtain ⟨_, runs, _⟩ := run_dispatch_ok reduced
    cases ran.symm.trans runs

/-- A request is taken out if it is still awaited. -/
theorem leaves_closeRequest {client : Client} (queue : client.state.QueueReads) (tag : String) :
    Leaves (client.closing tag) (fun _ => .none) (client.run (closeRequest tag)) := by
  refine Steady.leaves ?_
  by_cases pending : client.state.isPending tag = true
  · obtain ⟨after, ran, closed, inFlight, ids, nextQueue⟩ := run_removeNetworkRequest queue tag
    have runs : client.run (closeRequest tag) = (.ok true, after) := by
      rw [closeRequest, run_bind]
      simp only [snapshot, run_bind, run_get, run_pure, pending, if_true, ran]
    rw [runs]
    exact {
      requests := by rw [closed, Opening.none, List.append_nil]; rfl
      claims := by rw [inFlight]; exact .refl _
      unclaimed := by simp [Opening.none]
      node := by rw [ids]; rfl
      issued := by rw [ids]; exact Nat.le_refl _
      fresh := by simp [Opening.none]
      reads := fun _ => nextQueue }
  · have runs : client.run (closeRequest tag) = (.ok false, client) := by
      rw [closeRequest, run_bind]
      simp only [snapshot, run_bind, run_get, run_pure, pending]
      rfl
    rw [runs]
    have same : client.requests.erase tag = client.requests :=
      List.erase_of_not_mem (by simpa [LocalState.isPending] using pending)
    have closed : client.closing tag = client := by
      rw [closing, same]
      rfl
    rw [closed]
    exact .refl client

/-- What comes after a request was taken out. -/
theorem leaves_closing {client : Client} (queue : client.state.QueueReads) (tag : String)
    {rest : Bool → ClientM α} {opening : α → Opening} (opens : ∀ awaited, Opens (rest awaited) opening) :
    Leaves (client.closing tag) opening (client.run (closeRequest tag >>= rest)) :=
  (leaves_closeRequest queue tag).bind opens

section Answered

variable {client : Client} (queue : client.state.QueueReads) (tag : String)

include queue

/-- An awaited answer is taken up when it is good, and recorded as a failure when it is not. -/
theorem leaves_answered {Answer : Type} {settle : Except RemoteError Answer → ClientM Unit}
    {takeUp : Answer → ClientM Unit}
    (good : ∀ answer, settle (.ok answer) = do if ← closeRequest tag then takeUp answer)
    (bad : ∀ error, settle (.error error) = do if ← closeRequest tag then fail tag error)
    (keeps : ∀ answer, Keeps (takeUp answer)) (response : Except RemoteError Answer) :
    Leaves (client.closing tag) (fun _ => .none) (client.run (settle response)) := by
  cases response with
  | ok answer =>
      rw [good]
      refine leaves_closing queue tag fun awaited => ?_
      split
      · exact keeps answer
      · exact keeps_pure _
  | error error =>
      rw [bad]
      refine leaves_closing queue tag fun awaited => ?_
      split
      · exact opens_fail _ _ _
      · exact keeps_pure _

theorem leaves_settleFollow (key : EntityKey) (response : Except RemoteError Fetched) :
    Leaves (client.closing tag) (fun _ => .none) (client.run (settleFollow key tag response)) :=
  leaves_answered queue tag (fun _ => rfl) (fun _ => rfl)
    (fun _ => keeps_dispatch (by exact trivial)) response

theorem leaves_settleRebase (response : Except RemoteError PushCommand) :
    Leaves (client.closing tag) (fun _ => .none) (client.run (settleRebase tag response)) :=
  leaves_answered queue tag (fun _ => rfl) (fun _ => rfl)
    (fun _ => keeps_dispatch (by exact trivial)) response

theorem leaves_settlePull (key : EntityKey) (kind : PullKind)
    (response : (kind.request key).Response) :
    Leaves (client.closing tag) (fun _ => .none) (client.run (settlePull key tag kind response)) := by
  cases kind with
  | fetch => exact leaves_settleFollow queue tag key response
  | since version => exact leaves_settleRebase queue tag response

theorem leaves_settleLogin (response : Except RemoteError LoginResponse) :
    Leaves (client.closing tag) (fun _ => .none) (client.run (settleLogin tag response)) :=
  leaves_answered queue tag (fun _ => rfl) (fun _ => rfl)
    (fun _ => keeps_dispatch (by exact trivial)) response

theorem leaves_settleLogout (session : Session) (response : Except RemoteError Unit) :
    Leaves (client.closing tag) (fun _ => .none)
      (client.run (settleLogout session tag response)) := by
  refine leaves_answered queue tag (fun _ => rfl) (fun _ => rfl) (fun _ => ?_) response
  refine (keeps_dispatch (by exact trivial)).bind fun _ => ?_
  split
  · exact keeps_unfollowIfFollowed _
  · exact keeps_pure _

theorem leaves_settleDelete (key : EntityKey) (response : Except RemoteError Unit) :
    Leaves (client.closing tag) (fun _ => .none) (client.run (settleDelete key tag response)) :=
  leaves_answered queue tag (fun _ => rfl) (fun _ => rfl)
    (fun _ => keeps_unfollowIfFollowed key) response

theorem leaves_settlePush (job : PushJob) (response : Except RemoteError PushCommand) :
    Leaves (client.closing tag) (fun _ => .none) (client.run (settlePush job tag response)) := by
  refine leaves_closing queue tag fun awaited => ?_
  cases awaited with
  | false => exact keeps_pure _
  | true =>
      cases response with
      | ok command =>
          refine (keeps_entityInfo _).bind fun info => ?_
          split <;>
            exact (keeps_dispatch (by exact trivial)).bind fun _ =>
              (keeps_retire _ _).bind fun _ => keeps_pure _
      | error error =>
          cases error with
          | network message => exact (keeps_recordFailure _ _).bind fun _ => keeps_pure _
          | _ => exact (keeps_retire _ _).bind fun _ => opens_fail _ _ _

/-- What a call has opened when it goes on with an answer; its round trip is over. -/
theorem leaves_resume {flight : Flight} (marked : ∀ key ∈ flight.claims, key ∈ client.inFlight)
    (once : client.inFlight.Nodup) (response : flight.request.Response) :
    Leaves (client.without ⟨tag, flight⟩) Progress.opening
      (client.run (resume tag flight response)) := by
  have done : Opens (pure (.finished .done)) Progress.opening := opens_pure rfl
  cases flight with
  | follow key => exact (leaves_settleFollow queue tag key response).bind fun _ => done
  | pull key kind => exact (leaves_settlePull queue tag key kind response).bind fun _ => done
  | login command => exact (leaves_settleLogin queue tag response).bind fun _ => done
  | logout session => exact (leaves_settleLogout queue tag session response).bind fun _ => done
  | delete key => exact (leaves_settleDelete queue tag key response).bind fun _ => done
  | push job next =>
      have settles := leaves_settlePush queue tag job response
      rw [resume, run_bind]
      rcases ran : client.run (settlePush job tag response) with
        ⟨error | ⟨outcome | _⟩, after⟩ <;> rw [ran] at settles
      · rw [run_releaseOnError_error ran]
        exact settles.steady.releasing job.key
      · rw [run_releaseOnError_ok ran]
        exact Leaves.releasing settles _ (opens_afterPush _ _)
      · rw [run_releaseOnError_ok ran]
        exact leaves_beginCatchUp settles job next (marked _ (List.mem_singleton_self _)) once
  | catchUp job kind next =>
      have settles := (leaves_settlePull queue tag job.key kind response).steady
      rw [resume, run_bind, run_tryCatch]
      rcases ran : client.run (settlePull job.key tag kind response) with ⟨error | _, after⟩ <;>
        rw [ran] at settles <;> exact Leaves.releasing settles _ (opens_afterPush _ _)

end Answered

/-- When all requests are forgotten, none is left. -/
theorem run_cancelPending {client : Client}
    (queue : client.requests ≠ [] → client.state.QueueReads) :
    ∃ count after, client.run cancelPending = (.ok count, after) ∧ after.requests = [] ∧
      after.inFlight = client.inFlight ∧ after.ids = client.ids ∧
        (client.state.QueueReads → after.state.QueueReads) := by
  have forgets : ∀ (tags : List String) (client : Client),
      (tags ≠ [] → client.state.QueueReads) → client.requests = tags → ∃ after,
        client.run (tags.forM fun tag => dispatch (.removeNetworkRequest tag)) = (.ok (), after) ∧
          after.requests = [] ∧ after.inFlight = client.inFlight ∧ after.ids = client.ids ∧
            (client.state.QueueReads → after.state.QueueReads) := by
    intro tags
    induction tags with
    | nil => exact fun client _ none => ⟨client, rfl, none, rfl, rfl, id⟩
    | cons tag tags ih =>
        intro client queue listed
        obtain ⟨between, ran, closed, inFlight, ids, reads⟩ :=
          run_removeNetworkRequest (queue (List.cons_ne_nil _ _)) tag
        rw [listed, List.erase_cons_head] at closed
        obtain ⟨after, rest, none, sameInFlight, sameIds, keepsReads⟩ :=
          ih between (fun _ => reads) closed
        exact ⟨after, (run_bind_ok ran _).trans rest, none, sameInFlight.trans inFlight,
          sameIds.trans ids, fun _ => keepsReads reads⟩
  obtain ⟨after, ran, none, inFlight, ids, reads⟩ := forgets client.requests client queue rfl
  refine ⟨client.requests.length, after, ?_, none, inFlight, ids, reads⟩
  have runs : client.run cancelPending = client.run
      (client.requests.forM (fun tag => dispatch (.removeNetworkRequest tag)) >>=
        fun _ => pure client.requests.length) := rfl
  rw [runs, run_bind_ok ran, run_pure]

end Client

end LocalFirst
