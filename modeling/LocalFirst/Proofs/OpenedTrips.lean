import LocalFirst.Proofs.ClientSteps
import LocalFirst.Proofs.RequestBooks

/-!
# How calls begin round trips

A call opens at most one round trip before it waits.  A push marks its entity first, and takes the
mark back when it ends without a request.
-/

namespace LocalFirst

namespace Client

variable {α : Type}

/-- With its mark removed, a client has the books of another without that mark. -/
theorem Leaves.releasing {before client : Client} {next : ClientM α} {opening : α → Opening}
    (steady : Steady before client) (key : EntityKey) (rest : Opens next opening) :
    Leaves (before.releasing key) opening (client.run (release key >>= fun _ => next)) :=
  (steady.releasing key).trans_leaves (rest (client.releasing key))

/-- The queued commits of an entity are sent under a request, or nothing is opened. -/
theorem opens_sendCommits (key : EntityKey) (limit : Option Nat) :
    Opens (sendCommits key limit) fun
      | .ended _ => .none
      | .sent tag _ => ⟨[tag], []⟩ := by
  refine keeps_snapshot.bind fun state => (keeps_entityInfo key).bind fun info => ?_
  dsimp only
  split
  · exact opens_pure rfl
  · refine (keeps_dispatch (by exact trivial)).bind fun _ => ?_
    split
    · exact opens_pure rfl
    · exact opens_openRequest.bind fun tag => .inr ⟨_, rfl, rfl⟩

theorem run_releaseOnError_ok {client after : Client} {key : EntityKey} {call : ClientM α}
    {value : α} (ran : client.run call = (.ok value, after)) :
    client.run (releaseOnError key call) = (.ok value, after) := by
  rw [releaseOnError, run_tryCatch, ran]

theorem run_releaseOnError_error {client after : Client} {key : EntityKey} {call : ClientM α}
    {error : ClientError} (ran : client.run call = (.error error, after)) :
    client.run (releaseOnError key call) = (.error error, after.releasing key) := by
  rw [releaseOnError, run_tryCatch, ran]
  rfl

/-- A push of a marked entity ends at once. -/
theorem run_beginPush_of_mem {client : Client} {key : EntityKey} (marked : key ∈ client.inFlight)
    (limit : Option Nat) :
    client.run (beginPush key limit) = (.ok (.ended .inFlight), client) := by
  rw [beginPush, run_bind, run_get]
  simp only [List.contains_iff_mem, marked, if_true, run_pure]

/-- A push of another entity marks it and sends its commits. -/
theorem run_beginPush_of_notMem {client : Client} {key : EntityKey}
    (unmarked : key ∉ client.inFlight) (limit : Option Nat) :
    client.run (beginPush key limit) =
      Client.run { client with inFlight := key :: client.inFlight }
        (releaseOnError key (sendCommits key limit) >>= fun
          | .ended outcome => release key >>= fun _ => pure (.ended outcome)
          | .sent tag job => pure (.sent tag job)) := by
  rw [beginPush, run_bind, run_get]
  simp only [List.contains_iff_mem, unmarked]
  rfl

/-- A push that is on its way has marked its entity, which no push had marked before. -/
theorem opens_beginPush (key : EntityKey) (limit : Option Nat) :
    Opens (beginPush key limit) PushStart.opening := by
  intro client
  by_cases marked : key ∈ client.inFlight
  · rw [run_beginPush_of_mem marked]
    exact Steady.refl client
  let claimed : Client := { client with inFlight := key :: client.inFlight }
  have released : claimed.releasing key = client := by
    rw [releasing, List.erase_cons_head]
  have runs := run_beginPush_of_notMem marked limit
  have sends := opens_sendCommits key limit claimed
  have fits := (gives_sendCommits key limit claimed trivial).2.2
  rw [runs]
  rcases ran : claimed.run (sendCommits key limit) with ⟨error | ⟨outcome | ⟨tag, job⟩⟩, after⟩ <;>
    rw [ran] at sends fits
  · rw [run_bind_error (run_releaseOnError_error ran)]
    have steady := Steady.releasing sends key
    rwa [released] at steady
  · rw [run_bind_ok (run_releaseOnError_ok ran)]
    have ends : Opens (pure (.ended outcome)) PushStart.opening := opens_pure rfl
    have leaves := Leaves.releasing sends key ends
    rwa [released] at leaves
  · rw [run_bind_ok (run_releaseOnError_ok ran)]
    obtain ⟨rfl, _⟩ := fits _ rfl
    exact {
      requests := sends.requests
      claims := sends.claims
      unclaimed := fun other member => by
        obtain rfl := List.mem_singleton.1 member
        exact marked
      node := sends.node
      issued := sends.issued
      fresh := sends.fresh
      reads := sends.reads }

theorem opens_waitFor {flight : Flight} (nothing : flight.claims = []) :
    Opens (waitFor flight) Progress.opening :=
  opens_openRequest.bind fun tag => .inr ⟨_, rfl, by
    rw [Progress.opening, Suspended.opening, nothing]⟩

theorem repushRule_opens : RepushRule fun _ next => Opens next Progress.opening where
  finished _ _ := opens_pure rfl
  looks rest := keeps_snapshot.bind rest
  retires key count rest := (keeps_retire key count).bind fun _ => rest
  pushes sends rest := (opens_beginPush _ _).bind fun start => by
    cases start with
    | sent tag job => exact .inr ⟨_, sends tag job, rfl⟩
    | ended outcome => exact .inl ⟨rfl, rest outcome⟩
  later opens := opens

theorem opens_afterPush (outcome : PushOutcome) (next : Option Repush) :
    Opens (afterPush outcome next) Progress.opening := by
  cases next with
  | none => exact opens_pure rfl
  | some repush => exact repushRule_opens.afterPush outcome repush

/-- The pull behind a push takes over its mark. -/
theorem leaves_beginCatchUp {before client : Client} (steady : Steady before client)
    (job : PushJob) (next : Option Repush) (marked : job.key ∈ before.inFlight)
    (once : before.inFlight.Nodup) :
    Leaves (before.releasing job.key) Progress.opening (client.run (beginCatchUp job next)) := by
  let begin : ClientM (Option (PullKind × String)) := do
    let kind ← pullKind job.key
    let tag ← openRequest
    pure (some (kind, tag))
  have begins : Opens begin fun begun => ⟨(begun.map Prod.snd).toList, []⟩ :=
    (keeps_pullKind _).bind fun kind => opens_openRequest.bind fun tag => .inr ⟨_, rfl, rfl⟩
  have opened := steady.trans_leaves (begins client)
  rw [show beginCatchUp job next = (tryCatch begin (fun _ => pure none) >>= _) from rfl, run_bind,
    run_tryCatch]
  rcases ran : client.run begin with ⟨error | ⟨_ | ⟨kind, tag⟩⟩, after⟩ <;> rw [ran] at opened
  · exact Leaves.releasing opened _ (opens_afterPush _ _)
  · exact Leaves.releasing opened _ (opens_afterPush _ _)
  · exact {
      requests := opened.requests
      claims := opened.claims.trans (List.perm_cons_erase marked)
      unclaimed := fun key member => by
        obtain rfl := List.mem_singleton.1 member
        exact once.not_mem_erase
      node := opened.node
      issued := opened.issued
      fresh := opened.fresh
      reads := opened.reads }

theorem opens_startPush (key : EntityKey) : Opens (startPush key) Progress.opening := by
  refine keeps_get.bind fun client => (opens_beginPush key _).bind fun start => ?_
  cases start with
  | ended outcome => exact .inl ⟨rfl, opens_pure rfl⟩
  | sent tag job => exact .inr ⟨_, rfl, rfl⟩

theorem opens_startRepush : Opens startRepush Progress.opening :=
  keeps_snapshot.bind fun _ => repushRule_opens.repushEach _ _

theorem opens_start (call : Call) : Opens (start call) Progress.opening := by
  cases call with
  | follow key => exact opens_waitFor rfl
  | push key => exact opens_startPush key
  | pull key => exact (keeps_pullKind key).bind fun _ => opens_waitFor rfl
  | delete key => exact opens_waitFor rfl
  | commitAndPush key operation =>
      exact (keeps_dispatch (by exact trivial)).bind fun _ => opens_startPush key
  | repush => exact opens_startRepush
  | goOnline => exact (keeps_dispatch (by exact trivial)).bind fun _ => opens_startRepush
  | login command => exact opens_waitFor rfl
  | logout =>
      refine keeps_snapshot.bind fun state => ?_
      split
      · exact opens_pure rfl
      · exact opens_waitFor rfl

end Client

end LocalFirst
