import LocalFirst.Proofs.LoneCalls
import LocalFirst.Proofs.SuccessfulParts

/-!
# The rounds of a repush

A repush pushes one entity after another, and each push that is completed takes the entries of its
own entity.  When all of them are completed, the queue is drained as far as its counts tell
beforehand.
-/

namespace LocalFirst

namespace Client

/-- A part of a repush ends with an error, or far enough. -/
def Drains (before : LocalState) (outcome : Except ClientError Progress × Client) : Prop :=
  ∀ progress, outcome.1 = .ok progress → progress.Drains before outcome.2.state

variable {before : LocalState}

theorem drains_error (error : ClientError) (client : Client) :
    Drains before (.error error, client) := by
  rintro _ ⟨⟩

/-- An entity of which nothing can be pushed is dealt with by retiring its entries. -/
theorem drains_retire {key : EntityKey} {count : UInt64} {remaining : List (EntityKey × UInt64)}
    {next : ClientM Progress} {client : Client} {completed : Prop} (counted : client.state.Counted)
    (draining : completed → before.Draining ((key, count) :: remaining) client.state ∧
      min (before.queued key) (before.pending key).length = 0)
    (rest : ∀ client : Client, client.state.Counted →
      (completed → before.Draining remaining client.state) → Drains before (client.run next)) :
    Drains before (client.run (retire key count >>= fun _ => next)) := by
  have stillCounted := retains_retire LocalState.keep_counted key count client counted
  rw [run_bind]
  rcases ran : client.run (retire key count) with ⟨error | done, after⟩ <;> rw [ran] at stillCounted
  · exact drains_error error after
  refine rest after stillCounted fun complete => ?_
  obtain ⟨draining, zero⟩ := draining complete
  obtain ⟨pending, _, isCount⟩ := draining.first
  refine draining.takes ?_
  rw [LocalState.retirable_of_zero zero, ← isCount]
  exact yields_retire counted.reads (by omega) client (.refl client) done after ran

/-- When a push has ended, a repush goes on with the entities that remain. -/
theorem drains_afterPush_of (repush : Repush)
    (rest : ∀ outcomes (client : Client), client.state.Counted →
      ((∀ outcome ∈ outcomes, outcome.Completes) →
        before.Draining repush.remaining client.state) →
      Drains before (client.run (repushEach outcomes repush.remaining)))
    {outcome : PushOutcome} {client : Client} (counted : client.state.Counted)
    (drains : (∀ outcome ∈ repush.outcomes, outcome.Completes) → outcome.Completes →
      if outcome = .clean then
        before.Draining ((repush.key, repush.count) :: repush.remaining) client.state ∧
          min (before.queued repush.key) (before.pending repush.key).length = 0
      else before.Draining repush.remaining client.state) :
    Drains before (client.run (afterPush outcome (some repush))) := by
  let completed : Prop := (∀ outcome ∈ repush.outcomes, outcome.Completes) ∧ outcome.Completes
  have goesOn : ∀ client : Client, client.state.Counted →
      (completed → before.Draining repush.remaining client.state) →
      Drains before (client.run (if outcome.isQueued then
        pure (.finished (.repushed (repush.outcomes ++ [outcome])))
      else repushEach (repush.outcomes ++ [outcome]) repush.remaining)) := by
    intro client counted drains
    split
    next isQueued =>
      rintro _ ⟨⟩ completes
      exact absurd isQueued (completes outcome (by simp)).not_isQueued
    · refine rest _ client counted fun completes => drains ?_
      rw [List.forall_mem_append, List.forall_mem_singleton] at completes
      exact completes
  unfold afterPush
  dsimp only
  split
  next clean =>
    refine drains_retire counted (fun completes : completed => ?_) goesOn
    exact (if_pos clean).mp (drains completes.1 completes.2)
  next notClean =>
    exact goesOn client counted fun completes =>
      (if_neg notClean).mp (drains completes.1 completes.2)

theorem drains_repushEach (outcomes : List PushOutcome) (remaining : List (EntityKey × UInt64))
    (client : Client) (counted : client.state.Counted)
    (drains : (∀ outcome ∈ outcomes, outcome.Completes) →
      before.Draining remaining client.state) :
    Drains before (client.run (repushEach outcomes remaining)) := by
  induction remaining generalizing outcomes client with
  | nil =>
      rintro _ ⟨⟩
      exact drains
  | cons entry remaining ih =>
      obtain ⟨key, count⟩ := entry
      have looks : client.run snapshot = (.ok client.state, client) := rfl
      rw [repushEach, run_bind_ok looks]
      split
      next unknown =>
        refine drains_retire counted (fun completes => ⟨drains completes, ?_⟩) (ih outcomes)
        have none : client.state.pending key = [] :=
          LocalState.pending_of_unknown (by simpa [LocalState.hasEntity] using unknown)
        have pending := (drains completes).first.1
        rw [none, List.length_nil] at pending
        omega
      rw [run_bind]
      have fits := gives_beginPush key (some count.toNat) client trivial
      have stillCounted :=
        retains_beginPush LocalState.keep_counted key (some count.toNat) client counted
      rcases ran : client.run (beginPush key (some count.toNat)) with ⟨error | start, between⟩ <;>
        rw [ran] at fits stillCounted
      · exact drains_error error between
      -- what is known of the push when all before it were completed
      have begins : (∀ outcome ∈ outcomes, outcome.Completes) →
          before.Draining ((key, count) :: remaining) between.state ∧
            start.Sends client.state key := fun completes => by
        have draining := drains completes
        obtain ⟨_, sameQueued, isCount⟩ := draining.first
        rw [isCount, ← sameQueued] at ran
        obtain ⟨alike, sends⟩ :=
          yields_beginPush counted key client (.refl client) start between ran
        exact ⟨draining.of_same alike.entities alike.queue, sends⟩
      cases start with
      | ended outcome =>
          refine drains_afterPush_of ⟨key, count, remaining, outcomes⟩ ih stillCounted
            fun completes isDone => ?_
          obtain ⟨draining, sends⟩ := begins completes
          obtain ⟨rfl, zero⟩ := sends isDone
          obtain ⟨pending, sameQueued, _⟩ := (drains completes).first
          rw [if_pos rfl, ← pending, ← sameQueued]
          exact ⟨draining, zero⟩
      | sent tag job =>
          rintro _ ⟨⟩
          refine ⟨stillCounted, (fits.2.2 _ rfl).2.2, fun completes => ?_⟩
          obtain ⟨draining, isKey, positive, length⟩ := begins completes
          obtain ⟨pending, sameQueued, _⟩ := (drains completes).first
          rw [pending, sameQueued] at length
          exact ⟨draining, isKey,
            length.trans (LocalState.retirable_of_pos (length ▸ positive)).symm⟩

/-- An answer to the push for which a repush waits lets it go on. -/
theorem drains_resume {client : Client} {job : PushJob} {repush : Repush}
    (awaits : repush.Awaits before client.state job) (tag : String) (server : Server) :
    Drains before (client.run (resume tag (.push job (some repush))
      (server.answer (.push job.request)).1)) := by
  have counted := retains_settlePush LocalState.keep_counted job tag
    (server.answer (.push job.request)).1 client awaits.counted
  have settles : Yields (Alike client)
      (settlePush job tag (server.answer (.push job.request)).1) fun settled after =>
        settled.Takes client.state job after.state :=
    yields_settlePush awaits.counted awaits.fits tag fun _ => key_of_answer
  rcases ran : client.run (settlePush job tag (server.answer (.push job.request)).1) with
    ⟨result, after⟩
  rw [ran] at counted
  have unmoved : result ≠ .ok .moved := by
    rintro rfl
    obtain ⟨_, ⟨⟩, _⟩ := settles client (.refl client) _ _ ran
  obtain ⟨error, _, fails⟩ | ⟨outcome, rfl, goesOn⟩ :=
    run_resume_settled_push (some repush) ran unmoved
  · rw [fails]
    exact drains_error error _
  · obtain ⟨_, ⟨⟩, notClean, takes⟩ := settles client (.refl client) _ _ ran
    rw [goesOn]
    refine drains_afterPush_of repush (fun outcomes => drains_repushEach outcomes repush.remaining)
      counted fun completes isDone => ?_
    obtain ⟨draining, isKey, length⟩ := awaits.drains completes
    have taken := takes isDone
    rw [isKey, length] at taken
    rw [if_neg notClean]
    exact draining.takes taken

theorem Drains.answered {outcome : Except ClientError Progress × Client}
    (drains : Drains before outcome) (servers : List Server) :
    Drains before (answered servers outcome) := by
  induction servers generalizing outcome with
  | nil => exact drains
  | cons server later ih =>
      rcases outcome with ⟨error | result | ⟨tag, flight⟩, client⟩
      · exact drains
      · exact drains
      · have awaits := drains _ rfl
        cases flight with
        | push job next =>
            cases next with
            | none => exact awaits.elim
            | some repush => exact ih (drains_resume awaits tag server)
        | _ => exact awaits.elim

/-- A repush of which all pushes were completed has taken from the queue what it could. -/
theorem queued_of_repush {client : Client} (counted : client.state.Counted) (servers : List Server)
    {outcomes : List PushOutcome}
    (repushed : (client.perform .repush servers).1 = .ok (.finished (.repushed outcomes)))
    (completes : ∀ outcome ∈ outcomes, outcome.Completes) (key : EntityKey) :
    let after := (client.perform .repush servers).2.state
    (after.pending key).length = (client.state.pending key).length - client.state.queued key ∧
      after.entriesOf key = client.state.leftQueued key := by
  have starts : client.run startRepush =
      client.run (repushEach [] (queuedEntities client.state.unreachedCommits)) := by
    simp only [startRepush, snapshot, run_bind, run_get, run_pure]
  have drains : Drains client.state (client.perform .repush servers) :=
    Drains.answered (starts ▸ drains_repushEach [] _ client counted fun _ => counted.draining)
      servers
  exact (drains _ repushed completes).queued_eq key

end Client

end LocalFirst
