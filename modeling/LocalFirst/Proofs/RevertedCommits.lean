import LocalFirst.Proofs.DistinctRuns
import LocalFirst.Proofs.Equality
import LocalFirst.Proofs.WithEntity

/-!
# What a revert takes away

A revert goes through its requests and removes the first commit that equals each, so that earlier
removals move later commits forward.  What is left can be said without this order: a commit stays
when at least as many equal commits stand before it as there are equal requests.  This only counts
the requests, and therefore does not depend on how they are listed.
-/

namespace LocalFirst

namespace LocalState

open Document

/-- The commits that stay beside requests: one goes as long as more requests equal it than commits
before it do. -/
def staying (requests : List Update) : (before commits : List Update) → List Update
  | _, [] => []
  | before, commit :: rest =>
      if requests.countP (commit.same ·) ≤ before.countP (commit.same ·) then
        commit :: staying requests (before ++ [commit]) rest
      else staying requests (before ++ [commit]) rest

variable {request : Update} {requests others before earlier commits : List Update}

/-- Which commits stay depends only on how many more requests than earlier commits equal them. -/
theorem staying_congr
    (balance : ∀ commit ∈ commits,
      requests.countP (commit.same ·) + earlier.countP (commit.same ·) =
        others.countP (commit.same ·) + before.countP (commit.same ·)) :
    staying requests before commits = staying others earlier commits := by
  induction commits generalizing before earlier with
  | nil => rfl
  | cons commit rest ih =>
      obtain ⟨firstBalance, restBalance⟩ := List.forall_mem_cons.1 balance
      have restSame : staying requests (before ++ [commit]) rest =
          staying others (earlier ++ [commit]) rest := by
        refine ih fun later member => ?_
        rw [List.countP_append, List.countP_append]
        have := restBalance later member
        omega
      have stays : requests.countP (commit.same ·) ≤ before.countP (commit.same ·) ↔
          others.countP (commit.same ·) ≤ earlier.countP (commit.same ·) := by omega
      simp only [staying, stays, restSame]

theorem staying_nil (before commits : List Update) : staying [] before commits = commits := by
  induction commits generalizing before with
  | nil => rfl
  | cons commit rest ih => simp [staying, ih]

theorem staying_perm (permuted : requests.Perm others) (before commits : List Update) :
    staying requests before commits = staying others before commits :=
  staying_congr fun _ _ => by rw [permuted.countP_eq]

theorem staying_sublist (requests before commits : List Update) :
    (staying requests before commits).Sublist commits := by
  induction commits generalizing before with
  | nil => exact .slnil
  | cons commit rest ih =>
      unfold staying
      split
      · exact (ih _).cons_cons commit
      · exact (ih _).cons commit

/-- Removing the first commit that equals a request leaves the others to the other requests. -/
theorem staying_cons (distinct : ∀ commit ∈ commits, commit.Carries KeysDistinct)
    (fresh : ∀ commit ∈ before, commit.same request = false) :
    staying (request :: requests) before commits =
      staying requests before (removeFirst request commits) := by
  induction commits generalizing before with
  | nil => rfl
  | cons commit rest ih =>
      obtain ⟨commitDistinct, restDistinct⟩ := List.forall_mem_cons.1 distinct
      cases same : commit.same request with
      | true =>
          have noneBefore : before.countP (commit.same ·) = 0 := by
            refine List.countP_eq_zero.2 fun other member equal => ?_
            have otherSame := Update.same_trans (Update.same_symm commitDistinct equal) same
            exact absurd otherSame (by simp [fresh other member])
          -- The commit goes, and for the later ones it makes up for the request.
          have restStays : staying (request :: requests) (before ++ [commit]) rest =
              staying requests before rest := by
            refine staying_congr fun later _ => ?_
            have asRequest := Update.same_right_congr commitDistinct same later
            simp only [List.countP_append, List.countP_cons, List.countP_nil, asRequest]
            omega
          simp [staying, removeFirst, same, noneBefore, restStays]
      | false =>
          have restStays := ih restDistinct (List.forall_mem_append.2
            ⟨fresh, List.forall_mem_singleton.2 same⟩)
          simp [staying, removeFirst, same, restStays]

/-- One request after another takes away exactly the commits that do not stay. -/
theorem removeAll_eq_staying (requests : List Update)
    (distinct : ∀ commit ∈ commits, commit.Carries KeysDistinct) :
    removeAll requests commits = staying requests [] commits := by
  induction requests generalizing commits with
  | nil => exact (staying_nil [] commits).symm
  | cons request rest ih =>
      have remaining := (removeFirst_sublist request commits).subset
      rw [staying_cons distinct (by simp)]
      exact ih fun commit member => distinct commit (remaining member)

/-- Of the commits that equal an update, as many go from the front as requests equal it. -/
theorem filter_staying {update : Update} (distinct : update.Carries KeysDistinct)
    (requests before commits : List Update) :
    (staying requests before commits).filter (update.same ·) =
      (commits.filter (update.same ·)).drop
        (requests.countP (update.same ·) - before.countP (update.same ·)) := by
  induction commits generalizing before with
  | nil => simp [staying]
  | cons commit rest ih =>
      cases same : update.same commit with
      | false =>
          have restStays := ih (before ++ [commit])
          simp only [List.countP_append, List.countP_singleton, same] at restStays
          unfold staying
          split <;> simp [same, restStays]
      | true =>
          have asUpdate := Update.same_left_congr distinct same
          have restStays := ih (before ++ [commit])
          simp only [List.countP_append, List.countP_singleton, same, if_true] at restStays
          unfold staying
          simp only [← asUpdate, List.filter_cons_of_pos same]
          split
          next stays =>
            rw [List.filter_cons_of_pos same, restStays]
            simp [Nat.sub_eq_zero_of_le stays, Nat.sub_eq_zero_of_le (Nat.le_succ_of_le stays)]
          next goes =>
            rw [restStays, show requests.countP (update.same ·) - before.countP (update.same ·) =
              requests.countP (update.same ·) - (before.countP (update.same ·) + 1) + 1 by omega,
              List.drop_succ_cons]

/-- To take as many from the front as there are is to take all. -/
theorem drop_min_countP {α : Type} (test : α → Bool) (items : List α) (count : Nat) :
    (items.filter test).drop (min (items.countP test) count) = (items.filter test).drop count := by
  rw [List.countP_eq_length_filter]
  rcases Nat.le_total (items.filter test).length count with exhausted | enough
  · rw [Nat.min_eq_left exhausted, List.drop_length, List.drop_eq_nil_of_le exhausted]
  · rw [Nat.min_eq_right enough]

variable {now : Instant} {state : LocalState} {entityName id : String}

/-- The head that is read back: none without commits, and none in the place of null, which only
replays on a null origin give. -/
theorem exists_replay_of_headOf {origin head : Document}
    (headOk : headOf now origin commits = .ok head) :
    ∃ replayed, Update.applyAll now origin commits = .ok replayed ∧
      (some head).filter (fun head => !head.isNull) =
        if commits.isEmpty || origin.isNull then none else some replayed := by
  unfold headOf at headOk
  split at headOk
  next empty =>
    obtain rfl := List.isEmpty_iff.1 empty
    obtain rfl := Except.ok.inj headOk
    exact ⟨origin, rfl, rfl⟩
  next nonempty =>
    rw [Except.mapError_eq_ok] at headOk
    have sameNull : head.isNull = origin.isNull := by
      rw [Bool.eq_iff_iff, isNull_iff_kind, isNull_iff_kind, Update.kind_of_applyAll headOk]
    refine ⟨head, headOk, ?_⟩
    rw [Option.filter_some, sameNull]
    cases origin.isNull <;> simp [nonempty]

theorem revert_perm {operations permuted : List Update} {update : Update}
    (distinct : state.RepeatsNoKey) (listed : operations.Perm permuted)
    (reverted : state.revert now entityName id operations = .ok update) :
    state.revert now entityName id permuted = .ok update := by
  simp only [revert, Except.bind_eq_ok, Except.pure_eq_ok, foldlM_removeFirst_eq_ok] at reverted ⊢
  obtain ⟨info, known, _, ⟨requests, requestsOk, rfl⟩, head, headOk, rfl⟩ := reverted
  obtain ⟨others, othersOk, permutedRequests⟩ := Except.exists_mapM_of_perm listed requestsOk
  have commitsDistinct := (distinct.entityInfo known).commits
  have sameStay : removeAll others info.commits = removeAll requests info.commits := by
    rw [removeAll_eq_staying _ commitsDistinct, removeAll_eq_staying _ commitsDistinct,
      staying_perm permutedRequests]
  exact ⟨info, known, _, ⟨others, othersOk, sameStay⟩, head, headOk, rfl⟩

end LocalState

/-- A state that replaces all holds its commits in stored form. -/
def Action.ReplacesStored : Action → Prop
  | .replace state => ∀ entityName id, state.CommitsStored entityName id
  | _ => True

theorem LocalState.commitsStored_empty (entityName id : String) :
    LocalState.empty.CommitsStored entityName id := by
  intro info found
  cases found

/-- Every commit is in stored form, as actions read back what they write. -/
theorem LocalState.RepeatsNoKey.commitsStored_of_reduce {now : Instant} {state next : LocalState}
    {action : Action} (distinct : state.RepeatsNoKey) (actionDistinct : action.RepeatsNoKey)
    (replaces : action.ReplacesStored) (stored : ∀ entityName id, state.CommitsStored entityName id)
    (reduced : action.reduce now state = .ok next) (entityName id : String) :
    next.CommitsStored entityName id := by
  intro info found
  rcases distinct.restored_of_reduce actionDistinct reduced found with before | restored | rfl
  · exact stored entityName id info before
  · exact restored.stored
  · exact replaces entityName id info found

namespace Store

open LocalState

theorem commitsStored_afterAll {store : Store} {steps : List (Instant × Action)}
    (begins : store.state.RepeatsNoKey)
    (beginsStored : ∀ entityName id, store.state.CommitsStored entityName id)
    (distinct : ∀ step ∈ steps, step.2.RepeatsNoKey)
    (replaces : ∀ step ∈ steps, step.2.ReplacesStored) (entityName id : String) :
    (store.afterAll steps).state.CommitsStored entityName id := by
  have invariant : (store.afterAll steps).state.RepeatsNoKey ∧
      ∀ entityName id, (store.afterAll steps).state.CommitsStored entityName id :=
    @afterAll_preserves
      (fun state => state.RepeatsNoKey ∧ ∀ entityName id, state.CommitsStored entityName id) _ _
      (fun step member _ _ before reduced =>
        ⟨before.1.reduce (distinct step member) reduced,
          before.1.commitsStored_of_reduce (distinct step member) (replaces step member) before.2
            reduced⟩) ⟨begins, beginsStored⟩
  exact invariant.2 entityName id

/-- In every state of a run from the empty one, a revert that succeeds takes away of each commit as
many as are requested, from the front, and leaves all others in their order and in stored form, as
they are already unless a state that replaced all brought them in another one.  The head is replayed
from the origin; no commits, or a null origin, give none.  Nothing depends on the order of the
requests. -/
theorem reduce_revert_of_run (eventCapacity : Nat) (steps : List (Instant × Action))
    (distinct : ∀ step ∈ steps, step.2.RepeatsNoKey) (state next : LocalState)
    (reached : ((ofState .empty eventCapacity).afterAll steps).state = state)
    (entityName id : String) (info : EntityInfo)
    (followed : state.find? entityName id = some info) (operations : List Update) (now : Instant)
    (reverted : Action.reduce now state (.revert entityName id operations) = .ok next) :
    ∃ requests kept written replayed,
      operations.mapM Update.stored = .ok requests ∧
      kept = staying requests [] info.commits ∧ kept.Sublist info.commits ∧
      (∀ commit : Update, commit.Carries Document.KeysDistinct →
        kept.filter (commit.same ·) = (info.commits.filter (commit.same ·)).drop
          (min (info.commits.countP (commit.same ·)) (requests.countP (commit.same ·)))) ∧
      kept.mapM Update.stored = .ok written ∧
      ((∀ step ∈ steps, step.2.ReplacesStored) → written = kept) ∧
      Update.applyAll now info.origin kept = .ok replayed ∧
      next = state.withEntity entityName id ⟨info.origin, info.versionId, written,
        if kept.isEmpty || info.origin.isNull then none else some replayed⟩ ∧
      ∀ permuted, operations.Perm permuted →
        Action.reduce now state (.revert entityName id permuted) = .ok next := by
  have stateDistinct : state.RepeatsNoKey :=
    reached ▸ repeatsNoKey_afterAll repeatsNoKey_empty distinct
  have commitsDistinct := (stateDistinct.entities entityName id info followed).commits
  obtain ⟨_, requests, head, written, known, requestsOk, headOk, writtenOk, nextEq⟩ :=
    reduce_revert_eq reverted
  obtain rfl := Option.some.inj (followed.symm.trans known)
  obtain ⟨replayed, replayedOk, settledHead⟩ := exists_replay_of_headOf headOk
  rw [removeAll_eq_staying requests commitsDistinct] at writtenOk replayedOk settledHead
  have within := staying_sublist requests [] info.commits
  refine ⟨requests, _, written, replayed, requestsOk, rfl, within, fun commit commitDistinct => ?_,
    writtenOk, fun replaces => ?_, replayedOk, ?_, fun permuted listed => ?_⟩
  · rw [filter_staying commitDistinct, List.countP_nil, Nat.sub_zero, drop_min_countP]
  · have stored : state.CommitsStored entityName id :=
      reached ▸ commitsStored_afterAll repeatsNoKey_empty commitsStored_empty distinct replaces
        entityName id
    have keptStored := Update.mapM_stored_eq_ok fun commit member =>
      stored info followed commit (within.subset member)
    exact Except.ok.inj (writtenOk.symm.trans keptStored)
  · rw [nextEq, EntityInfo.settled]
    exact congrArg (fun head => state.withEntity entityName id
      ⟨info.origin, info.versionId, written, head⟩) settledHead
  · obtain ⟨update, updated, applied⟩ := Except.bind_eq_ok.1 reverted
    exact Except.bind_eq_ok.2 ⟨update, revert_perm stateDistinct listed updated, applied⟩

/-- One is added to the count of the note. -/
def increment : Update :=
  Update.empty.insert ⟨["n"]⟩ (.inc (.int 1))

def entitle : Update :=
  Update.empty.set ⟨["title"]⟩ (.string "t")

/-- Equal commits of an entity with another one between them. -/
def countTitleCount : List (Instant × Action) :=
  [(default, .follow "note" (.object [("id", .string "a")]) (some "v")),
    (default, .commit "note" "a" increment), (default, .commit "note" "a" entitle),
    (default, .commit "note" "a" increment)]

theorem reduce_revert_of_run_countTitleCount : ∃ next head,
    Action.reduce default ((ofState .empty 4).afterAll countTitleCount).state
      (.revert "note" "a" [Update.empty, increment]) = .ok next ∧
    next.find? "note" "a" =
      some ⟨.object [("id", .string "a")], some "v", [entitle, increment], some head⟩ ∧
    Action.reduce default ((ofState .empty 4).afterAll countTitleCount).state
      (.revert "note" "a" [increment, Update.empty]) = .ok next := by
  have incrementDistinct : increment.Carries Document.KeysDistinct :=
    Update.carries_empty.insert (List.forall_mem_singleton.2 trivial)
  have entitleDistinct : entitle.Carries Document.KeysDistinct :=
    Update.carries_empty.set (Document.keysDistinct_string "t")
  have noteDistinct : (Document.object [("id", .string "a")]).KeysDistinct :=
    ⟨by simp, trivial, trivial⟩
  have distinct : ∀ step ∈ countTitleCount, step.2.RepeatsNoKey := by
    simp only [countTitleCount, List.forall_mem_cons, List.not_mem_nil, false_imp_iff,
      implies_true, and_true]
    exact ⟨noteDistinct, incrementDistinct, entitleDistinct, incrementDistinct⟩
  have replaces : ∀ step ∈ countTitleCount, step.2.ReplacesStored := by
    simp [countTitleCount, Action.ReplacesStored]
  obtain ⟨next, reverted⟩ : ∃ next,
      Action.reduce default ((ofState .empty 4).afterAll countTitleCount).state
        (.revert "note" "a" [Update.empty, increment]) = .ok next := ⟨_, rfl⟩
  obtain ⟨head, followed⟩ : ∃ head,
      ((ofState .empty 4).afterAll countTitleCount).state.find? "note" "a" =
        some ⟨.object [("id", .string "a")], some "v", [increment, entitle, increment], head⟩ :=
    ⟨_, rfl⟩
  obtain ⟨requests, kept, written, replayed, requestsOk, keptEq, _, _, _, sameForm, _, nextEq,
    anyOrder⟩ := reduce_revert_of_run 4 countTitleCount distinct _ next rfl "note" "a" _ followed
      [Update.empty, increment] default reverted
  have stored : [Update.empty, increment].mapM Update.stored = .ok [Update.empty, increment] := rfl
  obtain rfl := Except.ok.inj (stored.symm.trans requestsOk)
  obtain rfl : kept = [entitle, increment] := keptEq
  obtain rfl := sameForm replaces
  refine ⟨next, replayed, reverted, ?_, anyOrder _ (.swap increment Update.empty [])⟩
  rw [nextEq, find?_withEntity_self]
  rfl

/-- A field whose name holds the separator of written paths, and the field of a field that it is
read back as. -/
def dotted : Update :=
  Update.empty.set ⟨["a.b"]⟩ (.int 1)

def nested : Update :=
  Update.empty.set ⟨["a", "b"]⟩ (.int 1)

/-- One entity has a commit that is not as it is read back, the other one a null origin. -/
def broughtIn : LocalState :=
  { LocalState.empty with
    entities := NameMap.put "note"
      (NameMap.put "b" ⟨.null, some "v", [Update.empty, Update.empty], none⟩
        (NameMap.put "a" ⟨.object [("id", .string "a")], some "v", [dotted, increment],
          some (.object [("id", .string "a"), ("a.b", .int 1), ("n", .int 1)])⟩
          Keyed.empty)) Keyed.empty }

/-- In a state that replaces all, a commit may be there that a revert of another one does not leave
as it is, and replayed commits may give null, which is no head. -/
theorem changed_of_broughtIn :
    let state := ((ofState .empty 4).afterAll [(default, .replace broughtIn)]).state
    (∃ next now, Action.reduce default state (.revert "note" "a" [increment]) = .ok next ∧
      next.find? "note" "a" = some now ∧ staying [increment] [] [dotted, increment] = [dotted] ∧
      now.commits = [nested] ∧ nested.same dotted = false ∧
      now.head = some (.object [("id", .string "a"), ("a.b", .int 1)])) ∧
    ∃ next now, Action.reduce default state (.revert "note" "b" [Update.empty]) = .ok next ∧
      next.find? "note" "b" = some now ∧ now.commits = [Update.empty] ∧
      Update.applyAll default now.origin now.commits = .ok .null ∧ now.head = none := by
  exact ⟨⟨_, _, rfl, rfl, rfl, rfl, rfl, rfl⟩, _, _, rfl, rfl, rfl, rfl, rfl⟩

end Store

end LocalFirst
