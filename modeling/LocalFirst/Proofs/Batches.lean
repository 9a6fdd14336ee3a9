import LocalFirst.Proofs.PushRounds

/-!
# Batches of pending commits

As long as the commits apply to the document of the server, rounds of at most a given number of them
take everything that is pending, and rounds that follow one another add up to one move.
-/

namespace LocalFirst

namespace Scene

variable {key : EntityKey} {limit : Option Nat}

/-- An entity is pushed until nothing is left of it.  Each of these pushes but the last one
synchronises as many commits as are listed. -/
inductive Drains (limit : Option Nat) (key : EntityKey) : Scene → List Nat → Scene → Prop
  | clean {scene : Scene}
      (ended : (scene.push key limit).1 = .ok (.finished (.pushed .clean))) :
      Drains limit key scene [] (scene.push key limit).2
  | synced {scene last : Scene} {count : Nat} {counts : List Nat}
      (ended : (scene.push key limit).1 = .ok (.finished (.pushed (.synced count))))
      (later : Drains limit key (scene.push key limit).2 counts last) :
      Drains limit key scene (count :: counts) last

/-- Pushing leads to one end only. -/
theorem Drains.unique {scene last other : Scene} {counts others : List Nat}
    (drains : Drains limit key scene counts last)
    (otherDrains : Drains limit key scene others other) : others = counts ∧ other = last := by
  induction drains generalizing others with
  | clean ended =>
      cases otherDrains with
      | clean => exact ⟨rfl, rfl⟩
      | synced otherEnded => cases ended.symm.trans otherEnded
  | synced ended _ ih =>
      cases otherDrains with
      | clean otherEnded => cases ended.symm.trans otherEnded
      | synced otherEnded later =>
          obtain ⟨rfl, rfl⟩ := ih later
          cases ended.symm.trans otherEnded
          exact ⟨rfl, rfl⟩

section Moves

variable {before between after : Scene} {first second third : EntityInfo}
  {stored middle last : StoredEntity} {count more : Nat}

theorem Moved.refl (sameServer : after.server = before.server)
    (origin : first.origin = stored.current) (clean : first.commits = [] → first.head = none) :
    Moved key 0 before first stored after first stored where
  origin := origin
  commits := rfl
  clean := clean
  log := by rw [sameServer, List.take_zero, List.append_nil]
  current _ := rfl
  others _ _ := by rw [sameServer]

/-- Two batches are one. -/
theorem Moved.trans (moved : Moved key count before first stored between second middle)
    (onward : Moved key more between second middle after third last) :
    Moved key (count + more) before first stored after third last where
  origin := onward.origin
  commits := by rw [onward.commits, moved.commits, List.drop_drop]
  clean := onward.clean
  log := by rw [onward.log, moved.log, moved.commits, List.take_add, List.append_assoc]
  current time := by
    rw [List.take_add, Update.applyAll_append, moved.current time, ← moved.commits]
    exact onward.current time
  others other distinct := (onward.others other distinct).trans (moved.others other distinct)

/-- Where the same commits have gone, the entity has the same document. -/
theorem Moved.sameCurrent {other : Scene} {fourth : EntityInfo} {final : StoredEntity}
    (moved : Moved key count before first stored between second middle)
    (otherMoved : Moved key count before first stored other fourth final) :
    final.current = middle.current :=
  Except.ok.inj ((otherMoved.current default).symm.trans (moved.current default))

end Moves

variable {scene : Scene} {info : EntityInfo} {stored : StoredEntity} {bound : Nat}

/-- When one batch has gone, one batch less is left. -/
theorem batches_succ (positive : 0 < bound) {pending : Nat} (nonempty : 0 < pending) :
    (pending - Nat.min bound pending + bound - 1) / bound + 1 = (pending + bound - 1) / bound := by
  rcases Nat.lt_or_ge pending bound with short | long
  · rw [show Nat.min bound pending = pending from Nat.min_eq_right (Nat.le_of_lt short),
      Nat.div_eq_of_lt (by omega), show pending + bound - 1 = pending - 1 + bound by omega,
      Nat.add_div_right _ positive, Nat.div_eq_of_lt (by omega)]
  · rw [show Nat.min bound pending = bound from Nat.min_eq_left long,
      ← Nat.add_div_right _ positive]
    congr 1
    omega

/-- What can be pushed can be pushed in batches. -/
theorem Poised.drains (positive : 0 < bound) (poised : Poised key scene info stored)
    (current : info.commits = [] → info.origin = stored.current ∧ info.head = none) :
    ∃ counts last now final, Drains (some bound) key scene counts last ∧
      counts.length = (info.commits.length + bound - 1) / bound ∧
      Poised key last now final ∧
      Moved key info.commits.length scene info stored last now final := by
  -- by the number of pending commits: a batch takes some of them and leaves the entity poised
  induction size : info.commits.length using Nat.strongRecOn generalizing scene info stored with
  | ind pending ih =>
    rcases Nat.eq_zero_or_pos pending with rfl | nonempty
    · have none := List.length_eq_zero_iff.1 size
      have ended := poised.push_clean (some bound) none
      refine ⟨[], _, info, stored, .clean (by rw [ended]), ?_, ?_, ?_⟩
      · exact (Nat.div_eq_of_lt (by omega)).symm
      · rw [ended]
        exact poised.limited _
      · exact .refl (by rw [ended]) (current none).1 fun none => (current none).2
    · have atMost : Client.batchSize (some bound) pending = Nat.min bound pending := rfl
      have sends : Nat.min bound pending ≠ 0 :=
        Nat.ne_of_gt (Nat.lt_min.2 ⟨positive, nonempty⟩)
      obtain ⟨now, grown, ended, nowPoised, moved⟩ :=
        poised.push (some bound) (by rwa [size, atMost])
      rw [size, atMost] at ended moved
      have left : now.commits.length = pending - Nat.min bound pending := by
        rw [moved.commits, List.length_drop, size]
      have within : Nat.min bound pending ≤ pending := Nat.min_le_right _ _
      obtain ⟨counts, last, final, finalStored, drains, batches, finalPoised, onward⟩ :=
        ih _ (by omega) nowPoised (fun none => ⟨moved.origin, moved.clean none⟩) left
      refine ⟨_, last, final, finalStored, .synced ended drains, ?_, finalPoised, ?_⟩
      · rw [List.length_cons, batches, batches_succ positive nonempty]
      · have whole := moved.trans onward
        rwa [Nat.add_sub_cancel' within] at whole

end Scene

end LocalFirst
