import LocalFirst.Proofs.RestrictedDocument

/-!
# Edits on part of a document

An edit at a path looks at one member on every level of the document.  It therefore does the
same when other members are left out: restricting the document first and then running the edit
gives the restriction of what the edit gives on the whole document, and the same fault if it
gives none.  The document of a state is restricted to some of its entities in this way, while
all members beside the entities stay.
-/

namespace LocalFirst

namespace Document

theorem updateParent_of_get? {create : Bool}
    {act : Document → String → Except EntryFault Document} {document child : Document}
    {key next : String} {rest : List String} (isObject : document.IsObject)
    (found : document.get? key = some child) :
    document.updateParent create act (key :: next :: rest) =
      (child.updateParent create act (next :: rest) >>= fun updated =>
        document.setChild key updated) := by
  simp only [updateParent, child?_of_isObject isObject, found]

/-- Where a member is missing, an edit that creates begins with an empty object. -/
theorem updateParent_of_missing {act : Document → String → Except EntryFault Document}
    {document : Document} {key next : String} {rest : List String}
    (isObject : document.IsObject) (missing : document.get? key = none) :
    document.updateParent true act (key :: next :: rest) =
      (emptyObject.updateParent true act (next :: rest) >>= fun updated =>
        (document.put key emptyObject).setChild key updated) := by
  have grownObject := isObject_put isObject key emptyObject
  have grownChild : (document.put key emptyObject).child? key = some emptyObject := by
    rw [child?_of_isObject grownObject, get?_put_self isObject]
  simp only [updateParent, child?_of_isObject isObject, missing, if_true,
    setChild_of_isObject isObject, bind, Except.bind, grownChild]

/-- An edit below a member commutes with a restriction when it does so in the member. -/
theorem updateParent_restrict {create : Bool}
    {act : Document → String → Except EntryFault Document} {wanted : String → Bool}
    {shape : String → Document → Document} {document : Document} {key next : String}
    {rest : List String} (isObject : document.IsObject) (isWanted : wanted key = true)
    (keepsEmpty : shape key emptyObject = emptyObject)
    (below : ∀ child : Document, document.get? key = some child ∨ child = emptyObject →
      (shape key child).updateParent create act (next :: rest) =
        (child.updateParent create act (next :: rest)).map (shape key)) :
    (document.restrict wanted shape).updateParent create act (key :: next :: rest) =
      (document.updateParent create act (key :: next :: rest)).map (restrict wanted shape) := by
  have restrictedObject : (document.restrict wanted shape).IsObject := isObject_restrict isObject
  have restrictedGet : (document.restrict wanted shape).get? key =
      (document.get? key).map (shape key) := by
    rw [get?_restrict, if_pos isWanted]
  -- what becomes of the member is written into an object
  have writes : ∀ holder child : Document, holder.IsObject →
      (document.get? key = some child ∨ child = emptyObject) →
      ((shape key child).updateParent create act (next :: rest) >>= fun updated =>
        (holder.restrict wanted shape).setChild key updated) =
      (child.updateParent create act (next :: rest) >>= fun updated =>
        holder.setChild key updated).map (restrict wanted shape) := by
    intro holder child holderObject found
    rw [below child found]
    cases child.updateParent create act (next :: rest) with
    | error fault => rfl
    | ok updated => exact setChild_restrict holderObject isWanted updated
  cases found : document.get? key with
  | some child =>
      rw [found, Option.map_some] at restrictedGet
      rw [updateParent_of_get? isObject found, updateParent_of_get? restrictedObject restrictedGet]
      exact writes document child isObject (.inl found)
  | none =>
      rw [found, Option.map_none] at restrictedGet
      cases create with
      | false =>
          simp only [updateParent, child?_of_isObject isObject,
            child?_of_isObject restrictedObject, found, restrictedGet]
          rfl
      | true =>
          rw [updateParent_of_missing isObject found,
            updateParent_of_missing restrictedObject restrictedGet]
          have grown := writes (document.put key emptyObject) emptyObject
            (isObject_put isObject key emptyObject) (.inr rfl)
          rwa [← put_restrict isWanted, keepsEmpty] at grown

/-- Of the entities of one name those that are touched. -/
def idsScopedTo (touched : List (String × String)) (entityName : String) :
    Document → Document :=
  restrict (fun id => decide ((entityName, id) ∈ touched)) fun _ value => value

/-- Of all entities those that are touched, under the names that are. -/
def namesScopedTo (touched : List (String × String)) : Document → Document :=
  restrict (fun entityName => decide (entityName ∈ touched.map Prod.fst)) (idsScopedTo touched)

/-- The document of a state with only those of its entities that are touched. -/
def scopedTo (touched : List (String × String)) : Document → Document :=
  restrict (fun _ => true) fun key value =>
    if key = "entities" then namesScopedTo touched value else value

variable {touched : List (String × String)} {document : Document}

theorem get?_scopedTo {key : String} (beside : key ≠ "entities") :
    (document.scopedTo touched).get? key = document.get? key := by
  rw [scopedTo, get?_restrict, if_pos rfl]
  simp [beside]

theorem get?_entities_scopedTo :
    (document.scopedTo touched).get? "entities" =
      (document.get? "entities").map (namesScopedTo touched) := by
  rw [scopedTo, get?_restrict, if_pos rfl]
  simp

theorem HoldsEntities.scopedTo (holds : document.HoldsEntities) :
    (document.scopedTo touched).HoldsEntities := by
  obtain ⟨isObject, entities, found, entitiesObject, entitiesDistinct, namedObjects⟩ := holds
  refine ⟨isObject_restrict isObject, entities.namesScopedTo touched, ?_,
    isObject_restrict entitiesObject, topKeysDistinct_restrict entitiesDistinct, ?_⟩
  · rw [get?_entities_scopedTo, found, Option.map_some]
  · intro entityName named namedFound
    rw [namesScopedTo, get?_restrict] at namedFound
    split at namedFound
    · obtain ⟨whole, wholeFound, rfl⟩ := Option.map_eq_some_iff.1 namedFound
      obtain ⟨wholeObject, wholeDistinct⟩ := namedObjects entityName whole wholeFound
      exact ⟨isObject_restrict wholeObject, topKeysDistinct_restrict wholeDistinct⟩
    · cases namedFound

theorem entityAt_scopedTo (entityName id : String) :
    (document.scopedTo touched).entityAt entityName id =
      if (entityName, id) ∈ touched then document.entityAt entityName id else none := by
  rw [entityAt, entityAt, get?_entities_scopedTo]
  cases document.get? "entities" with
  | none => simp
  | some entities =>
      rw [Option.map_some, Option.bind_some, Option.bind_some, namesScopedTo, get?_restrict]
      by_cases member : (entityName, id) ∈ touched
      · have named : entityName ∈ touched.map Prod.fst := List.mem_map_of_mem member
        rw [if_pos (by simpa using named), if_pos member]
        cases entities.get? entityName with
        | none => rfl
        | some infos => simp [idsScopedTo, get?_restrict, member]
      · rw [if_neg member]
        split
        · cases entities.get? entityName with
          | none => rfl
          | some infos => simp [idsScopedTo, get?_restrict, member]
        · rfl

end Document

namespace Entry

open Document

/-- The entry stays outside the entities or inside one that is touched. -/
def StaysWithin (touched : List (String × String)) (entry : Entry) : Prop :=
  entry.edit.operator ≠ .rename ∧
    ((∃ root rest, entry.path.segments = root :: rest ∧ root ≠ "entities") ∨
      ∃ entityName id rest, entry.path.segments = "entities" :: entityName :: id :: rest ∧
        (entityName, id) ∈ touched)

/-- Below a member that stays as it is, every edit commutes with a restriction. -/
theorem updateParent_restrict_of_unchanged {wanted : String → Bool}
    {shape : String → Document → Document} {document : Document} {key : String}
    (now : Instant) (edit : Edit) (rest : List String) (isObject : document.IsObject)
    (isWanted : wanted key = true) (unchanged : ∀ value, shape key value = value) :
    (document.restrict wanted shape).updateParent edit.creates (edit.act now) (key :: rest) =
      (document.updateParent edit.creates (edit.act now) (key :: rest)).map
        (restrict wanted shape) := by
  cases rest with
  | nil => exact edit.act_restrict now isObject isWanted unchanged
  | cons next rest =>
      refine updateParent_restrict isObject isWanted (unchanged _) fun child _ => ?_
      rw [funext unchanged]
      cases child.updateParent edit.creates (edit.act now) (next :: rest) <;> rfl

theorem updateParent_scopedTo {touched : List (String × String)} {document : Document}
    {entry : Entry} (now : Instant) (holds : document.HoldsEntities)
    (within : entry.StaysWithin touched) :
    (document.scopedTo touched).updateParent entry.edit.creates (entry.edit.act now)
        entry.path.segments =
      (document.updateParent entry.edit.creates (entry.edit.act now) entry.path.segments).map
        (Document.scopedTo touched) := by
  obtain ⟨_, ⟨root, rest, segments, outside⟩ | ⟨entityName, id, rest, segments, member⟩⟩ := within
  · rw [segments]
    exact updateParent_restrict_of_unchanged now entry.edit rest holds.isObject rfl
      fun value => if_neg outside
  · obtain ⟨isObject, entities, found, entitiesObject, _, namedObjects⟩ := holds
    rw [segments]
    refine updateParent_restrict isObject rfl rfl fun child childFound => ?_
    simp only [if_true]
    have childObject : child.IsObject := by
      rcases childFound with there | rfl
      · exact Option.some.inj (found.symm.trans there) ▸ entitiesObject
      · exact isObject_emptyObject
    have namedIsObject : ∀ named : Document,
        child.get? entityName = some named → named.IsObject := by
      intro named namedFound
      rcases childFound with there | rfl
      · obtain rfl := Option.some.inj (found.symm.trans there)
        exact (namedObjects entityName named namedFound).1
      · cases namedFound
    have nameWanted : decide (entityName ∈ touched.map Prod.fst) = true := by
      simpa using List.mem_map_of_mem (f := Prod.fst) member
    refine updateParent_restrict childObject nameWanted rfl fun named namedFound => ?_
    have namedObject : named.IsObject := by
      rcases namedFound with there | rfl
      · exact namedIsObject named there
      · exact isObject_emptyObject
    exact updateParent_restrict_of_unchanged now entry.edit rest namedObject (by simpa using member)
      fun _ => rfl

theorem run_of_not_rename {entry : Entry} (notRename : entry.edit.operator ≠ .rename)
    (now : Instant) (document : Document) :
    entry.run now document = blame entry.edit.operator entry.path
      (document.atParent entry.edit.creates (entry.edit.act now) entry.path) := by
  obtain ⟨path, edit⟩ := entry
  cases edit
  case rename => exact absurd rfl notRename
  all_goals rfl

/-- An entry that stays within what is touched does the same to the rest of the document. -/
theorem run_scopedTo {touched : List (String × String)} {document : Document} {entry : Entry}
    (now : Instant) (holds : document.HoldsEntities) (within : entry.StaysWithin touched) :
    entry.run now (document.scopedTo touched) =
      (entry.run now document).map (Document.scopedTo touched) := by
  have updated := updateParent_scopedTo now holds within
  have atParent : (document.scopedTo touched).atParent entry.edit.creates (entry.edit.act now)
      entry.path = (document.atParent entry.edit.creates (entry.edit.act now) entry.path).map
        (Document.scopedTo touched) := by
    unfold Document.atParent
    split
    · rfl
    · exact updated
  rw [run_of_not_rename within.1, run_of_not_rename within.1, atParent]
  cases document.atParent entry.edit.creates (entry.edit.act now) entry.path <;> rfl

end Entry

end LocalFirst
