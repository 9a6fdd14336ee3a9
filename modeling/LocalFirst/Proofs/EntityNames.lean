import LocalFirst.Proofs.ScopedDocument
import LocalFirst.Proofs.TakingPart

/-!
# Names of the entities that take part

Two states agree when they agree in every look-up.  They may still differ in names under which no
entity stands, and these are dropped before states are compared.
-/

namespace LocalFirst

namespace NameMap

variable {α : Type}

/-- Leave out members, and change the values of those that stay. -/
def restrict (wanted : String → Bool) (shape : String → α → α) (map : NameMap α) :
    NameMap α where
  toList := Members.restrict wanted shape map.toList
  increasing := (map.increasing.filter _).map _ fun _ _ below => below

theorem get?_restrict (wanted : String → Bool) (shape : String → α → α)
    (name : String) (map : NameMap α) :
    get? name (map.restrict wanted shape) =
      if wanted name then (get? name map).map (shape name) else none := by
  rw [get?_eq, get?_eq]
  exact Members.get?_restrict wanted shape name map.toList

/-- Members may be written as documents before or after some of them are left out. -/
theorem map_restrict {β : Type} {wanted : String → Bool} {shape : String → α → α}
    {written : String → β → β} {write : α → β}
    (agree : ∀ key value, write (shape key value) = written key (write value)) (map : NameMap α) :
    (map.restrict wanted shape).toList.map (fun member => (member.1, write member.2)) =
      Members.restrict wanted written
        (map.toList.map fun member => (member.1, write member.2)) := by
  simp [restrict, Members.restrict, List.filter_map, Function.comp_def, agree]

end NameMap

namespace LocalState

/-- Maps that have the same names and know the same of each entity are equal. -/
theorem eq_of_lookUp {first second : EntityMap}
    (sameNames : ∀ entityName, (first.get? entityName).isSome = (second.get? entityName).isSome)
    (same : ∀ entityName id, lookUp first entityName id = lookUp second entityName id) :
    first = second := by
  refine NameMap.ext_get? fun entityName => ?_
  have named := sameNames entityName
  have looked := same entityName
  simp only [lookUp] at looked
  cases firstFound : first.get? entityName with
  | none =>
      rw [firstFound] at named
      exact (Option.isSome_eq_false_iff.1 named.symm |> Option.isNone_iff_eq_none.1).symm
  | some infos =>
      rw [firstFound] at named
      obtain ⟨others, secondFound⟩ := Option.isSome_iff_exists.1 named.symm
      rw [secondFound]
      refine congrArg some (NameMap.ext_get? fun id => ?_)
      simpa only [firstFound, secondFound, Option.bind_some] using looked id

/-- The state without the names under which no entity stands. -/
def withoutEmptyNames (state : LocalState) : LocalState :=
  { state with entities := state.entities.filter fun named => !named.2.isEmpty }

theorem get?_withoutEmptyNames (state : LocalState) (entityName : String) :
    state.withoutEmptyNames.entities.get? entityName =
      (state.entities.get? entityName).filter fun infos => !infos.isEmpty :=
  NameMap.get?_filter _ entityName state.entities

theorem find?_withoutEmptyNames (state : LocalState) (entityName id : String) :
    state.withoutEmptyNames.find? entityName id = state.find? entityName id := by
  rw [find?, find?, get?_withoutEmptyNames]
  cases state.entities.get? entityName with
  | none => rfl
  | some infos =>
      rw [Option.filter_some]
      cases empty : infos.isEmpty with
      | false => rfl
      | true =>
          have missing : NameMap.get? id infos = none := by
            have nothing := (NameMap.isEmpty_eq_false_iff infos).not.1 (by simp [empty])
            exact Option.not_isSome_iff_eq_none.1 fun found => nothing ⟨id, found⟩
          exact missing.symm

/-- A name stays when some entity stands under it. -/
theorem isSome_get?_withoutEmptyNames (state : LocalState) (entityName : String) :
    (state.withoutEmptyNames.entities.get? entityName).isSome ↔
      ∃ id, (state.find? entityName id).isSome := by
  rw [get?_withoutEmptyNames]
  simp only [find?]
  cases state.entities.get? entityName with
  | none => simp
  | some infos =>
      rw [Option.filter_some]
      simp only [Option.bind_some, ← NameMap.isEmpty_eq_false_iff]
      cases infos.isEmpty <;> simp

theorem eq_of_entities {state other : LocalState} (sameEntities : state.entities = other.entities)
    (sameBeside : { state with entities := Keyed.empty } = { other with entities := Keyed.empty }) :
    state = other := by
  cases state
  cases other
  simp only [mk.injEq, true_and] at sameEntities sameBeside ⊢
  exact ⟨sameEntities, sameBeside⟩

/-- States that know the same of each entity, and have the same beside the entities, are equal
without their empty names. -/
theorem withoutEmptyNames_eq {state other : LocalState}
    (same : ∀ entityName id, state.find? entityName id = other.find? entityName id)
    (sameBeside : { state with entities := Keyed.empty } = { other with entities := Keyed.empty }) :
    state.withoutEmptyNames = other.withoutEmptyNames := by
  have sameNames : ∀ entityName, (state.withoutEmptyNames.entities.get? entityName).isSome =
      (other.withoutEmptyNames.entities.get? entityName).isSome := fun entityName => by
    rw [Bool.eq_iff_iff, isSome_get?_withoutEmptyNames, isSome_get?_withoutEmptyNames]
    simp only [same]
  refine eq_of_entities (eq_of_lookUp sameNames fun entityName id => ?_) sameBeside
  exact (find?_withoutEmptyNames state entityName id).trans
    ((same entityName id).trans (find?_withoutEmptyNames other entityName id).symm)

theorem isSome_get?_bring (source target : EntityMap) (entityName id other : String) :
    ((bring source target entityName id).get? other).isSome ↔
      (target.get? other).isSome ∨ (other = entityName ∧ (source.get? other).isSome) := by
  have puts : ∀ infos, (NameMap.get? other (target.put entityName infos)).isSome ↔
      (target.get? other).isSome ∨ other = entityName := by
    intro infos
    by_cases same : other = entityName
    · simp [same]
    · simp [NameMap.get?_put_of_ne same, same]
  unfold bring
  split
  next nameMissing =>
    refine ⟨.inl, fun known => known.elim (fun there => there) ?_⟩
    rintro ⟨rfl, found⟩
    simp [nameMissing] at found
  next infos nameFound =>
    have named : other = entityName ∧ (source.get? other).isSome ↔ other = entityName :=
      ⟨And.left, fun same => ⟨same, by simp [same, nameFound]⟩⟩
    dsimp only
    split <;> rw [puts, named]

theorem isSome_get?_takeOver (source target : EntityMap) (entityName id other : String) :
    ((takeOver source target entityName id).get? other).isSome ↔
      (target.get? other).isSome ∨ (other = entityName ∧ (lookUp source entityName id).isSome) := by
  unfold takeOver
  split
  next info found =>
    change lookUp source entityName id = some info at found
    by_cases same : other = entityName
    · simp [same, found]
    · simp [NameMap.get?_put_of_ne same, same]
  next missing =>
    change lookUp source entityName id = none at missing
    split
    · simp [missing]
    next infos nameFound =>
      by_cases same : other = entityName
      · simp [same, nameFound]
      · simp [NameMap.get?_put_of_ne same, same]

theorem isSome_get?_foldl_takeOver (source target : EntityMap) (touched : List (String × String))
    (entityName : String) :
    ((touched.foldl (fun entities entity => takeOver source entities entity.1 entity.2)
        target).get? entityName).isSome ↔
      (target.get? entityName).isSome ∨
        ∃ id, (entityName, id) ∈ touched ∧ (lookUp source entityName id).isSome := by
  induction touched generalizing target with
  | nil => simp
  | cons first rest ih =>
      obtain ⟨firstName, firstId⟩ := first
      rw [List.foldl_cons, ih, isSome_get?_takeOver]
      constructor
      · rintro ((there | ⟨rfl, found⟩) | ⟨id, member, found⟩)
        · exact .inl there
        · exact .inr ⟨firstId, List.mem_cons_self, found⟩
        · exact .inr ⟨id, List.mem_cons_of_mem _ member, found⟩
      · rintro (there | ⟨id, member, found⟩)
        · exact .inl (.inl there)
        · rcases List.mem_cons.1 member with here | later
          · obtain ⟨rfl, rfl⟩ := Prod.mk.inj here
            exact .inl (.inr ⟨rfl, found⟩)
          · exact .inr ⟨id, later, found⟩

/-- The entities that take part are those that are touched, under the names that are. -/
theorem entities_scopedTo (state : LocalState) (touched : List (String × String)) :
    (state.scopedTo touched).entities =
      state.entities.restrict (fun entityName => decide (entityName ∈ touched.map Prod.fst))
        fun entityName infos =>
          infos.restrict (fun id => decide ((entityName, id) ∈ touched)) fun _ info => info := by
  refine eq_of_lookUp (fun entityName => ?_) fun entityName id => ?_
  · have brings : ∀ start : EntityMap, ((touched.foldl
        (fun kept entity => bring state.entities kept entity.1 entity.2) start).get?
          entityName).isSome ↔ (start.get? entityName).isSome ∨
            (entityName ∈ touched.map Prod.fst ∧ (state.entities.get? entityName).isSome) := by
      induction touched with
      | nil => simp
      | cons first rest ih =>
          intro start
          rw [List.foldl_cons, ih, isSome_get?_bring, List.map_cons, List.mem_cons, or_assoc,
            ← or_and_right]
    rw [Bool.eq_iff_iff]
    refine (brings Keyed.empty).trans ?_
    rw [NameMap.get?_restrict]
    by_cases named : entityName ∈ touched.map Prod.fst
    · simp [named]
    · simp [named]
  · refine (find?_scopedTo state touched entityName id).trans ?_
    rw [lookUp, NameMap.get?_restrict, find?]
    by_cases member : (entityName, id) ∈ touched
    · have named : entityName ∈ touched.map Prod.fst := List.mem_map_of_mem member
      rw [if_pos member, if_pos (by simpa using named)]
      cases state.entities.get? entityName with
      | none => rfl
      | some infos => simp [NameMap.get?_restrict, member]
    · rw [if_neg member]
      split
      · cases state.entities.get? entityName with
        | none => rfl
        | some infos => simp [NameMap.get?_restrict, member]
      · rfl

/-- The document of the state with only the touched entities. -/
theorem toDocument_scopedTo (state : LocalState) (touched : List (String × String)) :
    (state.scopedTo touched).toDocument = state.toDocument.scopedTo touched := by
  have namedEq : ∀ (entityName : String) (infos : NameMap EntityInfo),
      namedDocument (infos.restrict (fun id => decide ((entityName, id) ∈ touched))
        fun _ info => info) = (namedDocument infos).idsScopedTo touched entityName :=
    fun entityName infos =>
      congrArg Document.object (NameMap.map_restrict (fun _ _ => by rfl) infos)
  have entitiesEq : entitiesDocument (state.scopedTo touched).entities =
      (entitiesDocument state.entities).namesScopedTo touched := by
    rw [entities_scopedTo, entitiesDocument_eq, entitiesDocument_eq]
    exact congrArg Document.object (NameMap.map_restrict namedEq state.entities)
  obtain ⟨entities, unreachedCommits, network, session, error⟩ := state
  rw [toDocument, entitiesEq]
  cases session <;> cases error <;> rfl

end LocalState

end LocalFirst
