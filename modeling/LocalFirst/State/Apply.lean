import LocalFirst.State.Documents

/-!
# Applying updates to the state

The plain way to change the state lowers all of it to a document, applies the
update and reads the result.  When every path of an update stays inside single
entities or outside the entities altogether, it is enough to let those entities
take part and to carry the others over as they are.
-/

namespace LocalFirst

namespace LocalState

/-- Apply updates to the document form of the whole state. -/
def applyAll (now : Instant) (state : LocalState) (updates : List Update) :
    Except StateError LocalState :=
  (Update.applyTo now state updates).mapError .update

/-- Apply one update to the document form of the whole state. -/
def apply (now : Instant) (state : LocalState) (update : Update) :
    Except StateError LocalState :=
  state.applyAll now [update]

/-- Where a path reaches into the state. -/
inductive Reach where
  | outside
  | entity (entityName id : String)
  | above

/-- Find out where a path reaches. -/
def reach (path : Path) : Reach :=
  match path.segments with
  | [] => .above
  | root :: rest =>
      if root ≠ "entities" then .outside
      else
        match rest with
        | entityName :: id :: _ => .entity entityName id
        | _ => .above

/-- Collect the entities that some paths reach, or nothing when one of them
reaches above a single entity. -/
def collectTouched : List Path → Option (List (String × String))
  | [] => some []
  | path :: paths =>
      match reach path with
      | .outside => collectTouched paths
      | .entity entityName id => (collectTouched paths).map ((entityName, id) :: ·)
      | .above => none

/-- The entities that an update writes into, or nothing when it may reach above
a single entity.  A rename may reach anywhere. -/
def touchedEntities (update : Update) : Option (List (String × String)) :=
  if update.entries.toList.any (fun entry => entry.edit.operator = .rename) then none
  else collectTouched update.paths

/-- Copy an entity, or at least the entry for its name, from one map to
another. -/
def bring (source target : EntityMap) (entityName id : String) : EntityMap :=
  match source.get? entityName with
  | none => target
  | some named =>
      let present := (target.get? entityName).getD Keyed.empty
      match named.get? id with
      | none => target.put entityName present
      | some info => target.put entityName (present.put id info)

/-- Take over what an update has made of one entity. -/
def takeOver (source target : EntityMap) (entityName id : String) : EntityMap :=
  match (source.get? entityName).bind (NameMap.get? id) with
  | some info =>
      target.put entityName (((target.get? entityName).getD Keyed.empty).put id info)
  | none =>
      match target.get? entityName with
      | none => target
      | some named => target.put entityName (named.erase id)

/-- The state with only the given entities. -/
def scopedTo (state : LocalState) (touched : List (String × String)) : LocalState :=
  { state with
    entities := touched.foldl
      (fun kept entity => bring state.entities kept entity.1 entity.2) Keyed.empty }

/-- Apply the update of a command.  Only the entities that it touches go through
the document form, if they are known. -/
def applyCommand (now : Instant) (state : LocalState) (update : Update) :
    Except StateError LocalState :=
  if update.isEmpty then .ok state
  else
    match touchedEntities update with
    | none => state.apply now update
    | some touched => do
        let applied ← (state.scopedTo touched).apply now update
        return { applied with
          entities := touched.foldl
            (fun entities entity => takeOver applied.entities entities entity.1 entity.2)
            state.entities }

end LocalState

end LocalFirst
