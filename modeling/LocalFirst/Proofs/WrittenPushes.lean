import LocalFirst.Proofs.MemberLists
import LocalFirst.Update.Wire

/-!
# Written paths, sorting rules and pushes

The wire form of a path is its text, and that of a push an object with a member for each modifier. 
Readers cut a path at every dot and a sorting rule at the keys of its object, so that what they
return comes back from its own wire form.
-/

namespace LocalFirst

namespace Path

theorem joinDots_cons_cons (char : Char) (piece : List Char) (pieces : List (List Char)) :
    joinDots ((char :: piece) :: pieces) = char :: joinDots (piece :: pieces) := by
  cases pieces <;> simp [joinDots]

theorem splitDots_ne_nil (chars : List Char) : splitDots chars ≠ [] := by
  fun_cases splitDots chars <;> simp

theorem joinDots_splitDots (chars : List Char) : joinDots (splitDots chars) = chars := by
  fun_induction splitDots chars with
  | case1 => rfl
  | case2 rest ih =>
      obtain ⟨piece, pieces, split⟩ := List.exists_cons_of_ne_nil (splitDots_ne_nil rest)
      rw [split] at ih ⊢
      simp [joinDots, ih]
  | case3 char rest notDot split => exact absurd split (splitDots_ne_nil rest)
  | case4 char rest notDot piece pieces split ih => rw [joinDots_cons_cons, ← split, ih]

@[simp]
theorem text_parse (written : String) : (parse written).text = written := by
  unfold parse
  split
  next empty =>
    rw [String.isEmpty_iff] at empty
    simp [text, joinDots, empty]
  · simp [text, Function.comp_def, joinDots_splitDots]

/-- The path is what its written form is read as. -/
def Written (path : Path) : Prop :=
  parse path.text = path

theorem written_parse (written : String) : (parse written).Written := by
  rw [Written, text_parse]

end Path

/-- When the document is an object, no key repeats in it. -/
def Document.TopKeysDistinct (document : Document) : Prop :=
  ∀ members, document = .object members → (Members.keys members).Nodup

theorem Document.topKeysDistinct_ofPairs (pairs : List (String × Document)) :
    (Document.ofPairs pairs).TopKeysDistinct := by
  rintro _ ⟨⟩
  exact Members.nodup_keys_ofPairs pairs

@[simp]
theorem readInteger_int (operator : Operator) (path : Path) (what : String) (value : Int64) :
    readInteger operator path what (.int value) = .ok value :=
  rfl

namespace SortDirection

@[simp]
theorem ofDocument_toDocument (direction : SortDirection) (path : Path) :
    ofDocument path direction.toDocument = .ok direction := by
  cases direction <;> rfl

theorem toDocument_ne_object (direction : SortDirection) (members : List (String × Document)) :
    direction.toDocument ≠ .object members := by
  cases direction <;> simp [toDocument]

end SortDirection

namespace SortRule

def Written : SortRule → Prop
  | .items _ => True
  | .keys order =>
      (∀ key ∈ order, key.1.Written) ∧ (order.map (fun key => key.1.text)).Nodup

theorem topKeysDistinct_toDocument (rule : SortRule) : rule.toDocument.TopKeysDistinct := by
  cases rule with
  | items direction =>
      exact fun members same => absurd same (direction.toDocument_ne_object members)
  | keys order => exact Document.topKeysDistinct_ofPairs _

theorem ofDocument_toDocument {rule : SortRule} (written : rule.Written) (path : Path) :
    ofDocument path rule.toDocument = .ok rule := by
  cases rule with
  | items direction => cases direction <;> rfl
  | keys order =>
      obtain ⟨pathsWritten, nodup⟩ := written
      have pairs : Members.ofPairs (order.map (fun key => (key.1.text, key.2.toDocument))) =
          order.map (fun key => (key.1.text, key.2.toDocument)) :=
        Members.ofPairs_eq_self (by simpa [Members.keys, Function.comp_def] using nodup)
      simp only [toDocument, Document.ofPairs, pairs, ofDocument, Except.bind_eq_ok,
        Except.pure_eq_ok, SortRule.keys.injEq, exists_eq_right]
      refine Except.mapM_map_eq_ok fun key member => ?_
      have keyWritten : Path.parse key.1.text = key.1 := pathsWritten key member
      simp [keyWritten]

theorem written_of_ofDocument {path : Path} {operand : Document} {rule : SortRule}
    (distinct : operand.TopKeysDistinct) (read : ofDocument path operand = .ok rule) :
    rule.Written := by
  unfold ofDocument at read
  split at read
  next members =>
    simp only [Except.bind_eq_ok, Except.pure_eq_ok] at read
    obtain ⟨order, keysRead, rfl⟩ := read
    have parsed : ∀ key ∈ order, key.1.Written := by
      intro key member
      obtain ⟨_, _, read⟩ := Except.exists_mem_of_mapM keysRead member
      simp only [Except.bind_eq_ok, Except.pure_eq_ok] at read
      obtain ⟨_, _, rfl⟩ := read
      exact Path.written_parse _
    have texts : order.map (fun key => key.1.text) = Members.keys members := by
      refine Except.map_eq_of_mapM keysRead fun member key read => ?_
      simp only [Except.bind_eq_ok, Except.pure_eq_ok] at read
      obtain ⟨_, _, rfl⟩ := read
      simp
    exact ⟨parsed, texts ▸ distinct members rfl⟩
  · simp only [Except.bind_eq_ok, Except.pure_eq_ok] at read
    obtain ⟨direction, _, rfl⟩ := read
    trivial

end SortRule

theorem Document.get?_of_not_hasOperatorKeys {document : Document} (key : String)
    (plain : document.hasOperatorKeys = false) (isOperator : isOperatorKey key = true) :
    document.get? key = none := by
  cases document with
  | object members =>
      refine Members.get?_eq_none_iff.2 fun member => ?_
      obtain ⟨pair, inMembers, rfl⟩ := List.mem_map.1 member
      have := List.any_eq_false.1 plain pair inMembers
      exact this isOperator
  | _ => rfl

namespace Push

def Written (operand : Push) : Prop :=
  ∀ rule, operand.sort = some rule → rule.Written

/-- Every sorting rule in the operand of a push has distinct keys. -/
def SortKeysDistinct (operand : Document) : Prop :=
  ∀ members, operand = .object members → ∀ rule, ("$sort", rule) ∈ members → rule.TopKeysDistinct

theorem plainValue?_eq_some_iff {operand : Push} {value : Document} :
    operand.plainValue? = some value ↔
      operand = ⟨[value], none, none, none⟩ ∧ value.hasOperatorKeys = false := by
  unfold plainValue?
  split
  next other =>
    by_cases hasOperators : other.hasOperatorKeys
    · simp only [hasOperators, if_true, reduceCtorEq, Push.mk.injEq, List.cons.injEq, and_true,
        false_iff, not_and]
      rintro rfl
      simp [hasOperators]
    · simp only [hasOperators, Bool.false_eq_true, if_false, Option.some.injEq, Push.mk.injEq,
        List.cons.injEq, and_true]
      exact ⟨fun same => ⟨same, by simpa [← same] using hasOperators⟩, And.left⟩
  next notPlain =>
    simp only [reduceCtorEq, false_iff, not_and]
    rintro rfl
    exact absurd rfl (notPlain value)

theorem ofDocument_toDocument {operand : Push} (written : operand.Written) (path : Path) :
    ofDocument path operand.toDocument = .ok operand := by
  cases plain : operand.plainValue? with
  | some value =>
      obtain ⟨rfl, noOperators⟩ := plainValue?_eq_some_iff.1 plain
      simp [toDocument, plain, ofDocument, noOperators,
        Document.get?_of_not_hasOperatorKeys "$each" noOperators (by decide)]
  | none =>
      obtain ⟨each, position, slice, sort⟩ := operand
      cases sort with
      | none => cases position <;> cases slice <;>
          simp [toDocument, plain, ofDocument, Document.get?, Members.get?, Document.members?,
            readModifier, bind, Except.bind, pure, Except.pure]
      | some rule =>
          have ruleRead := rule.ofDocument_toDocument (written rule rfl) path
          cases position <;> cases slice <;>
          simp [toDocument, plain, ofDocument, Document.get?, Members.get?, Document.members?,
            readModifier, ruleRead, bind, Except.bind, pure, Except.pure]

/-- Reading a modifier keeps the sorting rule or replaces it by the one it reads. -/
theorem written_readModifier {path : Path} {operand read : Push} {modifier : String × Document}
    (written : operand.Written)
    (distinct : modifier.1 = "$sort" → modifier.2.TopKeysDistinct)
    (succeeds : readModifier path operand modifier = .ok read) : read.Written := by
  obtain ⟨key, argument⟩ := modifier
  simp only [readModifier] at succeeds
  split at succeeds
  · cases succeeds
    exact written
  split at succeeds
  · simp only [Except.bind_eq_ok, Except.pure_eq_ok] at succeeds
    obtain ⟨_, _, rfl⟩ := succeeds
    exact written
  split at succeeds
  · simp only [Except.bind_eq_ok, Except.pure_eq_ok] at succeeds
    obtain ⟨_, _, rfl⟩ := succeeds
    exact written
  split at succeeds
  next isSort =>
    simp only [Except.bind_eq_ok, Except.pure_eq_ok] at succeeds
    obtain ⟨rule, ruleRead, rfl⟩ := succeeds
    rintro _ ⟨⟩
    exact SortRule.written_of_ofDocument (distinct isSort) ruleRead
  · simp at succeeds

theorem written_of_ofDocument {path : Path} {operand : Document} {read : Push}
    (distinct : SortKeysDistinct operand) (succeeds : ofDocument path operand = .ok read) :
    read.Written := by
  have keeps : ∀ (modifiers : List (String × Document)) (start : Push), start.Written →
      (∀ rule, ("$sort", rule) ∈ modifiers → rule.TopKeysDistinct) →
      modifiers.foldlM (readModifier path) start = .ok read → read.Written := by
    intro modifiers
    induction modifiers with
    | nil =>
        rintro start written - ⟨⟩
        exact written
    | cons modifier rest ih =>
        intro start written distinct succeeds
        simp only [List.foldlM_cons, Except.bind_eq_ok] at succeeds
        obtain ⟨next, nextRead, succeeds⟩ := succeeds
        have nextWritten := written_readModifier written
          (fun isSort => distinct modifier.2 (List.mem_cons.2 (.inl (by rw [← isSort])))) nextRead
        exact ih next nextWritten (fun rule member => distinct rule (.tail _ member)) succeeds
  unfold ofDocument at succeeds
  split at succeeds
  · split at succeeds
    · simp at succeeds
    · cases succeeds
      simp [Written]
  · refine keeps _ _ (by simp [Written]) (fun rule member => ?_) succeeds
    cases operand with
    | object members => exact distinct members rfl rule member
    | _ => simp [Document.members?] at member
  · simp at succeeds

theorem sortKeysDistinct_toDocument (operand : Push) : SortKeysDistinct operand.toDocument := by
  cases plain : operand.plainValue? with
  | some value =>
      obtain ⟨rfl, noOperators⟩ := plainValue?_eq_some_iff.1 plain
      rintro members same rule member
      simp only [toDocument, plain] at same
      subst same
      have := List.any_eq_false.1 noOperators _ member
      exact absurd (show Document.isOperatorKey "$sort" = true by decide) this
  | none =>
      rintro members same rule member
      simp only [toDocument, plain, Document.object.injEq] at same
      subst same
      simp at member
      obtain ⟨sortRule, _, rfl⟩ := member
      exact sortRule.topKeysDistinct_toDocument

end Push

end LocalFirst
