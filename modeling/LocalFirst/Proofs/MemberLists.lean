import LocalFirst.Members
import LocalFirst.Proofs.Outcome
import Mathlib.Data.List.Nodup

/-!
# Members of objects by look-up

Objects keep the order of their members, but are used through look-ups.  As long as no key repeats,
writing a member changes one look-up, and reading every member commutes with looking one up.
-/

universe u v

namespace LocalFirst

namespace Members

variable {α : Type u} {β : Type v}

@[simp]
theorem keys_nil : keys ([] : List (String × α)) = [] :=
  rfl

@[simp]
theorem keys_cons (member : String × α) (members : List (String × α)) :
    keys (member :: members) = member.1 :: keys members :=
  rfl

theorem get?_eq_none_iff {key : String} {members : List (String × α)} :
    get? key members = none ↔ key ∉ keys members := by
  induction members with
  | nil => simp
  | cons member rest ih =>
      by_cases same : member.1 = key
      · simp [get?, same]
      · simp [get?, same, ih, Ne.symm same]

theorem get?_of_mem {key : String} {value : α} {members : List (String × α)}
    (nodup : (keys members).Nodup) (member : (key, value) ∈ members) :
    get? key members = some value := by
  induction members with
  | nil => simp at member
  | cons first rest ih =>
      obtain ⟨fresh, restNodup⟩ := List.nodup_cons.1 nodup
      rcases List.mem_cons.1 member with here | there
      · simp [get?, ← here]
      · have differ : first.1 ≠ key := fun same =>
          fresh (same ▸ List.mem_map_of_mem there)
        simp [get?, differ, ih restNodup there]

theorem mem_of_get? {key : String} {value : α} {members : List (String × α)}
    (found : get? key members = some value) : (key, value) ∈ members := by
  induction members with
  | nil => simp at found
  | cons first rest ih =>
      by_cases same : first.1 = key
      · simp only [get?, same, if_true, Option.some.injEq] at found
        exact List.mem_cons.2 (.inl (Prod.ext same.symm found.symm))
      · simp only [get?, same, if_false] at found
        exact List.mem_cons_of_mem _ (ih found)

theorem keys_put (key : String) (value : α) (members : List (String × α)) :
    keys (put key value members) =
      if key ∈ keys members then keys members else keys members ++ [key] := by
  induction members with
  | nil => simp [put, keys]
  | cons member rest ih =>
      by_cases same : member.1 = key
      · simp [put, same]
      · simp only [put, same, if_false, keys_cons, ih, List.mem_cons, Ne.symm same, false_or]
        split <;> rfl

theorem nodup_keys_put {key : String} {value : α} {members : List (String × α)}
    (nodup : (keys members).Nodup) : (keys (put key value members)).Nodup := by
  rw [keys_put]
  split
  · exact nodup
  next fresh =>
    simp only [List.nodup_append, nodup, List.nodup_singleton, List.mem_singleton, true_and,
      forall_eq]
    exact fun other member => ne_of_mem_of_not_mem member fresh

theorem erase_sublist (key : String) (members : List (String × α)) :
    (erase key members).Sublist members := by
  induction members with
  | nil => exact .slnil
  | cons member rest ih =>
      by_cases same : member.1 = key
      · simp [erase, same]
      · simpa [erase, same] using ih

theorem nodup_keys_erase {key : String} {members : List (String × α)}
    (nodup : (keys members).Nodup) : (keys (erase key members)).Nodup :=
  nodup.sublist ((erase_sublist key members).map _)

theorem get?_erase_self {key : String} {members : List (String × α)}
    (nodup : (keys members).Nodup) : get? key (erase key members) = none := by
  induction members with
  | nil => rfl
  | cons member rest ih =>
      obtain ⟨fresh, restNodup⟩ := List.nodup_cons.1 nodup
      by_cases same : member.1 = key
      · simpa [erase, same, get?_eq_none_iff] using same ▸ fresh
      · simp [erase, get?, same, ih restNodup]

theorem put_of_not_mem {key : String} {value : α} {members : List (String × α)}
    (fresh : key ∉ keys members) : put key value members = members ++ [(key, value)] := by
  induction members with
  | nil => rfl
  | cons member rest ih =>
      simp only [keys_cons, List.mem_cons, not_or] at fresh
      simp [put, Ne.symm fresh.1, ih fresh.2]

theorem put_put (key : String) (value other : α)
    (members : List (String × α)) :
    put key value (put key other members) = put key value members := by
  induction members with
  | nil => simp [put]
  | cons member rest ih =>
      by_cases same : member.1 = key <;> simp [put, same, ih]

theorem put_of_get? {key : String} {value : α} {members : List (String × α)}
    (found : get? key members = some value) : put key value members = members := by
  induction members with
  | nil => simp at found
  | cons member rest ih =>
      obtain ⟨name, old⟩ := member
      by_cases same : name = key
      · simp only [get?, same, if_true, Option.some.injEq] at found
        simp [put, same, found]
      · simp only [get?, same, if_false] at found
        simp [put, same, ih found]

theorem mem_put {key : String} {value : α} {member : String × α}
    {members : List (String × α)} (found : member ∈ put key value members) :
    member = (key, value) ∨ member ∈ members := by
  induction members with
  | nil => simpa [put] using found
  | cons first rest ih =>
      by_cases same : first.1 = key
      · simp only [put, same, if_true, List.mem_cons] at found
        rcases found with here | there
        · exact .inl here
        · exact .inr (List.mem_cons_of_mem _ there)
      · simp only [put, same, if_false, List.mem_cons] at found
        rcases found with here | there
        · exact .inr (List.mem_cons.2 (.inl here))
        · exact (ih there).imp id (List.mem_cons_of_mem _)

theorem get?_filter (test : String × α → Bool) (key : String)
    {members : List (String × α)} (nodup : (keys members).Nodup) :
    get? key (members.filter test) = (get? key members).filter fun value => test (key, value) := by
  induction members with
  | nil => rfl
  | cons member rest ih =>
      obtain ⟨fresh, restNodup⟩ := List.nodup_cons.1 nodup
      by_cases same : member.1 = key
      · subst same
        have missing : get? member.1 rest = none := get?_eq_none_iff.2 fresh
        cases kept : test member <;>
          simp [get?, Option.filter_some, kept, ih restNodup, missing]
      · cases kept : test member <;> simp [get?, kept, same, ih restNodup]

theorem get?_map (write : α → β) (members : List (String × α)) (key : String) :
    get? key (members.map fun member => (member.1, write member.2)) =
      (get? key members).map write := by
  induction members with
  | nil => rfl
  | cons member rest ih =>
      by_cases same : member.1 = key <;> simp [get?, same, ih]

/-- Writing pairs one after another onto members. -/
private theorem foldl_put (pairs members : List (String × α))
    (nodup : (keys members).Nodup) :
    (keys (pairs.foldl (fun members pair => put pair.1 pair.2 members) members)).Nodup ∧
      (∀ member ∈ pairs.foldl (fun members pair => put pair.1 pair.2 members) members,
        member ∈ pairs ∨ member ∈ members) ∧
      ((keys (members ++ pairs)).Nodup →
        pairs.foldl (fun members pair => put pair.1 pair.2 members) members =
          members ++ pairs) := by
  induction pairs generalizing members with
  | nil => exact ⟨nodup, fun _ member => .inr member, fun _ => by simp⟩
  | cons pair pairs ih =>
      obtain ⟨restNodup, restMem, restEq⟩ := ih (put pair.1 pair.2 members) (nodup_keys_put nodup)
      refine ⟨restNodup, fun member found => ?_, fun allNodup => ?_⟩
      · rcases restMem member found with inPairs | inPut
        · exact .inl (List.mem_cons_of_mem _ inPairs)
        · rcases mem_put inPut with here | there
          · exact .inl (List.mem_cons.2 (.inl here))
          · exact .inr there
      · have fresh : pair.1 ∉ keys members := by
          simp only [keys, List.map_append, List.map_cons, List.nodup_append, List.mem_cons,
            forall_eq_or_imp] at allNodup
          exact fun found => (allNodup.2.2 _ found).1 rfl
        rw [put_of_not_mem fresh] at restEq
        simp only [List.foldl_cons, put_of_not_mem fresh]
        simpa using restEq (by simpa using allNodup)

theorem nodup_keys_ofPairs (pairs : List (String × α)) : (keys (ofPairs pairs)).Nodup :=
  (foldl_put pairs [] List.nodup_nil).1

theorem mem_of_mem_ofPairs {pairs : List (String × α)} {member : String × α}
    (found : member ∈ ofPairs pairs) : member ∈ pairs :=
  ((foldl_put pairs [] List.nodup_nil).2.1 member found).resolve_right List.not_mem_nil

theorem ofPairs_eq_self {pairs : List (String × α)} (nodup : (keys pairs).Nodup) :
    ofPairs pairs = pairs :=
  (foldl_put pairs [] List.nodup_nil).2.2 nodup

/-- To write pairs loses no key. -/
theorem mem_keys_ofPairs {key : String} {pairs : List (String × α)} :
    key ∈ keys (ofPairs pairs) ↔ key ∈ keys pairs := by
  have all : ∀ members, key ∈ keys (pairs.foldl (fun members pair => put pair.1 pair.2 members)
      members) ↔ key ∈ keys members ∨ key ∈ keys pairs := by
    induction pairs with
    | nil => simp
    | cons pair rest ih =>
        intro members
        rw [List.foldl_cons, ih, keys_put, keys_cons, List.mem_cons]
        split
        next there =>
          constructor
          · tauto
          · rintro (found | rfl | found)
            exacts [.inl found, .inl there, .inr found]
        · rw [List.mem_append, List.mem_singleton, or_assoc]
  simpa [ofPairs] using all []

/-- Read the value of every member. -/
def readEach {ε : Type v} {β : Type u} (read : String → α → Except ε β)
    (members : List (String × α)) : Except ε (List (String × β)) :=
  members.mapM (fun member => do return (member.1, ← read member.1 member.2))

theorem keys_readEach {ε : Type v} {β : Type u} {read : String → α → Except ε β}
    {members : List (String × α)} {results : List (String × β)}
    (succeeds : readEach read members = .ok results) : keys results = keys members := by
  induction members generalizing results with
  | nil =>
      simp only [readEach, List.mapM_nil, Except.pure_eq_ok] at succeeds
      simp [← succeeds]
  | cons member rest ih =>
      simp only [readEach, List.mapM_cons, Except.bind_eq_ok, Except.pure_eq_ok] at succeeds
      obtain ⟨_, ⟨value, _, rfl⟩, values, restSucceeds, rfl⟩ := succeeds
      simp [ih restSucceeds]

theorem get?_readEach {ε : Type v} {β : Type u} {read : String → α → Except ε β}
    {members : List (String × α)} {results : List (String × β)}
    (succeeds : readEach read members = .ok results) {key : String} {value : α}
    (found : get? key members = some value) :
    ∃ result, read key value = .ok result ∧ get? key results = some result := by
  induction members generalizing results with
  | nil => simp at found
  | cons member rest ih =>
      simp only [readEach, List.mapM_cons, Except.bind_eq_ok, Except.pure_eq_ok] at succeeds
      obtain ⟨_, ⟨first, firstRead, rfl⟩, values, restSucceeds, rfl⟩ := succeeds
      by_cases same : member.1 = key
      · simp only [get?, same, if_true, Option.some.injEq] at found
        exact ⟨first, by rw [← same, ← found, firstRead], by simp [get?, same]⟩
      · simp only [get?, same, if_false] at found ⊢
        exact ih restSucceeds found

/-- Every member that is read is read from a member. -/
theorem exists_mem_of_readEach {ε : Type v} {β : Type u} {read : String → α → Except ε β}
    {members : List (String × α)} {results : List (String × β)}
    (succeeds : readEach read members = .ok results) {key : String} {result : β}
    (member : (key, result) ∈ results) :
    ∃ value, (key, value) ∈ members ∧ read key value = .ok result := by
  obtain ⟨⟨name, value⟩, inMembers, memberRead⟩ := Except.exists_mem_of_mapM succeeds member
  simp only [Except.bind_eq_ok, Except.pure_eq_ok, Prod.mk.injEq] at memberRead
  obtain ⟨_, valueRead, rfl, rfl⟩ := memberRead
  exact ⟨value, inMembers, valueRead⟩

end Members

end LocalFirst
