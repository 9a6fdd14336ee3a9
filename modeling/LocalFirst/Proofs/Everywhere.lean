import LocalFirst.Proofs.WireForm

/-!
# What holds everywhere within a document

A property may be asked of a document and of everything within it.  Distinct keys and numbers that
are numbers are such properties, and texts, whole numbers and objects that repeat no key do not
break them.
-/

namespace LocalFirst

namespace Document

/-- Neither an array nor an object. -/
def IsScalar (document : Document) : Prop :=
  document.kind ≠ .array ∧ document.kind ≠ .object

/-- What passes from items and members to the documents that hold them, and holds of scalars, holds
of all documents. -/
@[elab_as_elim]
theorem induction {motive : Document → Prop}
    (scalar : ∀ document : Document, document.IsScalar → motive document)
    (array : ∀ items, (∀ item ∈ items, motive item) → motive (.array items))
    (object : ∀ members, (∀ member ∈ members, motive member.2) → motive (.object members))
    (document : Document) : motive document :=
  @Document.rec motive (fun items => ∀ item ∈ items, motive item)
    (fun members => ∀ member ∈ members, motive member.2) (fun member => motive member.2)
    (scalar _ ⟨by simp [kind], by simp [kind]⟩)
    (fun _ => scalar _ ⟨by simp [kind], by simp [kind]⟩)
    (fun _ => scalar _ ⟨by simp [kind], by simp [kind]⟩)
    (fun _ => scalar _ ⟨by simp [kind], by simp [kind]⟩)
    (fun _ => scalar _ ⟨by simp [kind], by simp [kind]⟩)
    array object (by simp) (fun _ _ first rest => List.forall_mem_cons.2 ⟨first, rest⟩) (by simp)
    (fun _ _ first rest => List.forall_mem_cons.2 ⟨first, rest⟩) (fun _ _ value => value) document

mutual

/-- The property holds of the document and of all documents within it. -/
def Everywhere (holds : Document → Prop) : Document → Prop
  | .array items => holds (.array items) ∧ ItemsEverywhere holds items
  | .object members => holds (.object members) ∧ MembersEverywhere holds members
  | document => holds document

def ItemsEverywhere (holds : Document → Prop) : List Document → Prop
  | [] => True
  | item :: rest => item.Everywhere holds ∧ ItemsEverywhere holds rest

def MembersEverywhere (holds : Document → Prop) : List (String × Document) → Prop
  | [] => True
  | (_, value) :: rest => value.Everywhere holds ∧ MembersEverywhere holds rest

end

variable {holds : Document → Prop} {document : Document}

theorem itemsEverywhere_iff {items : List Document} :
    ItemsEverywhere holds items ↔ ∀ item ∈ items, item.Everywhere holds := by
  induction items with
  | nil => simp [ItemsEverywhere]
  | cons item rest ih => simp [ItemsEverywhere, ih]

theorem membersEverywhere_iff {members : List (String × Document)} :
    MembersEverywhere holds members ↔ ∀ member ∈ members, member.2.Everywhere holds := by
  induction members with
  | nil => simp [MembersEverywhere]
  | cons member rest ih => simp [MembersEverywhere, ih]

theorem everywhere_array {items : List Document} :
    (array items).Everywhere holds ↔
      holds (.array items) ∧ ∀ item ∈ items, item.Everywhere holds := by
  rw [Everywhere, itemsEverywhere_iff]

theorem everywhere_object {members : List (String × Document)} :
    (object members).Everywhere holds ↔
      holds (.object members) ∧ ∀ member ∈ members, member.2.Everywhere holds := by
  rw [Everywhere, membersEverywhere_iff]

theorem everywhere_of_isScalar (scalar : document.IsScalar) :
    document.Everywhere holds ↔ holds document := by
  cases document with
  | array => exact absurd rfl scalar.1
  | object => exact absurd rfl scalar.2
  | _ => simp [Everywhere]

theorem Everywhere.imp {other : Document → Prop} (everywhere : document.Everywhere holds)
    (implies : ∀ document, holds document → other document) : document.Everywhere other := by
  induction document using Document.induction with
  | scalar document scalar =>
      rw [everywhere_of_isScalar scalar] at everywhere ⊢
      exact implies document everywhere
  | array items ih =>
      rw [everywhere_array] at everywhere ⊢
      exact ⟨implies _ everywhere.1, fun item member => ih item member (everywhere.2 item member)⟩
  | object members ih =>
      rw [everywhere_object] at everywhere ⊢
      exact ⟨implies _ everywhere.1, fun pair member => ih pair member (everywhere.2 pair member)⟩

theorem keysDistinct_array {items : List Document} :
    (array items).KeysDistinct ↔ ∀ item ∈ items, item.KeysDistinct := by
  rw [KeysDistinct]
  induction items with
  | nil => simp [ItemKeysDistinct]
  | cons item rest ih => simp [ItemKeysDistinct, ih]

theorem topKeysDistinct_array (items : List Document) : (array items).TopKeysDistinct := by
  rintro members ⟨⟩

theorem keysDistinct_iff_everywhere :
    document.KeysDistinct ↔ document.Everywhere TopKeysDistinct := by
  induction document using Document.induction with
  | scalar document scalar =>
      rw [everywhere_of_isScalar scalar]
      cases document with
      | array => exact absurd rfl scalar.1
      | object => exact absurd rfl scalar.2
      | _ => simp [KeysDistinct, TopKeysDistinct]
  | array items ih =>
      rw [keysDistinct_array, everywhere_array]
      refine ⟨fun distinct => ⟨topKeysDistinct_array items, fun item member => ?_⟩,
        fun everywhere item member => (ih item member).2 (everywhere.2 item member)⟩
      exact (ih item member).1 (distinct item member)
  | object members ih =>
      rw [keysDistinct_object, everywhere_object]
      exact ⟨fun distinct => ⟨fun _ same => Document.object.inj same ▸ distinct.1,
        fun member inMembers => (ih member inMembers).1 (distinct.2 member inMembers)⟩,
        fun everywhere => ⟨everywhere.1 members rfl,
          fun member inMembers => (ih member inMembers).2 (everywhere.2 member inMembers)⟩⟩

/-- A float is a number. -/
def NotNaN : Document → Prop
  | .float value => value.isNaN = false
  | _ => True

/-- What stands around the operands on the wire does not break the property. -/
structure WireSafe (holds : Document → Prop) : Prop where
  scalar : ∀ document : Document, document.IsScalar → document.kind ≠ .float → holds document
  array : ∀ items, holds (.array items)
  object : ∀ members, (Members.keys members).Nodup → holds (.object members)

theorem wireSafe_topKeysDistinct : WireSafe TopKeysDistinct where
  scalar document scalar _ := by
    rintro members rfl
    exact absurd rfl scalar.2
  array := topKeysDistinct_array
  object members nodup _ same := Document.object.inj same ▸ nodup

theorem wireSafe_notNaN : WireSafe NotNaN where
  scalar document _ notFloat := by
    cases document with
    | float => exact absurd rfl notFloat
    | _ => trivial
  array _ := trivial
  object _ _ := trivial

namespace WireSafe

theorem everywhere_scalar (safe : WireSafe holds) (scalar : document.IsScalar)
    (notFloat : document.kind ≠ .float) : document.Everywhere holds :=
  (everywhere_of_isScalar scalar).2 (safe.scalar document scalar notFloat)

theorem everywhere_bool (safe : WireSafe holds) (value : Bool) : (bool value).Everywhere holds :=
  safe.everywhere_scalar ⟨by simp [kind], by simp [kind]⟩ (by simp [kind])

theorem everywhere_int (safe : WireSafe holds) (value : Int64) : (int value).Everywhere holds :=
  safe.everywhere_scalar ⟨by simp [kind], by simp [kind]⟩ (by simp [kind])

theorem everywhere_string (safe : WireSafe holds) (text : String) :
    (string text).Everywhere holds :=
  safe.everywhere_scalar ⟨by simp [kind], by simp [kind]⟩ (by simp [kind])

theorem everywhere_array (safe : WireSafe holds) {items : List Document}
    (everywhere : ∀ item ∈ items, item.Everywhere holds) :
    (Document.array items).Everywhere holds :=
  Document.everywhere_array.2 ⟨safe.array items, everywhere⟩

theorem everywhere_object (safe : WireSafe holds) {members : List (String × Document)}
    (nodup : (Members.keys members).Nodup)
    (everywhere : ∀ member ∈ members, member.2.Everywhere holds) :
    (Document.object members).Everywhere holds :=
  Document.everywhere_object.2 ⟨safe.object members nodup, everywhere⟩

theorem everywhere_single (safe : WireSafe holds) (key : String)
    (everywhere : document.Everywhere holds) :
    (Document.object [(key, document)]).Everywhere holds :=
  safe.everywhere_object (by simp) (by simpa using everywhere)

theorem everywhere_ofPairs (safe : WireSafe holds) {pairs : List (String × Document)}
    (everywhere : ∀ pair ∈ pairs, pair.2.Everywhere holds) : (ofPairs pairs).Everywhere holds :=
  safe.everywhere_object (topKeysDistinct_ofPairs pairs _ rfl)
    fun member inPairs => everywhere member (Members.mem_of_mem_ofPairs inPairs)

end WireSafe

/-- A number that is read from a document is that document. -/
theorem ofNumber_of_number? {number : Number} (read : document.number? = some number) :
    ofNumber number = document := by
  cases document <;> simp only [number?, reduceCtorEq, Option.some.injEq] at read <;> subst read <;>
    rfl

end Document

variable {holds : Document → Prop}

theorem Document.Everywhere.child? {document value : Document} {key : String}
    (everywhere : document.Everywhere holds) (found : document.child? key = some value) :
    value.Everywhere holds := by
  cases document with
  | object members =>
      exact (everywhere_object.1 everywhere).2 (key, value) (Members.mem_of_get? found)
  | array items =>
      obtain ⟨index, _, there⟩ := Option.bind_eq_some_iff.1 found
      exact (everywhere_array.1 everywhere).2 value (List.mem_of_getElem? there)
  | _ => cases found

theorem Document.Everywhere.get? {document value : Document} {key : String}
    (everywhere : document.Everywhere holds) (found : document.get? key = some value) :
    value.Everywhere holds := by
  cases document with
  | object members => exact everywhere.child? found
  | _ => cases found

theorem Document.Everywhere.below? {document value : Document} {segments : List String}
    (everywhere : document.Everywhere holds) (found : document.below? segments = some value) :
    value.Everywhere holds := by
  induction segments generalizing document with
  | nil => exact Option.some.inj found ▸ everywhere
  | cons segment rest ih =>
      obtain ⟨child, childFound, below⟩ := Option.bind_eq_some_iff.1 found
      exact ih (everywhere.child? childFound) below

end LocalFirst
