import LocalFirst.Proofs.WireForm

/-!
# Paths and their written form

A written path is cut at every dot, and its segments are joined with dots again, so that no two
texts are read as one path.  The other way round a segment that holds a dot falls apart, and the
path of one empty segment is lost, as its written form is that of the path without segments; every
other path survives.  On the wire the paths of an update stand as keys of objects.  Keys that differ
are read as paths that differ, and therefore each key gives an edit of its own: none of them takes
the place of another one in the update.
-/

namespace LocalFirst

namespace Path

theorem splitDots_of_undotted {piece : List Char} (undotted : '.' ∉ piece) :
    splitDots piece = [piece] := by
  induction piece with
  | nil => rfl
  | cons char rest ih =>
      obtain ⟨notDot, restUndotted⟩ := not_or.1 (mt List.mem_cons.2 undotted)
      rw [splitDots, ih restUndotted]
      exact fun isDot => notDot isDot.symm

theorem splitDots_append {piece : List Char} (undotted : '.' ∉ piece) (rest : List Char) :
    splitDots (piece ++ '.' :: rest) = piece :: splitDots rest := by
  induction piece with
  | nil => simp [splitDots]
  | cons char more ih =>
      obtain ⟨notDot, moreUndotted⟩ := not_or.1 (mt List.mem_cons.2 undotted)
      rw [List.cons_append, splitDots, ih moreUndotted]
      exact fun isDot => notDot isDot.symm

/-- Dots separate pieces that hold none. -/
theorem splitDots_joinDots {pieces : List (List Char)} (nonempty : pieces ≠ [])
    (undotted : ∀ piece ∈ pieces, '.' ∉ piece) : splitDots (joinDots pieces) = pieces := by
  induction pieces with
  | nil => exact absurd rfl nonempty
  | cons piece rest ih =>
      obtain ⟨pieceUndotted, restUndotted⟩ := List.forall_mem_cons.1 undotted
      cases rest with
      | nil => exact splitDots_of_undotted pieceUndotted
      | cons next more =>
          rw [joinDots, splitDots_append pieceUndotted, ih (by simp) restUndotted]

theorem undotted_of_mem_splitDots {chars piece : List Char} (member : piece ∈ splitDots chars) :
    '.' ∉ piece := by
  fun_induction splitDots chars generalizing piece with
  | case1 => simp_all
  | case2 rest ih =>
      rcases List.mem_cons.1 member with rfl | inRest
      · simp
      · exact ih inRest
  | case3 char rest notDot split => exact absurd split (splitDots_ne_nil rest)
  | case4 char rest notDot first pieces split ih =>
      rw [split] at ih
      rcases List.mem_cons.1 member with rfl | inRest
      · have firstUndotted := ih List.mem_cons_self
        simpa [firstUndotted] using fun isDot => notDot isDot.symm
      · exact ih (List.mem_cons_of_mem _ inRest)

/-- No segment holds a dot, and the path is not that of one empty segment, whose written form is
that of the path without segments. -/
def Undotted (path : Path) : Prop :=
  (∀ segment ∈ path.segments, '.' ∉ segment.toList) ∧ path.segments ≠ [""]

/-- These are the paths that are read back from their written form. -/
theorem written_iff_undotted {path : Path} : path.Written ↔ path.Undotted := by
  obtain ⟨segments⟩ := path
  constructor
  · intro written
    refine ⟨fun segment member => ?_, ?_⟩
    · rw [← written, parse] at member
      split at member
      · simp at member
      · obtain ⟨piece, inPieces, rfl⟩ := List.mem_map.1 member
        simpa using undotted_of_mem_splitDots inPieces
    · rintro rfl
      simp [Written, parse, text, joinDots] at written
  · rintro ⟨undotted, named⟩
    cases segments with
    | nil => rfl
    | cons segment rest =>
        have split : splitDots (joinDots ((segment :: rest).map String.toList)) =
            (segment :: rest).map String.toList :=
          splitDots_joinDots (by simp) (List.forall_mem_map.2 undotted)
        have nonempty : joinDots ((segment :: rest).map String.toList) ≠ [] := by
          intro empty
          rw [empty] at split
          exact named (List.map_injective_iff.2 (fun _ _ => String.toList_injective) split.symm)
        rw [Written, parse, text, if_neg (by simpa using nonempty), String.toList_ofList, split]
        simp [Function.comp_def]

theorem parse_injective : Function.Injective parse :=
  Function.LeftInverse.injective text_parse

theorem segments_parse_text_iff (segments : List String) :
    (parse (text ⟨segments⟩)).segments = segments ↔
      (∀ segment ∈ segments, '.' ∉ segment.toList) ∧ segments ≠ [""] := by
  have undotted : Written ⟨segments⟩ ↔ Undotted ⟨segments⟩ := written_iff_undotted
  rw [Undotted, Written] at undotted
  rw [← undotted]
  exact ⟨congrArg Path.mk, congrArg Path.segments⟩

end Path

/-- The operator and the key under which an entry stands on the wire. -/
def Entry.wireKey (entry : Entry) : Operator × String :=
  (entry.edit.operator, entry.path.text)

namespace Update

variable {members : List (String × Document)} {update : Update}

/-- The keys of the payload of an operator. -/
def payloadKeys (member : String × Document) : List (Operator × String) :=
  match Operator.ofName? member.1, member.2 with
  | some operator, .object payload => (Members.keys payload).map fun key => (operator, key)
  | _, _ => []

/-- The keys that stand for paths in the wire form of an update, each with its operator: those of
the payloads, or all keys when none of them is that of an operator. -/
def wireKeys (members : List (String × Document)) : List (Operator × String) :=
  if members.all (fun member => !Document.isOperatorKey member.1) then
    (Members.keys members).map fun key => (.set, key)
  else members.flatMap payloadKeys

theorem wireKeys_of_readMember {member : String × Document} {entries : List Entry}
    (read : readMember member = .ok entries) :
    entries.map Entry.wireKey = payloadKeys member := by
  obtain ⟨name, payload⟩ := member
  unfold readMember at read
  split at read
  · cases read
  next operator named =>
    cases payload with
    | object pairs =>
        simp only [payloadKeys, named, Members.keys, List.map_map]
        refine Except.map_eq_of_mapM read fun pair entry pairRead => ?_
        simp only [Except.bind_eq_ok, Except.pure_eq_ok] at pairRead
        obtain ⟨edit, editRead, rfl⟩ := pairRead
        rw [Entry.wireKey, Edit.operator_of_ofDocument editRead, Path.text_parse]
        rfl
    | _ => cases read

/-- One entry is read for each key. -/
theorem wireKeys_of_readEntries {entries : List Entry}
    (read : readEntries members = .ok entries) :
    entries.map Entry.wireKey = wireKeys members := by
  unfold readEntries at read
  rw [wireKeys]
  split at read
  next plain =>
    cases read
    simp [plain, Entry.wireKey, Edit.operator, Members.keys, Function.comp_def]
  next notPlain =>
    rw [if_neg notPlain]
    split at read
    · obtain ⟨groups, groupsRead, rfl⟩ := Except.map_eq_ok.1 read
      rw [List.map_flatten, List.flatMap_def]
      exact congrArg List.flatten
        (Except.map_eq_of_mapM groupsRead fun member group => wireKeys_of_readMember)
    · cases read

theorem name_of_mem_payloadKeys {member : String × Document} {wireKey : Operator × String}
    (inPayload : wireKey ∈ payloadKeys member) : wireKey.1.name = member.1 := by
  unfold payloadKeys at inPayload
  split at inPayload
  next operator payload named _ =>
    obtain ⟨key, _, rfl⟩ := List.mem_map.1 inPayload
    simpa using List.find?_some named
  · cases inPayload

/-- Under distinct keys no operator occurs twice, and no key twice with one operator. -/
theorem nodup_wireKeys (distinct : (Document.object members).KeysDistinct) :
    (wireKeys members).Nodup := by
  obtain ⟨nodup, payloadsDistinct⟩ := Document.keysDistinct_object.1 distinct
  rw [wireKeys]
  split
  · exact nodup.map fun first second same => congrArg Prod.snd same
  · refine List.nodup_flatMap.2 ⟨fun member inMembers => ?_, ?_⟩
    · unfold payloadKeys
      split
      next operator payload _ payloadEq =>
        have payloadDistinct := payloadsDistinct member inMembers
        rw [payloadEq, Document.keysDistinct_object] at payloadDistinct
        exact payloadDistinct.1.map fun first second same => congrArg Prod.snd same
      · exact List.nodup_nil
    · have namesDiffer : members.Pairwise fun first second => first.1 ≠ second.1 :=
        List.pairwise_map.1 nodup
      refine namesDiffer.imp fun differ wireKey inFirst inSecond => differ ?_
      rw [← name_of_mem_payloadKeys inFirst, name_of_mem_payloadKeys inSecond]

/-- Each key on the wire gives an entry of its own to the update that is read. -/
theorem wireKeys_perm (distinct : (Document.object members).KeysDistinct)
    (read : ofDocument (.object members) = .ok update) :
    (update.entries.toList.map Entry.wireKey).Perm (wireKeys members) := by
  rw [ofDocument_eq, Except.map_eq_ok] at read
  obtain ⟨entries, entriesRead, rfl⟩ := read
  have keysEq := wireKeys_of_readEntries entriesRead
  -- the key of an entry is made of its address, so entries with different keys are filed apart
  have addressesNodup : (entries.map Entry.address).Nodup := by
    have keysNodup := nodup_wireKeys distinct
    rw [← keysEq] at keysNodup
    have through : entries.map Entry.wireKey =
        (entries.map Entry.address).map fun address => (address.operator, address.path.text) := by
      simp [Entry.wireKey, Entry.address, Function.comp_def]
    exact List.Nodup.of_map _ (through ▸ keysNodup)
  exact keysEq ▸ (Keyed.toList_ofList_perm addressesNodup).map Entry.wireKey

end Update

namespace Path

/-- Every text is written back from the path that it is read as, and a list of segments is read back
from its written form unless a segment holds a dot or the only one is empty.  So texts that differ
are read as paths that differ, also among the keys of one object, and an update that is read has an
entry of its own for each key that gives a path to an operator. -/
theorem written_form_exact :
    (∀ written : String, (parse written).text = written) ∧
    (∀ segments : List String, (parse (text ⟨segments⟩)).segments = segments ↔
      (∀ segment ∈ segments, '.' ∉ segment.toList) ∧ segments ≠ [""]) ∧
    Function.Injective parse ∧
    (∀ members : List (String × Document), (Members.keys members).Nodup →
      (members.map fun member => parse member.1).Nodup) ∧
    ∀ (members : List (String × Document)) (update : Update),
      (Document.object members).KeysDistinct → Update.ofDocument (.object members) = .ok update →
        (update.entries.toList.map Entry.wireKey).Perm (Update.wireKeys members) := by
  refine ⟨text_parse, segments_parse_text_iff, parse_injective, fun members nodup => ?_,
    fun members update => Update.wireKeys_perm⟩
  rw [Members.keys] at nodup
  simpa [Function.comp_def] using nodup.map parse_injective

/-- Keys that differ in their dots only, under two operators. -/
def dottedKeys : List (String × Document) :=
  [("$set", .object [("", .int 1), (".", .int 2), ("a", .int 3), ("a.", .int 4), (".a", .int 5),
      ("a..b", .int 6), ("a.b", .int 7)]),
    ("$inc", .object [("a", .int 1), ("a.", .int 1)])]

/-- Empty segments survive beside others, and each of the nine keys gives an entry. -/
theorem written_form_exact_dotted :
    (parse "a..b.").text = "a..b." ∧
    (parse (text ⟨["", "a", "", "b"]⟩)).segments = ["", "a", "", "b"] ∧
    (parse (text ⟨["a", "b.c"]⟩)).segments ≠ ["a", "b.c"] ∧
    (parse (text ⟨[""]⟩)).segments ≠ [""] ∧
    parse "a." ≠ parse ".a" ∧
    (dottedKeys.map fun member => parse member.1).Nodup ∧
    ∃ update, Update.ofDocument (.object dottedKeys) = .ok update ∧
      (update.entries.toList.map Entry.wireKey).Perm (Update.wireKeys dottedKeys) ∧
      update.entries.toList.length = 9 := by
  obtain ⟨texts, survive, injective, apart, entries⟩ := written_form_exact
  have distinct : (Document.object dottedKeys).KeysDistinct := by
    simp [dottedKeys, Document.KeysDistinct, Document.MemberKeysDistinct, Members.keys]
  have reads : (Update.ofDocument (.object dottedKeys)).toOption.isSome = true := by decide +kernel
  obtain ⟨update, read⟩ := Except.exists_of_isSome_toOption reads
  have perm := entries dottedKeys update distinct read
  refine ⟨texts _, (survive _).2 (by decide), fun same => absurd ((survive _).1 same) (by decide),
    fun same => absurd ((survive _).1 same) (by decide),
    fun same => absurd (injective same) (by decide), apart dottedKeys (by decide),
    update, read, perm, ?_⟩
  have lengths := perm.length_eq
  rw [List.length_map] at lengths
  exact lengths.trans (by decide)

end Path

end LocalFirst
