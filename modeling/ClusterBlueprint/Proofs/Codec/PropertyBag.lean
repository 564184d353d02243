import ClusterBlueprint.Codec.PropertyBag
import ClusterBlueprint.Proofs.Result
import ClusterBlueprint.Proofs.SortedMap

namespace ClusterBlueprint.PropertyBag

theorem stripFront_eq_some_iff {front cs rest : List Char} :
    stripFront front cs = some rest ↔ cs = front ++ rest := by
  induction front generalizing cs with
  | nil => simp [stripFront]
  | cons f front ih =>
      cases cs with
      | nil => simp [stripFront]
      | cons c cs =>
          rw [stripFront, List.cons_append, List.cons.injEq]
          by_cases hc : f = c
          · rw [if_pos hc, ih, and_iff_right hc.symm]
          · rw [if_neg hc]
            constructor
            · intro h
              nomatch h
            · rintro ⟨heq, -⟩
              exact absurd heq.symm hc

theorem plainName?_eq_some_iff {id field : String} :
    plainName? id = some field ↔ id = qualify category field := by
  have happend : (qualify category field).toList =
      (qualify category "").toList ++ field.toList := by
    simp [qualify]
  rw [plainName?, Option.map_eq_some_iff, ← String.toList_inj, happend]
  constructor
  · rintro ⟨rest, hrest, rfl⟩
    rw [stripFront_eq_some_iff.mp hrest, String.toList_ofList]
  · intro h
    exact ⟨field.toList, stripFront_eq_some_iff.mpr h, String.ofList_toList⟩

theorem plainName?_qualify (field : String) : plainName? (qualify category field) = some field :=
  plainName?_eq_some_iff.mpr rfl

theorem qualify_injective {field field' : String}
    (h : qualify category field = qualify category field') : field = field' := by
  have hplain := plainName?_qualify field
  rw [h, plainName?_qualify, Option.some.injEq] at hplain
  exact hplain.symm

theorem ne_qualify {id : String} (h : plainName? id = none) (field : String) :
    id ≠ qualify category field := by
  rintro rfl
  rw [plainName?_qualify] at h
  nomatch h

theorem plainName?_of_not_front {id : String} (h : ¬ "Blueprints/".toList <+: id.toList) :
    plainName? id = none := by
  rw [Option.eq_none_iff_forall_ne_some]
  intro field hfield
  rw [plainName?_eq_some_iff] at hfield
  apply h
  refine ⟨field.toList, ?_⟩
  rw [hfield]
  simp [qualify, category]

/-- The field to which an entry of a bag gives a value, if it does: the plain entry of a field
hides the qualified one. -/
def target? (bag : PropertyBag) (id : String) : Option String :=
  match plainName? id with
  | some field => if bag.contains field then none else some field
  | none => some id

theorem target?_eq_some_iff {bag : PropertyBag} {id field : String} :
    target? bag id = some field ↔
      (plainName? field = none ∧ id = field) ∨
        (field ∉ bag.keys ∧ id = qualify category field) := by
  rw [target?]
  cases hplain : plainName? id with
  | none =>
      have hne := ne_qualify hplain
      constructor
      · rintro h
        cases h
        exact .inl ⟨hplain, rfl⟩
      · rintro (⟨-, rfl⟩ | ⟨-, heq⟩)
        · rfl
        · exact absurd heq (hne field)
  | some field' =>
      rw [plainName?_eq_some_iff] at hplain
      subst hplain
      simp only [← OrderedMap.contains_eq_true_iff]
      constructor
      · intro h
        split at h
        · nomatch h
        · rename_i hcontains
          cases h
          exact .inr ⟨hcontains, rfl⟩
      · rintro (⟨hfield, heq⟩ | ⟨hcontains, heq⟩)
        · exact absurd heq.symm (ne_qualify hfield field')
        · rw [qualify_injective heq, if_neg hcontains]

/-- The entries of a bag that count, under the plain names of their fields. -/
def counted (bag : PropertyBag) : List (String × Json.Value) :=
  bag.entries.filterMap fun (id, value) => (target? bag id).map (·, value)

theorem fields_eq (bag : PropertyBag) : bag.fields = SortedMap.ofList bag.counted := by
  rw [fields, SortedMap.ofList, counted, List.foldl_filterMap]
  congr 1
  funext fields entry
  obtain ⟨id, value⟩ := entry
  simp only [fold, target?]
  cases plainName? id with
  | none => rfl
  | some field =>
      dsimp only
      split <;> rfl

theorem keys_counted (bag : PropertyBag) :
    bag.counted.map Prod.fst = bag.keys.filterMap bag.target? := by
  rw [counted, List.map_filterMap, OrderedMap.keys, List.filterMap_map]
  congr 1
  funext entry
  rw [Option.map_map]
  exact congrFun Option.map_id _

theorem nodup_counted (bag : PropertyBag) : (bag.counted.map Prod.fst).Nodup := by
  rw [keys_counted]
  refine List.pairwise_filterMap.mpr (bag.distinct.imp_of_mem ?_)
  rintro id id' hid hid' hne field hfield _ hfield' rfl
  rw [target?_eq_some_iff] at hfield hfield'
  -- Two entries for one field would be its plain one and its qualified one, and the latter is
  -- hidden.
  rcases hfield with ⟨-, rfl⟩ | ⟨habsent, rfl⟩
  · rcases hfield' with ⟨-, rfl⟩ | ⟨habsent', -⟩
    · exact hne rfl
    · exact habsent' hid
  · rcases hfield' with ⟨-, rfl⟩ | ⟨-, rfl⟩
    · exact habsent hid'
    · exact hne rfl

/-- A field has the value of its plain entry, or that of its qualified entry when there is no plain
one. -/
theorem get?_fields_eq_some_iff {bag : PropertyBag} {field : String} {value : Json.Value} :
    bag.fields.get? field = some value ↔
      (plainName? field = none ∧ (field, value) ∈ bag.entries) ∨
        (field ∉ bag.keys ∧ (qualify category field, value) ∈ bag.entries) := by
  rw [fields_eq, SortedMap.get?_ofList bag.nodup_counted]
  have hmem : SortedMap.lookupEntry field bag.counted = some value ↔
      (field, value) ∈ bag.counted :=
    ⟨SortedMap.mem_of_lookupEntry, SortedMap.lookupEntry_of_mem bag.nodup_counted⟩
  rw [hmem, counted, List.mem_filterMap]
  constructor
  · rintro ⟨⟨id, value'⟩, hentry, hfield⟩
    rw [Option.map_eq_some_iff] at hfield
    obtain ⟨field', htarget, heq⟩ := hfield
    cases heq
    rcases target?_eq_some_iff.mp htarget with ⟨hplain, rfl⟩ | ⟨habsent, rfl⟩
    · exact .inl ⟨hplain, hentry⟩
    · exact .inr ⟨habsent, hentry⟩
  · rintro (⟨hplain, hentry⟩ | ⟨habsent, hentry⟩)
    · refine ⟨_, hentry, ?_⟩
      dsimp only
      rw [target?_eq_some_iff.mpr (.inl ⟨hplain, rfl⟩)]
      rfl
    · refine ⟨_, hentry, ?_⟩
      dsimp only
      rw [target?_eq_some_iff.mpr (.inr ⟨habsent, rfl⟩)]
      rfl

/-- The value that counts for a field: that of the plain entry, or else that of the qualified
one. -/
def effective? (bag : PropertyBag) (field : String) : Option Json.Value :=
  (bag.get? field).or (bag.get? (qualify category field))

theorem get?_fields {bag : PropertyBag} {field : String} (hplain : plainName? field = none) :
    bag.fields.get? field = bag.effective? field := by
  apply Option.ext
  intro value
  rw [get?_fields_eq_some_iff, and_iff_right hplain, ← OrderedMap.get?_eq_some_iff,
    ← OrderedMap.get?_eq_some_iff, ← OrderedMap.get?_eq_none_iff, effective?]
  cases bag.get? field <;> simp

/-- The entry by which a bag gives a member of an object: the member itself, or the member under its
qualified name if that is asked for. -/
def spell (qualified : List String) (member : String × Json.Value) : String × Json.Value :=
  (if member.1 ∈ qualified then qualify category member.1 else member.1, member.2)

/-- Whether the entries of a bag, in some order, are the members of an object, some of them under
their qualified names, and further values under the qualified names of others. -/
structure Spells (bag : PropertyBag) (members : List (String × Json.Value))
    (qualified : List String) (hidden : List (String × Json.Value)) : Prop where
  entries : bag.entries.Perm
    (members.map (spell qualified) ++ hidden.map fun e => (qualify category e.1, e.2))
  hides : ∀ e ∈ hidden, e.1 ∈ members.map Prod.fst ∧ e.1 ∉ qualified

variable {bag : PropertyBag} {members hidden : List (String × Json.Value)} {qualified : List String}

theorem Spells.plain_mem_entries_iff (h : bag.Spells members qualified hidden) {field : String}
    (hplain : plainName? field = none) {value : Json.Value} :
    (field, value) ∈ bag.entries ↔ (field, value) ∈ members ∧ field ∉ qualified := by
  rw [h.entries.mem_iff, List.mem_append, List.mem_map, List.mem_map]
  constructor
  · rintro (⟨⟨field', value'⟩, hmem, heq⟩ | ⟨⟨field', value'⟩, -, heq⟩)
    · obtain ⟨hid, rfl⟩ := Prod.mk.inj heq
      split at hid
      · exact absurd hid.symm (ne_qualify hplain field')
      · rename_i hqualified
        obtain rfl : field' = field := hid
        exact ⟨hmem, hqualified⟩
    · exact absurd (Prod.mk.inj heq).1.symm (ne_qualify hplain field')
  · rintro ⟨hmem, hqualified⟩
    refine .inl ⟨_, hmem, ?_⟩
    rw [spell, if_neg hqualified]

theorem Spells.qualified_mem_entries_iff (h : bag.Spells members qualified hidden)
    (hmembers : ∀ field ∈ members.map Prod.fst, plainName? field = none) {field : String}
    {value : Json.Value} :
    (qualify category field, value) ∈ bag.entries ↔
      ((field, value) ∈ members ∧ field ∈ qualified) ∨ (field, value) ∈ hidden := by
  rw [h.entries.mem_iff, List.mem_append, List.mem_map, List.mem_map]
  constructor
  · rintro (⟨⟨field', value'⟩, hmem, heq⟩ | ⟨⟨field', value'⟩, hmem, heq⟩)
    · obtain ⟨hid, rfl⟩ := Prod.mk.inj heq
      split at hid
      · rename_i hqualified
        obtain rfl := qualify_injective hid
        exact .inl ⟨hmem, hqualified⟩
      · exact absurd hid (ne_qualify (hmembers _ (List.mem_map.mpr ⟨_, hmem, rfl⟩)) field)
    · obtain ⟨hid, rfl⟩ := Prod.mk.inj heq
      obtain rfl := qualify_injective hid
      exact .inr hmem
  · rintro (⟨hmem, hqualified⟩ | hmem)
    · refine .inl ⟨_, hmem, ?_⟩
      rw [spell, if_pos hqualified]
    · exact .inr ⟨_, hmem, rfl⟩

/-- A bag that spells the members of an object gives them back: where a member has a hidden entry
besides its own, the latter counts. -/
theorem Spells.fields_eq (h : bag.Spells members qualified hidden)
    (hmembers : ∀ field ∈ members.map Prod.fst, plainName? field = none)
    (hsorted : (members.map Prod.fst).Pairwise (· < ·)) : bag.fields = ⟨members, hsorted⟩ := by
  apply SortedMap.ext_get?
  intro field
  apply Option.ext
  intro value
  rw [get?_fields_eq_some_iff, SortedMap.get?_eq_some_iff, h.qualified_mem_entries_iff hmembers]
  have hkey {value : Json.Value} (hmem : (field, value) ∈ members) : plainName? field = none :=
    hmembers field (List.mem_map.mpr ⟨_, hmem, rfl⟩)
  constructor
  · rintro (⟨hplain, hentry⟩ | ⟨habsent, ⟨hmem, -⟩ | hhidden⟩)
    · exact ((h.plain_mem_entries_iff hplain).mp hentry).1
    · exact hmem
    · obtain ⟨hfield, hqualified⟩ := h.hides _ hhidden
      obtain ⟨⟨_, value'⟩, hmem, rfl⟩ := List.mem_map.mp hfield
      have hentry := (h.plain_mem_entries_iff (hkey hmem)).mpr ⟨hmem, hqualified⟩
      exact absurd (List.mem_map.mpr ⟨_, hentry, rfl⟩) habsent
  · intro hmem
    by_cases hqualified : field ∈ qualified
    · refine .inr ⟨?_, .inl ⟨hmem, hqualified⟩⟩
      intro habsent
      obtain ⟨⟨_, value'⟩, hentry, rfl⟩ := List.mem_map.mp habsent
      exact ((h.plain_mem_entries_iff (hkey hmem)).mp hentry).2 hqualified
    · exact .inl ⟨hkey hmem, (h.plain_mem_entries_iff (hkey hmem)).mpr ⟨hmem, hqualified⟩⟩

/-- Whether a stack is given by its name and version alone, but not by both of them as texts. -/
def BreaksStack (given : String → Option Json.Value) : Prop :=
  given "stack_ids" = none ∧ (given "stack_name" ≠ none ∨ given "stack_version" ≠ none) ∧
    ∀ name version, given "stack_name" = some (.text name) →
      given "stack_version" ≠ some (.text version)

def joinedStack? (given : String → Option Json.Value) : Option Json.Value :=
  match given "stack_name", given "stack_version" with
  | some (.text name), some (.text version) => some (.array [.text (name ++ "-" ++ version)])
  | _, _ => none

/-- What a document has under a field that is given, or that is made from the name and version of a
stack. -/
def documentField? (given : String → Option Json.Value) (field : String) : Option Json.Value :=
  if field = "stack_name" ∨ field = "stack_version" then none
  else if field = "stack_ids" then (given field).or (joinedStack? given)
  else given field

theorem joinedStack?_of_texts {given : String → Option Json.Value} {name version : String}
    (hname : given "stack_name" = some (.text name))
    (hversion : given "stack_version" = some (.text version)) :
    joinedStack? given = some (.array [.text (name ++ "-" ++ version)]) := by
  rw [joinedStack?, hname, hversion]

theorem joinedStack?_of_absent {given : String → Option Json.Value} (hname : given "stack_name" = none) :
    joinedStack? given = none := by
  rw [joinedStack?, hname]

/-- The list of stack ids is all that the name and version of a stack can change. -/
theorem documentField?_eq {given : String → Option Json.Value} {ids : Option Json.Value}
    (hids : (given "stack_ids").or (joinedStack? given) = ids) (field : String) :
    documentField? given field =
      if field = "stack_ids" then ids
      else if field = "stack_name" ∨ field = "stack_version" then none else given field := by
  rw [documentField?]
  by_cases hfield : field = "stack_ids"
  · subst hfield
    rw [if_neg (by decide), if_pos rfl, if_pos rfl, hids]
  · rw [if_neg hfield, if_neg hfield]

theorem foldStack_spec (fields : SortedMap Json.Value) :
    (BreaksStack fields.get? ∧ foldStack fields = .error .incompleteStack) ∨
      (¬ BreaksStack fields.get? ∧ ∃ folded, foldStack fields = .ok folded ∧
        ∀ field, folded.get? field = documentField? fields.get? field) := by
  have hothers : ∀ field, ((fields.erase "stack_name").erase "stack_version").get? field =
      if field = "stack_name" ∨ field = "stack_version" then none else fields.get? field := by
    intro field
    rw [SortedMap.get?_erase, SortedMap.get?_erase]
    split_ifs <;> simp_all
  have hkept : ∀ ids, fields.get? "stack_ids" = ids →
      (fields.get? "stack_ids").or (joinedStack? fields.get?) = ids → ∀ field,
      ((fields.erase "stack_name").erase "stack_version").get? field =
        documentField? fields.get? field := by
    intro ids hids hor field
    rw [documentField?_eq hor, hothers]
    split_ifs <;> simp_all
  have hcontains : ((fields.erase "stack_name").erase "stack_version").contains "stack_ids" =
      (fields.get? "stack_ids").isSome := by
    rw [SortedMap.contains, hothers, if_neg (by decide)]
  simp only [foldStack, hcontains]
  split
  · next hids =>
      obtain ⟨ids, hids⟩ := Option.isSome_iff_exists.mp hids
      refine .inr ⟨fun h => ?_, _, rfl, hkept _ hids (by rw [hids, Option.some_or])⟩
      exact Option.some_ne_none _ (hids.symm.trans h.1)
  · next hids =>
      rw [Option.not_isSome_iff_eq_none] at hids
      split
      · next hname hversion =>
          refine .inr ⟨fun h => ?_, _, rfl, hkept _ hids ?_⟩
          · exact h.2.1.elim (absurd hname) (absurd hversion)
          · rw [hids, Option.none_or, joinedStack?_of_absent hname]
      · next name version hname hversion =>
          refine .inr ⟨fun h => h.2.2 name version hname hversion, _, rfl, fun field => ?_⟩
          rw [SortedMap.get?_insert, documentField?_eq rfl, hids, Option.none_or,
            joinedStack?_of_texts hname hversion, hothers]
      · next hneither hpair =>
          refine .inl ⟨⟨hids, ?_, hpair⟩, rfl⟩
          by_contra! habsent
          exact hneither habsent.1 habsent.2

theorem foldStack_of_absent {fields : SortedMap Json.Value}
    (hname : fields.get? "stack_name" = none) (hversion : fields.get? "stack_version" = none) :
    foldStack fields = .ok fields := by
  rcases foldStack_spec fields with ⟨hbreaks, -⟩ | ⟨-, folded, hfold, hfields⟩
  · rcases hbreaks.2.1 with hne | hne
    · exact absurd hname hne
    · exact absurd hversion hne
  · obtain rfl : folded = fields := by
      apply SortedMap.ext_get?
      intro field
      rw [hfields, documentField?_eq rfl, joinedStack?_of_absent hname, Option.or_none]
      split_ifs with hids hstack
      · rw [hids]
      · rcases hstack with rfl | rfl
        · exact hname.symm
        · exact hversion.symm
      · rfl
    exact hfold

theorem get?_of_foldStack {fields fields' : SortedMap Json.Value} {name version : String}
    (hname : fields.get? "stack_name" = some (.text name))
    (hversion : fields.get? "stack_version" = some (.text version))
    (hids : fields.get? "stack_ids" = none) (h : foldStack fields = .ok fields') :
    fields'.get? "stack_ids" = some (.array [.text (name ++ "-" ++ version)]) := by
  rcases foldStack_spec fields with ⟨hbreaks, -⟩ | ⟨-, folded, hfold, hfields⟩
  · exact absurd hversion (hbreaks.2.2 name version hname)
  · obtain rfl : folded = fields' := Except.ok.inj (hfold.symm.trans h)
    rw [hfields, documentField?_eq rfl, if_pos rfl, hids, Option.none_or,
      joinedStack?_of_texts hname hversion]

theorem toDocument_of_name {name : String}
    (hname : bag.fields.get? "blueprint_name" = some (.text name)) (hne : name ≠ "") :
    bag.toDocument = (foldStack bag.fields).map fun fields => .object fields.entries := by
  have hempty : name.isEmpty = false := String.isEmpty_eq_false_iff.mpr hne
  simp only [toDocument, hname, hempty]
  rfl

theorem toDocument_eq_ok {v : Json.Value} (h : bag.toDocument = .ok v) :
    ∃ fields, foldStack bag.fields = .ok fields ∧ v = .object fields.entries := by
  rw [toDocument] at h
  split at h
  · split at h
    · nomatch h
    · obtain ⟨fields, hfields, rfl⟩ := Result.map_eq_ok h
      exact ⟨fields, hfields, rfl⟩
  · nomatch h

/-- The document of a bag that spells an object with a name and without a single stack is that
object. -/
theorem toDocument_of_spells (h : bag.Spells members qualified hidden)
    (hmembers : ∀ field ∈ members.map Prod.fst,
      plainName? field = none ∧ field ≠ "stack_name" ∧ field ≠ "stack_version")
    (hsorted : (members.map Prod.fst).Pairwise (· < ·)) {name : String}
    (hname : Json.Value.member? members "blueprint_name" = some (.text name)) (hne : name ≠ "") :
    bag.toDocument = .ok (.object members) := by
  have habsent {key : String} (hkey : key ∉ members.map Prod.fst) :
      (⟨members, hsorted⟩ : SortedMap Json.Value).get? key = none :=
    SortedMap.get?_eq_none_iff.mpr hkey
  have hfields := h.fields_eq (fun field hfield => (hmembers field hfield).1) hsorted
  have hstack : foldStack ⟨members, hsorted⟩ = .ok ⟨members, hsorted⟩ := by
    apply foldStack_of_absent
    · exact habsent fun hkey => (hmembers _ hkey).2.1 rfl
    · exact habsent fun hkey => (hmembers _ hkey).2.2 rfl
  rw [toDocument_of_name (hfields ▸ hname) hne, hfields, hstack, Except.map]

end ClusterBlueprint.PropertyBag
