import ClusterBlueprint.Proofs.Codec.Decoded
import ClusterBlueprint.Proofs.Codec.PropertyBag
import ClusterBlueprint.Proofs.Compiler.Requests
import ClusterBlueprint.Proofs.Json.Reader
import ClusterBlueprint.Proofs.Json.Sorted

namespace ClusterBlueprint

open Json (Value)

namespace Compiler

variable {σ : Type}

section

variable {c : Compiler σ} {bag : PropertyBag} {name version : String}

theorem stack_of_fromProperties_eq_ok
    (hname : bag.effective? "stack_name" = some (.text name))
    (hversion : bag.effective? "stack_version" = some (.text version))
    (hids : bag.effective? "stack_ids" = none) {security : Option Security}
    {r : ResolvedBlueprint} {s s' : σ} (h : c.fromProperties bag security s = (.ok r, s')) :
    ∃ id, r.blueprint.stackIds.entries = [(id.display, id)] ∧
      id.display = StackId.join name version := by
  obtain ⟨v, b, n, hdocument, hdecode, hnormal, hresolve⟩ := fromProperties_eq_ok h
  obtain ⟨fields, hfold, rfl⟩ := PropertyBag.toDocument_eq_ok hdocument
  rw [← PropertyBag.get?_fields (by decide)] at hname hversion hids
  obtain ⟨ids, hread, hstackIds⟩ := Codec.stackIds_of_decodeValue
    (SortedMap.nodup_of_sorted fields.sorted) hdecode
    (PropertyBag.get?_of_foldStack hname hversion hids hfold)
  obtain ⟨id, hid, rfl⟩ := StackId.ofValue_singleton hread
  refine ⟨id, ?_, hid⟩
  rw [StackRegistry.blueprint_of_resolveAll hresolve, (Blueprint.normalize_eq_ok_iff.mp hnormal).2]
  simp only [Blueprint.fill, hstackIds]
  rw [Blueprint.stackMap_values_stackMap]
  rfl

variable (c) in
/-- The stack that a bag declares by a name and a version is the stack of that name and version
exactly if the name has no dash. In this case the bag is refused when there is no such stack. -/
theorem stackIds_of_fromProperties
    (hname : bag.effective? "stack_name" = some (.text name))
    (hversion : bag.effective? "stack_version" = some (.text version))
    (hids : bag.effective? "stack_ids" = none) (security : Option Security) (s : σ) :
    (∀ r s', c.fromProperties bag security s = (.ok r, s') →
        ∃ id, r.blueprint.stackIds.entries = [(id.display, id)] ∧
          id.display = StackId.join name version ∧
          (StackId.make name version = .ok id ↔ '-' ∉ name.toList)) ∧
      ('-' ∉ name.toList → ∀ invalid, StackId.make name version = .error invalid →
        ∃ e s', c.fromProperties bag security s = (.error e, s')) := by
  constructor
  · intro r s' h
    obtain ⟨id, hentries, hdisplay⟩ := stack_of_fromProperties_eq_ok hname hversion hids h
    exact ⟨id, hentries, hdisplay, StackId.make_eq_ok_iff_of_display hdisplay⟩
  · intro hdash invalid hinvalid
    rcases h : c.fromProperties bag security s with ⟨e | r, s'⟩
    · exact ⟨e, s', rfl⟩
    · obtain ⟨id, -, hdisplay⟩ := stack_of_fromProperties_eq_ok hname hversion hids h
      rw [(StackId.make_eq_ok_iff_of_display hdisplay).mpr hdash] at hinvalid
      cases hinvalid

end

theorem stackIds_of_fromProperties_sample :
    ∃ r t id, sample.fromProperties PropertyBag.sample none (StackShelf.sample, ∅) = (.ok r, t) ∧
      StackId.make "HDP" "3.0" = .ok id ∧ r.blueprint.stackIds.entries = [(id.display, id)] := by
  have hname : PropertyBag.sample.effective? "stack_name" = some (.text "HDP") := rfl
  have hversion : PropertyBag.sample.effective? "stack_version" = some (.text "3.0") := rfl
  obtain ⟨hdeclared, -⟩ :=
    stackIds_of_fromProperties sample hname hversion rfl none (StackShelf.sample, ∅)
  obtain ⟨id, hentries, -, hmake⟩ := hdeclared _ _ rfl
  exact ⟨_, _, id, rfl, hmake.mpr (by decide), hentries⟩

def dashedBag : PropertyBag :=
  .ofList [("blueprint_name", .text "demo"), ("stack_name", .text "HDP-X"),
    ("stack_version", .text "3.0")]

/-- A name with a dash and a version are no stack, and yet the bag is answered, with a stack of
another name and version. -/
theorem fromProperties_dashedBag :
    dashedBag.effective? "stack_name" = some (.text "HDP-X") ∧
      dashedBag.effective? "stack_version" = some (.text "3.0") ∧
      dashedBag.effective? "stack_ids" = none ∧
      StackId.make "HDP-X" "3.0" = .error ⟨"HDP-X-3.0"⟩ ∧
      ∃ r t, sample.fromProperties dashedBag none
          (StackShelf.ofDescriptions [⟨"HDP", "X-3.0", ∅, ∅⟩], ∅) = (.ok r, t) ∧
        r.blueprint.stackIds.values.map (fun id => (id.name, id.version)) = [("HDP", "X-3.0")] := by
  refine ⟨rfl, rfl, rfl, rfl, ?_⟩
  exact ⟨_, _, rfl, rfl⟩

theorem fromCodec_bind {α β : Type} (x : Except CodecError α) (f : α → Except CodecError β) :
    (fromCodec (x >>= f) : Compile σ β) = fromCodec x >>= fun a => fromCodec (f a) := by
  cases x with
  | error e => rfl
  | ok a => rfl

/-- However a bag spells an object, it is answered like any text of the object. -/
theorem fromProperties_eq_fromDocument (c : Compiler σ) {text : Bytes}
    {members : List (String × Value)} (htext : Json.parse text = .ok (.object members))
    {name : String} (hname : Value.member? members "blueprint_name" = some (.text name))
    (hne : name ≠ "")
    (hmembers : ∀ field ∈ members.map Prod.fst,
      ¬ "Blueprints/".toList <+: field.toList ∧ field ≠ "stack_name" ∧ field ≠ "stack_version")
    {qualified : List String} {hidden : List (String × Value)} {bag : PropertyBag}
    (hbag : bag.Spells members qualified hidden) :
    c.fromProperties bag none = c.fromDocument text := by
  have hsorted := (Value.isSorted_object.mp (Json.isSorted_of_parse htext)).1
  have hdocument : bag.toDocument = .ok (.object members) := by
    apply PropertyBag.toDocument_of_spells hbag ?_ hsorted hname hne
    intro field hfield
    obtain ⟨hfront, hstack⟩ := hmembers field hfield
    exact ⟨PropertyBag.plainName?_of_not_front hfront, hstack⟩
  have hproperties : c.fromProperties bag none =
      (do
        let b ← fromCodec (c.codec.decodeValue (.object members))
        let n ← fromCodec (Codec.normalize b)
        c.finish n) := by
    rw [fromProperties, hdocument]
    rfl
  rw [hproperties, fromDocument, Codec.decode_of_parse htext, fromCodec_bind, bind_assoc]

def namedObject : List (String × Value) :=
  [("blueprint_name", .text "demo"), ("stack_ids", .array [.text "HDP-3.0"])]

def spelledBag : PropertyBag :=
  .ofList [("Blueprints/stack_ids", .array [.text "HDP-3.0"]), ("Blueprints/blueprint_name", .null),
    ("blueprint_name", .text "demo")]

theorem spells_spelledBag :
    spelledBag.Spells namedObject ["stack_ids"] [("blueprint_name", .null)] where
  entries := List.perm_append_singleton _ [_, _]
  hides := by simp [namedObject]

theorem fromProperties_eq_fromDocument_sample :
    ∃ r t, sample.fromProperties spelledBag none (StackShelf.sample, ∅) = (.ok r, t) ∧
      sample.fromDocument (Utf8.encode ((Value.object namedObject).toText .indented))
        (StackShelf.sample, ∅) = (.ok r, t) := by
  have hsorted : (Value.object namedObject).sorted = .object namedObject :=
    Value.sorted_of_isSorted (by decide)
  have htext : Json.parse (Utf8.encode ((Value.object namedObject).toText .indented)) =
      .ok (.object namedObject) := by
    rw [Json.parse_toText (by decide) (by decide), hsorted]
  have hname : Value.member? namedObject "blueprint_name" = some (.text "demo") := rfl
  have hmembers : ∀ field ∈ namedObject.map Prod.fst,
      ¬ "Blueprints/".toList <+: field.toList ∧ field ≠ "stack_name" ∧ field ≠ "stack_version" := by
    simp only [namedObject]
    decide
  have hequal :=
    fromProperties_eq_fromDocument sample htext hname (by decide) hmembers spells_spelledBag
  rw [← hequal]
  exact ⟨_, _, rfl, rfl⟩

end Compiler

end ClusterBlueprint
