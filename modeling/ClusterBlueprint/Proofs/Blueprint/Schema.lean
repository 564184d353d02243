import ClusterBlueprint.Blueprint.Schema
import ClusterBlueprint.Proofs.Blueprint.Violations
import ClusterBlueprint.Proofs.Json.Form
import ClusterBlueprint.Proofs.StackId

/-!
The schema of blueprint documents. It is the written form of `Blueprint.form` (`Schema.parse_text`).
What a proper blueprint is encoded to is of this form (`Blueprint.accepts_toValue`), and what is of
this form the decoder of blueprints takes (`Blueprint.form_covers`).
-/

namespace ClusterBlueprint

open Json (Value Form Decoder Fields)

def StackId.form : Form :=
  .definition "StackId" (.text false (some pattern))

def Component.form : Form :=
  .definition "Component" (.object ["name"]
    [("name", .text true none),
      ("provision_action", .oneOf ["INSTALL_ONLY", "START_ONLY", "INSTALL_AND_START"])] .any)

def GroupEntry.form : Form :=
  .object []
    [("properties", .object [] [] .scalar),
      ("properties_attributes", .object [] [] (.object [] [] .scalar))] .never

def Configuration.form : Form :=
  .definition "Configurations" (.array false (.object [] [] GroupEntry.form))

def HostGroup.form : Form :=
  .definition "HostGroup" (.object ["name"]
    [("name", .text true none), ("kind", .text false none), ("cardinality", .text false none),
      ("components", .array false Component.form), ("configurations", Configuration.form)] .any)

def Security.form : Form :=
  .definition "Security" (.object []
    [("type", .oneOf ["NONE", "KERBEROS", "CUSTOM"]),
      ("security_descriptor_reference", .text false none)] .any)

def Blueprint.form : Form :=
  .object ["blueprint_name"]
    [("blueprint_name", .text false (some namePattern)), ("stack_ids", .array true StackId.form),
      ("host_groups", .array false HostGroup.form), ("configurations", Configuration.form),
      ("settings", .array false (.object [] [] .any)), ("security", Security.form)] .any

namespace Schema

def definitions : List Form :=
  [StackId.form, HostGroup.form, Component.form, Configuration.form, Security.form]

/-- The form of blueprints as a schema, with a title and the definitions that it refers to. -/
def document : Value :=
  match Blueprint.form.toValue with
  | .object members =>
      .object (("$schema", .text "http://json-schema.org/draft-07/schema#") ::
        ("title", .text "Blueprint") :: members ++
        [("definitions", .object (definitions.filterMap Form.definitionMember?))])
  | v => v

theorem toList_text : text.toList = lines.flatMap fun line => line.toList ++ ['\n'] := by
  simp [text, List.flatMap_map]

/-- The schema that is handed out is the form of blueprints in writing. -/
theorem parse_text : Json.parse (Utf8.encode text) = .ok document.sorted := by
  rw [Utf8.encode, toList_text, lines]
  simp only [List.flatMap_cons, List.flatMap_nil]
  -- One literal after the other, for to decode them all at once takes far longer.
  repeat rw [String.toList_ofList]
  decide +kernel

end Schema

theorem accepts_optionalText {value : Option String} (v : Value)
    (h : value.map Value.text = some v) : Form.Accepts (.text false none) v := by
  obtain ⟨s, -, rfl⟩ := Option.map_eq_some_iff.mp h
  exact Form.accepts_text s

/-- A member that is left out at times is of its form where it is not. -/
theorem accepts_unless {absent : Bool} {w : Value} {f : Form} (hw : f.Accepts w) (v : Value)
    (h : (if absent = true then none else some w) = some v) : f.Accepts v := by
  cases absent with
  | true => nomatch h
  | false =>
      cases h
      exact hw

theorem ne_empty_of_not_blank {s : String} (h : Text.isBlankText s = false) : s ≠ "" := by
  rintro rfl
  nomatch h

theorem StackId.accepts_toValue (id : StackId) : form.Accepts id.toValue :=
  .definition (Form.accepts_pattern (matches_pattern_iff.mpr ⟨id, rfl⟩))

theorem Component.accepts_toValue {c : Component} (hname : Text.isBlankText c.name = false) :
    form.Accepts c.toValue := by
  obtain ⟨name, action⟩ := c
  have haction (a : ProvisionAction) :
      Form.Accepts (.oneOf ["INSTALL_ONLY", "START_ONLY", "INSTALL_AND_START"]) a.toValue := by
    apply Form.Accepts.oneOf
    cases a <;> decide
  refine .definition (.object ?_ ?_ ?_ fun _ v _ _ => .any v)
  · cases action <;> simp
  · exact List.forall_mem_singleton.mpr nofun
  · refine List.forall_mem_cons.mpr ⟨?_, List.forall_mem_singleton.mpr ?_⟩
    · rintro _ ⟨⟩
      exact Form.accepts_nonempty (ne_empty_of_not_blank hname)
    · intro v hv
      cases action with
      | none => nomatch hv
      | some a =>
          cases hv
          exact haction a

theorem Security.accepts_toValue (s : Security) : form.Accepts s.toValue := by
  obtain ⟨type, descriptorReference⟩ := s
  have htype : Form.Accepts (.oneOf ["NONE", "KERBEROS", "CUSTOM"]) type.toValue := by
    apply Form.Accepts.oneOf
    cases type <;> decide
  refine .definition (.object ?_ (List.forall_mem_nil _) ?_ fun _ v _ _ => .any v)
  · cases descriptorReference <;> simp [optionalText]
  · refine List.forall_mem_cons.mpr ⟨?_, List.forall_mem_singleton.mpr ?_⟩
    · rintro _ ⟨⟩
      exact htype
    · intro v hv
      rw [Value.member?_cons, if_neg (by decide), member?_optionalText, if_pos rfl] at hv
      exact accepts_optionalText v hv

theorem GroupEntry.accepts_textMembers (m : OrderedMap String String) :
    Form.Accepts (.object [] [] .scalar) (textMembers m) :=
  Form.accepts_entries m fun s => .scalarText s

theorem GroupEntry.accepts_toValue (e : GroupEntry) : form.Accepts e.toValue := by
  obtain ⟨hproperties, hattributes⟩ := e.member?_members
  rw [toValue_eq]
  refine .object e.nodup_keys_members (List.forall_mem_nil _) ?_ ?_
  · refine List.forall_mem_cons.mpr ⟨?_, List.forall_mem_singleton.mpr ?_⟩
    · rw [hproperties]
      exact accepts_unless (accepts_textMembers e.properties)
    · rw [hattributes]
      exact accepts_unless (Form.accepts_entries e.attributes accepts_textMembers)
  · intro key v hkey hv
    have hmem := List.mem_map_of_mem (f := Prod.fst) (SortedMap.mem_of_lookupEntry hv)
    exact absurd (e.keys_members_sublist.mem hmem) hkey

theorem Configuration.accepts_toValue (c : Configuration) : form.Accepts c.toValue := by
  refine .definition (Form.accepts_array (List.forall_mem_map.mpr ?_))
  rintro ⟨group, properties⟩ -
  refine .object (List.nodup_singleton _) (List.forall_mem_nil _) (List.forall_mem_nil _) ?_
  intro key v _ hv
  rw [Value.member?_cons] at hv
  split at hv
  · cases hv
    exact GroupEntry.accepts_toValue _
  · nomatch hv

theorem HostGroup.accepts_toValue {g : HostGroup} (hname : Text.isBlankText g.name = false)
    (hcomponents : ∀ c ∈ g.components, Text.isBlankText c.name = false) :
    form.Accepts g.toValue := by
  obtain ⟨hname', hkind, hcardinality, hcomponents', hconfiguration⟩ := g.member?_members
  have hcomponent : ∀ v ∈ g.components.map Component.toValue, Component.form.Accepts v :=
    List.forall_mem_map.mpr fun c hc => Component.accepts_toValue (hcomponents c hc)
  rw [toValue_eq]
  refine .definition (.object g.nodup_keys_members ?_ ?_ fun _ v _ _ => .any v)
  · refine List.forall_mem_singleton.mpr ?_
    rw [hname']
    exact Option.some_ne_none _
  · simp only [List.forall_mem_cons]
    refine ⟨?_, ?_, ?_, ?_, ?_, List.forall_mem_nil _⟩
    · rw [hname']
      rintro _ ⟨⟩
      exact Form.accepts_nonempty (ne_empty_of_not_blank hname)
    · rw [hkind]
      exact accepts_optionalText
    · rw [hcardinality]
      exact accepts_optionalText
    · rw [hcomponents']
      exact accepts_unless (Form.accepts_array hcomponent)
    · rw [hconfiguration]
      exact accepts_unless g.configuration.accepts_toValue

namespace Blueprint

/-- A proper blueprint is encoded to what the schema describes. -/
theorem accepts_toValue {b : Blueprint} (h : b.IsProper) : form.Accepts b.toValue := by
  obtain ⟨hname, hstackIds, hhostGroups, hconfiguration, hsettings, hsecurity⟩ := b.member?_members
  have hids : b.stackIds.values ≠ [] := by
    rw [ne_eq, ← List.isEmpty_iff, OrderedMap.isEmpty_values, OrderedMap.isEmpty_eq_true_iff]
    exact h.declares_stacks
  have hgroups : ∀ v ∈ b.hostGroups.map HostGroup.toValue, HostGroup.form.Accepts v :=
    List.forall_mem_map.mpr fun g hg => HostGroup.accepts_toValue
      (h.hostGroups.named.not_blank g hg) (h.hostGroups.components g hg).not_blank
  have hentries : ∀ v ∈ b.settings.map settingsValue, Form.Accepts (.object [] [] .any) v := by
    refine List.forall_mem_map.mpr fun entry _ => ?_
    exact .object entry.distinct (List.forall_mem_nil _) (List.forall_mem_nil _)
      fun _ v _ _ => .any v
  rw [toValue_eq]
  refine .object b.nodup_keys_members ?_ ?_ fun _ v _ _ => .any v
  · refine List.forall_mem_singleton.mpr ?_
    rw [hname]
    exact Option.some_ne_none _
  · simp only [List.forall_mem_cons]
    refine ⟨?_, ?_, ?_, ?_, ?_, ?_, List.forall_mem_nil _⟩
    · rw [hname]
      rintro _ ⟨⟩
      exact Form.accepts_pattern h.name_matches
    · rw [hstackIds]
      rintro _ ⟨⟩
      refine .array (fun _ => ?_) (List.forall_mem_map.mpr fun id _ => id.accepts_toValue)
      rwa [ne_eq, List.map_eq_nil_iff]
    · rw [hhostGroups]
      rintro _ ⟨⟩
      exact Form.accepts_array hgroups
    · rw [hconfiguration]
      exact accepts_unless b.configuration.accepts_toValue
    · rw [hsettings]
      exact accepts_unless (Form.accepts_array hentries)
    · rw [hsecurity]
      rintro _ ⟨⟩
      exact b.security.accepts_toValue

end Blueprint

theorem StackId.form_covers : form.Covers decoder := by
  refine Form.Covers.definition ?_ _
  intro v hv
  cases hv with
  | text _ hpattern =>
      obtain ⟨id, hid⟩ := matches_pattern_iff.mp (hpattern pattern rfl)
      subst hid
      exact ⟨id, decoder_ofValue_toValue id⟩

theorem ProvisionAction.form_covers :
    Form.Covers (.oneOf ["INSTALL_ONLY", "START_ONLY", "INSTALL_AND_START"]) decoder :=
  Form.covers_variant (all.map fun a : ProvisionAction => (a.name, a))

theorem SecurityType.form_covers : Form.Covers (.oneOf ["NONE", "KERBEROS", "CUSTOM"]) decoder :=
  Form.covers_variant (all.map fun t : SecurityType => (t.name, t))

theorem Component.form_covers : form.Covers decoder := by
  refine Form.Covers.definition (Form.covers_record (by decide) ?_ _ _) _
  exact ⟨rfl, Form.covers_text _ _, fun _ => .head _,
    rfl, ProvisionAction.form_covers.nullable, nofun, trivial⟩

theorem GroupEntry.form_covers : form.Covers decoder := by
  refine Form.covers_record (by decide) ?_ _ _
  exact ⟨rfl, Form.covers_property.orderedMap, nofun,
    rfl, Form.covers_property.orderedMap.orderedMap, nofun, trivial⟩

theorem Configuration.form_covers : form.Covers decoder :=
  ((GroupEntry.form_covers.orderedMap.list false).map _).definition _

theorem HostGroup.form_covers : form.Covers decoder := by
  refine Form.Covers.definition (Form.covers_record (by decide) ?_ _ _) _
  exact ⟨rfl, Form.covers_text _ _, fun _ => .head _,
    rfl, (Form.covers_text _ _).nullable, nofun,
    rfl, (Form.covers_text _ _).nullable, nofun,
    rfl, Component.form_covers.list false, nofun,
    rfl, Configuration.form_covers, nofun, trivial⟩

theorem Security.form_covers : form.Covers decoder := by
  refine Form.Covers.definition (Form.covers_record (by decide) ?_ _ _) _
  exact ⟨rfl, SecurityType.form_covers, nofun,
    rfl, (Form.covers_text _ _).nullable, nofun, trivial⟩

theorem Blueprint.form_covers : form.Covers decoder := by
  refine Form.covers_record (by decide) ?_ _ _
  exact ⟨rfl, (Form.covers_text _ _).nullable.map _, nofun,
    rfl, (StackId.form_covers.list true).map _, nofun,
    rfl, HostGroup.form_covers.list false, nofun,
    rfl, Configuration.form_covers, nofun,
    rfl, (Form.covers_value .any).orderedMap.list false, nofun,
    rfl, Security.form_covers, nofun, trivial⟩

end ClusterBlueprint
