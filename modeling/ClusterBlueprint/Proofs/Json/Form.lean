import ClusterBlueprint.Proofs.Json.Record
import ClusterBlueprint.Proofs.Text.Pattern

/-!
Forms of JSON values, as schemas describe them. A form says which values it accepts, and is itself
written as a value. Where every value of a form can be decoded the form covers the decoder
(`Form.Covers`); the forms that cover decoders are put together as the decoders are.
-/

namespace ClusterBlueprint.Json

/-- A form of JSON values. An object may have members that are no properties, if they are of the
form of the others. A definition is a form under a name. -/
inductive Form where
  | any
  | never
  | text (nonempty : Bool) (pattern : Option Text.Pattern)
  | oneOf (names : List String)
  | scalar
  | array (nonempty : Bool) (items : Form)
  | object (required : List String) (properties : List (String × Form)) (others : Form)
  | definition (name : String) (form : Form)

namespace Form

/-- Whether a value is of a form. The members of an object are what stands under different keys, in
whatever order. -/
inductive Accepts : Form → Value → Prop where
  | any (v : Value) : Accepts .any v
  | text {nonempty pattern s} : (nonempty = true → s ≠ "") →
      (∀ p, pattern = some p → p.Matches s) → Accepts (.text nonempty pattern) (.text s)
  | oneOf {names name} : name ∈ names → Accepts (.oneOf names) (.text name)
  | scalarText (s : String) : Accepts .scalar (.text s)
  | scalarNumber (n : Number) : Accepts .scalar (.number n)
  | scalarBool (b : Bool) : Accepts .scalar (.bool b)
  | array {nonempty items vs} : (nonempty = true → vs ≠ []) → (∀ v ∈ vs, Accepts items v) →
      Accepts (.array nonempty items) (.array vs)
  | object {required properties others members} : (members.map Prod.fst).Nodup →
      (∀ key ∈ required, Value.member? members key ≠ none) →
      (∀ property ∈ properties, ∀ v, Value.member? members property.1 = some v →
        Accepts property.2 v) →
      (∀ key v, key ∉ properties.map Prod.fst → Value.member? members key = some v →
        Accepts others v) →
      Accepts (.object required properties others) (.object members)
  | definition {name form v} : Accepts form v → Accepts (.definition name form) v

def one : Value :=
  .number (.whole 1 ⟨by decide, by decide⟩)

def textMembers (nonempty : Bool) (pattern : Option Text.Pattern) : List (String × Value) :=
  Value.memberUnless (!nonempty) "minLength" one ++
    match pattern with
    | some p => [("pattern", .text p.text)]
    | none => []

/-- What is said about the members that are no properties; that they may be anything goes without
saying. -/
def otherMembers (others : Form) (value : Value) : List (String × Value) :=
  match others with
  | .any => []
  | _ => [("additionalProperties", value)]

mutual

def toValue : Form → Value
  | .any => .bool true
  | .never => .bool false
  | .text nonempty pattern => .object (("type", .text "string") :: textMembers nonempty pattern)
  | .oneOf names => .object [("enum", .array (names.map .text))]
  | .scalar => .object [("type", .array [.text "string", .text "number", .text "boolean"])]
  | .array nonempty items =>
      .object (("type", .text "array") :: Value.memberUnless (!nonempty) "minItems" one ++
        [("items", items.toValue)])
  | .object required properties others =>
      .object (("type", .text "object") ::
        Value.memberUnless required.isEmpty "required" (.array (required.map .text)) ++
        Value.memberUnless properties.isEmpty "properties" (.object (propertyMembers properties)) ++
        otherMembers others others.toValue)
  | .definition name _ => .object [("$ref", .text ("#/definitions/" ++ name))]

def propertyMembers : List (String × Form) → List (String × Value)
  | [] => []
  | (key, form) :: properties => (key, form.toValue) :: propertyMembers properties

end

def definitionMember? : Form → Option (String × Value)
  | .definition name form => some (name, form.toValue)
  | _ => none

/-- The order of members makes no difference to a form. -/
theorem Accepts.sorted {f : Form} {v : Value} (h : f.Accepts v) : f.Accepts v.sorted := by
  induction h with
  | any v => exact .any _
  | text hnonempty hpattern => exact .text hnonempty hpattern
  | oneOf hname => exact .oneOf hname
  | scalarText s => exact .scalarText s
  | scalarNumber n => exact .scalarNumber n
  | scalarBool b => exact .scalarBool b
  | array hnonempty _ ih =>
      rw [Value.sorted_array]
      refine .array (fun h => ?_) (List.forall_mem_map.mpr ih)
      rw [ne_eq, List.map_eq_nil_iff]
      exact hnonempty h
  | object hkeys hrequired _ _ ihproperties ihothers =>
      rw [Value.sorted_object]
      have hmember := Value.member?_arrange_sortedMembers hkeys
      refine .object (SortedMap.nodup_of_sorted (Value.sorted_keys_arrange _)) ?_ ?_ ?_
      · intro key hkey
        rw [hmember, ne_eq, Option.map_eq_none_iff]
        exact hrequired key hkey
      · intro property hproperty v hv
        rw [hmember] at hv
        obtain ⟨w, hw, rfl⟩ := Option.map_eq_some_iff.mp hv
        exact ihproperties property hproperty w hw
      · intro key v hkey hv
        rw [hmember] at hv
        obtain ⟨w, hw, rfl⟩ := Option.map_eq_some_iff.mp hv
        exact ihothers key w hkey hw
  | definition _ ih => exact .definition ih

theorem accepts_text (s : String) : Accepts (.text false none) (.text s) :=
  .text nofun nofun

theorem accepts_nonempty {s : String} (h : s ≠ "") : Accepts (.text true none) (.text s) :=
  .text (fun _ => h) nofun

theorem accepts_pattern {p : Text.Pattern} {s : String} (h : p.Matches s) :
    Accepts (.text false (some p)) (.text s) := by
  refine .text nofun ?_
  rintro _ ⟨⟩
  exact h

theorem accepts_array {items : Form} {vs : List Value} (h : ∀ v ∈ vs, items.Accepts v) :
    Accepts (.array false items) (.array vs) :=
  .array nofun h

/-- An object without properties, all of whose members are of one form. -/
theorem accepts_entries {values : Form} {α : Type} (m : OrderedMap String α) {f : α → Value}
    (h : ∀ a, values.Accepts (f a)) :
    Accepts (.object [] [] values) (.object (m.entries.map fun (key, a) => (key, f a))) := by
  refine .object ?_ (List.forall_mem_nil _) (List.forall_mem_nil _) ?_
  · rw [List.map_map]
    exact m.distinct
  · intro key v _ hv
    rw [Decoder.member?_map_entries] at hv
    obtain ⟨a, -, rfl⟩ := Option.map_eq_some_iff.mp hv
    exact h a

variable {α β : Type}

def Covers (f : Form) (d : Decoder α) : Prop :=
  ∀ v, f.Accepts v → ∃ a, d.ofValue v = .ok a

theorem covers_value (f : Form) : f.Covers .value :=
  fun v _ => ⟨v, rfl⟩

theorem covers_text (nonempty : Bool) (pattern : Option Text.Pattern) :
    Covers (.text nonempty pattern) .text := by
  rintro _ ⟨⟩
  exact ⟨_, rfl⟩

theorem covers_property : Covers .scalar .property := by
  intro v hv
  cases hv with
  | scalarText s => exact ⟨s, rfl⟩
  | scalarNumber n => exact ⟨n.toText, rfl⟩
  | scalarBool b => cases b <;> exact ⟨_, rfl⟩

theorem covers_variant (variants : List (String × α)) :
    Covers (.oneOf (variants.map Prod.fst)) (.variant variants) := by
  intro v hv
  cases hv with
  | oneOf hname =>
      obtain ⟨entry, hentry, rfl⟩ := List.mem_map.mp hname
      obtain ⟨a, ha⟩ : ∃ a, variants.lookup entry.1 = some a := by
        rw [← Option.isSome_iff_exists, List.lookup_isSome_iff]
        exact ⟨entry, hentry, beq_self_eq_true _⟩
      refine ⟨a, ?_⟩
      simp only [Decoder.variant, Decoder.findVariant, ha]

theorem Covers.definition {f : Form} {d : Decoder α} (h : f.Covers d) (name : String) :
    Covers (.definition name f) d := by
  intro v hv
  cases hv with
  | definition hv => exact h v hv

theorem Covers.nullable {f : Form} {d : Decoder α} (h : f.Covers d) : f.Covers d.nullable := by
  intro v hv
  by_cases hnull : v = .null
  · subst hnull
    exact ⟨none, rfl⟩
  · obtain ⟨a, ha⟩ := h v hv
    refine ⟨some a, ?_⟩
    rw [Decoder.nullable_ofValue hnull, ha]
    rfl

theorem Covers.map {f : Form} {d : Decoder α} (h : f.Covers d) (g : α → β) :
    f.Covers (.map g d) := by
  intro v hv
  obtain ⟨a, ha⟩ := h v hv
  exact ⟨g a, congrArg (Except.map g) ha⟩

theorem Covers.list {items : Form} {d : Decoder α} (h : items.Covers d) (nonempty : Bool) :
    Covers (.array nonempty items) d.list := by
  intro v hv
  cases hv with
  | array _ hitems =>
      obtain ⟨as, has⟩ := Decoder.exists_forall₂ fun v hv => h v (hitems v hv)
      exact ⟨as, Decoder.ofItems_eq_ok_iff.mpr has⟩

theorem Covers.orderedMap {values : Form} {d : Decoder α} (h : values.Covers d) :
    Covers (.object [] [] values) d.orderedMap := by
  intro v hv
  cases hv with
  | object hkeys _ _ hothers =>
      obtain ⟨m, hm, -⟩ := Decoder.orderedMap_ofValue (d := d) hkeys fun m hm =>
        h m.2 (hothers m.1 m.2 List.not_mem_nil (SortedMap.lookupEntry_of_mem hkeys hm))
      exact ⟨m, hm⟩

end Form

/-- Whether fields are covered, one by one, by properties of their names. Those that are not required
may be absent. -/
def Fields.CoveredBy (required : List String) : List (String × Form) → Fields → Prop
  | [], .nil => True
  | (key, form) :: properties, .cons name decoder absent rest =>
      key = name ∧ form.Covers decoder ∧ (absent = none → name ∈ required) ∧
        rest.CoveredBy required properties
  | _, _ => False

theorem Fields.CoveredBy.exists_gives {required : List String} {properties : List (String × Form)}
    {fields : Fields} (h : fields.CoveredBy required properties) {members : List (String × Value)}
    (hrequired : ∀ key ∈ required, Value.member? members key ≠ none)
    (hproperties : ∀ property ∈ properties, ∀ v,
      Value.member? members property.1 = some v → property.2.Accepts v) :
    ∃ row, fields.Gives Fields.converts members row := by
  induction fields generalizing properties with
  | nil => exact ⟨(), trivial⟩
  | cons name decoder absent rest ih =>
      cases properties with
      | nil => exact h.elim
      | cons property properties =>
          obtain ⟨hname, hcovers, habsent, hrest⟩ := h
          rw [List.forall_mem_cons, hname] at hproperties
          obtain ⟨row, hrow⟩ := ih hrest hproperties.2
          cases hv : Value.member? members name with
          | some v =>
              obtain ⟨a, ha⟩ := hcovers v (hproperties.1 v hv)
              refine ⟨(a, row), ?_, hrow⟩
              rw [hv]
              exact ha
          | none =>
              cases absent with
              | none => exact absurd hv (hrequired name (habsent rfl))
              | some a =>
                  refine ⟨(a, row), ?_, hrow⟩
                  rw [hv]

theorem Form.covers_record {required : List String} {properties : List (String × Form)}
    {others : Form} {fields : Fields} (hnames : fields.names.Nodup)
    (h : fields.CoveredBy required properties) {β : Type} (name : String)
    (build : fields.Row → β) :
    Covers (.object required properties others) (.record name fields build) := by
  intro v hv
  cases hv with
  | object hkeys hrequired hproperties _ =>
      obtain ⟨row, hrow⟩ := h.exists_gives hrequired hproperties
      exact ⟨build row, (Decoder.ofValue_record_eq_ok_iff hnames hkeys).mpr ⟨row, hrow, rfl⟩⟩

end ClusterBlueprint.Json
