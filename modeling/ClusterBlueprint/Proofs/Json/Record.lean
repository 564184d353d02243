import ClusterBlueprint.Json.Record
import ClusterBlueprint.Proofs.Json.Decoder
import ClusterBlueprint.Proofs.Result

namespace ClusterBlueprint.Json

namespace Fields

def names : Fields → List String
  | .nil => []
  | .cons name _ _ rest => name :: rest.names

/-- Whether every field has its value from the member of its name, by a relation between decoders,
values and results; a field without a member has the value for its absence. -/
def Gives (decodes : (α : Type) → Decoder α → Value → α → Prop) (members : List (String × Value)) :
    (fields : Fields) → fields.Row → Prop
  | .nil, _ => True
  | .cons (α := α) name decoder absent rest, (a, row) =>
      (match Value.member? members name with
        | some v => decodes α decoder v a
        | none => absent = some a) ∧ rest.Gives decodes members row

def foundAmong (seen : List String) : (fields : Fields) → fields.Row → fields.Slots
  | .nil, _ => ()
  | .cons name _ _ rest, (a, row) =>
      (if name ∈ seen then some a else none, rest.foundAmong seen row)

theorem foundAmong_nil (fields : Fields) (row : fields.Row) :
    fields.foundAmong [] row = fields.vacant := by
  induction fields with
  | nil => rfl
  | cons name decoder absent rest ih =>
      obtain ⟨a, row⟩ := row
      rw [foundAmong, ih row, if_neg List.not_mem_nil]
      rfl

theorem foundAmong_cons_of_not_mem {fields : Fields} {key : String} (h : key ∉ fields.names)
    (seen : List String) (row : fields.Row) :
    fields.foundAmong (key :: seen) row = fields.foundAmong seen row := by
  induction fields with
  | nil => rfl
  | cons name decoder absent rest ih =>
      obtain ⟨a, row⟩ := row
      rw [names, List.mem_cons, not_or] at h
      have hmem : name ∈ key :: seen ↔ name ∈ seen := by
        rw [List.mem_cons, or_iff_right fun heq => h.1 heq.symm]
      rw [foundAmong, ih h.2 row]
      simp only [hmem]
      rfl

variable {decodes : (α : Type) → Decoder α → Value → α → Prop} {ε : Type}

/-- A member fills the slot of its field, if there is such a field. -/
theorem fill_foundAmong {fields : Fields} (hnames : fields.names.Nodup) {row : fields.Row}
    {members : List (String × Value)} (hrow : fields.Gives decodes members row) {key : String}
    {v : Value} (hv : Value.member? members key = some v) {seen : List String} (hseen : key ∉ seen)
    (refuse : Fault → Except ε Bytes) (decode : {α : Type} → Decoder α → Except ε (α × Bytes))
    {bytes : Bytes}
    (hdecode : ∀ {α : Type} (d : Decoder α) (a : α), decodes α d v a → decode d = .ok (a, bytes)) :
    fields.fill refuse decode key (fields.foundAmong seen row) =
      if key ∈ fields.names then some (.ok (fields.foundAmong (key :: seen) row, bytes))
      else none := by
  induction fields with
  | nil => simp [fill, names]
  | cons name decoder absent rest ih =>
      obtain ⟨a, row⟩ := row
      obtain ⟨hfield, hrest⟩ := hrow
      rw [names, List.nodup_cons] at hnames
      by_cases hkey : key = name
      · subst hkey
        rw [hv] at hfield
        simp [foundAmong, fill, names, hseen, hdecode decoder a hfield, Except.map,
          foundAmong_cons_of_not_mem hnames.1]
      · have hne : ¬ name = key := fun heq => hkey heq.symm
        have hseen' : name ∈ key :: seen ↔ name ∈ seen := by
          rw [List.mem_cons, or_iff_right hne]
        simp only [foundAmong, fill, ih hnames.2 hrest, names, List.mem_cons, hkey, if_false,
          false_or, hseen']
        by_cases hmem : key ∈ rest.names
        · rw [if_pos hmem, if_pos hmem]
          rfl
        · rw [if_neg hmem, if_neg hmem]
          rfl

theorem complete_foundAmong {fields : Fields} {row : fields.Row} {members : List (String × Value)}
    (hrow : fields.Gives decodes members row) {seen : List String}
    (hseen : ∀ name, name ∈ seen ↔ name ∈ members.map Prod.fst) :
    fields.complete (fields.foundAmong seen row) = .ok row := by
  induction fields with
  | nil => rfl
  | cons name decoder absent rest ih =>
      obtain ⟨a, row⟩ := row
      obtain ⟨hfield, hrest⟩ := hrow
      cases hv : Value.member? members name with
      | none =>
          rw [hv] at hfield
          have hname : name ∉ seen := by
            rw [hseen]
            exact SortedMap.lookupEntry_eq_none_iff.mp hv
          simp [foundAmong, complete, hname, hfield, ih hrest, Except.map]
      | some v =>
          have hname : name ∈ seen := by
            rw [hseen]
            exact List.mem_map.mpr ⟨_, SortedMap.mem_of_lookupEntry hv, rfl⟩
          simp [foundAmong, complete, hname, ih hrest, Except.map]

/-- Fields have the values that they have from other members, if every member of theirs has a
counterpart. -/
theorem Gives.transfer {decodes' : (α : Type) → Decoder α → Value → α → Prop} {f : Value → Value}
    (hdecodes : ∀ α d v a, decodes α d v a → decodes' α d (f v) a) {fields : Fields}
    {members members' : List (String × Value)}
    (hmembers : ∀ name ∈ fields.names,
      Value.member? members' name = (Value.member? members name).map f)
    {row : fields.Row} (h : fields.Gives decodes members row) :
    fields.Gives decodes' members' row := by
  induction fields with
  | nil => trivial
  | cons name decoder absent rest ih =>
      obtain ⟨a, row⟩ := row
      obtain ⟨hfield, hrest⟩ := h
      rw [names, List.forall_mem_cons] at hmembers
      refine ⟨?_, ih hmembers.2 hrest⟩
      rw [hmembers.1]
      cases hv : Value.member? members name with
      | none => rwa [hv] at hfield
      | some v =>
          rw [hv] at hfield
          exact hdecodes _ _ _ _ hfield

def converts (α : Type) (d : Decoder α) (v : Value) (a : α) : Prop :=
  d.ofValue v = .ok a

theorem forall_not_mem_cons {key : String} {todo : List (String × Value)}
    (hkey : key ∉ todo.map Prod.fst) {seen : List String} (hseen : ∀ m ∈ todo, m.1 ∉ seen) :
    ∀ m ∈ todo, m.1 ∉ key :: seen := by
  intro m hm
  rw [List.mem_cons, not_or]
  refine ⟨?_, hseen m hm⟩
  rintro rfl
  exact hkey (List.mem_map.mpr ⟨m, hm, rfl⟩)

theorem ofMembers_foundAmong {fields : Fields} (hnames : fields.names.Nodup) {row : fields.Row}
    {members : List (String × Value)} (hrow : fields.Gives converts members row)
    {todo : List (String × Value)} (htodo : ∀ m ∈ todo, Value.member? members m.1 = some m.2)
    (hkeys : (todo.map Prod.fst).Nodup) {seen : List String}
    (hseen : ∀ m ∈ todo, m.1 ∉ seen) :
    fields.ofMembers todo (fields.foundAmong seen row) =
      .ok (fields.foundAmong ((todo.map Prod.fst).reverse ++ seen) row) := by
  -- After each member the slots are those of the keys that have been seen up to it.
  induction todo generalizing seen with
  | nil => rfl
  | cons m todo ih =>
      obtain ⟨key, v⟩ := m
      rw [List.map_cons, List.nodup_cons] at hkeys
      have hfill := fill_foundAmong hnames hrow (htodo (key, v) (by simp))
        (hseen (key, v) (by simp)) Except.error (fun d => (d.ofValue v).map (·, []))
        (fun d a hd => congrArg (Except.map (·, [])) hd)
      have hrest := forall_not_mem_cons hkeys.1 (List.forall_mem_cons.mp hseen).2
      have ih := ih (fun m hm => htodo m (by simp [hm])) hkeys.2 hrest
      have hreverse : ((key :: todo.map Prod.fst).reverse ++ seen) =
          (todo.map Prod.fst).reverse ++ key :: seen := by simp
      rw [ofMembers, hfill, List.map_cons, hreverse, ← ih]
      by_cases hmem : key ∈ fields.names
      · rw [if_pos hmem]
      · rw [if_neg hmem, foundAmong_cons_of_not_mem hmem]

/-- Whether every slot has been filled from the first member of its name, and no other slot. -/
def FilledFrom (members : List (String × Value)) : (fields : Fields) → fields.Slots → Prop
  | .nil, _ => True
  | .cons name decoder _ rest, (slot, slots) =>
      Option.Rel (fun v a => decoder.ofValue v = .ok a) (Value.member? members name) slot ∧
        rest.FilledFrom members slots

theorem filledFrom_vacant (fields : Fields) : fields.FilledFrom [] fields.vacant := by
  induction fields with
  | nil => trivial
  | cons name decoder absent rest ih => exact ⟨.none, ih⟩

theorem member?_concat (members : List (String × Value)) (key : String) (v : Value)
    (name : String) :
    Value.member? (members ++ [(key, v)]) name =
      (Value.member? members name).or (if key = name then some v else none) :=
  Value.member?_append members [(key, v)] name

theorem FilledFrom.concat_of_not_mem {fields : Fields} {members : List (String × Value)}
    {slots : fields.Slots} (h : fields.FilledFrom members slots) {key : String}
    (hkey : key ∉ fields.names) (v : Value) :
    fields.FilledFrom (members ++ [(key, v)]) slots := by
  induction fields with
  | nil => trivial
  | cons name decoder absent rest ih =>
      obtain ⟨slot, slots⟩ := slots
      rw [names, List.mem_cons, not_or] at hkey
      refine ⟨?_, ih h.2 hkey.2⟩
      rw [member?_concat, if_neg hkey.1, Option.or_none]
      exact h.1

/-- A member that is accepted fills the slot of its field, if there is such a field. -/
theorem FilledFrom.concat {fields : Fields} (hnames : fields.names.Nodup)
    {members : List (String × Value)} {slots : fields.Slots} (h : fields.FilledFrom members slots)
    (key : String) (v : Value) :
    (∀ slots' bytes, fields.fill .error (fun d => (d.ofValue v).map (·, [])) key slots =
        some (.ok (slots', bytes)) → fields.FilledFrom (members ++ [(key, v)]) slots') ∧
      (fields.fill .error (fun d => (d.ofValue v).map (·, [])) key slots = none →
        key ∉ fields.names) := by
  induction fields with
  | nil =>
      refine ⟨?_, fun _ => List.not_mem_nil⟩
      intro slots' bytes hfill
      nomatch hfill
  | cons name decoder absent rest ih =>
      obtain ⟨slot, slots⟩ := slots
      rw [names, List.nodup_cons] at hnames
      obtain ⟨hslot, hslots⟩ := h
      obtain ⟨ihsome, ihnone⟩ := ih hnames.2 hslots
      by_cases hkey : key = name
      · subst hkey
        constructor
        · intro slots' bytes hfill
          simp only [fill, if_true] at hfill
          cases slot with
          | some a => nomatch hfill
          | none =>
              cases ha : decoder.ofValue v with
              | error fault =>
                  rw [ha] at hfill
                  nomatch hfill
              | ok a =>
                  rw [ha] at hfill
                  cases hfill
                  refine ⟨?_, hslots.concat_of_not_mem hnames.1 v⟩
                  rw [member?_concat, if_pos rfl]
                  generalize Value.member? members key = found at hslot
                  cases hslot
                  exact .some ha
        · intro hfill
          simp only [fill, if_true] at hfill
          nomatch hfill
      · constructor
        · intro slots' bytes hfill
          simp only [fill, if_neg hkey, Option.map_eq_some_iff] at hfill
          obtain ⟨result, hresult, heq⟩ := hfill
          cases result with
          | error fault => nomatch heq
          | ok filled =>
              obtain ⟨slots₁, bytes₁⟩ := filled
              cases heq
              refine ⟨?_, ihsome _ _ hresult⟩
              rw [member?_concat, if_neg hkey, Option.or_none]
              exact hslot
        · intro hfill
          simp only [fill, if_neg hkey, Option.map_eq_none_iff] at hfill
          rw [names, List.mem_cons, not_or]
          exact ⟨hkey, ihnone hfill⟩

theorem filledFrom_ofMembers {fields : Fields} (hnames : fields.names.Nodup)
    {todo : List (String × Value)} {slots slots' : fields.Slots}
    (hofMembers : fields.ofMembers todo slots = .ok slots') {done : List (String × Value)}
    (hdone : fields.FilledFrom done slots) : fields.FilledFrom (done ++ todo) slots' := by
  -- What is done grows at its end, so that the first member of a name stays the first.
  induction todo generalizing slots done with
  | nil =>
      cases hofMembers
      rwa [List.append_nil]
  | cons m todo ih =>
      obtain ⟨key, v⟩ := m
      obtain ⟨hsome, hnone⟩ := hdone.concat hnames key v
      have happend : done ++ (key, v) :: todo = (done ++ [(key, v)]) ++ todo := by simp
      rw [happend]
      rw [ofMembers] at hofMembers
      split at hofMembers
      next slots₁ bytes hfill => exact ih hofMembers (hsome slots₁ bytes hfill)
      next fault hfill => nomatch hofMembers
      next hfill => exact ih hofMembers (hdone.concat_of_not_mem (hnone hfill) v)

theorem gives_of_complete {fields : Fields} {members : List (String × Value)} {slots : fields.Slots}
    (hslots : fields.FilledFrom members slots) {row : fields.Row}
    (hcomplete : fields.complete slots = .ok row) : fields.Gives converts members row := by
  induction fields with
  | nil => trivial
  | cons name decoder absent rest ih =>
      obtain ⟨slot, slots⟩ := slots
      obtain ⟨hslot, hslots⟩ := hslots
      rw [complete] at hcomplete
      cases hrow : rest.complete slots with
      | error fault =>
          rw [hrow] at hcomplete
          split at hcomplete <;> nomatch hcomplete
      | ok row₁ =>
          rw [hrow] at hcomplete
          generalize hv : Value.member? members name = found at hslot
          cases hslot with
          | some ha =>
              cases hcomplete
              refine ⟨?_, ih hslots hrow⟩
              rw [hv]
              exact ha
          | none =>
              cases absent with
              | none => nomatch hcomplete
              | some a =>
                  cases hcomplete
                  refine ⟨?_, ih hslots hrow⟩
                  rw [hv]

theorem readsMembers_foundAmong {fields : Fields} (hnames : fields.names.Nodup) {row : fields.Row}
    {depth : Nat} {layout : Layout} {level : Nat} {members : List (String × Value)}
    (hrow : fields.Gives (fun _ d => ReadsItem (d.read depth) layout level) members row)
    {todo : List (String × Value)} (htodo : ∀ m ∈ todo, Value.member? members m.1 = some m.2)
    (hknown : ∀ m ∈ todo, m.1 ∈ fields.names) (hkeys : (todo.map Prod.fst).Nodup)
    {seen : List String} (hseen : ∀ m ∈ todo, m.1 ∉ seen) :
    ReadsMembers (fields.readMember depth) layout level todo (fields.foundAmong seen row)
      (fields.foundAmong ((todo.map Prod.fst).reverse ++ seen) row) := by
  induction todo generalizing seen with
  | nil => rfl
  | cons m todo ih =>
      obtain ⟨key, v⟩ := m
      rw [List.map_cons, List.nodup_cons] at hkeys
      have hrest := forall_not_mem_cons hkeys.1 (List.forall_mem_cons.mp hseen).2
      have ih := ih (fun m hm => htodo m (by simp [hm])) (fun m hm => hknown m (by simp [hm]))
        hkeys.2 hrest
      have hreverse : ((key :: todo.map Prod.fst).reverse ++ seen) =
          (todo.map Prod.fst).reverse ++ key :: seen := by simp
      refine ⟨fields.foundAmong (key :: seen) row, ?_, by rwa [List.map_cons, hreverse]⟩
      intro bytes rest hskip hrest
      have hfill := fill_foundAmong hnames hrow (htodo (key, v) (by simp))
        (hseen (key, v) (by simp)) (fun fault => .error (.unlocated fault bytes))
        (fun d => do
          let rest ← readColon bytes
          d.read depth rest)
        (fun d a hd => reads_afterColon hd.2 (beginsValue_render hd.1 layout level) hskip hrest)
      rw [if_pos (hknown (key, v) (by simp))] at hfill
      simp only [readMember, hfill]

end Fields

namespace Decoder

variable {α β : Type}

/-- A record is decoded from an object by what stands under the names of its fields. -/
theorem ofValue_record (name : String) {fields : Fields} (hnames : fields.names.Nodup)
    {build : fields.Row → β} {members : List (String × Value)}
    (hkeys : (members.map Prod.fst).Nodup) {row : fields.Row}
    (hrow : fields.Gives Fields.converts members row) :
    (record name fields build).ofValue (.object members) = .ok (build row) := by
  have hslots : fields.ofMembers members fields.vacant =
      .ok (fields.foundAmong ((members.map Prod.fst).reverse ++ []) row) := by
    rw [← Fields.foundAmong_nil fields row]
    exact Fields.ofMembers_foundAmong hnames hrow
      (fun m hm => SortedMap.lookupEntry_of_mem hkeys hm) hkeys (by simp)
  have hcomplete : fields.complete
      (fields.foundAmong ((members.map Prod.fst).reverse ++ []) row) = .ok row :=
    Fields.complete_foundAmong hrow (by simp)
  simp only [record, hslots, bind, Except.bind, hcomplete, Except.map]

theorem ofValue_record_of_members (name : String) {fields : Fields} (hnames : fields.names.Nodup)
    {build : fields.Row → β} {members members' : List (String × Value)}
    (hkeys : (members'.map Prod.fst).Nodup)
    (hmembers : ∀ key, Value.member? members' key = (Value.member? members key).map Value.sorted)
    {b : β} (hrow : ∃ row, fields.Gives (fun _ d v a => d.ofValue v.sorted = .ok a) members row ∧
      build row = b) :
    (record name fields build).ofValue (.object members') = .ok b := by
  obtain ⟨row, hrow, rfl⟩ := hrow
  refine ofValue_record name hnames hkeys (hrow.transfer (f := Value.sorted) ?_ ?_)
  · exact fun _ _ _ _ ha => ha
  · exact fun key _ => hmembers key

theorem ofValue_record_sorted (name : String) {fields : Fields} (hnames : fields.names.Nodup)
    {build : fields.Row → β} {members : List (String × Value)}
    (hkeys : (members.map Prod.fst).Nodup) {b : β}
    (hrow : ∃ row, fields.Gives (fun _ d v a => d.ofValue v.sorted = .ok a) members row ∧
      build row = b) :
    (record name fields build).ofValue (Value.object members).sorted = .ok b := by
  rw [Value.sorted_object]
  exact ofValue_record_of_members name hnames
    (SortedMap.nodup_of_sorted (Value.sorted_keys_arrange _))
    (Value.member?_arrange_sortedMembers hkeys) hrow

/-- Whatever a record is decoded to from an object, its fields have their values from the members of
their names. -/
theorem gives_of_ofValue_record {name : String} {fields : Fields} (hnames : fields.names.Nodup)
    {build : fields.Row → β} {members : List (String × Value)} {b : β}
    (h : (record name fields build).ofValue (.object members) = .ok b) :
    ∃ row, fields.Gives Fields.converts members row ∧ b = build row := by
  obtain ⟨slots, hslots, hcomplete⟩ := Result.bind_eq_ok h
  obtain ⟨row, hrow, hb⟩ := Result.map_eq_ok hcomplete
  have hfilled := Fields.filledFrom_ofMembers hnames hslots (Fields.filledFrom_vacant fields)
  exact ⟨row, Fields.gives_of_complete hfilled hrow, hb.symm⟩

theorem ofValue_record_eq_ok_iff {name : String} {fields : Fields} (hnames : fields.names.Nodup)
    {build : fields.Row → β} {members : List (String × Value)}
    (hkeys : (members.map Prod.fst).Nodup) {b : β} :
    (record name fields build).ofValue (.object members) = .ok b ↔
      ∃ row, fields.Gives Fields.converts members row ∧ b = build row := by
  constructor
  · exact gives_of_ofValue_record hnames
  · rintro ⟨row, hrow, rfl⟩
    exact ofValue_record name hnames hkeys hrow

/-- A record is read from the text of an object that has no members but fields. -/
theorem reads_record (name : String) {fields : Fields} (hnames : fields.names.Nodup)
    {build : fields.Row → β} {members : List (String × Value)}
    (hkeys : (members.map Prod.fst).Nodup) (hknown : ∀ m ∈ members, m.1 ∈ fields.names)
    {depth : Nat} {layout : Layout} {level : Nat} {b : β}
    (hrow : ∃ row, fields.Gives (fun _ d => ReadsItem (d.read depth) layout (level + 1)) members
      row ∧ build row = b) :
    Reads ((record name fields build).read (depth + 1)) ((Value.object members).render layout level)
      b := by
  obtain ⟨row, hrow, rfl⟩ := hrow
  intro bytes rest hskip hrest
  have hchain := Fields.readsMembers_foundAmong hnames hrow
    (fun m hm => SortedMap.lookupEntry_of_mem hkeys hm) hknown hkeys (fun _ _ => List.not_mem_nil)
  rw [Fields.foundAmong_nil] at hchain
  obtain ⟨tail, hbrace, hread⟩ := readMembers_render hchain rest
  have hcomplete : fields.complete
      (fields.foundAmong ((members.map Prod.fst).reverse ++ []) row) = .ok row :=
    Fields.complete_foundAmong hrow (by simp)
  have hskip := hskip.trans hbrace
  simp only [record, hskip, if_true, nested, readRecordObject, hread, bind, Except.bind, hcomplete,
    Except.mapError, Except.map]

end Decoder

end ClusterBlueprint.Json
