import ClusterBlueprint.Json.Decoder
import ClusterBlueprint.Proofs.Json.Reader
import ClusterBlueprint.Proofs.OrderedMap

namespace ClusterBlueprint.Json.Decoder

variable {α β : Type}

theorem convert_eq_ok_iff {d : Decoder α} {v : Value} {a : α} :
    d.convert v = .ok a ↔ d.ofValue v = .ok a := by
  rw [convert]
  cases d.ofValue v <;> simp [Except.mapError]

theorem exists_forall₂ {γ δ : Type} {r : γ → δ → Prop} {l : List γ} (h : ∀ x ∈ l, ∃ y, r x y) :
    ∃ ys, List.Forall₂ r l ys := by
  induction l with
  | nil => exact ⟨[], .nil⟩
  | cons x l ih =>
      rw [List.forall_mem_cons] at h
      obtain ⟨y, hy⟩ := h.1
      obtain ⟨ys, hys⟩ := ih h.2
      exact ⟨y :: ys, .cons hy hys⟩

theorem exists_of_mem_of_forall₂ {γ δ : Type} {r : γ → δ → Prop} {l : List γ} {l' : List δ}
    (h : List.Forall₂ r l l') {x : γ} (hx : x ∈ l) : ∃ y ∈ l', r x y := by
  induction h with
  | nil => nomatch hx
  | cons hr _ ih =>
      rcases List.mem_cons.mp hx with rfl | hx
      · exact ⟨_, List.mem_cons_self, hr⟩
      · obtain ⟨y, hy, hr⟩ := ih hx
        exact ⟨y, List.mem_cons_of_mem _ hy, hr⟩

theorem ofItems_eq_ok_iff {d : Decoder α} {items : List Value} {as : List α} :
    d.ofItems items = .ok as ↔ List.Forall₂ (fun v a => d.ofValue v = .ok a) items as := by
  induction items generalizing as with
  | nil => cases as <;> simp [ofItems]
  | cons v items ih =>
      cases hv : d.ofValue v with
      | error fault => cases as <;> simp [ofItems, hv, bind, Except.bind]
      | ok a =>
          cases hitems : d.ofItems items with
          | error fault =>
              cases as <;> simp [ofItems, hv, hitems, bind, Except.bind, ← ih]
          | ok rest =>
              cases as <;> simp [ofItems, hv, hitems, bind, Except.bind, ← ih]

theorem list_ofValue_sorted {d : Decoder β} {r : α → β → Prop} {f : α → Value} {as : List α}
    (h : ∀ a ∈ as, ∃ b, d.ofValue (f a).sorted = .ok b ∧ r a b) :
    ∃ bs, d.list.ofValue (Value.array (as.map f)).sorted = .ok bs ∧ List.Forall₂ r as bs := by
  obtain ⟨bs, hbs⟩ := exists_forall₂ h
  refine ⟨bs, ?_, hbs.imp fun _ _ hab => hab.2⟩
  rw [Value.sorted_array, List.map_map]
  change d.ofItems _ = _
  rw [ofItems_eq_ok_iff, List.forall₂_map_left_iff]
  exact hbs.imp fun _ _ hab => hab.1

theorem ofMembers_eq_foldl {σ : Type} {d : Decoder α} {members : List (String × Value)}
    {entries : List (String × α)}
    (h : List.Forall₂ (fun m e => m.1 = e.1 ∧ d.ofValue m.2 = .ok e.2) members entries)
    (put : String → α → σ → σ) (s : σ) :
    d.ofMembers put members s = .ok (entries.foldl (fun s e => put e.1 e.2 s) s) := by
  induction h generalizing s with
  | nil => rfl
  | cons hm _ ih =>
      obtain ⟨hkey, hvalue⟩ := hm
      simp only [ofMembers, hvalue, bind, Except.bind, ih, hkey, List.foldl_cons]

theorem member?_eq_lookupEntry (members : List (String × Value)) (key : String) :
    Value.member? members key = OrderedMap.lookupEntry key members :=
  SortedMap.lookupEntry_eq_lookupEntry key members

theorem orderedMap_ofValue {d : Decoder α} {members : List (String × Value)}
    (hkeys : (members.map Prod.fst).Nodup) (h : ∀ m ∈ members, ∃ a, d.ofValue m.2 = .ok a) :
    ∃ m, d.orderedMap.ofValue (.object members) = .ok m ∧
      ∀ key, Option.Rel (fun v a => d.ofValue v = .ok a) (Value.member? members key)
        (m.get? key) := by
  have hentries : ∀ m ∈ members, ∃ e : String × α, m.1 = e.1 ∧ d.ofValue m.2 = .ok e.2 := by
    intro m hm
    obtain ⟨a, ha⟩ := h m hm
    exact ⟨(m.1, a), rfl, ha⟩
  obtain ⟨entries, hentries⟩ := exists_forall₂ hentries
  have hsame : members.map Prod.fst = entries.map Prod.fst := by
    rw [← List.forall₂_eq_eq_eq, List.forall₂_map_left_iff, List.forall₂_map_right_iff]
    exact hentries.imp fun _ _ hm => hm.1
  refine ⟨.ofList entries, ofMembers_eq_foldl hentries _ ∅, ?_⟩
  intro key
  rw [OrderedMap.get?_ofList (hsame ▸ hkeys), member?_eq_lookupEntry]
  exact OrderedMap.lookupEntry_of_forall₂ hentries key

theorem member?_map_entries (m : OrderedMap String α) (f : α → Value) (key : String) :
    Value.member? (m.entries.map fun (k, a) => (k, f a)) key = (m.get? key).map f := by
  rw [OrderedMap.get?, ← SortedMap.lookupEntry_eq_lookupEntry]
  exact SortedMap.lookupEntry_map f key m.entries

/-- The order of the entries makes no difference to the sorted form of the object of a map. -/
theorem sorted_entries_congr {f : α → Value} {m n : OrderedMap String α}
    (h : m.Related (fun a b => (f a).sorted = (f b).sorted) n) :
    (Value.object (m.entries.map fun (k, a) => (k, f a))).sorted =
      (Value.object (n.entries.map fun (k, a) => (k, f a))).sorted := by
  have hkeys (m : OrderedMap String α) :
      ((m.entries.map fun (k, a) => (k, f a)).map Prod.fst).Nodup := by
    rw [List.map_map]
    exact m.distinct
  apply Value.sorted_object_congr (hkeys m) (hkeys n)
  intro key
  rw [member?_map_entries, member?_map_entries, Option.map_map, Option.map_map]
  rcases h.found_or_absent key with ⟨a, b, ha, hb, hab⟩ | ⟨ha, hb⟩
  · rw [ha, hb]
    exact congrArg some hab
  · rw [ha, hb]

/-- The values of a map are decoded key by key from the sorted form of an object that holds them. -/
theorem orderedMap_ofValue_sorted_of_members {d : Decoder β} {r : α → β → Prop} {f : α → Value}
    {m : OrderedMap String α} {members : List (String × Value)}
    (hkeys : (members.map Prod.fst).Nodup)
    (hmembers : ∀ key, Value.member? members key = (m.get? key).map f)
    (h : ∀ key a, m.get? key = some a → ∃ b, d.ofValue (f a).sorted = .ok b ∧ r a b) :
    ∃ n, d.orderedMap.ofValue (Value.object members).sorted = .ok n ∧ OrderedMap.Related r m n := by
  have hfound : ∀ key, Value.member? (Value.arrange (Value.sortedMembers members)) key =
      (m.get? key).map fun a => (f a).sorted := by
    intro key
    rw [Value.member?_arrange_sortedMembers hkeys, hmembers, Option.map_map]
    rfl
  have hsorted := SortedMap.nodup_of_sorted
    (Value.sorted_keys_arrange (Value.sortedMembers members))
  have hdecoded : ∀ member ∈ Value.arrange (Value.sortedMembers members),
      ∃ b, d.ofValue member.2 = .ok b := by
    rintro ⟨key, v⟩ hmember
    have hv := SortedMap.lookupEntry_of_mem hsorted hmember
    obtain ⟨a, ha, rfl⟩ := Option.map_eq_some_iff.mp ((hfound key).symm.trans hv)
    obtain ⟨b, hb, -⟩ := h key a ha
    exact ⟨b, hb⟩
  rw [Value.sorted_object]
  obtain ⟨n, hn, hrel⟩ := orderedMap_ofValue hsorted hdecoded
  refine ⟨n, hn, ?_⟩
  intro key
  have hrel := hrel key
  rw [hfound] at hrel
  cases ha : m.get? key with
  | none =>
      rw [ha, Option.map_none] at hrel
      generalize n.get? key = found at hrel ⊢
      cases hrel
      exact .none
  | some a =>
      rw [ha, Option.map_some] at hrel
      obtain ⟨b, hb, hr⟩ := h key a ha
      generalize n.get? key = found at hrel ⊢
      cases hrel with
      | some hb' =>
          rw [hb] at hb'
          cases hb'
          exact .some hr

theorem orderedMap_ofValue_sorted {d : Decoder β} {r : α → β → Prop} {f : α → Value}
    {m : OrderedMap String α}
    (h : ∀ key a, m.get? key = some a → ∃ b, d.ofValue (f a).sorted = .ok b ∧ r a b) :
    ∃ n, d.orderedMap.ofValue (Value.object (m.entries.map fun (k, a) => (k, f a))).sorted = .ok n ∧
      OrderedMap.Related r m n := by
  refine orderedMap_ofValue_sorted_of_members ?_ (member?_map_entries m f) h
  rw [List.map_map]
  exact m.distinct

theorem nullable_ofValue {d : Decoder α} {v : Value} (h : v ≠ .null) :
    d.nullable.ofValue v = (d.ofValue v).map some := by
  cases v <;> first | rfl | exact absurd rfl h

theorem reads_text (s : String) (depth : Nat) (layout : Layout) (level : Nat) :
    Reads (text.read depth) ((Value.text s).render layout level) s := by
  intro bytes rest hskip hrest
  obtain ⟨tail, hquote, htext⟩ := readText_renderText s rest
  rw [Value.render, hquote] at hskip
  simp only [text, beginning, hskip, if_true, htext]

/-- A value that is there is read where null might stand, if it does not begin like null. -/
theorem reads_nullable {d : Decoder α} {depth : Nat} {cs : List Char} {a : α}
    (hread : Reads (d.read depth) cs a) {b : UInt8} {tail : Bytes}
    (hcs : Utf8.encodeChars cs = b :: tail) (hblank : isBlankByte b = false) (hb : b ≠ byte 'n') :
    Reads ((nullable d).read depth) cs (some a) := by
  intro bytes rest hskip hrest
  have hfirst : skipBlanks (Utf8.encodeChars cs ++ rest) = Utf8.encodeChars cs ++ rest := by
    rw [hcs]
    exact skipBlanks_cons hblank (tail ++ rest)
  have hvalue := hread _ rest hfirst hrest
  rw [hcs] at hskip hvalue
  rw [List.cons_append] at hskip hvalue
  simp only [nullable, hskip, if_neg hb, hvalue, Except.map]

theorem reads_nullable_text (s : String) (depth : Nat) (layout : Layout) (level : Nat) :
    Reads ((nullable text).read depth) ((Value.text s).render layout level) (some s) := by
  have hquote : Utf8.encodeChars ((Value.text s).render layout level) =
      byte '"' :: (Utf8.encodeChars (s.toList.flatMap escapeChar) ++ [byte '"']) := by
    rw [Value.render, encodeChars_renderText]
  exact reads_nullable (reads_text s depth layout level) hquote (by decide) (by decide)

theorem reads_variant {variants : List (String × α)} {name : String} {a : α}
    (h : findVariant variants name = .ok a) (depth : Nat) (layout : Layout) (level : Nat) :
    Reads ((variant variants).read depth) ((Value.text name).render layout level) a := by
  intro bytes rest hskip hrest
  obtain ⟨tail, hquote, htext⟩ := readText_renderText name rest
  rw [Value.render, hquote] at hskip
  have hbrace : byte '"' ≠ byte '\x7b' := by decide
  simp only [variant, hskip, if_neg hbrace, if_true, readVariant, htext, bind, Except.bind, h]

theorem reads_property (s : String) (depth : Nat) (layout : Layout) (level : Nat) :
    Reads (property.read depth) ((Value.text s).render layout level) s := by
  intro bytes rest hskip hrest
  have hvalue := reads_readValue (v := .text s) rfl (Nat.zero_le depth) layout level bytes rest
    hskip hrest
  simp only [property, hvalue, bind, Except.bind, Value.sorted, propertyText]

theorem reads_map {d : Decoder α} {depth : Nat} {cs : List Char} {a : α}
    (h : Reads (d.read depth) cs a) (f : α → β) : Reads ((map f d).read depth) cs (f a) := by
  intro bytes rest hskip hrest
  simp only [map, h bytes rest hskip hrest]
  rfl

theorem reads_list {d : Decoder α} {depth : Nat} {layout : Layout} {level : Nat}
    {items : List Value} {as : List α}
    (h : List.Forall₂ (ReadsItem (d.read depth) layout (level + 1)) items as) :
    Reads ((list d).read (depth + 1)) ((Value.array items).render layout level) as := by
  intro bytes rest hskip _
  obtain ⟨tail, hbracket, hread⟩ := readArray_render h rest
  simp only [list, beginning, hskip.trans hbracket, if_true, nested, hread]

theorem reads_members {σ : Type} {d : Decoder α} {depth : Nat} {layout : Layout} {level : Nat}
    {values : List (String × Value)} {entries : List (String × α)}
    (h : List.Forall₂ (fun m entry => m.1 = entry.1 ∧
      ReadsItem (d.read depth) layout (level + 1) m.2 entry.2) values entries)
    (none : σ) (put : String → α → σ → σ) :
    Reads ((members d none put).read (depth + 1)) ((Value.object values).render layout level)
      (entries.foldl (fun s entry => put entry.1 entry.2 s) none) := by
  intro bytes rest hskip _
  obtain ⟨tail, hbrace, hread⟩ := readMembers_render (readsMembers_memberOf h put none) rest
  simp only [members, beginning, hskip.trans hbrace, if_true, nested, readObject, hread,
    Except.mapError]

theorem forall₂_readsItem {item : Reader α} {f : α → Value} {layout : Layout} {level : Nat}
    (h : ∀ a, ReadsItem item layout level (f a) a) (entries : List (String × α)) :
    List.Forall₂ (fun member entry => member.1 = entry.1 ∧
      ReadsItem item layout level member.2 entry.2)
      (entries.map fun (key, a) => (key, f a)) entries := by
  rw [List.forall₂_map_left_iff, List.forall₂_same]
  exact fun entry _ => ⟨rfl, h entry.2⟩

/-- A map is read from the object of its entries, if each value is read from what stands for it. -/
theorem reads_sortedMap {d : Decoder α} {f : α → Value} {depth : Nat} {layout : Layout} {level : Nat}
    (h : ∀ a, ReadsItem (d.read depth) layout (level + 1) (f a) a) (m : SortedMap α) :
    Reads ((sortedMap d).read (depth + 1))
      ((Value.object (m.entries.map fun (key, a) => (key, f a))).render layout level) m := by
  have hread := reads_members (forall₂_readsItem h m.entries) (∅ : SortedMap α)
    fun key a m => m.insert key a
  change Reads _ _ (SortedMap.ofList m.entries) at hread
  rwa [SortedMap.ofList_entries] at hread

theorem reads_orderedMap {d : Decoder α} {f : α → Value} {depth : Nat} {layout : Layout}
    {level : Nat} (h : ∀ a, ReadsItem (d.read depth) layout (level + 1) (f a) a)
    (m : OrderedMap String α) :
    Reads ((orderedMap d).read (depth + 1))
      ((Value.object (m.entries.map fun (key, a) => (key, f a))).render layout level) m := by
  have hread := reads_members (forall₂_readsItem h m.entries) (∅ : OrderedMap String α)
    fun key a m => m.insert key a
  change Reads _ _ (OrderedMap.ofList m.entries) at hread
  rwa [OrderedMap.ext_entries (OrderedMap.entries_ofList m.distinct)] at hread

theorem reads_sortedSet (s : SortedSet) (depth : Nat) (layout : Layout) (level : Nat) :
    Reads (sortedSet.read (depth + 1))
      ((Value.array (s.toList.map Value.text)).render layout level) s := by
  have hitems : List.Forall₂ (ReadsItem (text.read depth) layout (level + 1))
      (s.toList.map Value.text) s.toList := by
    rw [List.forall₂_map_left_iff, List.forall₂_same]
    exact fun item _ => ⟨rfl, reads_text item depth layout (level + 1)⟩
  have hread := reads_map (reads_list hitems) SortedSet.ofList
  rwa [SortedSet.ofList_toList] at hread

end ClusterBlueprint.Json.Decoder
