import ClusterBlueprint.Configuration.Wire
import ClusterBlueprint.Proofs.Configuration.Overlay
import ClusterBlueprint.Proofs.Json.Decoder
import ClusterBlueprint.Proofs.Json.Local.Decoder
import ClusterBlueprint.Proofs.Result
import Mathlib.Data.List.Induction

namespace ClusterBlueprint.Configuration

open Json (Value Decoder)
open OrderedMap (overlay latest Passes)

theorem mergedWith_addGroup (base c : Configuration) (group : String) :
    base.mergedWith (c.addGroup group) = (base.mergedWith c).addGroup group := by
  rw [mergedWith_eq, mergedWith_eq, addGroup, addGroup]
  simp only [OrderedMap.overlay_alter OrderedMap.passes_getD]

theorem mergedWith_setProperty (base c : Configuration) (group key value : String) :
    base.mergedWith (c.setProperty group key value) =
      (base.mergedWith c).setProperty group key value := by
  have hproperty : Passes (overlay latest) fun old => (old.getD ∅).insert key value :=
    (OrderedMap.passes_latest value).alter key
  rw [mergedWith_eq, mergedWith_eq, setProperty, setProperty]
  simp only [OrderedMap.overlay_alter hproperty]

theorem mergedWith_putAttribute (base c : Configuration) (group key name value : String) :
    base.mergedWith (c.putAttribute group key name value) =
      (base.mergedWith c).putAttribute group key name value := by
  have hattribute : Passes (overlay (overlay latest)) fun old =>
      (old.getD ∅).alter key fun old => (old.getD ∅).insert name value :=
    ((OrderedMap.passes_latest value).alter name).alter key
  rw [mergedWith_eq, mergedWith_eq, putAttribute, putAttribute]
  simp only [OrderedMap.overlay_alter hattribute]

theorem mergedWith_foldl_setProperty (base c : Configuration) (group : String)
    (properties : List (String × String)) :
    base.mergedWith
        (properties.foldl (fun c (key, value) => c.setProperty group key value) c) =
      properties.foldl (fun c (key, value) => c.setProperty group key value)
        (base.mergedWith c) := by
  symm
  apply List.foldl_hom base.mergedWith
  rintro c ⟨key, value⟩
  exact (mergedWith_setProperty base c group key value).symm

theorem mergedWith_foldl_putAttribute (base c : Configuration) (group : String)
    (attributes : List (String × OrderedMap String String)) :
    base.mergedWith (attributes.foldl (fun c (name, byKey) =>
        byKey.entries.foldl (fun c (key, value) => c.putAttribute group key name value) c) c) =
      attributes.foldl (fun c (name, byKey) =>
        byKey.entries.foldl (fun c (key, value) => c.putAttribute group key name value) c)
        (base.mergedWith c) := by
  symm
  apply List.foldl_hom base.mergedWith
  rintro c ⟨name, byKey⟩
  apply List.foldl_hom base.mergedWith
  rintro c ⟨key, value⟩
  exact (mergedWith_putAttribute base c group key name value).symm

theorem mergedWith_addEntry (base c : Configuration) (group : String) (e : GroupEntry) :
    base.mergedWith (c.addEntry group e) = (base.mergedWith c).addEntry group e := by
  rw [addEntry, addEntry, ← mergedWith_addGroup, ← mergedWith_foldl_setProperty]
  exact mergedWith_foldl_putAttribute base _ group e.attributes.entries

theorem mergedWith_foldl_addEntry (base c : Configuration)
    (entries : List (OrderedMap String GroupEntry)) :
    base.mergedWith (entries.foldl
        (fun c entry => entry.entries.foldl (fun c (group, e) => c.addEntry group e) c) c) =
      entries.foldl
        (fun c entry => entry.entries.foldl (fun c (group, e) => c.addEntry group e) c)
        (base.mergedWith c) := by
  symm
  apply List.foldl_hom base.mergedWith
  intro c entry
  apply List.foldl_hom base.mergedWith
  rintro c ⟨group, e⟩
  exact (mergedWith_addEntry base c group e).symm

/-- The second of two lists is laid over the first. -/
theorem ofEntries_append (xs ys : List (OrderedMap String GroupEntry)) :
    ofEntries (xs ++ ys) = (ofEntries xs).mergedWith (ofEntries ys) := by
  have hempty : (ofEntries xs).mergedWith ∅ = ofEntries xs := rfl
  rw [ofEntries, List.foldl_append, ← ofEntries, ← hempty, ← mergedWith_foldl_addEntry]
  rfl

/-- Lays configurations over one another, from the first to the last. -/
def layered (cs : List Configuration) : Configuration :=
  cs.foldl mergedWith ∅

/-- Whether a configuration says what the last of some configurations says, each time the last of
those that say anything, and has all their groups. -/
structure IsStackOf (c : Configuration) (cs : List Configuration) : Prop where
  properties : ∀ group key,
    c.property? group key = cs.reverse.findSome? fun layer => layer.property? group key
  attributes : ∀ group key name,
    c.attribute? group key name = cs.reverse.findSome? fun layer => layer.attribute? group key name
  groups : ∀ group, group ∈ c.groups ↔ ∃ layer ∈ cs, group ∈ layer.groups

theorem layered_concat (cs : List Configuration) (c : Configuration) :
    layered (cs ++ [c]) = (layered cs).mergedWith c := by
  rw [layered, List.foldl_append]
  rfl

theorem layered_cons (c : Configuration) (cs : List Configuration) :
    layered (c :: cs) = c.mergedWith (layered cs) := by
  have hempty : (∅ : Configuration).mergedWith c = c.mergedWith ∅ :=
    Std.LawfulLeftIdentity.left_id c
  rw [layered, List.foldl_cons, hempty]
  exact List.foldl_assoc

theorem ofEntries_eq_layered (entries : List (OrderedMap String GroupEntry)) :
    ofEntries entries = layered (entries.map fun entry => ofEntries [entry]) := by
  induction entries using List.reverseRecOn with
  | nil => rfl
  | append_singleton entries entry ih =>
      rw [ofEntries_append, List.map_append, List.map_singleton, layered_concat, ih]

/-- What is seen of the last configuration that shows something is seen of all together. -/
theorem view_layered {γ : Type} (view : Configuration → Option γ) (hempty : view ∅ = none)
    (hview : ∀ base upper, view (base.mergedWith upper) = (view upper).or (view base))
    (cs : List Configuration) : view (layered cs) = cs.reverse.findSome? view := by
  induction cs using List.reverseRecOn with
  | nil => exact hempty
  | append_singleton cs c ih =>
      rw [layered_concat, hview, ih, List.reverse_append, List.reverse_singleton,
        List.singleton_append, List.findSome?_cons]
      cases view c <;> rfl

theorem mem_groups_layered (cs : List Configuration) (group : String) :
    group ∈ (layered cs).groups ↔ ∃ c ∈ cs, group ∈ c.groups := by
  induction cs using List.reverseRecOn with
  | nil => exact ⟨nofun, by simp⟩
  | append_singleton cs c ih =>
      rw [layered_concat, (isOverlay_mergedWith _ c).mem_groups, ih]
      simp [or_and_right, exists_or]

theorem isStackOf_layered (cs : List Configuration) : (layered cs).IsStackOf cs where
  properties group key := view_layered (fun layer => layer.property? group key) rfl
    (fun base upper => (isOverlay_mergedWith base upper).properties group key) cs
  attributes group key name := view_layered (fun layer => layer.attribute? group key name) rfl
    (fun base upper => (isOverlay_mergedWith base upper).attributes group key name) cs
  groups := mem_groups_layered cs

def entriesDecoder : Decoder (List (OrderedMap String GroupEntry)) :=
  .list (.orderedMap GroupEntry.decoder)

theorem ofValue_array_eq_ok_iff {items : List Value} {c : Configuration} :
    decoder.ofValue (.array items) = .ok c ↔
      ∃ entries, List.Forall₂ (fun v entry => (Decoder.orderedMap GroupEntry.decoder).ofValue v =
        .ok entry) items entries ∧ ofEntries entries = c := by
  constructor
  · intro h
    obtain ⟨entries, hentries, hc⟩ := Result.map_eq_ok h
    exact ⟨entries, Decoder.ofItems_eq_ok_iff.mp hentries, hc⟩
  · rintro ⟨entries, hentries, rfl⟩
    exact congrArg (Except.map ofEntries) (Decoder.ofItems_eq_ok_iff.mpr hentries)

theorem ofValue_array_append {xs ys : List Value} {cx cy : Configuration}
    (hx : decoder.ofValue (.array xs) = .ok cx) (hy : decoder.ofValue (.array ys) = .ok cy) :
    decoder.ofValue (.array (xs ++ ys)) = .ok (cx.mergedWith cy) := by
  obtain ⟨entries, hentries, rfl⟩ := ofValue_array_eq_ok_iff.mp hx
  obtain ⟨entries', hentries', rfl⟩ := ofValue_array_eq_ok_iff.mp hy
  rw [ofValue_array_eq_ok_iff]
  exact ⟨entries ++ entries', List.rel_append hentries hentries', ofEntries_append _ _⟩

theorem ofValue_array_eq_ok_iff_layered {items : List Value} {c : Configuration} :
    decoder.ofValue (.array items) = .ok c ↔
      ∃ cs, List.Forall₂ (fun v c => decoder.ofValue (.array [v]) = .ok c) items cs ∧
        c = layered cs := by
  constructor
  · intro h
    obtain ⟨entries, hentries, rfl⟩ := ofValue_array_eq_ok_iff.mp h
    refine ⟨entries.map fun entry => ofEntries [entry], ?_, ofEntries_eq_layered entries⟩
    rw [List.forall₂_map_right_iff]
    apply hentries.imp
    intro v entry hentry
    exact ofValue_array_eq_ok_iff.mpr ⟨[entry], .cons hentry .nil, rfl⟩
  · rintro ⟨cs, hcs, rfl⟩
    induction hcs with
    | nil => rfl
    | cons hv _ ih =>
        rw [layered_cons]
        exact ofValue_array_append hv ih

/-- A text is decoded like a value, once its entries have been read. -/
theorem read_eq_ok_iff {depth : Nat} {bytes rest : Bytes} {c : Configuration} :
    decoder.read depth bytes = .ok (c, rest) ↔
      ∃ entries, entriesDecoder.read depth bytes = .ok (entries, rest) ∧ c = ofEntries entries := by
  constructor
  · intro h
    obtain ⟨⟨entries, rest'⟩, hentries, heq⟩ := Result.map_eq_ok h
    cases heq
    exact ⟨entries, hentries, rfl⟩
  · rintro ⟨entries, hentries, rfl⟩
    exact congrArg (Except.map fun (entries, rest) => (ofEntries entries, rest)) hentries

theorem isLocal_groupEntry : GroupEntry.decoder.IsLocal := by
  have htexts := Decoder.isLocal_orderedMap Decoder.isLocal_property
  rw [GroupEntry.decoder]
  apply Decoder.isLocal_record
  exact ⟨htexts, Decoder.isLocal_orderedMap htexts, trivial⟩

theorem parse_eq_ok_iff {text : Bytes} {c : Configuration} :
    decoder.parse text = .ok c ↔
      ∃ entries, entriesDecoder.parse text = .ok entries ∧ c = ofEntries entries := by
  simp only [Decoder.parse, Json.readWhole_eq_ok_iff, read_eq_ok_iff]
  constructor
  · rintro ⟨rest, ⟨entries, hread, hc⟩, hblank⟩
    exact ⟨entries, ⟨rest, hread, hblank⟩, hc⟩
  · rintro ⟨entries, ⟨rest, hread, hblank⟩, hc⟩
    exact ⟨rest, ⟨entries, hread, hc⟩, hblank⟩

theorem parse_joined {xs ys : Bytes} {cx cy : Configuration}
    (hx : decoder.parse (Json.bracketed xs) = .ok cx)
    (hy : decoder.parse (Json.bracketed ys) = .ok cy) :
    decoder.parse (Json.bracketed (Json.joined xs ys)) = .ok (cx.mergedWith cy) := by
  obtain ⟨entries, hentries, rfl⟩ := parse_eq_ok_iff.mp hx
  obtain ⟨entries', hentries', rfl⟩ := parse_eq_ok_iff.mp hy
  have hjoined := Decoder.parse_list_joined (Decoder.isLocal_orderedMap isLocal_groupEntry) hentries
    hentries'
  exact parse_eq_ok_iff.mpr ⟨entries ++ entries', hjoined, (ofEntries_append _ _).symm⟩

/-- One list after another is decoded to the second laid over the first, from values and straight
from texts; so every list is decoded to its single entries laid over one another, of which the last
that says anything counts each time, and none is lost. -/
theorem decoder_overlays :
    (∀ xs ys cx cy, decoder.ofValue (.array xs) = .ok cx → decoder.ofValue (.array ys) = .ok cy →
      decoder.ofValue (.array (xs ++ ys)) = .ok (cx.mergedWith cy)) ∧
      (∀ xs ys cx cy, decoder.parse (Json.bracketed xs) = .ok cx →
        decoder.parse (Json.bracketed ys) = .ok cy →
        decoder.parse (Json.bracketed (Json.joined xs ys)) = .ok (cx.mergedWith cy)) ∧
      (∀ items c, decoder.ofValue (.array items) = .ok c ↔
        ∃ cs, List.Forall₂ (fun v layer => decoder.ofValue (.array [v]) = .ok layer) items cs ∧
          c = layered cs) ∧
      (∀ text c, decoder.parse text = .ok c ↔
        ∃ entries, entriesDecoder.parse text = .ok entries ∧
          c = layered (entries.map fun entry => ofEntries [entry])) ∧
      ∀ cs, (layered cs).IsStackOf cs := by
  refine ⟨fun _ _ _ _ => ofValue_array_append, fun _ _ _ _ => parse_joined,
    fun _ _ => ofValue_array_eq_ok_iff_layered, ?_, isStackOf_layered⟩
  intro text c
  rw [parse_eq_ok_iff]
  apply exists_congr
  intro entries
  rw [ofEntries_eq_layered]

def earlierEntries : List Value :=
  [.object [("core-site", .object [("properties", .object [("a", .text "1"),
    ("port", .number (.whole 8020 (by decide))), ("secure", .bool true)])])]]

def laterEntries : List Value :=
  [.object [("core-site", .object [("properties", .object [("a", .text "2")]),
    ("properties_attributes", .object [("final", .object [("a", .text "true")])])])]]

/-- The inside of a text of the earlier entries with a member that nobody asks for. -/
def earlierText : Bytes :=
  Utf8.encode ("\x7b\"core-site\": \x7b\"tag\": [null, -0.5], " ++
    "\"properties\": \x7b\"a\": \"1\", \"port\": 8020, \"secure\": true\x7d\x7d\x7d ")

def laterText : Bytes :=
  Utf8.encode ("\x7b\"core-site\":\x7b\"properties\":\x7b\"a\":\"2\"\x7d," ++
    "\"properties_attributes\":\x7b\"final\":\x7b\"a\":\"true\"\x7d\x7d\x7d\x7d")

theorem decoder_overlays_sample :
    let base := ((setProperty ∅ "core-site" "a" "1").setProperty "core-site" "port"
      "8020").setProperty "core-site" "secure" "true"
    let upper := (setProperty ∅ "core-site" "a" "2").setAttribute "core-site" "a" "final" "true"
    decoder.ofValue (.array (earlierEntries ++ laterEntries)) = .ok (base.mergedWith upper) ∧
      decoder.parse (Json.bracketed (Json.joined earlierText laterText)) =
        .ok (base.mergedWith upper) := by
  intro base upper
  obtain ⟨hvalues, htexts, -⟩ := decoder_overlays
  constructor
  · have hearlier : decoder.ofValue (.array earlierEntries) = .ok base := by decide
    have hlater : decoder.ofValue (.array laterEntries) = .ok upper := by decide
    exact hvalues _ _ _ _ hearlier hlater
  · have hearlier : decoder.parse (Json.bracketed earlierText) = .ok base := by decide +kernel
    have hlater : decoder.parse (Json.bracketed laterText) = .ok upper := by decide +kernel
    exact htexts _ _ _ _ hearlier hlater

end ClusterBlueprint.Configuration
