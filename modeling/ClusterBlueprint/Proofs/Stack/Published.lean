import ClusterBlueprint.Proofs.Compiler.Resolution
import ClusterBlueprint.Proofs.Files.Places
import ClusterBlueprint.Proofs.Stack.Files
import ClusterBlueprint.Proofs.Stack.Metadata
import Mathlib.Data.List.Induction

namespace ClusterBlueprint

open Files (Path Tree)

namespace StackShelf

/-- The shelf after a description has been offered to it; one without a proper id is not taken. -/
def offer (shelf : StackShelf) (m : StackMetadata) : StackShelf :=
  (add shelf m).toOption.getD shelf

theorem offer_of_ok {shelf : StackShelf} {m : StackMetadata} {id : StackId} (hid : m.id = .ok id) :
    shelf.offer m = OrderedMap.insert shelf id m := by
  rw [offer, add, hid]
  rfl

theorem offer_of_error {shelf : StackShelf} {m : StackMetadata} {e : StackId.Invalid}
    (hid : m.id = .error e) : shelf.offer m = shelf := by
  rw [offer, add, hid]
  rfl

theorem ofDescriptions_eq (descriptions : List StackMetadata) :
    ofDescriptions descriptions = descriptions.foldl offer ∅ :=
  rfl

/-- What has been accepted last under an id. -/
def lastUnder (id : StackId) (descriptions : List StackMetadata) : Option StackMetadata :=
  descriptions.reverse.find? fun m => m.id = .ok id

theorem lastUnder_concat (id : StackId) (before : List StackMetadata) (m : StackMetadata) :
    lastUnder id (before ++ [m]) = if m.id = .ok id then some m else lastUnder id before := by
  rw [lastUnder, List.reverse_concat, List.find?_cons]
  by_cases hid : m.id = .ok id <;> simp [hid, lastUnder]

theorem get?_ofDescriptions (id : StackId) (descriptions : List StackMetadata) :
    OrderedMap.get? (ofDescriptions descriptions) id = lastUnder id descriptions := by
  induction descriptions using List.reverseRecOn with
  | nil => rfl
  | append_singleton before m ih =>
      rw [ofDescriptions_eq, List.foldl_concat, ← ofDescriptions_eq, lastUnder_concat]
      cases hid : m.id with
      | error e =>
          rw [offer_of_error hid, ih, if_neg]
          rintro ⟨⟩
      | ok id' =>
          rw [offer_of_ok hid, OrderedMap.get?_insert, ih]
          simp only [Except.ok.injEq, eq_comm]

/-- The answer about a stack after descriptions have been offered: what was accepted last, or that
there is no such stack. -/
def answerAfter (descriptions : List StackMetadata) (id : StackId) :
    Except LookupError StackMetadata :=
  match lastUnder id descriptions with
  | some m => .ok m
  | none => .error (.notFound id)

theorem find_ofDescriptions (descriptions : List StackMetadata) (id : StackId) :
    find (ofDescriptions descriptions) id = answerAfter descriptions id := by
  cases hlast : lastUnder id descriptions with
  | none => simp only [find, answerAfter, get?_ofDescriptions, hlast]
  | some m => simp only [find, answerAfter, get?_ofDescriptions, hlast]

end StackShelf

namespace StackFiles

/-- Whether the name and the version of a stack can be names of directories below a root, and its
definition is within reach. -/
structure Fits (root : Path) (id : StackId) : Prop where
  name : Tree.IsFileName id.name
  version : Tree.IsFileName id.version
  size : (definitionPath root id).utf8ByteSize ≤ Tree.greatestPath

theorem isFileName_definitionFile : Tree.IsFileName definitionFile := by
  refine ⟨by decide, by decide, by decide, by decide, by decide, by decide⟩

def directories (id : StackId) : List String :=
  [id.name, id.version]

theorem place_eq (id : StackId) : place id = directories id ++ [definitionFile] :=
  rfl

theorem isFileName_of_mem_directories {root : Path} {id : StackId} (h : Fits root id) :
    ∀ name ∈ directories id, Tree.IsFileName name := by
  simpa [directories] using ⟨h.name, h.version⟩

theorem isFileName_of_mem_place {root : Path} {id : StackId} (h : Fits root id) :
    ∀ name ∈ place id, Tree.IsFileName name := by
  rw [place_eq, List.forall_mem_append, List.forall_mem_singleton]
  exact ⟨isFileName_of_mem_directories h, isFileName_definitionFile⟩

theorem size_directories {root : Path} {id : StackId} (h : Fits root id) :
    ((directories id).foldl Path.join root).utf8ByteSize ≤ Tree.greatestPath :=
  Nat.le_trans (Path.utf8ByteSize_le_join _ isFileName_definitionFile.slash) h.size

theorem place_injective {id id' : StackId} (h : place id = place id') : id = id' := by
  rw [place, place, List.cons.injEq, List.cons.injEq] at h
  exact StackId.eq_of_parts h.1 h.2.1

def definition (layout : Json.Layout) (m : StackMetadata) : Bytes :=
  Utf8.encode (m.toValue.toText layout)

/-- Adds a description to the stacks in memory and, if it is accepted, writes it below a root. -/
def publish (root : Path) (layout : Json.Layout) :
    StackShelf × Tree → StackMetadata → Except Files.Failure (StackShelf × Tree)
  | (shelf, tree), m =>
      match StackShelf.add shelf m with
      | .error _ => .ok (shelf, tree)
      | .ok shelf => do
          let directory := (root.join m.name).join m.version
          let tree ← tree.makeDirectories directory
          let tree ← tree.write (directory.join definitionFile) (definition layout m)
          .ok (shelf, tree)

def publishAll (root : Path) (layout : Json.Layout) (tree : Tree)
    (descriptions : List StackMetadata) : Except Files.Failure (StackShelf × Tree) :=
  descriptions.foldlM (publish root layout) (∅, tree)

/-- Whether a tree has the definitions of the stacks in memory below a root, and of no others that
fit. -/
structure Mirrors (root : Path) (layout : Json.Layout) (shelf : StackShelf) (tree : Tree) :
    Prop where
  labelled : Labelled shelf
  files : ∃ above held,
    tree.HoldsFiles root above (fun names => ∃ id, Fits root id ∧ place id = names) 3 held ∧
      ∀ id, Fits root id → held (place id) = (OrderedMap.get? shelf id).map (definition layout)

section

variable {root : Path} {layout : Json.Layout} {shelf : StackShelf} {tree : Tree}

theorem find_eq_notFound_iff {id : StackId} : find root tree id = .error (.notFound id) ↔
    tree.read (definitionPath root id) = .error .notFound := by
  delta find
  constructor
  · intro hfind
    rcases hread : tree.read (definitionPath root id) with failure | content
    · cases failure <;> simp [hread] at hfind ⊢
    · rcases hparse : StackMetadata.decoder.parse content with e | m
      · simp [hread, hparse] at hfind
      · simp only [hread, hparse] at hfind
        split at hfind <;> nomatch hfind
  · intro hread
    simp only [hread]

theorem mirrors_empty {names : List String} (hsorted : tree.top.IsSorted)
    (hroot : tree.list root = .ok names)
    (hnone : ∀ id, Fits root id → find root tree id = .error (.notFound id)) (layout : Json.Layout) :
    Mirrors root layout ∅ tree := by
  obtain ⟨above, entries, hdirectory, -⟩ := Tree.hasDirectory_of_list hsorted hroot
  have hplace {id : StackId} (hid : Fits root id) :=
    hdirectory.clear_of_read (isFileName_of_mem_place hid) (List.cons_ne_nil _ _) hid.size
      (find_eq_notFound_iff.mp (hnone id hid))
  refine ⟨labelled_empty, above, fun _ => none, ⟨entries, hdirectory, ?_, ?_, ?_⟩, fun _ _ => rfl⟩
  · rintro _ ⟨id, -, rfl⟩
    rfl
  · rintro _ ⟨id, hid, rfl⟩
    exact (hplace hid).1
  · rintro _ ⟨id, hid, rfl⟩
    exact (hplace hid).2

namespace Mirrors

theorem find_eq (h : Mirrors root layout shelf tree) {id : StackId} (hid : Fits root id) :
    find root tree id = StackShelf.find shelf id := by
  obtain ⟨above, held, hfiles, hheld⟩ := h.files
  have hread := hfiles.read_eq ⟨id, hid, rfl⟩ (isFileName_of_mem_place hid) (List.cons_ne_nil _ _)
    hid.size
  rw [← definitionPath_eq, hheld id hid] at hread
  delta find StackShelf.find
  cases hfound : OrderedMap.get? shelf id with
  | none =>
      rw [hfound, Option.map_none] at hread
      simp only [hread]
  | some m =>
      rw [hfound, Option.map_some] at hread
      -- What has been written is read back, and the shelf is right about its name.
      simp only [hread, definition, StackMetadata.parse_toValue, h.labelled id m hfound, and_self,
        if_true]

theorem publish_of_ok (h : Mirrors root layout shelf tree) {m : StackMetadata} {id : StackId}
    (hid : m.id = .ok id) (hfits : Fits root id) :
    ∃ tree', publish root layout (shelf, tree) m = .ok (shelf.offer m, tree') ∧
      Mirrors root layout (shelf.offer m) tree' := by
  obtain ⟨hname, hversion⟩ := StackId.make_eq_ok hid
  obtain ⟨above, held, hfiles, hheld⟩ := h.files
  have hplace : ∃ id', Fits root id' ∧ place id' = directories id ++ [definitionFile] :=
    ⟨id, hfits, rfl⟩
  obtain ⟨tree₁, hmake, hfiles₁, hmade⟩ := hfiles.makeDirectories_eq hplace
    (List.cons_ne_nil _ _) (isFileName_of_mem_directories hfits) (List.cons_ne_nil _ _)
    (size_directories hfits)
  obtain ⟨tree₂, hwrite, hfiles₂⟩ := hfiles₁.write_eq hplace hmade
    (isFileName_of_mem_place hfits) hfits.size (definition layout m)
  rw [← place_eq] at hwrite hfiles₂
  simp only [directories, place, List.foldl_cons, List.foldl_nil, hname, hversion] at hmake hwrite
  rw [StackShelf.offer_of_ok hid]
  refine ⟨tree₂, ?_, h.labelled.insert ⟨hname.symm, hversion.symm⟩, above, _, hfiles₂, ?_⟩
  · simp only [publish, StackShelf.add, hid, Except.map, bind, Except.bind, hmake, hwrite]
  · intro id' hid'
    rw [Function.update_apply, OrderedMap.get?_insert, hheld id' hid']
    by_cases hsame : id' = id
    · rw [if_pos (congrArg place hsame), if_pos hsame, Option.map_some]
    · rw [if_neg fun heq => hsame (place_injective heq), if_neg hsame]

end Mirrors

/-- Whether a path is, or can be made, a directory below which no stack that fits is found. Like
every path it is relative to the top of the tree, so an absolute one is no root. -/
structure IsFreshRoot (root : Path) (tree : Tree) : Prop where
  sorted : tree.top.IsSorted
  made : ∃ made names, tree.makeDirectories root = .ok made ∧ made.list root = .ok names ∧
    ∀ id, Fits root id → find root made id = .error (.notFound id)

theorem find_of_list_nil (hsorted : tree.top.IsSorted) (hroot : tree.list root = .ok [])
    {id : StackId} (hid : Fits root id) : find root tree id = .error (.notFound id) := by
  obtain ⟨above, entries, hdirectory, hnil⟩ := Tree.hasDirectory_of_list hsorted hroot
  obtain rfl := List.map_eq_nil_iff.mp hnil
  have hfiles : tree.HoldsFiles root above (· = place id) 3 fun _ => none := by
    refine ⟨[], hdirectory, ?_, ?_, ?_⟩
    · rintro _ rfl
      rfl
    · rintro _ rfl
      exact Files.Node.clear_directory_nil (List.cons_ne_nil _ _)
    · rintro _ rfl
      rfl
  rw [find_eq_notFound_iff, definitionPath_eq]
  exact hfiles.read_eq rfl (isFileName_of_mem_place hid) (List.cons_ne_nil _ _) hid.size

theorem isFreshRoot_of_makeDirectories {made : Tree} (hsorted : tree.top.IsSorted)
    (hmake : tree.makeDirectories root = .ok made) (hroot : made.list root = .ok []) :
    IsFreshRoot root tree where
  sorted := hsorted
  made := ⟨made, [], hmake, hroot,
    fun _ hid => find_of_list_nil (Tree.isSorted_of_makeDirectories hsorted hmake) hroot hid⟩

/-- Whether a tree mirrors the stacks in memory once its root has been made; that may wait for the
first stack. -/
structure MirrorsOnceMade (root : Path) (layout : Json.Layout) (shelf : StackShelf)
    (tree : Tree) : Prop where
  sorted : tree.top.IsSorted
  made : ∃ made, tree.makeDirectories root = .ok made ∧ Mirrors root layout shelf made ∧
    (tree = made ∨ shelf = ∅)

theorem IsFreshRoot.mirrorsOnceMade (h : IsFreshRoot root tree) (layout : Json.Layout) :
    MirrorsOnceMade root layout ∅ tree := by
  obtain ⟨made, names, hmake, hlist, hnone⟩ := h.made
  have hsorted := Tree.isSorted_of_makeDirectories h.sorted hmake
  exact ⟨h.sorted, made, hmake, mirrors_empty hsorted hlist hnone layout, .inr rfl⟩

theorem Mirrors.onceMade (h : Mirrors root layout shelf tree) :
    MirrorsOnceMade root layout shelf tree := by
  obtain ⟨above, held, ⟨entries, hdirectory, -⟩, -⟩ := h.files
  exact ⟨hdirectory.sorted, tree, hdirectory.makeDirectories_eq, h, .inl rfl⟩

theorem Mirrors.isRelative (h : Mirrors root layout shelf tree) : root.IsRelative := by
  obtain ⟨above, held, ⟨entries, hdirectory, -⟩, -⟩ := h.files
  exact hdirectory.isRelative

namespace MirrorsOnceMade

theorem find_eq (h : MirrorsOnceMade root layout shelf tree) {id : StackId} (hid : Fits root id) :
    find root tree id = StackShelf.find shelf id := by
  obtain ⟨made, hmake, hmirrors, rfl | rfl⟩ := h.made
  · exact hmirrors.find_eq hid
  · obtain ⟨-, rfl | hread⟩ := Tree.made_below h.sorted hmirrors.isRelative hmake
      (isFileName_of_mem_place hid) (List.cons_ne_nil _ _) hid.size
    · exact hmirrors.find_eq hid
    · exact find_eq_notFound_iff.mpr hread

theorem publish_eq (h : MirrorsOnceMade root layout shelf tree) {m : StackMetadata}
    (hfits : ∀ id, m.id = .ok id → Fits root id) :
    ∃ tree', publish root layout (shelf, tree) m = .ok (shelf.offer m, tree') ∧
      MirrorsOnceMade root layout (shelf.offer m) tree' := by
  cases hid : m.id with
  | error e =>
      rw [StackShelf.offer_of_error hid]
      refine ⟨tree, ?_, h⟩
      rw [publish, StackShelf.add, hid]
      rfl
  | ok id =>
      obtain ⟨made, hmake, hmirrors, -⟩ := h.made
      obtain ⟨tree', hpublish, hmirrors'⟩ := hmirrors.publish_of_ok hid (hfits id hid)
      refine ⟨tree', ?_, hmirrors'.onceMade⟩
      -- The root is made along with the directories of the stack if it was not there.
      obtain ⟨hsame, -⟩ := Tree.made_below h.sorted hmirrors.isRelative hmake
        (isFileName_of_mem_directories (hfits id hid)) (List.cons_ne_nil _ _)
        (size_directories (hfits id hid))
      obtain ⟨hname, hversion⟩ := StackId.make_eq_ok hid
      simp only [directories, List.foldl_cons, List.foldl_nil, hname, hversion] at hsame
      rw [← hpublish, publish, publish, StackShelf.add, hid, Except.map]
      dsimp only
      rw [hsame]

theorem publishAll_eq {descriptions : List StackMetadata}
    (h : MirrorsOnceMade root layout shelf tree)
    (hfits : ∀ m ∈ descriptions, ∀ id, m.id = .ok id → Fits root id) :
    ∃ tree', descriptions.foldlM (publish root layout) (shelf, tree) =
        .ok (descriptions.foldl StackShelf.offer shelf, tree') ∧
      MirrorsOnceMade root layout (descriptions.foldl StackShelf.offer shelf) tree' := by
  induction descriptions generalizing shelf tree with
  | nil => exact ⟨tree, rfl, h⟩
  | cons m descriptions ih =>
      rw [List.forall_mem_cons] at hfits
      obtain ⟨tree₁, hpublish, h₁⟩ := h.publish_eq hfits.1
      obtain ⟨tree₂, hall, h₂⟩ := ih h₁ hfits.2
      refine ⟨tree₂, ?_, h₂⟩
      rw [List.foldlM_cons, hpublish]
      exact hall

end MirrorsOnceMade

end

end StackFiles

end ClusterBlueprint
