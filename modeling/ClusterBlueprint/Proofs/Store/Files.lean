import ClusterBlueprint.Proofs.Files.Tree
import ClusterBlueprint.Proofs.Result
import ClusterBlueprint.Proofs.Store.Commands
import ClusterBlueprint.Proofs.Store.Entity
import ClusterBlueprint.Store.Files
import Mathlib.Data.List.Nodup

namespace ClusterBlueprint

namespace EntityFiles

open Files (Node Path Tree)
open SortedMap (lookupEntry alterEntry eraseEntry)

def fileName (name : String) : String :=
  name ++ "." ++ extension

theorem fileName_eq (name : String) : fileName name = name ++ ".json" := by
  rw [fileName, extension, String.append_assoc]
  rfl

theorem fileName_injective {name name' : String} (h : fileName name = fileName name') :
    name = name' := by
  rw [fileName_eq, fileName_eq, ← String.toList_inj, String.toList_append,
    String.toList_append] at h
  exact String.toList_inj.mp (List.append_cancel_right h)

theorem mem_fileName {name : String} {c : Char} :
    c ∈ (fileName name).toList ↔ c ∈ name.toList ∨ c ∈ ['.', 'j', 's', 'o', 'n'] := by
  rw [fileName_eq, String.toList_append, List.mem_append]
  rfl

theorem fileName_ne {name s : String} (hs : 'j' ∉ s.toList) : fileName name ≠ s := by
  rintro rfl
  exact hs (mem_fileName.mpr (.inr (by decide)))

theorem not_slash_of_isStorableName {name : String} (h : isStorableName name = true) :
    name ≠ "" ∧ '/' ∉ name.toList := by
  simp only [isStorableName, Bool.and_eq_true, List.all_eq_true, bne_iff_ne, Bool.not_eq_true',
    ← Bool.not_eq_true, String.isEmpty_iff] at h
  obtain ⟨⟨⟨hempty, hslash⟩, -⟩, -⟩ := h
  exact ⟨hempty, fun hmem => (hslash '/' hmem).1 rfl⟩

theorem isFileName_fileName {name : String} (hstorable : isStorableName name = true)
    (hfits : IsFittingName name) : Tree.IsFileName (fileName name) where
  nul := by
    rw [mem_fileName, not_or]
    exact ⟨hfits.nul, by decide⟩
  slash := by
    rw [mem_fileName, not_or]
    exact ⟨(not_slash_of_isStorableName hstorable).2, by decide⟩
  ordinary := by
    refine ⟨fileName_ne (by decide), fileName_ne (by decide), fileName_ne (by decide), ?_⟩
    rw [fileName_eq]
    exact hfits.size

/-- Whether a directory has the files for certain entities and no file for another one. -/
def Shows (entries : List (String × Node)) (held : Contents) : Prop :=
  ∀ name, lookupEntry (fileName name) entries = (held name).map fun e => .file (fileContent e)

/-- Whether the directory of a tree has files for certain entities, under names that they may
have. -/
structure Holds (s : EntityFiles) (tree : Tree) (held : Contents) : Prop where
  room : s.directory.utf8ByteSize + 1 + Tree.greatestName ≤ Tree.greatestPath
  proper : ∀ name, held name ≠ none → isStorableName name = true ∧ IsFittingName name
  directory : ∃ names entries, tree.HasDirectory s.directory names entries ∧ Shows entries held

theorem entityPath_eq (s : EntityFiles) (name : String) :
    s.entityPath name = s.directory.join (fileName name) :=
  rfl

theorem entityPath_size {s : EntityFiles} {name : String}
    (hroom : s.directory.utf8ByteSize + 1 + Tree.greatestName ≤ Tree.greatestPath)
    (hname : Tree.IsFileName (fileName name)) :
    (s.entityPath name).utf8ByteSize ≤ Tree.greatestPath := by
  have hjoin : (s.directory.join (fileName name)).utf8ByteSize ≤ _ :=
    Path.utf8ByteSize_join_le hname.slash
  have hsize := hname.ordinary.2.2.2
  rw [entityPath_eq]
  omega

namespace Shows

variable {entries : List (String × Node)} {held : Contents}

theorem not_directory (h : Shows entries held) (name : String) (below : List (String × Node)) :
    lookupEntry (fileName name) entries ≠ some (.directory below) := by
  rw [h]
  intro heq
  cases hname : held name with
  | none =>
      rw [hname] at heq
      nomatch heq
  | some e =>
      rw [hname] at heq
      nomatch heq

theorem put (h : Shows entries held) (hsorted : (entries.map Prod.fst).Pairwise (· < ·))
    (e : Entity) :
    Shows (alterEntry (fileName e.blueprintName) (fun _ => .file (fileContent e)) entries)
      (Function.update held e.blueprintName (some e)) := by
  intro name
  rw [SortedMap.lookupEntry_alterEntry _ _ _ hsorted, Function.update_apply, h]
  by_cases hname : name = e.blueprintName
  · rw [if_pos (congrArg fileName hname), if_pos hname]
    rfl
  · rw [if_neg (fun heq => hname (fileName_injective heq)), if_neg hname]

theorem remove (h : Shows entries held) (hsorted : (entries.map Prod.fst).Pairwise (· < ·))
    (name : String) :
    Shows (eraseEntry (fileName name) entries) (Function.update held name none) := by
  intro name'
  rw [SortedMap.lookupEntry_eraseEntry _ _ (SortedMap.nodup_of_sorted hsorted),
    Function.update_apply, h]
  by_cases hname : name' = name
  · rw [if_pos (congrArg fileName hname), if_pos hname]
    rfl
  · rw [if_neg (fun heq => hname (fileName_injective heq)), if_neg hname]

theorem mem_keys_iff (h : Shows entries held) {name : String} :
    fileName name ∈ entries.map Prod.fst ↔ (held name).isSome := by
  rw [← Option.isSome_map, ← h name, Option.isSome_iff_ne_none, ne_eq,
    SortedMap.lookupEntry_eq_none_iff, not_not]

theorem mem_stems_iff (h : Shows entries held) {name : String}
    (hname : held name ≠ none → name ≠ "") :
    name ∈ (entries.map Prod.fst).filterMap (Path.stem? extension) ↔ (held name).isSome := by
  rw [List.mem_filterMap, ← h.mem_keys_iff]
  constructor
  · rintro ⟨file, hfile, hstem⟩
    rw [Path.eq_append_of_stem? hstem] at hfile
    exact hfile
  · intro hfile
    refine ⟨fileName name, hfile, Path.stem?_append (hname ?_) (by decide)⟩
    rw [← Option.isSome_iff_ne_none, ← h.mem_keys_iff]
    exact hfile

end Shows

theorem nodup_stems {files : List String} (h : files.Nodup) :
    (files.filterMap (Path.stem? extension)).Nodup := by
  refine h.filterMap fun file file' name hfile hfile' => ?_
  rw [Path.eq_append_of_stem? hfile, Path.eq_append_of_stem? hfile']

theorem pairwise_lt_mergeSort {names : List String} (h : names.Nodup) :
    (names.mergeSort fun a b => a ≤ b).Pairwise (· < ·) := by
  have hsorted : (names.mergeSort fun a b => a ≤ b).Pairwise fun a b => decide (a ≤ b) = true := by
    apply List.pairwise_mergeSort
    · intro a b c hab hbc
      rw [decide_eq_true_eq] at hab hbc ⊢
      exact String.le_trans hab hbc
    · intro a b
      rw [Bool.or_eq_true, decide_eq_true_eq, decide_eq_true_eq]
      exact String.le_total a b
  have hnodup : (names.mergeSort fun a b => a ≤ b).Nodup :=
    (List.mergeSort_perm names _).nodup_iff.mpr h
  refine (hsorted.and hnodup).imp fun hab => ?_
  obtain ⟨hle, hne⟩ := hab
  exact Decidable.byContradiction fun hge =>
    hne (String.le_antisymm (of_decide_eq_true hle) (String.not_lt.mp hge))

section

variable {s : EntityFiles} {tree : Tree} {held : Contents}

theorem find_of_read {name : String} {e : Entity} (hstorable : isStorableName name = true)
    (hread : tree.read (s.entityPath name) = .ok (fileContent e)) :
    s.find tree name = .ok (some e) := by
  have hparse := Entity.parse_toValue e .indented
  rw [← Json.Value.pretty] at hparse
  rw [find, if_pos hstorable]
  simp only [hread, fileContent, hparse]
  rfl

namespace Holds

theorem find_eq (h : s.Holds tree held) {name : String} (hfits : IsFittingName name) :
    s.find tree name = .ok (held name) := by
  by_cases hstorable : isStorableName name = true
  · obtain ⟨names, entries, hdirectory, hshows⟩ := h.directory
    have hname := isFileName_fileName hstorable hfits
    have hread := hdirectory.read_join hname (entityPath_size h.room hname)
    rw [← entityPath_eq, hshows] at hread
    cases hheld : held name with
    | none =>
        rw [hheld, Option.map_none] at hread
        rw [find, if_pos hstorable]
        simp only [hread]
    | some e =>
        rw [hheld, Option.map_some] at hread
        exact find_of_read hstorable hread
  · rw [find, if_neg hstorable]
    by_contra hne
    have hheld : held name ≠ none := fun hnone => hne (by rw [hnone])
    exact hstorable (h.proper name hheld).1

theorem put_eq (h : s.Holds tree held) {e : Entity}
    (hstorable : isStorableName e.blueprintName = true) (hfits : IsFittingName e.blueprintName) :
    ∃ tree', s.put tree e = .ok tree' ∧
      s.Holds tree' (Function.update held e.blueprintName (some e)) := by
  obtain ⟨names, entries, hdirectory, hshows⟩ := h.directory
  have hname := isFileName_fileName hstorable hfits
  obtain ⟨tree', hwrite, hdirectory'⟩ := hdirectory.write_join hname (entityPath_size h.room hname)
    (hshows.not_directory _) (fileContent e)
  refine ⟨tree', ?_, h.room, ?_, names, _, hdirectory', hshows.put hdirectory.sorted_entries e⟩
  · rw [← entityPath_eq] at hwrite
    simp only [put, hstorable, if_true, hdirectory.list_eq, hwrite]
    rfl
  · intro name hheld
    rw [Function.update_apply] at hheld
    split at hheld
    · rename_i heq
      subst heq
      exact ⟨hstorable, hfits⟩
    · exact h.proper name hheld

/-- Nothing is held under a name that is given up, and under the others what was held. -/
theorem proper_update_none (h : s.Holds tree held) (name : String) :
    ∀ name', Function.update held name none name' ≠ none →
      isStorableName name' = true ∧ IsFittingName name' := by
  intro name' hheld
  rw [Function.update_apply] at hheld
  split at hheld
  · exact absurd rfl hheld
  · exact h.proper name' hheld

theorem remove_eq (h : s.Holds tree held) {name : String} (hfits : IsFittingName name) :
    ∃ tree', s.remove tree name = .ok ((held name).isSome, tree') ∧
      s.Holds tree' (Function.update held name none) := by
  cases hheld : held name with
  | none =>
      refine ⟨tree, ?_, ?_⟩
      · rw [remove]
        split
        · rename_i hstorable
          obtain ⟨names, entries, hdirectory, hshows⟩ := h.directory
          have hname := isFileName_fileName hstorable hfits
          have habsent := hshows name
          rw [hheld, Option.map_none] at habsent
          have hremove :=
            hdirectory.remove_join_of_absent hname (entityPath_size h.room hname) habsent
          rw [← entityPath_eq] at hremove
          simp only [hremove]
          rfl
        · rfl
      · rw [← hheld, Function.update_eq_self]
        exact h
  | some e =>
      obtain ⟨hstorable, -⟩ := h.proper name (by rw [hheld]; exact Option.some_ne_none e)
      obtain ⟨names, entries, hdirectory, hshows⟩ := h.directory
      have hname := isFileName_fileName hstorable hfits
      have hfound := hshows name
      rw [hheld, Option.map_some] at hfound
      obtain ⟨tree', hremove, hdirectory'⟩ :=
        hdirectory.remove_join hname (entityPath_size h.room hname) hfound
      refine ⟨tree', ?_, h.room, h.proper_update_none name, names, _, hdirectory',
        hshows.remove hdirectory.sorted_entries name⟩
      rw [← entityPath_eq] at hremove
      simp only [remove, hstorable, if_true, hremove]
      rfl

theorem names_eq (h : s.Holds tree held) :
    ∃ names, s.names tree = .ok names ∧ names.Pairwise (· < ·) ∧
      ∀ name, name ∈ names ↔ (held name).isSome := by
  obtain ⟨_, entries, hdirectory, hshows⟩ := h.directory
  refine ⟨((entries.map Prod.fst).filterMap (Path.stem? extension)).mergeSort fun a b => a ≤ b,
    ?_, ?_, fun name => ?_⟩
  · rw [names, hdirectory.list_eq]
    rfl
  · exact pairwise_lt_mergeSort (nodup_stems (SortedMap.nodup_of_sorted hdirectory.sorted_entries))
  · rw [List.mem_mergeSort]
    exact hshows.mem_stems_iff fun hheld => (not_slash_of_isStorableName (h.proper name hheld).1).1

theorem prepare_eq (h : s.Holds tree held) : s.prepare tree = .ok tree := by
  obtain ⟨names, entries, hdirectory, -⟩ := h.directory
  rw [prepare, hdirectory.makeDirectories_eq]
  rfl

theorem fits_of_remove (h : s.Holds tree held) {name : String}
    (hstorable : isStorableName name = true) {tree' : Tree}
    (hremove : tree.remove (s.entityPath name) = .ok tree') :
    IsFittingName name := by
  obtain ⟨names, entries, hdirectory, -⟩ := h.directory
  obtain ⟨names', hresolve, -⟩ := Result.bind_eq_ok hremove
  have hslash : '/' ∉ (fileName name).toList := by
    rw [mem_fileName, not_or]
    exact ⟨(not_slash_of_isStorableName hstorable).2, by decide⟩
  have hname := hdirectory.of_resolve_join hslash
    ⟨fileName_ne (by decide), fileName_ne (by decide), fileName_ne (by decide)⟩ hresolve
  refine ⟨fun hmem => hname.nul (mem_fileName.mpr (.inl hmem)), ?_⟩
  rw [← fileName_eq]
  exact hname.ordinary.2.2.2

theorem remove_of_not_fits (h : s.Holds tree held) {name : String} (hfits : ¬ IsFittingName name) :
    (s.store.remove name tree).2 = tree ∧ Function.update held name none = held := by
  constructor
  · cases hremove : s.remove tree name with
    | error error => simp only [store, hremove]
    | ok answer =>
        obtain ⟨found, tree'⟩ := answer
        simp only [store, hremove]
        rw [remove] at hremove
        split at hremove
        · rename_i hstorable
          dsimp only at hremove
          split at hremove
          · rename_i tree' hfile
            exact absurd (fits_of_remove h hstorable hfile) hfits
          · cases hremove
            rfl
          · nomatch hremove
        · cases hremove
          rfl
  · have hheld : held name = none := by
      by_contra hheld
      exact hfits (h.proper name hheld).2
    rw [← hheld, Function.update_eq_self]

end Holds

theorem keeps (s : EntityFiles) : s.store.Keeps s.prepare s.Holds where
  perform := by
    intro tree held h command hfits
    cases command with
    | put e =>
        rw [StoreCommand.IsAnswer, StoreCommand.update]
        cases he : isStorableName e.blueprintName with
        | true =>
            obtain ⟨tree', hput, h'⟩ := h.put_eq he hfits
            simp only [BlueprintStore.perform, store, hput]
            exact ⟨rfl, h'⟩
        | false =>
            have hput : s.put tree e = .error (.invalidName e.blueprintName) := by
              rw [put, he]
              rfl
            simp only [BlueprintStore.perform, store, hput]
            exact ⟨rfl, h⟩
    | find name =>
        simp only [BlueprintStore.perform, store, h.find_eq hfits]
        refine ⟨⟨rfl, fun hname => ?_⟩, h⟩
        by_contra hheld
        rw [(h.proper name hheld).1] at hname
        cases hname
    | remove name =>
        obtain ⟨tree', hremove, h'⟩ := h.remove_eq hfits
        simp only [BlueprintStore.perform, store, hremove]
        exact ⟨rfl, h'⟩
    | names =>
        obtain ⟨names, hnames, hsorted, hmem⟩ := h.names_eq
        simp only [BlueprintStore.perform, store, hnames]
        exact ⟨⟨names, rfl, List.pairwise_map.mpr (hsorted.imp Utf8.encode_lt), hmem⟩, h⟩
    | reopen =>
        simp only [BlueprintStore.perform, h.prepare_eq]
        exact ⟨rfl, h⟩
  remove := by
    intro tree held h name
    by_cases hfits : IsFittingName name
    · obtain ⟨tree', hremove, h'⟩ := h.remove_eq hfits
      simp only [store, hremove]
      exact h'
    · obtain ⟨htree, hheld⟩ := h.remove_of_not_fits hfits
      rw [htree, hheld]
      exact h

/-- Opening a store over an empty directory makes a directory that holds nothing. -/
theorem prepare_ofRoot {root : Path} (hsorted : tree.top.IsSorted) (hroot : tree.list root = .ok [])
    (hroom : (root.join ".blueprints").utf8ByteSize + 1 + Tree.greatestName ≤ Tree.greatestPath) :
    ∃ tree', (ofRoot root).prepare tree = .ok tree' ∧ (ofRoot root).Holds tree' fun _ => none := by
  obtain ⟨names, entries, hdirectory, hnil⟩ := Tree.hasDirectory_of_list hsorted hroot
  obtain rfl := List.map_eq_nil_iff.mp hnil
  have hname : Tree.IsFileName ".blueprints" := by
    refine ⟨by decide, by decide, by decide, by decide, by decide, by decide⟩
  obtain ⟨tree', hmake, hdirectory'⟩ := hdirectory.makeDirectories_join hname (by omega) rfl
  refine ⟨tree', ?_, hroom, fun _ hheld => absurd rfl hheld, _, _, hdirectory', fun _ => rfl⟩
  rw [prepare, ofRoot, hmake]
  rfl

/-- Over an empty directory, opened and opened again, the store over files answers all commands as
the store in memory does, and both answer rightly. The root is relative to the top of the tree: an
absolute one is not there to be listed. -/
theorem performAll_eq_performAll {root : Path} (hsorted : tree.top.IsSorted)
    (hroot : tree.list root = .ok [])
    (hroom : (root.join ".blueprints").utf8ByteSize + 1 + Tree.greatestName ≤ Tree.greatestPath) :
    ∃ tree', (ofRoot root).prepare tree = .ok tree' ∧
      ∀ commands : List StoreCommand, (∀ command ∈ commands, command.Fits) →
        (ofRoot root).store.performAll (ofRoot root).prepare tree' commands =
            EntityShelf.store.performAll .ok ∅ commands ∧
          StoreCommand.AreAnswers (fun _ => none) commands
            (EntityShelf.store.performAll .ok ∅ commands) := by
  obtain ⟨tree', hprepare, hholds⟩ := prepare_ofRoot hsorted hroot hroom
  refine ⟨tree', hprepare, fun commands hfits => ?_⟩
  have hfiles := (keeps (ofRoot root)).performAll hholds hfits
  have hshelf := EntityShelf.keeps.performAll EntityShelf.holds_empty hfits
  exact ⟨StoreCommand.areAnswers_unique hfiles hshelf, hshelf⟩

end

def emptyRoot : Tree :=
  ⟨[("data", .directory [])]⟩

def sampleEntity : Entity :=
  ⟨"a.json", .kerberos, some "kdc", "\x7b\x7d"⟩

theorem isSorted_emptyRoot : emptyRoot.top.IsSorted := by
  refine Node.isSorted_directory_iff.mpr ⟨List.pairwise_singleton _ _, fun name node hnode => ?_⟩
  have hmem : (name, node) ∈ [("data", Node.directory [])] := SortedMap.mem_of_lookupEntry hnode
  rw [List.mem_singleton] at hmem
  cases hmem
  exact Node.isSorted_directory_nil

theorem performAll_eq_performAll_sample :
    ∃ tree', (ofRoot "data").prepare emptyRoot = .ok tree' ∧
      (ofRoot "data").store.performAll (ofRoot "data").prepare tree'
          [.put sampleEntity, .reopen, .find "a", .find "a.json", .remove "a.json", .names] =
        EntityShelf.store.performAll .ok ∅
          [.put sampleEntity, .reopen, .find "a", .find "a.json", .remove "a.json", .names] := by
  have hroot : emptyRoot.list "data" = .ok [] := rfl
  obtain ⟨tree', hprepare, hall⟩ := performAll_eq_performAll isSorted_emptyRoot hroot (by decide)
  exact ⟨tree', hprepare, (hall _ (by decide)).1⟩

end EntityFiles

/-- The stores that are given, with what opens them again, before anything is put into them: the one
in memory, and the one over files once it has been opened over an empty directory, whose path is
relative to the top of the tree. -/
inductive BlueprintStore.Fresh :
    {σ : Type} → BlueprintStore σ → (σ → Except StoreError σ) → σ → Prop
  | memory : Fresh EntityShelf.store .ok ∅
  | files {root : Files.Path} {tree tree' : Files.Tree} (hsorted : tree.top.IsSorted)
      (hroot : tree.list root = .ok [])
      (hroom : (root.join ".blueprints").utf8ByteSize + 1 + Files.Tree.greatestName ≤
        Files.Tree.greatestPath)
      (hopen : (EntityFiles.ofRoot root).prepare tree = .ok tree') :
      Fresh (EntityFiles.ofRoot root).store (EntityFiles.ofRoot root).prepare tree'

theorem BlueprintStore.Fresh.keeps {σ : Type} {store : BlueprintStore σ}
    {reopen : σ → Except StoreError σ} {s : σ} (h : store.Fresh reopen s) :
    ∃ Holds, store.Keeps reopen Holds ∧ Holds s fun _ => none := by
  cases h with
  | memory => exact ⟨_, EntityShelf.keeps, EntityShelf.holds_empty⟩
  | files hsorted hroot hroom hopen =>
      obtain ⟨tree', hprepare, hholds⟩ := EntityFiles.prepare_ofRoot hsorted hroot hroom
      rw [hprepare] at hopen
      cases hopen
      exact ⟨_, EntityFiles.keeps _, hholds⟩

end ClusterBlueprint
