import ClusterBlueprint.Proofs.Files.Component
import ClusterBlueprint.Proofs.StackId
import ClusterBlueprint.Stack.Registry

namespace ClusterBlueprint.StackFiles

open Files (Path Tree Node)

/-- Whether the name and the version of a stack are names of directory entries. -/
def IsPlain (id : StackId) : Prop :=
  Path.IsName id.name ∧ Path.IsName id.version

instance (id : StackId) : Decidable (IsPlain id) :=
  inferInstanceAs (Decidable (_ ∧ _))

theorem isName_definitionFile : Path.IsName definitionFile := by
  decide

theorem components_definitionPath {root : Path} {id : StackId} (h : IsPlain id) :
    (definitionPath root id).components =
      root.components ++ [.entry id.name, .entry id.version, .entry definitionFile] := by
  rw [definitionPath, Path.components_join _ isName_definitionFile, Path.components_join _ h.2,
    Path.components_join _ h.1, List.append_assoc, List.append_assoc]
  rfl

/-- The path of a stack is that of the root and three names if and only if the stack has names to
put there. -/
theorem components_definitionPath_iff {root : Path} {id : StackId} :
    (definitionPath root id).components =
        root.components ++ [.entry id.name, .entry id.version, .entry definitionFile] ↔
      IsPlain id := by
  constructor
  · intro h
    have hentry {name : String}
        (hname : .entry name ∈ [Files.Component.entry id.name, .entry id.version,
          .entry definitionFile]) : Path.IsName name := by
      apply Path.isName_of_entry_mem_components
      rw [h]
      exact List.mem_append_right _ hname
    exact ⟨hentry (by simp), hentry (by simp)⟩
  · exact components_definitionPath

def place (id : StackId) : List String :=
  [id.name, id.version, definitionFile]

theorem definitionPath_eq (root : Path) (id : StackId) :
    definitionPath root id = (place id).foldl Path.join root := by
  rw [place, List.foldl_cons, List.foldl_cons, List.foldl_cons, List.foldl_nil, definitionPath]

theorem parts_definitionPath (root : Path) {id : StackId} (h : IsPlain id) :
    ∃ ps, (root.parts = ps ∨ root.parts = ps ++ [""]) ∧
      (definitionPath root id).parts = ps ++ [id.name, id.version, definitionFile] := by
  rw [definitionPath_eq]
  apply Path.parts_foldl_join root
  · simpa [place] using ⟨⟨h.1.1, h.1.2.2.2⟩, ⟨h.2.1, h.2.2.2.2⟩, isName_definitionFile.1,
      isName_definitionFile.2.2.2⟩
  · exact List.cons_ne_nil _ _

theorem follow_of_resolve {root : Path} {id : StackId} (h : IsPlain id) {t : Tree}
    {names : List String} (hresolve : t.resolve (definitionPath root id) = .ok names) :
    ∃ above, t.follow [] root.parts = .ok above ∧
      names = above ++ [id.name, id.version, definitionFile] := by
  obtain ⟨-, -, -, -, hleads⟩ := Tree.resolve_eq_ok_iff.mp hresolve
  obtain ⟨_, hversion, rfl⟩ := hleads.of_join isName_definitionFile
  obtain ⟨_, hname, rfl⟩ := hversion.of_join h.2
  obtain ⟨above, hroot, rfl⟩ := hname.of_join h.1
  refine ⟨above, Tree.follow_of_leads hroot, ?_⟩
  rw [List.append_assoc, List.append_assoc]
  rfl

section

variable {root : Path} {id : StackId} {t t' : Tree} {above : List String}

theorem leads_of_follow_root (hroot : t.follow [] root.parts = .ok above) {ps : List String}
    (hps : root.parts = ps ∨ root.parts = ps ++ [""]) : t.Leads [] ps above := by
  have hleads := Tree.leads_of_follow hroot
  rcases hps with hps | hps
  · rwa [hps] at hleads
  · rw [hps] at hleads
    exact hleads.of_slash

theorem at?_append_congr (hbelow : t.at? above = t'.at? above) (names : List String) :
    t.at? (above ++ names) = t'.at? (above ++ names) := by
  rw [Tree.at?, Tree.at?, Node.at?_append, Node.at?_append, ← Tree.at?, ← Tree.at?, hbelow]

theorem follow_congr (h : IsPlain id) (hroot : t.follow [] root.parts = .ok above)
    (hroot' : t'.follow [] root.parts = .ok above) (hbelow : t.at? above = t'.at? above) :
    t.follow [] (definitionPath root id).parts = t'.follow [] (definitionPath root id).parts := by
  obtain ⟨ps, hps, hparts⟩ := parts_definitionPath root h
  obtain ⟨⟨-, -, hname, -⟩, -, -, hversion, -⟩ := h
  have hfile : definitionFile ≠ ".." := by decide
  have hnames : ".." ∉ [id.name, id.version, definitionFile] := by
    simp [hname.symm, hversion.symm, hfile.symm]
  have hstep : t.follow above.reverse [id.name, id.version, definitionFile] =
      t'.follow above.reverse [id.name, id.version, definitionFile] := by
    apply Tree.follow_congr hnames
    rw [List.reverse_reverse]
    exact at?_append_congr hbelow
  have hne : [id.name, id.version, definitionFile] ≠ [] := List.cons_ne_nil _ _
  rw [hparts, (leads_of_follow_root hroot hps).follow_append (Node.at?_nil _) hne,
    (leads_of_follow_root hroot' hps).follow_append (Node.at?_nil _) hne, hbelow, hstep]

theorem read_congr (h : IsPlain id) (hroot : t.follow [] root.parts = .ok above)
    (hroot' : t'.follow [] root.parts = .ok above) (hbelow : t.at? above = t'.at? above) :
    t.read (definitionPath root id) = t'.read (definitionPath root id) := by
  have hresolve : t.resolve (definitionPath root id) = t'.resolve (definitionPath root id) := by
    rw [Tree.resolve, Tree.resolve, follow_congr h hroot hroot' hbelow]
  rw [Tree.read, Tree.read, ← hresolve]
  cases hanswer : t.resolve (definitionPath root id) with
  | error failure => rfl
  | ok names =>
      obtain ⟨above', hroot'', rfl⟩ := follow_of_resolve h hanswer
      obtain rfl : above = above' := Except.ok.inj (hroot.symm.trans hroot'')
      simp only [bind, Except.bind, at?_append_congr hbelow]

theorem find_congr (h : IsPlain id) (hroot : t.follow [] root.parts = .ok above)
    (hroot' : t'.follow [] root.parts = .ok above) (hbelow : t.at? above = t'.at? above) :
    find root t id = find root t' id := by
  have hread := read_congr h hroot hroot' hbelow
  delta find
  simp only [hread]

end

/-- Whether a lookup stays within the root: the path is that of the root with the name, the version
and the file after it, it leads there only, and what lies outside the root does not matter for the
answer. -/
structure StaysWithin (root : Path) (id : StackId) : Prop where
  components : (definitionPath root id).components =
    root.components ++ [.entry id.name, .entry id.version, .entry definitionFile]
  leads : ∀ (t : Tree) names, t.resolve (definitionPath root id) = .ok names →
    ∃ above, t.follow [] root.parts = .ok above ∧
      names = above ++ [id.name, id.version, definitionFile]
  answers : ∀ (t t' : Tree) above, t.follow [] root.parts = .ok above →
    t'.follow [] root.parts = .ok above → t.at? above = t'.at? above →
    ((registry root).lookup id t).1 = ((registry root).lookup id t').1

theorem StaysWithin.of_isPlain (root : Path) {id : StackId} (h : IsPlain id) :
    StaysWithin root id where
  components := components_definitionPath h
  leads := fun _ _ hresolve => follow_of_resolve h hresolve
  answers := by
    intro t t' above hroot hroot' hbelow
    simp only [registry]
    exact find_congr h hroot hroot' hbelow

/-- The lookup of a stack stays within the root exactly if its name and version are names of
directory entries, and no two such stacks share a path or a place. -/
theorem staysWithin_iff (root : Path) (id : StackId) :
    (StaysWithin root id ↔ IsPlain id) ∧
      ∀ id', IsPlain id → IsPlain id' → id ≠ id' →
        (definitionPath root id).components ≠ (definitionPath root id').components ∧
        ∀ (t : Tree) names, t.resolve (definitionPath root id) = .ok names →
          t.resolve (definitionPath root id') ≠ .ok names := by
  refine ⟨⟨?_, StaysWithin.of_isPlain root⟩, ?_⟩
  · intro h
    exact components_definitionPath_iff.mp h.components
  · intro id' h h' hne
    constructor
    · intro hcomponents
      rw [components_definitionPath h, components_definitionPath h',
        List.append_cancel_left_eq] at hcomponents
      simp only [List.cons.injEq, Files.Component.entry.injEq] at hcomponents
      exact hne (StackId.eq_of_parts hcomponents.1 hcomponents.2.1)
    · intro t names hresolve hresolve'
      obtain ⟨above, hroot, rfl⟩ := follow_of_resolve h hresolve
      obtain ⟨above', hroot', hnames⟩ := follow_of_resolve h' hresolve'
      obtain rfl : above = above' := Except.ok.inj (hroot.symm.trans hroot')
      rw [List.append_cancel_left_eq, List.cons.injEq, List.cons.injEq] at hnames
      exact hne (StackId.eq_of_parts hnames.1 hnames.2.1)

def sampleTree : Tree where
  entries := [
    ("stacks", .directory [("HDP", .directory [("3.0", .directory [("stack.json", .file [])])])]),
    ("x", .directory [("stack.json",
      .file (Utf8.encode "\x7b\"name\": \"..\", \"version\": \"x\"\x7d"))])]

def sampleId : StackId := ⟨"HDP", "3.0", rfl, rfl⟩

def nextId : StackId := ⟨"HDP", "3.1", rfl, rfl⟩

theorem staysWithin_iff_sample :
    StackId.parse "HDP-3.0" = .ok sampleId ∧ StaysWithin "stacks" sampleId ∧
      sampleTree.resolve (definitionPath "stacks" sampleId) =
        .ok ["stacks", "HDP", "3.0", "stack.json"] ∧
      sampleTree.resolve (definitionPath "stacks" nextId) ≠
        .ok ["stacks", "HDP", "3.0", "stack.json"] := by
  have hresolve : sampleTree.resolve (definitionPath "stacks" sampleId) =
      .ok ["stacks", "HDP", "3.0", "stack.json"] := by
    decide +kernel
  obtain ⟨hwithin, hothers⟩ := staysWithin_iff "stacks" sampleId
  obtain ⟨-, hplaces⟩ := hothers nextId (by decide) (by decide) (by decide)
  exact ⟨by decide, hwithin.mpr (by decide), hresolve, hplaces sampleTree _ hresolve⟩

/-- An id that a document may declare is looked up, and found, outside the root. -/
theorem lookup_outside_root :
    ∃ id, StackId.parse "..-x" = .ok id ∧ ¬ StaysWithin "stacks" id ∧
      (definitionPath "stacks" id).components =
        [.entry "stacks", .above, .entry "x", .entry "stack.json"] ∧
      sampleTree.resolve (definitionPath "stacks" id) = .ok ["x", "stack.json"] ∧
      ((registry "stacks").lookup id sampleTree).1 = .ok ⟨"..", "x", ∅, ∅⟩ := by
  refine ⟨⟨"..", "x", rfl, rfl⟩, by decide, ?_, by decide +kernel, by decide +kernel,
    by decide +kernel⟩
  intro h
  exact absurd h.components (by decide +kernel)

end ClusterBlueprint.StackFiles
