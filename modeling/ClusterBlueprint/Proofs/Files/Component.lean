import ClusterBlueprint.Proofs.Files.Tree

namespace ClusterBlueprint.Files

inductive Component where
  | top
  | above
  | entry (name : String)
deriving DecidableEq, Repr

namespace Path

def component? (part : String) : Option Component :=
  if part = "" ∨ part = "." then none
  else if part = ".." then some .above
  else some (.entry part)

def components (path : Path) : List Component :=
  (if path.toList.head? = some '/' then [.top] else []) ++ path.parts.filterMap component?

/-- Whether a text names an entry of a directory when it is part of a path. -/
def IsName (part : String) : Prop :=
  part ≠ "" ∧ part ≠ "." ∧ part ≠ ".." ∧ '/' ∉ part.toList

instance (part : String) : Decidable (IsName part) :=
  inferInstanceAs (Decidable (_ ∧ _ ∧ _ ∧ _))

theorem component?_of_isName {part : String} (h : IsName part) :
    component? part = some (.entry part) := by
  obtain ⟨hempty, hdot, hdots, -⟩ := h
  rw [component?, if_neg (not_or.mpr ⟨hempty, hdot⟩), if_neg hdots]

theorem not_slash_of_mem_splitSlash {cs part : List Char} (h : part ∈ splitSlash cs) :
    '/' ∉ part := by
  induction cs generalizing part with
  | nil =>
      rw [List.mem_singleton.mp h]
      exact List.not_mem_nil
  | cons c cs ih =>
      rw [splitSlash] at h
      split at h
      · rcases List.mem_cons.mp h with rfl | hmem
        · exact List.not_mem_nil
        · exact ih hmem
      · rename_i hc
        obtain ⟨first, rest, hparts⟩ := List.exists_cons_of_ne_nil (splitSlash_ne_nil cs)
        rw [hparts] at h ih
        rcases List.mem_cons.mp h with rfl | hmem
        · rw [List.mem_cons, not_or]
          exact ⟨fun hslash => hc hslash.symm, ih List.mem_cons_self⟩
        · exact ih (List.mem_cons_of_mem _ hmem)

/-- Only names are entered by a path. -/
theorem isName_of_entry_mem_components {path : Path} {name : String}
    (h : .entry name ∈ path.components) : IsName name := by
  rw [components, List.mem_append, List.mem_filterMap] at h
  rcases h with h | ⟨part, hpart, hcomponent⟩
  · split at h
    · nomatch List.mem_singleton.mp h
    · nomatch h
  · have hslash : '/' ∉ part.toList := by
      obtain ⟨cs, hcs, rfl⟩ := List.mem_map.mp hpart
      rw [String.toList_ofList]
      exact not_slash_of_mem_splitSlash hcs
    rw [component?] at hcomponent
    split_ifs at hcomponent with hskip hdots
    · nomatch hcomponent
    obtain rfl : part = name := Component.entry.inj (Option.some.inj hcomponent)
    rw [not_or] at hskip
    exact ⟨hskip.1, hskip.2, hdots, hslash⟩

theorem head?_join_name (base : Path) {part : String} (hpart : '/' ∉ part.toList) :
    (base.join part).toList.head? = some '/' ↔ base.toList.head? = some '/' := by
  by_cases hbase : base.toList = []
  · obtain rfl := String.toList_eq_nil_iff.mp hbase
    rw [empty_join hpart]
    constructor
    · intro h
      exact absurd (List.mem_of_mem_head? h) hpart
    · intro h
      nomatch h
  · rw [head?_join hbase hpart]

theorem components_join (base : Path) {part : String} (hpart : IsName part) :
    (base.join part).components = base.components ++ [.entry part] := by
  obtain ⟨ps, hbase, hjoin⟩ := parts_join base hpart.2.2.2
  have hparts : base.parts.filterMap component? = ps.filterMap component? := by
    rcases hbase with hbase | hbase
    · rw [hbase]
    · rw [hbase, List.filterMap_append]
      exact List.append_nil _
  rw [components, components, hjoin, hparts, List.filterMap_append, List.append_assoc,
    List.filterMap_cons_some (component?_of_isName hpart), List.filterMap_nil]
  simp only [head?_join_name base hpart.2.2.2]

end Path

namespace Tree

/-- What a path with a name after it leads to lies in what the path leads to. -/
theorem Leads.of_join {t : Tree} {base : Path} {part : String} (hpart : Path.IsName part)
    {names : List String} (h : t.Leads [] (base.join part).parts names) :
    ∃ above, t.Leads [] base.parts above ∧ names = above ++ [part] := by
  obtain ⟨hempty, hdot, hdots, hslash⟩ := hpart
  obtain ⟨ps, hbase, hjoin⟩ := Path.parts_join base hslash
  rw [hjoin] at h
  obtain ⟨-, above, habove, rfl⟩ := h.of_concat ⟨hempty, hdot, hdots⟩
  refine ⟨above, ?_, rfl⟩
  rcases hbase with hbase | hbase
  · rw [hbase]
    exact habove.of_slash
  · rw [hbase]
    exact habove

end Tree

end ClusterBlueprint.Files
