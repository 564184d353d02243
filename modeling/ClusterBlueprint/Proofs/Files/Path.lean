import ClusterBlueprint.Files.Path
import Mathlib.Data.List.Basic

namespace ClusterBlueprint.Files.Path

theorem splitSlash_of_not_mem {cs : List Char} (h : '/' ∉ cs) : splitSlash cs = [cs] := by
  induction cs with
  | nil => rfl
  | cons c cs ih =>
      rw [List.mem_cons, not_or] at h
      have hc : c ≠ '/' := fun hc => h.1 hc.symm
      simp only [splitSlash, hc, if_false, ih h.2]

theorem splitSlash_ne_nil (cs : List Char) : splitSlash cs ≠ [] := by
  cases cs with
  | nil => exact List.cons_ne_nil _ _
  | cons c cs =>
      rw [splitSlash]
      split
      · exact List.cons_ne_nil _ _
      · cases splitSlash cs <;> exact List.cons_ne_nil _ _

theorem splitSlash_append_slash (cs ds : List Char) :
    splitSlash (cs ++ '/' :: ds) = splitSlash cs ++ splitSlash ds := by
  induction cs with
  | nil => rfl
  | cons c cs ih =>
      rw [List.cons_append, splitSlash, splitSlash, ih]
      split
      · rfl
      · obtain ⟨part, parts, hparts⟩ := List.exists_cons_of_ne_nil (splitSlash_ne_nil cs)
        rw [hparts]
        rfl

/-- A name that is put after a directory comes after a slash, which may be there already. -/
theorem toList_join {base part : Path} (hbase : base.toList ≠ []) (hpart : '/' ∉ part.toList) :
    ∃ cs, (base.toList = cs ∨ base.toList = cs ++ ['/']) ∧
      (base.join part).toList = cs ++ '/' :: part.toList := by
  have hhead : part.toList.head? ≠ some '/' := fun h => hpart (List.mem_of_mem_head? h)
  obtain ⟨cs, c, hcs⟩ : ∃ cs c, base.toList = cs ++ [c] :=
    ⟨_, _, (List.dropLast_append_getLast hbase).symm⟩
  rw [join, if_neg hhead, hcs, List.getLast?_concat, Option.all_some]
  by_cases hc : c = '/'
  · subst hc
    refine ⟨cs, .inr rfl, ?_⟩
    simp [hcs]
  · refine ⟨cs ++ [c], .inl rfl, ?_⟩
    simp [hc, hcs]

theorem empty_join {part : Path} (hpart : '/' ∉ part.toList) : join "" part = part := by
  have hhead : part.toList.head? ≠ some '/' := fun h => hpart (List.mem_of_mem_head? h)
  rw [join, if_neg hhead]
  exact String.empty_append

/-- The parts of a path with a name after it are those of the path, less a slash at its end, and the
name. -/
theorem parts_join (base : Path) {part : Path} (hpart : '/' ∉ part.toList) :
    ∃ ps, (base.parts = ps ∨ base.parts = ps ++ [""]) ∧ (base.join part).parts = ps ++ [part] := by
  by_cases hbase : base.toList = []
  · obtain rfl := String.toList_eq_nil_iff.mp hbase
    refine ⟨[], .inr rfl, ?_⟩
    rw [empty_join hpart, parts, splitSlash_of_not_mem hpart, List.map_singleton,
      String.ofList_toList, List.nil_append]
  obtain ⟨cs, hcs, hjoin⟩ := toList_join hbase hpart
  refine ⟨(splitSlash cs).map String.ofList, ?_, ?_⟩
  · rcases hcs with hcs | hcs
    · exact .inl (by rw [parts, hcs])
    · right
      rw [parts, hcs, splitSlash_append_slash, List.map_append]
      rfl
  · rw [parts, hjoin, splitSlash_append_slash, splitSlash_of_not_mem hpart, List.map_append,
      List.map_singleton, String.ofList_toList]

/-- The parts of a path with names after it are those of the path, less a slash at its end, and the
names. -/
theorem parts_foldl_join (base : Path) {names : List String}
    (hnames : ∀ name ∈ names, name ≠ "" ∧ '/' ∉ name.toList) (hne : names ≠ []) :
    ∃ ps, (base.parts = ps ∨ base.parts = ps ++ [""]) ∧
      (names.foldl join base).parts = ps ++ names := by
  induction names generalizing base with
  | nil => exact absurd rfl hne
  | cons name names ih =>
      rw [List.forall_mem_cons] at hnames
      obtain ⟨ps, hbase, hjoin⟩ := parts_join base hnames.1.2
      refine ⟨ps, hbase, ?_⟩
      cases names with
      | nil => exact hjoin
      | cons next names =>
          obtain ⟨qs, hqs, hparts⟩ := ih (base.join name) hnames.2 (List.cons_ne_nil _ _)
          rw [hjoin] at hqs
          rcases hqs with rfl | hqs
          · rw [List.foldl_cons, hparts, List.append_assoc, List.singleton_append]
          · -- The last part is the name, and that is not empty.
            exact absurd (List.append_inj' hqs rfl).2 (by simpa using hnames.1.1)

theorem head?_join {base part : Path} (hbase : base.toList ≠ []) (hpart : '/' ∉ part.toList) :
    (base.join part).toList.head? = base.toList.head? := by
  obtain ⟨cs, hcs, hjoin⟩ := toList_join hbase hpart
  rw [hjoin]
  cases cs with
  | nil =>
      rcases hcs with hcs | hcs
      · exact absurd hcs hbase
      · rw [hcs]
        rfl
  | cons c cs =>
      rcases hcs with hcs | hcs
      · rw [hcs]
        rfl
      · rw [hcs]
        rfl

theorem mem_join {base part : Path} (hbase : base.toList ≠ []) (hpart : '/' ∉ part.toList)
    {c : Char} (h : c ∈ (base.join part).toList) : c ∈ base.toList ∨ c = '/' ∨ c ∈ part.toList := by
  obtain ⟨cs, hcs, hjoin⟩ := toList_join hbase hpart
  rw [hjoin, List.mem_append, List.mem_cons] at h
  rcases h with h | h
  · rcases hcs with hcs | hcs
    · exact .inl (hcs ▸ h)
    · exact .inl (hcs ▸ List.mem_append_left _ h)
  · exact .inr h

theorem utf8ByteSize_join_le {base part : Path} (hpart : '/' ∉ part.toList) :
    (base.join part).utf8ByteSize ≤ base.utf8ByteSize + 1 + part.utf8ByteSize := by
  have hhead : part.toList.head? ≠ some '/' := fun h => hpart (List.mem_of_mem_head? h)
  have hslash : "/".utf8ByteSize = 1 := rfl
  rw [join, if_neg hhead]
  split
  · rw [String.utf8ByteSize_append]
    omega
  · apply Nat.le_of_eq
    rw [String.utf8ByteSize_append, String.utf8ByteSize_append, hslash]

theorem utf8ByteSize_le_join (base : Path) {part : Path} (hpart : '/' ∉ part.toList) :
    base.utf8ByteSize ≤ (base.join part).utf8ByteSize := by
  have hhead : part.toList.head? ≠ some '/' := fun h => hpart (List.mem_of_mem_head? h)
  rw [join, if_neg hhead]
  split
  · rw [String.utf8ByteSize_append]
    omega
  · rw [String.utf8ByteSize_append, String.utf8ByteSize_append]
    omega

theorem utf8ByteSize_le_foldl_join (base : Path) {names : List String}
    (hnames : ∀ name ∈ names, '/' ∉ name.toList) :
    base.utf8ByteSize ≤ (names.foldl join base).utf8ByteSize := by
  induction names generalizing base with
  | nil => exact Nat.le_refl _
  | cons name names ih =>
      rw [List.forall_mem_cons] at hnames
      exact Nat.le_trans (utf8ByteSize_le_join base hnames.1) (ih (base.join name) hnames.2)

/-- Whether a path may be followed from the top directory at all. -/
structure IsRelative (path : Path) : Prop where
  nul : '\x00' ∉ path.toList
  nonempty : path.toList ≠ []
  slash : path.toList.head? ≠ some '/'

theorem IsRelative.join {base part : Path} (h : base.IsRelative) (hnul : '\x00' ∉ part.toList)
    (hslash : '/' ∉ part.toList) : (base.join part).IsRelative := by
  have hhead := head?_join h.nonempty hslash
  constructor
  case nul =>
    intro hmem
    rcases mem_join h.nonempty hslash hmem with hmem | hmem | hmem
    · exact h.nul hmem
    · nomatch hmem
    · exact hnul hmem
  case nonempty =>
    intro hnil
    rw [hnil, List.head?_nil, eq_comm, List.head?_eq_none_iff] at hhead
    exact h.nonempty hhead
  case slash =>
    rw [hhead]
    exact h.slash

theorem splitLastDot_of_not_mem {cs : List Char} (h : '.' ∉ cs) : splitLastDot cs = none := by
  induction cs with
  | nil => rfl
  | cons c cs ih =>
      rw [List.mem_cons, not_or] at h
      have hc : c ≠ '.' := fun hc => h.1 hc.symm
      simp only [splitLastDot, ih h.2, hc, if_false]

theorem splitLastDot_append (cs : List Char) {ds : List Char} (h : '.' ∉ ds) :
    splitLastDot (cs ++ '.' :: ds) = some (cs, ds) := by
  induction cs with
  | nil => simp only [List.nil_append, splitLastDot, splitLastDot_of_not_mem h, if_true]
  | cons c cs ih => simp only [List.cons_append, splitLastDot, ih]

theorem append_of_splitLastDot {cs stem extension : List Char}
    (h : splitLastDot cs = some (stem, extension)) : cs = stem ++ '.' :: extension := by
  induction cs generalizing stem with
  | nil => nomatch h
  | cons c cs ih =>
      rw [splitLastDot] at h
      cases hrest : splitLastDot cs with
      | some found =>
          rw [hrest] at h
          cases h
          rw [List.cons_append, ← ih hrest]
      | none =>
          simp only [hrest] at h
          split at h
          · rename_i hc
            cases h
            rw [hc, List.nil_append]
          · nomatch h

theorem eq_append_of_stem? {name stem extension : String} (h : stem? extension name = some stem) :
    name = stem ++ "." ++ extension := by
  rw [stem?] at h
  split at h
  · rename_i cs found hsplit
    split at h
    · rename_i hfound
      rw [Bool.and_eq_true, beq_iff_eq] at hfound
      rw [Option.some.injEq] at h
      subst h
      rw [← String.toList_inj, append_of_splitLastDot hsplit, hfound.2]
      simp
    · nomatch h
  · nomatch h

/-- Whatever dots stand in a name, the extension is what comes after the last one. -/
theorem stem?_append {name extension : String} (hname : name ≠ "") (h : '.' ∉ extension.toList) :
    stem? extension (name ++ "." ++ extension) = some name := by
  have hsplit : splitLastDot (name ++ "." ++ extension).toList =
      some (name.toList, extension.toList) := by
    rw [← splitLastDot_append name.toList h]
    simp
  have hempty : name.toList.isEmpty = false := by
    rw [List.isEmpty_eq_false_iff, ne_eq, String.toList_eq_nil_iff]
    exact hname
  simp only [stem?, hsplit, hempty, Bool.not_false, beq_self_eq_true, Bool.and_self, if_true,
    String.ofList_toList]

end ClusterBlueprint.Files.Path
