import ClusterBlueprint.Files.Tree
import ClusterBlueprint.Proofs.Files.Path
import ClusterBlueprint.Proofs.Result
import ClusterBlueprint.Proofs.SortedMap

namespace ClusterBlueprint.Files

open SortedMap (lookupEntry alterEntry eraseEntry)

namespace Node

def IsSorted (node : Node) : Prop :=
  ∀ names entries, node.at? names = some (.directory entries) →
    (entries.map Prod.fst).Pairwise (· < ·)

/-- Whether there is a directory wherever one was. -/
def KeepsDirectories (node node' : Node) : Prop :=
  ∀ names entries, node.at? names = some (.directory entries) →
    ∃ entries', node'.at? names = some (.directory entries')

theorem KeepsDirectories.refl (node : Node) : node.KeepsDirectories node :=
  fun _ entries hfound => ⟨entries, hfound⟩

theorem KeepsDirectories.trans {node node' node'' : Node} (h : node.KeepsDirectories node')
    (h' : node'.KeepsDirectories node'') : node.KeepsDirectories node'' := by
  intro names entries hfound
  obtain ⟨entries', hfound'⟩ := h names entries hfound
  exact h' names entries' hfound'

@[simp]
theorem at?_nil (node : Node) : node.at? [] = some node := by
  cases node <;> rfl

@[simp]
theorem at?_directory_cons (entries : List (String × Node)) (name : String) (names : List String) :
    (directory entries).at? (name :: names) = (lookupEntry name entries).bind (·.at? names) := by
  rw [at?]
  cases lookupEntry name entries <;> rfl

theorem at?_append (node : Node) (names more : List String) :
    node.at? (names ++ more) = (node.at? names).bind (·.at? more) := by
  induction names generalizing node with
  | nil => rw [List.nil_append, at?_nil, Option.bind_some]
  | cons name names ih =>
      cases node with
      | file content => rfl
      | directory entries =>
          rw [List.cons_append, at?_directory_cons, at?_directory_cons, Option.bind_assoc]
          exact congrArg _ (funext ih)

theorem at?_append_singleton {node : Node} {names : List String} {entries : List (String × Node)}
    (h : node.at? names = some (.directory entries)) (name : String) :
    node.at? (names ++ [name]) = lookupEntry name entries := by
  rw [at?_append, h, Option.bind_some, at?_directory_cons, funext at?_nil, Option.bind_fun_some]

theorem exists_directory_of_at?_append {node : Node} {names more : List String}
    {entries : List (String × Node)} (h : node.at? (names ++ more) = some (.directory entries)) :
    ∃ entries', node.at? names = some (.directory entries') := by
  rw [at?_append, Option.bind_eq_some_iff] at h
  obtain ⟨below, hbelow, hfound⟩ := h
  cases below with
  | directory entries' => exact ⟨entries', hbelow⟩
  | file content => cases more <;> nomatch hfound

theorem isSorted_file (content : Bytes) : (file content).IsSorted := by
  intro names entries h
  cases names with
  | nil => nomatch h
  | cons name names => nomatch h

theorem isSorted_directory_iff {entries : List (String × Node)} :
    (directory entries).IsSorted ↔ (entries.map Prod.fst).Pairwise (· < ·) ∧
      ∀ name node, lookupEntry name entries = some node → node.IsSorted := by
  constructor
  · intro h
    refine ⟨h [] entries rfl, fun name node hnode names entries' hfound => ?_⟩
    apply h (name :: names) entries'
    rw [at?_directory_cons, hnode, Option.bind_some, hfound]
  · rintro ⟨hentries, hnodes⟩ names entries' h
    cases names with
    | nil =>
        cases h
        exact hentries
    | cons name names =>
        rw [at?_directory_cons, Option.bind_eq_some_iff] at h
        obtain ⟨node, hnode, hfound⟩ := h
        exact hnodes name node hnode names entries' hfound

theorem isSorted_directory_nil : (directory []).IsSorted := by
  refine isSorted_directory_iff.mpr ⟨List.Pairwise.nil, ?_⟩
  rintro _ _ hnone
  nomatch hnone

theorem isSorted_getD {entries : List (String × Node)}
    (h : ∀ name node, lookupEntry name entries = some node → node.IsSorted) (name : String) :
    ((lookupEntry name entries).getD (directory [])).IsSorted := by
  cases hnode : lookupEntry name entries with
  | none => exact isSorted_directory_nil
  | some node => exact h name node hnode

theorem isSorted_put {new node : Node} (hnew : new.IsSorted) (h : node.IsSorted)
    (names : List String) : (new.put node names).IsSorted := by
  induction names generalizing node with
  | nil =>
      rw [put]
      exact hnew
  | cons name names ih =>
      cases node with
      | file content => exact h
      | directory entries =>
          obtain ⟨hentries, hnodes⟩ := isSorted_directory_iff.mp h
          rw [put, isSorted_directory_iff]
          refine ⟨SortedMap.sorted_alterEntry name _ hentries, fun name' node' hnode' => ?_⟩
          rw [SortedMap.lookupEntry_alterEntry name name' _ hentries] at hnode'
          split at hnode'
          · cases hnode'
            exact ih (isSorted_getD hnodes name)
          · exact hnodes name' node' hnode'

theorem IsSorted.at? {node below : Node} (h : node.IsSorted) {names : List String}
    (hbelow : node.at? names = some below) : below.IsSorted := by
  intro more entries hfound
  apply h (names ++ more) entries
  rw [at?_append, hbelow, Option.bind_some, hfound]

theorem isSorted_eraseEntry {entries : List (String × Node)} (h : (directory entries).IsSorted)
    (name : String) : (directory (eraseEntry name entries)).IsSorted := by
  obtain ⟨hentries, hnodes⟩ := isSorted_directory_iff.mp h
  refine isSorted_directory_iff.mpr ⟨SortedMap.sorted_eraseEntry name hentries, ?_⟩
  intro name' node hnode
  rw [SortedMap.lookupEntry_eraseEntry name name' (SortedMap.nodup_of_sorted hentries)] at hnode
  split at hnode
  · nomatch hnode
  · exact hnodes name' node hnode

/-- What is found below a directory in order is found in one of its entries. -/
theorem exists_of_at?_cons {node found : Node} (hsorted : node.IsSorted) {name : String}
    {names : List String} (h : node.at? (name :: names) = some found) :
    ∃ entries child, node = directory entries ∧ (entries.map Prod.fst).Pairwise (· < ·) ∧
      lookupEntry name entries = some child ∧ child.IsSorted ∧ child.at? names = some found := by
  cases node with
  | file content => nomatch h
  | directory entries =>
      obtain ⟨hentries, hnodes⟩ := isSorted_directory_iff.mp hsorted
      rw [at?_directory_cons, Option.bind_eq_some_iff] at h
      obtain ⟨child, hchild, hfound⟩ := h
      exact ⟨entries, child, rfl, hentries, hchild, hnodes name child hchild, hfound⟩

theorem at?_put {new old node : Node} (hsorted : node.IsSorted) {names : List String}
    (h : node.at? names = some old) : (new.put node names).at? names = some new := by
  induction names generalizing node with
  | nil => rw [put, at?_nil]
  | cons name names ih =>
      obtain ⟨entries, child, rfl, hentries, hchild, hbelow, hfound⟩ := exists_of_at?_cons hsorted h
      rw [put, at?_directory_cons, SortedMap.lookupEntry_alterEntry name name _ hentries,
        if_pos rfl, Option.bind_some, hchild, Option.getD_some, ih hbelow hfound]

theorem keepsDirectories_file (content : Bytes) (node : Node) :
    (file content).KeepsDirectories node := by
  rintro (_ | ⟨name, names⟩) entries hfound
  · nomatch hfound
  · nomatch hfound

/-- What is put somewhere keeps the directories of the whole if it keeps those of what was there. -/
theorem keepsDirectories_put {new node : Node} (hsorted : node.IsSorted) {names : List String}
    (hkeeps : ∀ old, node.at? names = some old → old.KeepsDirectories new) :
    node.KeepsDirectories (new.put node names) := by
  induction names generalizing node with
  | nil =>
      rw [put]
      exact hkeeps node (at?_nil node)
  | cons name names ih =>
      cases node with
      | file content => exact keepsDirectories_file content _
      | directory entries =>
          obtain ⟨hentries, hnodes⟩ := isSorted_directory_iff.mp hsorted
          rintro (_ | ⟨name', names'⟩) entries' hfound
          · exact ⟨_, rfl⟩
          · rw [put, at?_directory_cons, SortedMap.lookupEntry_alterEntry name name' _ hentries]
            rw [at?_directory_cons] at hfound
            split
            · rename_i hname
              rw [hname, Option.bind_eq_some_iff] at hfound
              obtain ⟨child, hchild, hfound⟩ := hfound
              rw [hchild, Option.bind_some, Option.getD_some]
              refine ih (hnodes name child hchild) (fun old hold => hkeeps old ?_) names' entries'
                hfound
              rw [at?_directory_cons, hchild, Option.bind_some, hold]
            · exact ⟨entries', hfound⟩

theorem keepsDirectories_directory {entries entries' : List (String × Node)}
    (h : ∀ name below, lookupEntry name entries = some (.directory below) →
      lookupEntry name entries' = some (.directory below)) :
    (directory entries).KeepsDirectories (.directory entries') := by
  rintro (_ | ⟨name, names⟩) found hfound
  · exact ⟨_, rfl⟩
  · rw [at?_directory_cons, Option.bind_eq_some_iff] at hfound
    obtain ⟨child, hchild, hfound⟩ := hfound
    rw [at?_directory_cons]
    cases child with
    | file content => cases names <;> nomatch hfound
    | directory below =>
        rw [h name below hchild]
        exact ⟨found, hfound⟩

/-- Putting something below a node changes the node and nothing else. -/
theorem put_append {new below node : Node} (hsorted : node.IsSorted) {names : List String}
    (h : node.at? names = some below) (more : List String) :
    new.put node (names ++ more) = (new.put below more).put node names := by
  induction names generalizing node with
  | nil =>
      rw [at?_nil, Option.some.injEq] at h
      subst h
      rw [List.nil_append, put.eq_1 (new.put node more)]
  | cons name names ih =>
      obtain ⟨entries, child, rfl, hentries, hchild, hbelow, hfound⟩ := exists_of_at?_cons hsorted h
      rw [List.cons_append, put, put]
      apply congrArg Node.directory
      apply SortedMap.alterEntry_congr hentries
      rw [hchild, Option.getD_some, ih hbelow hfound]

theorem at?_put_concat {new node : Node} (hsorted : node.IsSorted) {names : List String}
    {entries : List (String × Node)} (h : node.at? names = some (.directory entries))
    (name : String) : (new.put node (names ++ [name])).at? (names ++ [name]) = some new := by
  obtain ⟨hentries, -⟩ := isSorted_directory_iff.mp (hsorted.at? h)
  rw [put_append hsorted h, at?_append, at?_put hsorted h, Option.bind_some, put,
    at?_directory_cons, SortedMap.lookupEntry_alterEntry name name _ hentries, if_pos rfl,
    Option.bind_some, put, at?_nil]

theorem erase_append {node : Node} (hsorted : node.IsSorted) {names : List String}
    {entries : List (String × Node)} (h : node.at? names = some (.directory entries))
    (name : String) :
    node.erase (names ++ [name]) = (directory (eraseEntry name entries)).put node names := by
  induction names generalizing node with
  | nil =>
      rw [at?_nil, Option.some.injEq] at h
      subst h
      rw [List.nil_append, erase, put]
  | cons name' names ih =>
      obtain ⟨entries', child, rfl, hentries, hchild, hbelow, hfound⟩ :=
        exists_of_at?_cons hsorted h
      have hne : names ++ [name] ≠ [] := List.append_ne_nil_of_right_ne_nil _ (List.cons_ne_nil _ _)
      rw [List.cons_append, erase.eq_3 _ _ _ hne, hchild, put]
      apply congrArg Node.directory
      apply SortedMap.alterEntry_congr hentries
      rw [hchild, Option.getD_some, ih hbelow hfound]

end Node

namespace Tree

/-- Whether a part of a path leads to what has that name in a directory. -/
def IsOrdinary (part : String) : Prop :=
  part ≠ "" ∧ part ≠ "." ∧ part ≠ ".." ∧ part.utf8ByteSize ≤ greatestName

theorem follow_cons_of_skip {t : Tree} {part : String} (hpart : part = "" ∨ part = ".")
    (above parts : List String) : t.follow above (part :: parts) = t.follow above parts := by
  rw [follow.eq_def]
  simp only [hpart, if_true]

theorem follow_cons_up (t : Tree) (name : String) (above parts : List String) :
    t.follow (name :: above) (".." :: parts) = t.follow above parts := by
  rw [follow.eq_def]
  simp

/-- The parts of a path lead from a directory, given by its names in reverse, along some names. -/
inductive Leads (t : Tree) : List String → List String → List String → Prop where
  | done (above : List String) : Leads t above [] above.reverse
  | skip {above parts names : List String} {part : String} (hpart : part = "" ∨ part = ".")
      (h : Leads t above parts names) : Leads t above (part :: parts) names
  | up {above parts names : List String} {name : String} (h : Leads t above parts names) :
      Leads t (name :: above) (".." :: parts) names
  | last {above : List String} {part : String} (hpart : IsOrdinary part) :
      Leads t above [part] (part :: above).reverse
  | into {above parts names : List String} {part : String} {entries : List (String × Node)}
      (hpart : IsOrdinary part) (hfound : t.at? (part :: above).reverse = some (.directory entries))
      (h : Leads t (part :: above) parts names) : Leads t above (part :: parts) names

theorem follow_of_leads {t : Tree} {above parts names : List String}
    (h : t.Leads above parts names) : t.follow above parts = .ok names := by
  induction h with
  | done above => rw [follow]
  | skip hpart _ ih => rw [follow_cons_of_skip hpart, ih]
  | up _ ih => rw [follow_cons_up, ih]
  | last hpart =>
      obtain ⟨hempty, hdot, hdots, hsize⟩ := hpart
      rw [follow.eq_def]
      simp [hempty, hdot, hdots, Nat.not_lt.mpr hsize]
  | @into above parts names part entries hpart hfound _ ih =>
      obtain ⟨hempty, hdot, hdots, hsize⟩ := hpart
      rw [follow.eq_def]
      simp only [hempty, hdot, hdots, Nat.not_lt.mpr hsize, or_self, if_false, hfound, ih]
      split
      · rename_i hparts
        rw [List.isEmpty_iff] at hparts
        subst hparts
        rw [follow] at ih
        exact ih
      · rfl

theorem leads_of_follow {t : Tree} {above parts names : List String}
    (h : t.follow above parts = .ok names) : t.Leads above parts names := by
  -- The names above change with every part, so they are kept general.
  induction parts generalizing above with
  | nil =>
      rw [follow] at h
      cases h
      exact .done above
  | cons part parts ih =>
      rw [follow.eq_def] at h
      dsimp only at h
      split at h
      · rename_i hskip
        exact .skip hskip (ih h)
      rename_i hskip
      split at h
      · rename_i hup
        subst hup
        cases above with
        | nil => nomatch h
        | cons name above => exact .up (ih h)
      rename_i hup
      split at h
      · nomatch h
      rename_i hlong
      have hpart : IsOrdinary part := ⟨fun h => hskip (.inl h), fun h => hskip (.inr h), hup,
        Nat.not_lt.mp hlong⟩
      split at h
      · rename_i hparts
        rw [List.isEmpty_iff] at hparts
        subst hparts
        cases h
        exact .last hpart
      split at h
      · nomatch h
      · nomatch h
      · rename_i hfound
        exact .into hpart hfound (ih h)

theorem Leads.append {t : Tree} {above parts names rest names' : List String}
    {entries : List (String × Node)} (h : t.Leads above parts names)
    (hfound : t.at? names = some (.directory entries)) (hrest : t.Leads names.reverse rest names') :
    t.Leads above (parts ++ rest) names' := by
  induction h with
  | done above =>
      rw [List.reverse_reverse] at hrest
      exact hrest
  | skip hpart _ ih => exact .skip hpart (ih hfound hrest)
  | up _ ih => exact .up (ih hfound hrest)
  | last hpart =>
      rw [List.reverse_reverse] at hrest
      exact .into hpart hfound hrest
  | into hpart hentries _ ih => exact .into hpart hentries (ih hfound hrest)

theorem Leads.mono {t t' : Tree} {above parts names : List String} (h : t.Leads above parts names)
    (hkeeps : t.top.KeepsDirectories t'.top) : t'.Leads above parts names := by
  induction h with
  | done above => exact .done above
  | skip hpart _ ih => exact .skip hpart ih
  | up _ ih => exact .up ih
  | last hpart => exact .last hpart
  | into hpart hfound _ ih =>
      obtain ⟨entries, hentries⟩ := hkeeps _ _ hfound
      exact .into hpart hentries ih

/-- A slash after a path asks for a directory and leads nowhere else. -/
theorem Leads.of_slash {t : Tree} {above parts names : List String}
    (h : t.Leads above (parts ++ [""]) names) : t.Leads above parts names := by
  -- The parts before the slash go on as they were; at the slash itself only `skip` is possible.
  induction parts generalizing above with
  | nil =>
      rw [List.nil_append] at h
      generalize hblank : "" = part at h
      cases h with
      | skip _ h => exact h
      | up _ => exact absurd hblank (by decide)
      | last hpart => exact absurd hblank.symm hpart.1
      | into hpart _ _ => exact absurd hblank.symm hpart.1
  | cons part parts ih =>
      rw [List.cons_append] at h
      generalize hrest : parts ++ [""] = rest at h
      cases h with
      | skip hpart h => exact .skip hpart (ih (hrest ▸ h))
      | up h => exact .up (ih (hrest ▸ h))
      | last _ => exact absurd hrest (List.append_ne_nil_of_right_ne_nil _ (List.cons_ne_nil _ _))
      | into hpart hfound h => exact .into hpart hfound (ih (hrest ▸ h))

/-- A path with a name at its end leads to something of that name, in the directory to which the
path leads with a slash in place of the name. -/
theorem Leads.of_concat {t : Tree} {above parts names : List String} {part : String}
    (h : t.Leads above (parts ++ [part]) names) (hdots : part ≠ "" ∧ part ≠ "." ∧ part ≠ "..") :
    IsOrdinary part ∧ ∃ names', t.Leads above (parts ++ [""]) names' ∧ names = names' ++ [part] := by
  induction parts generalizing above with
  | nil =>
      have hslash : t.Leads above [""] above.reverse := .skip (.inl rfl) (.done above)
      cases h with
      | skip hpart _ => exact absurd hpart (not_or.mpr ⟨hdots.1, hdots.2.1⟩)
      | up _ => exact absurd rfl hdots.2.2
      | last hpart => exact ⟨hpart, _, hslash, List.reverse_cons⟩
      | into hpart _ h =>
          cases h
          exact ⟨hpart, _, hslash, List.reverse_cons⟩
  | cons part' parts ih =>
      rw [List.cons_append] at h
      generalize hrest : parts ++ [part] = rest at h
      cases h with
      | skip hskip h =>
          obtain ⟨hpart, names', hleads, hnames⟩ := ih (hrest ▸ h)
          exact ⟨hpart, names', .skip hskip hleads, hnames⟩
      | up h =>
          obtain ⟨hpart, names', hleads, hnames⟩ := ih (hrest ▸ h)
          exact ⟨hpart, names', .up hleads, hnames⟩
      | last _ => exact absurd hrest (List.append_ne_nil_of_right_ne_nil _ (List.cons_ne_nil _ _))
      | into hinto hfound h =>
          obtain ⟨hpart, names', hleads, hnames⟩ := ih (hrest ▸ h)
          exact ⟨hpart, names', .into hinto hfound hleads, hnames⟩

theorem follow_cons_of_isOrdinary {t : Tree} {above parts : List String} {part : String}
    (hpart : IsOrdinary part) (hparts : parts ≠ []) :
    t.follow above (part :: parts) = match t.at? (part :: above).reverse with
      | some (.directory _) => t.follow (part :: above) parts
      | some (.file _) => .error .notADirectory
      | none => .error .notFound := by
  obtain ⟨hempty, hdot, hdots, hsize⟩ := hpart
  rw [← List.isEmpty_eq_false_iff] at hparts
  rw [follow.eq_def]
  simp only [hempty, hdot, hdots, Nat.not_lt.mpr hsize, or_self, if_false, hparts,
    Bool.false_eq_true]
  rcases t.at? (part :: above).reverse with _ | _ | _ <;> rfl

/-- A path goes on from where its first parts lead, if that is a directory. -/
theorem Leads.follow_append {t : Tree} {above parts names : List String}
    (h : t.Leads above parts names) {entries : List (String × Node)}
    (habove : t.at? above.reverse = some (.directory entries)) {rest : List String}
    (hrest : rest ≠ []) :
    t.follow above (parts ++ rest) = match t.at? names with
      | some (.directory _) => t.follow names.reverse rest
      | some (.file _) => .error .notADirectory
      | none => .error .notFound := by
  induction h generalizing entries with
  | done above => rw [habove, List.nil_append, List.reverse_reverse]
  | skip hpart _ ih => rw [← ih habove, List.cons_append, follow_cons_of_skip hpart]
  | up _ ih =>
      rw [List.reverse_cons] at habove
      obtain ⟨entries', habove'⟩ := Node.exists_directory_of_at?_append habove
      rw [← ih habove', List.cons_append, follow_cons_up]
  | last hpart =>
      rw [List.singleton_append, follow_cons_of_isOrdinary hpart hrest, List.reverse_reverse]
  | into hpart hentries _ ih =>
      rw [← ih hentries, List.cons_append,
        follow_cons_of_isOrdinary hpart (List.append_ne_nil_of_right_ne_nil _ hrest), hentries]

/-- A path that never goes up depends on nothing outside the directory where it starts. -/
theorem follow_congr {t t' : Tree} {above parts : List String} (hparts : ".." ∉ parts)
    (hbelow : ∀ names, t.at? (above.reverse ++ names) = t'.at? (above.reverse ++ names)) :
    t.follow above parts = t'.follow above parts := by
  induction parts generalizing above with
  | nil => rw [follow, follow]
  | cons part parts ih =>
      rw [List.mem_cons, not_or] at hparts
      have hup : part ≠ ".." := fun h => hparts.1 h.symm
      have hfound : t.at? (part :: above).reverse = t'.at? (part :: above).reverse := by
        rw [List.reverse_cons]
        exact hbelow [part]
      have hinto : t.follow (part :: above) parts = t'.follow (part :: above) parts := by
        apply ih hparts.2
        intro names
        rw [List.reverse_cons, List.append_assoc]
        exact hbelow (part :: names)
      rw [follow.eq_def, follow.eq_def t']
      simp only [hup, if_false, ih hparts.2 hbelow, hfound, hinto]

theorem makeAlong_cons_of_skip {t : Tree} {part : String} (hpart : part = "" ∨ part = ".")
    (above parts : List String) : t.makeAlong above (part :: parts) = t.makeAlong above parts := by
  rw [makeAlong.eq_def]
  simp only [hpart, if_true]

theorem makeAlong_cons_up (t : Tree) (name : String) (above parts : List String) :
    t.makeAlong (name :: above) (".." :: parts) = t.makeAlong above parts := by
  rw [makeAlong.eq_def]
  simp

theorem makeAlong_cons_of_isOrdinary {t : Tree} {above : List String} {part : String}
    (hpart : IsOrdinary part) (parts : List String) :
    t.makeAlong above (part :: parts) = match t.at? (part :: above).reverse with
      | none => makeAlong (t.put (part :: above).reverse (.directory [])) (part :: above) parts
      | some (.directory _) => t.makeAlong (part :: above) parts
      | some (.file _) => .error (if parts.isEmpty then .fileExists else .notADirectory) := by
  obtain ⟨hempty, hdot, hdots, hsize⟩ := hpart
  rw [makeAlong.eq_def]
  rcases hfound : t.at? (part :: above).reverse with _ | _ | _ <;>
    simp only [hempty, hdot, hdots, Nat.not_lt.mpr hsize, or_self, if_false, hfound]

/-- Directories that are there need not be made. -/
theorem Leads.makeAlong_append {t : Tree} {above parts names : List String}
    {entries : List (String × Node)} (h : t.Leads above parts names)
    (hfound : t.at? names = some (.directory entries)) (rest : List String) :
    t.makeAlong above (parts ++ rest) = t.makeAlong names.reverse rest := by
  induction h with
  | done above => rw [List.nil_append, List.reverse_reverse]
  | skip hpart _ ih => rw [← ih hfound, List.cons_append, makeAlong_cons_of_skip hpart]
  | up _ ih => rw [← ih hfound, List.cons_append, makeAlong_cons_up]
  | last hpart =>
      rw [List.cons_append, List.nil_append, List.reverse_reverse,
        makeAlong_cons_of_isOrdinary hpart, hfound]
  | into hpart hentries _ ih =>
      rw [List.cons_append, makeAlong_cons_of_isOrdinary hpart, hentries, ih hfound]

theorem resolve_eq_ok_iff {t : Tree} {path : Path} {names : List String} :
    t.resolve path = .ok names ↔ '\x00' ∉ path.toList ∧ path.toList ≠ [] ∧
      path.toList.head? ≠ some '/' ∧ path.utf8ByteSize ≤ greatestPath ∧
      t.Leads [] path.parts names := by
  rw [resolve]
  constructor
  · intro h
    split at h
    · nomatch h
    rename_i hnul
    split at h
    · nomatch h
    rename_i hstart
    split at h
    · nomatch h
    rename_i hlong
    simp only [Bool.or_eq_true, String.isEmpty_iff, decide_eq_true_eq, not_or] at hstart
    refine ⟨?_, ?_, hstart.2, Nat.not_lt.mp hlong, leads_of_follow h⟩
    · simpa using hnul
    · rw [ne_eq, String.toList_eq_nil_iff]
      exact hstart.1
  · rintro ⟨hnul, hempty, hslash, hsize, hleads⟩
    rw [ne_eq, String.toList_eq_nil_iff] at hempty
    simp [hnul, hempty, hslash, Nat.not_lt.mpr hsize, follow_of_leads hleads]

theorem top_put (t : Tree) (names : List String) (entries : List (String × Node)) :
    (t.put names (.directory entries)).top = (Node.directory entries).put t.top names := by
  cases names <;> rfl

/-- A tree in order that has a directory with certain entries at the end of a path. -/
structure HasDirectory (t : Tree) (path : Path) (names : List String)
    (entries : List (String × Node)) : Prop where
  sorted : t.top.IsSorted
  resolved : t.resolve path = .ok names
  found : t.at? names = some (.directory entries)

structure IsFileName (name : String) : Prop where
  nul : '\x00' ∉ name.toList
  slash : '/' ∉ name.toList
  ordinary : IsOrdinary name

section

variable {t : Tree} {path : Path} {names : List String} {entries : List (String × Node)}
  {name : String} {content : Bytes}

theorem hasDirectory_of_list (hsorted : t.top.IsSorted) {listed : List String}
    (hlist : t.list path = .ok listed) :
    ∃ names entries, t.HasDirectory path names entries ∧ entries.map Prod.fst = listed := by
  obtain ⟨names, hresolve, hentries⟩ := Result.bind_eq_ok hlist
  split at hentries
  · rename_i entries hfound
    exact ⟨names, entries, ⟨hsorted, hresolve, hfound⟩, Except.ok.inj hentries⟩
  · nomatch hentries
  · nomatch hentries

namespace HasDirectory

theorem sorted_entries (h : t.HasDirectory path names entries) :
    (entries.map Prod.fst).Pairwise (· < ·) :=
  h.sorted names entries h.found

theorem list_eq (h : t.HasDirectory path names entries) :
    t.list path = .ok (entries.map Prod.fst) := by
  simp only [list, h.resolved, bind, Except.bind, h.found]

theorem makeDirectories_eq (h : t.HasDirectory path names entries) :
    t.makeDirectories path = .ok t := by
  obtain ⟨hnul, -, hslash, hsize, hleads⟩ := resolve_eq_ok_iff.mp h.resolved
  have halong := hleads.makeAlong_append h.found []
  rw [List.append_nil, makeAlong] at halong
  simp [makeDirectories, hnul, hslash, Nat.not_lt.mpr hsize, halong]

theorem at?_append (h : t.HasDirectory path names entries) (name : String) :
    t.at? (names ++ [name]) = lookupEntry name entries :=
  Node.at?_append_singleton h.found name

theorem leads_foldl_join (h : t.HasDirectory path names entries) {more : List String}
    (hmore : ∀ name ∈ more, IsFileName name) (hne : more ≠ []) :
    ∃ parts, t.Leads [] parts names ∧ (more.foldl Path.join path).parts = parts ++ more := by
  obtain ⟨-, -, -, -, hleads⟩ := resolve_eq_ok_iff.mp h.resolved
  obtain ⟨parts, hparts, hjoin⟩ := Path.parts_foldl_join path
    (fun name hname => ⟨(hmore name hname).ordinary.1, (hmore name hname).slash⟩) hne
  refine ⟨parts, ?_, hjoin⟩
  rcases hparts with hparts | hparts
  · exact hparts ▸ hleads
  · exact (hparts ▸ hleads).of_slash

theorem leads_join (h : t.HasDirectory path names entries) (hname : IsFileName name) :
    ∃ parts, t.Leads [] parts names ∧ (path.join name).parts = parts ++ [name] := by
  have hjoin := h.leads_foldl_join (List.forall_mem_singleton.mpr hname) (List.cons_ne_nil name [])
  rwa [List.foldl_cons, List.foldl_nil] at hjoin

theorem isRelative (h : t.HasDirectory path names entries) : path.IsRelative := by
  obtain ⟨hnul, hempty, hslash, -, -⟩ := resolve_eq_ok_iff.mp h.resolved
  exact ⟨hnul, hempty, hslash⟩

theorem resolve_join (h : t.HasDirectory path names entries) (hname : IsFileName name)
    (hsize : (path.join name).utf8ByteSize ≤ greatestPath) :
    t.resolve (path.join name) = .ok (names ++ [name]) := by
  obtain ⟨parts, hleads, hjoin⟩ := h.leads_join hname
  obtain ⟨hnul, hempty, hslash⟩ := h.isRelative.join hname.nul hname.slash
  rw [resolve_eq_ok_iff, hjoin]
  refine ⟨hnul, hempty, hslash, hsize, ?_⟩
  have hlast : t.Leads names.reverse [name] (name :: names.reverse).reverse :=
    .last hname.ordinary
  rw [List.reverse_cons, List.reverse_reverse] at hlast
  exact hleads.append h.found hlast

/-- A path into a directory leads nowhere if its last part cannot be the name of a file. -/
theorem of_resolve_join (h : t.HasDirectory path names entries) (hslash : '/' ∉ name.toList)
    (hdots : name ≠ "" ∧ name ≠ "." ∧ name ≠ "..") {names' : List String}
    (hresolve : t.resolve (path.join name) = .ok names') : IsFileName name := by
  obtain ⟨-, hempty, -, -, -⟩ := resolve_eq_ok_iff.mp h.resolved
  obtain ⟨hnul, -, -, -, hleads⟩ := resolve_eq_ok_iff.mp hresolve
  obtain ⟨cs, -, hjoin⟩ := Path.toList_join hempty hslash
  obtain ⟨parts, -, hparts⟩ := Path.parts_join path hslash
  rw [hparts] at hleads
  refine ⟨fun hmem => hnul ?_, hslash, (hleads.of_concat hdots).1⟩
  rw [hjoin]
  exact List.mem_append_right _ (List.mem_cons_of_mem _ hmem)

theorem read_join (h : t.HasDirectory path names entries) (hname : IsFileName name)
    (hsize : (path.join name).utf8ByteSize ≤ greatestPath) :
    t.read (path.join name) = match lookupEntry name entries with
      | some (.file content) => .ok content
      | some (.directory _) => .error .isADirectory
      | none => .error .notFound := by
  have hfound := h.at?_append name
  generalize lookupEntry name entries = found at hfound ⊢
  rcases found with _ | _ | _ <;>
    simp only [read, h.resolve_join hname hsize, bind, Except.bind, hfound]

/-- Other entries may take the place of those of a directory as long as they keep the directories
below it. -/
theorem put (h : t.HasDirectory path names entries) {entries' : List (String × Node)}
    (hsorted : (Node.directory entries').IsSorted)
    (hkeeps : (Node.directory entries).KeepsDirectories (.directory entries')) :
    (t.put names (.directory entries')).HasDirectory path names entries' ∧
      t.top.KeepsDirectories (t.put names (.directory entries')).top := by
  have hkeeps' : t.top.KeepsDirectories (t.put names (.directory entries')).top := by
    rw [top_put]
    apply Node.keepsDirectories_put h.sorted
    intro old hold
    cases hold.symm.trans h.found
    exact hkeeps
  obtain ⟨hnul, hempty, hslash, hsize, hleads⟩ := resolve_eq_ok_iff.mp h.resolved
  refine ⟨⟨?_, ?_, ?_⟩, hkeeps'⟩
  · rw [top_put]
    exact Node.isSorted_put hsorted h.sorted names
  · exact resolve_eq_ok_iff.mpr ⟨hnul, hempty, hslash, hsize, hleads.mono hkeeps'⟩
  · rw [at?, top_put]
    exact Node.at?_put h.sorted h.found

/-- Something may be put below a directory as long as it keeps the directories that were there. -/
theorem put_below (h : t.HasDirectory path names entries) {new : Node} (hnew : new.IsSorted)
    {more : List String} (hne : more ≠ [])
    (hkeeps : ∀ old, t.at? (names ++ more) = some old → old.KeepsDirectories new) :
    ∃ entries', new.put (.directory entries) more = .directory entries' ∧
      (t.put (names ++ more) new).HasDirectory path names entries' := by
  have hsorted := h.sorted.at? h.found
  obtain ⟨entries', hentries'⟩ :
      ∃ entries', new.put (.directory entries) more = .directory entries' := by
    obtain ⟨name, more, rfl⟩ := List.exists_cons_of_ne_nil hne
    exact ⟨_, Node.put.eq_2 ..⟩
  have hput : t.put (names ++ more) new = t.put names (.directory entries') := by
    rw [← hentries']
    exact congrArg ofTop (Node.put_append h.sorted h.found more)
  refine ⟨entries', hentries', ?_⟩
  rw [hput]
  refine (h.put ?_ ?_).1
  · rw [← hentries']
    exact Node.isSorted_put hnew hsorted more
  · rw [← hentries']
    refine Node.keepsDirectories_put hsorted fun old hold => hkeeps old ?_
    rw [at?, Node.at?_append, ← at?, h.found]
    exact hold

theorem put_entry (h : t.HasDirectory path names entries) {new : Node} (hnew : new.IsSorted)
    (hold : ∀ below, lookupEntry name entries ≠ some (.directory below)) :
    (t.put (names ++ [name]) new).HasDirectory path names
      (alterEntry name (fun _ => new) entries) := by
  obtain ⟨entries', hentries', hput⟩ := h.put_below hnew (List.cons_ne_nil name []) (by
    intro old hfound
    rw [h.at?_append] at hfound
    cases old with
    | file content => exact Node.keepsDirectories_file content new
    | directory below => exact absurd hfound (hold below))
  simp only [Node.put, Node.directory.injEq] at hentries'
  exact hentries' ▸ hput

theorem write_join (h : t.HasDirectory path names entries) (hname : IsFileName name)
    (hsize : (path.join name).utf8ByteSize ≤ greatestPath)
    (hfile : ∀ below, lookupEntry name entries ≠ some (.directory below)) (content : Bytes) :
    ∃ t', t.write (path.join name) content = .ok t' ∧
      t'.HasDirectory path names (alterEntry name (fun _ => .file content) entries) := by
  refine ⟨_, ?_, h.put_entry (Node.isSorted_file content) hfile⟩
  simp only [write, h.resolve_join hname hsize, bind, Except.bind, h.at?_append]

theorem remove_join (h : t.HasDirectory path names entries) (hname : IsFileName name)
    (hsize : (path.join name).utf8ByteSize ≤ greatestPath)
    (hfile : lookupEntry name entries = some (.file content)) :
    ∃ t', t.remove (path.join name) = .ok t' ∧
      t'.HasDirectory path names (eraseEntry name entries) := by
  have hremove : t.remove (path.join name) =
      .ok (t.put names (.directory (eraseEntry name entries))) := by
    have herase := Node.erase_append h.sorted h.found name
    simp only [remove, h.resolve_join hname hsize, bind, Except.bind, h.at?_append, hfile]
    exact congrArg (fun node => Except.ok (ofTop node)) herase
  have hsorted := Node.isSorted_eraseEntry (h.sorted.at? h.found) name
  refine ⟨_, hremove,
    (h.put hsorted (Node.keepsDirectories_directory fun name' below hbelow => ?_)).1⟩
  rw [SortedMap.lookupEntry_eraseEntry name name' (SortedMap.nodup_of_sorted h.sorted_entries)]
  split
  · rename_i hsame
    rw [hsame, hfile] at hbelow
    nomatch hbelow
  · exact hbelow

theorem remove_join_of_absent (h : t.HasDirectory path names entries) (hname : IsFileName name)
    (hsize : (path.join name).utf8ByteSize ≤ greatestPath)
    (habsent : lookupEntry name entries = none) : t.remove (path.join name) = .error .notFound := by
  simp only [remove, h.resolve_join hname hsize, bind, Except.bind, h.at?_append, habsent]

theorem makeDirectories_join (h : t.HasDirectory path names entries) (hname : IsFileName name)
    (hsize : (path.join name).utf8ByteSize ≤ greatestPath)
    (habsent : lookupEntry name entries = none) :
    ∃ t', t.makeDirectories (path.join name) = .ok t' ∧
      t'.HasDirectory (path.join name) (names ++ [name]) [] := by
  have hmake : t.makeDirectories (path.join name) =
      .ok (t.put (names ++ [name]) (.directory [])) := by
    obtain ⟨hnul, -, hslash, -, -⟩ := resolve_eq_ok_iff.mp (h.resolve_join hname hsize)
    obtain ⟨parts, hleads, hjoin⟩ := h.leads_join hname
    have halong := hleads.makeAlong_append h.found [name]
    rw [makeAlong_cons_of_isOrdinary hname.ordinary] at halong
    simp only [List.reverse_cons, List.reverse_reverse, h.at?_append, habsent, makeAlong] at halong
    simp [makeDirectories, hnul, hslash, Nat.not_lt.mpr hsize, hjoin, halong]
  have hmade : (t.put (names ++ [name]) (.directory [])).HasDirectory path names
      (alterEntry name (fun _ => .directory []) entries) := by
    refine h.put_entry Node.isSorted_directory_nil fun below hbelow => ?_
    rw [habsent] at hbelow
    nomatch hbelow
  refine ⟨_, hmake, hmade.sorted, hmade.resolve_join hname hsize, ?_⟩
  rw [hmade.at?_append, SortedMap.lookupEntry_alterEntry name name _ h.sorted_entries, if_pos rfl]

end HasDirectory

end

end Tree

end ClusterBlueprint.Files
