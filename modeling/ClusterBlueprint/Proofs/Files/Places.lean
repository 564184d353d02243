import ClusterBlueprint.Proofs.Files.Component
import Mathlib.Logic.Function.Basic

/-!
Places for files below a directory of a file tree. A place is clear if directories lead to it and no
directory stands there. As long as a set of places is clear, the tree is a finite map from them to
contents: reading and writing a file are looking up and updating (`HoldsFiles.read_eq`,
`HoldsFiles.write_eq`), and making directories on the way changes nothing
(`HoldsFiles.makeDirectories_eq`). What a path that has to be made first means for the places below
it is said by `made_below`.
-/

namespace ClusterBlueprint.Files

open SortedMap (lookupEntry)

namespace Node

/-- Whether names lead from a node through directories to a file, or to where nothing is. -/
def Clear : Node → List String → Prop
  | .file _, [] => True
  | .directory _, [] => False
  | .file _, _ :: _ => False
  | .directory entries, name :: names =>
      ∀ child, lookupEntry name entries = some child → child.Clear names

theorem exists_directory_of_clear {node : Node} {name : String} {names : List String}
    (h : node.Clear (name :: names)) :
    ∃ entries, node = .directory entries ∧
      ∀ child, lookupEntry name entries = some child → child.Clear names := by
  cases node with
  | file content => exact h.elim
  | directory entries => exact ⟨entries, rfl, h⟩

theorem clear_file (content : Bytes) : (file content).Clear [] :=
  trivial

theorem clear_directory_nil {names : List String} (hne : names ≠ []) :
    (directory []).Clear names := by
  cases names with
  | nil => exact absurd rfl hne
  | cons name names => exact fun _ hnone => nomatch hnone

theorem Clear.at? {node found : Node} {names more : List String} (h : node.Clear (names ++ more))
    (hfound : node.at? names = some found) : found.Clear more := by
  induction names generalizing node with
  | nil =>
      rw [at?_nil, Option.some.injEq] at hfound
      subst hfound
      exact h
  | cons name names ih =>
      obtain ⟨entries, rfl, hbelow⟩ := exists_directory_of_clear h
      rw [at?_directory_cons, Option.bind_eq_some_iff] at hfound
      obtain ⟨child, hchild, hfound⟩ := hfound
      exact ih (hbelow child hchild) hfound

/-- Names stay clear below a directory that is made where nothing was. -/
theorem clear_getD {entries : List (String × Node)} {name : String} {names : List String}
    (h : ∀ child, lookupEntry name entries = some child → child.Clear names) (hne : names ≠ []) :
    ((lookupEntry name entries).getD (directory [])).Clear names := by
  cases hchild : lookupEntry name entries with
  | none => exact clear_directory_nil hne
  | some child => exact h child hchild

/-- Names stay clear if something is put at the first of them, or beside them, below which the rest
is clear. -/
theorem clear_put {new node : Node} (hsorted : node.IsSorted) {names first more : List String}
    (hlength : first.length = names.length) (hnew : first = names → new.Clear more)
    (h : first ≠ [] → node.Clear (first ++ more)) : (new.put node names).Clear (first ++ more) := by
  induction names generalizing node first with
  | nil =>
      obtain rfl := List.length_eq_zero_iff.mp hlength
      rw [put, List.nil_append]
      exact hnew rfl
  | cons name names ih =>
      obtain ⟨name', first, rfl⟩ := List.exists_cons_of_length_eq_add_one hlength
      rw [List.length_cons, List.length_cons, Nat.succ_inj] at hlength
      obtain ⟨entries, rfl, hbelow⟩ := exists_directory_of_clear (h (List.cons_ne_nil name' first))
      obtain ⟨hentries, hnodes⟩ := isSorted_directory_iff.mp hsorted
      rw [put, List.cons_append]
      intro child hchild
      rw [SortedMap.lookupEntry_alterEntry name name' _ hentries] at hchild
      split at hchild
      next hname =>
        cases hchild
        subst hname
        refine ih (isSorted_getD hnodes name') hlength (fun hfirst => hnew (by rw [hfirst])) ?_
        exact fun hne => clear_getD hbelow (List.append_ne_nil_of_left_ne_nil hne more)
      next => exact hbelow child hchild

theorem at?_directory_nil {names : List String} (h : names ≠ []) :
    (directory []).at? names = none := by
  cases names with
  | nil => exact absurd rfl h
  | cons name names => rfl

/-- Of all lists of names of one length, only that at which something is put leads elsewhere. -/
theorem at?_put_of_length {new node : Node} (hsorted : node.IsSorted)
    {names names' more : List String} (h : names ≠ [] → node.Clear (names ++ more))
    (hlength : names'.length = names.length) :
    (new.put node names).at? names' = if names' = names then some new else node.at? names' := by
  induction names generalizing node names' with
  | nil =>
      obtain rfl := List.length_eq_zero_iff.mp hlength
      rw [put, at?_nil, if_pos rfl]
  | cons name names ih =>
      obtain ⟨name', names', rfl⟩ := List.exists_cons_of_length_eq_add_one hlength
      rw [List.length_cons, List.length_cons, Nat.succ_inj] at hlength
      obtain ⟨entries, rfl, hbelow⟩ := exists_directory_of_clear (h (List.cons_ne_nil name names))
      obtain ⟨hentries, hnodes⟩ := isSorted_directory_iff.mp hsorted
      have hchild := ih (isSorted_getD hnodes name)
        (fun hne => clear_getD hbelow (List.append_ne_nil_of_left_ne_nil hne more)) hlength
      rw [put, at?_directory_cons, at?_directory_cons,
        SortedMap.lookupEntry_alterEntry name name' _ hentries]
      by_cases hname : name' = name
      · subst hname
        rw [if_pos rfl, Option.bind_some, hchild]
        by_cases hnames : names' = names
        · rw [if_pos hnames, if_pos (by rw [hnames])]
        · rw [if_neg hnames, if_neg (by simpa using hnames)]
          cases lookupEntry name' entries with
          | some child => rfl
          | none =>
              -- Nothing is below a directory that has just been made.
              refine at?_directory_nil ?_
              rintro rfl
              exact hnames (List.length_eq_zero_iff.mp hlength.symm).symm
      · rw [if_neg hname, if_neg (fun heq => hname (List.cons.inj heq).1)]

/-- Whether places of one depth below a node are clear, and certain files are there. -/
structure HasFiles (node : Node) (places : List String → Prop) (depth : Nat)
    (held : List String → Option Bytes) : Prop where
  depth_eq : ∀ names, places names → names.length = depth
  clear : ∀ names, places names → node.Clear names
  found : ∀ names, places names → node.at? names = (held names).map .file

namespace HasFiles

variable {node : Node} {places : List String → Prop} {depth : Nat}
  {held : List String → Option Bytes}

theorem put_file (h : node.HasFiles places depth held) {names : List String} (hnames : places names)
    (hsorted : node.IsSorted) (content : Bytes) :
    ((file content).put node names).HasFiles places depth
      (Function.update held names (some content)) := by
  have hlength {names' : List String} (h' : places names') : names'.length = names.length :=
    (h.depth_eq names' h').trans (h.depth_eq names hnames).symm
  have hclear {names' : List String} (h' : places names') : node.Clear (names' ++ []) := by
    rw [List.append_nil]
    exact h.clear names' h'
  constructor
  case depth_eq => exact h.depth_eq
  case clear =>
    intro names' h'
    rw [← List.append_nil names']
    exact clear_put hsorted (hlength h') (fun _ => clear_file content) fun _ => hclear h'
  case found =>
    intro names' h'
    rw [at?_put_of_length hsorted (fun _ => hclear hnames) (hlength h'), Function.update_apply]
    split
    · rfl
    · exact h.found names' h'

/-- A directory may be made on the way to a place. -/
theorem put_directory (h : node.HasFiles places depth held) {names more : List String}
    (hnames : places (names ++ more)) (hmore : more ≠ []) (hsorted : node.IsSorted)
    (habsent : node.at? names = none) :
    ((directory []).put node names).HasFiles places depth held := by
  have hlength := h.depth_eq _ hnames
  have hpositive := List.length_pos_iff.mpr hmore
  rw [List.length_append] at hlength
  have hsplit {names' : List String} (h' : places names') : ∃ first rest,
      names' = first ++ rest ∧ first.length = names.length ∧ rest ≠ [] := by
    have hlength' := h.depth_eq _ h'
    refine ⟨_, _, (List.take_append_drop names.length names').symm,
      List.length_take_of_le (by omega), ?_⟩
    rw [ne_eq, List.drop_eq_nil_iff]
    omega
  constructor
  case depth_eq => exact h.depth_eq
  case clear =>
    intro names' h'
    obtain ⟨first, rest, rfl, hfirst, hrest⟩ := hsplit h'
    exact clear_put hsorted hfirst (fun _ => clear_directory_nil hrest) fun _ => h.clear _ h'
  case found =>
    intro names' h'
    obtain ⟨first, rest, rfl, hfirst, hrest⟩ := hsplit h'
    rw [← h.found _ h', at?_append, at?_append,
      at?_put_of_length hsorted (fun _ => h.clear _ hnames) hfirst]
    split
    next hsame => rw [hsame, habsent, Option.bind_some, Option.bind_none, at?_directory_nil hrest]
    next => rfl

end HasFiles

end Node

namespace Tree

/-- Whether a tree in order has a directory at the end of a path, with certain files at places of
one depth below it. -/
def HoldsFiles (t : Tree) (root : Path) (above : List String) (places : List String → Prop)
    (depth : Nat) (held : List String → Option Bytes) : Prop :=
  ∃ entries, t.HasDirectory root above entries ∧
    (Node.directory entries).HasFiles places depth held

theorem isRelative_foldl_join {base : Path} {names : List String} (hbase : base.IsRelative)
    (hnames : ∀ name ∈ names, IsFileName name) : (names.foldl Path.join base).IsRelative := by
  induction names generalizing base with
  | nil => exact hbase
  | cons name names ih =>
      rw [List.forall_mem_cons] at hnames
      exact ih (hbase.join hnames.1.nul hnames.1.slash) hnames.2

theorem resolve_of_isRelative {path : Path} (h : path.IsRelative)
    (hsize : path.utf8ByteSize ≤ greatestPath) (t : Tree) :
    t.resolve path = t.follow [] path.parts := by
  obtain ⟨hnul, hempty, hslash⟩ := h
  rw [ne_eq, String.toList_eq_nil_iff] at hempty
  simp [resolve, hnul, hslash, hempty, Nat.not_lt.mpr hsize]

theorem makeDirectories_of_isRelative {path : Path} (h : path.IsRelative)
    (hsize : path.utf8ByteSize ≤ greatestPath) (t : Tree) :
    t.makeDirectories path = t.makeAlong [] path.parts := by
  simp [makeDirectories, h.nul, h.slash, Nat.not_lt.mpr hsize]

section

variable {t : Tree} {root : Path} {above names : List String} {entries : List (String × Node)}

theorem HasDirectory.resolve_foldl_join (h : t.HasDirectory root above entries)
    (hnames : ∀ name ∈ names, IsFileName name) (hne : names ≠ [])
    (hsize : (names.foldl Path.join root).utf8ByteSize ≤ greatestPath) :
    t.resolve (names.foldl Path.join root) = t.follow above.reverse names := by
  obtain ⟨ps, hleads, hparts⟩ := h.leads_foldl_join hnames hne
  rw [resolve_of_isRelative (isRelative_foldl_join h.isRelative hnames) hsize, hparts,
    hleads.follow_append (Node.at?_nil _) hne, h.found]

theorem HasDirectory.makeDirectories_foldl_join (h : t.HasDirectory root above entries)
    (hnames : ∀ name ∈ names, IsFileName name) (hne : names ≠ [])
    (hsize : (names.foldl Path.join root).utf8ByteSize ≤ greatestPath) :
    t.makeDirectories (names.foldl Path.join root) = t.makeAlong above.reverse names := by
  obtain ⟨ps, hleads, hparts⟩ := h.leads_foldl_join hnames hne
  rw [makeDirectories_of_isRelative (isRelative_foldl_join h.isRelative hnames) hsize, hparts,
    hleads.makeAlong_append h.found]

theorem reverse_concat (above : List String) (name : String) :
    name :: above.reverse = (above ++ [name]).reverse := by
  simp

theorem follow_singleton {name : String} (hname : IsOrdinary name) (above : List String) :
    t.follow above.reverse [name] = .ok (above ++ [name]) := by
  have hleads : t.Leads above.reverse [name] (name :: above.reverse).reverse := .last hname
  rw [reverse_concat, List.reverse_reverse] at hleads
  exact follow_of_leads hleads

theorem follow_cons_below {name : String} (hname : IsOrdinary name) (hne : names ≠ [])
    (hfound : t.at? above = some (.directory entries)) :
    t.follow above.reverse (name :: names) = match lookupEntry name entries with
      | some (.directory _) => t.follow (above ++ [name]).reverse names
      | some (.file _) => .error .notADirectory
      | none => .error .notFound := by
  have hchild : t.at? (name :: above.reverse).reverse = lookupEntry name entries := by
    rw [reverse_concat, List.reverse_reverse]
    exact Node.at?_append_singleton hfound name
  rw [follow_cons_of_isOrdinary hname hne, hchild]
  rcases lookupEntry name entries with _ | _ | _ <;> simp only [reverse_concat]

theorem leads_of_directory (hnames : ∀ name ∈ names, IsOrdinary name)
    (hfound : t.at? (above ++ names) = some (.directory entries)) :
    t.Leads above.reverse names (above ++ names) := by
  induction names generalizing above with
  | nil =>
      have hdone : t.Leads above.reverse [] above.reverse.reverse := .done _
      rw [List.reverse_reverse] at hdone
      rwa [List.append_nil]
  | cons name names ih =>
      rw [List.forall_mem_cons] at hnames
      rw [List.append_cons] at hfound ⊢
      obtain ⟨below, hbelow⟩ := Node.exists_directory_of_at?_append hfound
      have hinto := ih hnames.2 hfound
      rw [← reverse_concat] at hinto
      have hentry : t.at? (name :: above.reverse).reverse = some (.directory below) := by
        rw [reverse_concat, List.reverse_reverse]
        exact hbelow
      exact .into hnames.1 hentry hinto

/-- Names that are clear are followed to their end, or lead nowhere. -/
theorem follow_of_clear (hnames : ∀ name ∈ names, IsOrdinary name) (hne : names ≠ [])
    (hfound : t.at? above = some (.directory entries))
    (hclear : (Node.directory entries).Clear names) :
    t.follow above.reverse names = .ok (above ++ names) ∨
      t.follow above.reverse names = .error .notFound ∧
        (Node.directory entries).at? names = none := by
  induction names generalizing above entries with
  | nil => exact absurd rfl hne
  | cons name names ih =>
      rw [List.forall_mem_cons] at hnames
      by_cases hlast : names = []
      · subst hlast
        exact .inl (follow_singleton hnames.1 above)
      · rw [follow_cons_below hnames.1 hlast hfound, Node.at?_directory_cons]
        cases hchild : lookupEntry name entries with
        | none => exact .inr ⟨rfl, rfl⟩
        | some child =>
            obtain ⟨next, rest, rfl⟩ := List.exists_cons_of_ne_nil hlast
            have hbelow := hclear child hchild
            obtain ⟨below, rfl, -⟩ := Node.exists_directory_of_clear hbelow
            have hnext : t.at? (above ++ [name]) = some (.directory below) := by
              rw [at?, Node.at?_append_singleton hfound, hchild]
            have hstep := ih hnames.2 hlast hnext hbelow
            rwa [← List.append_cons] at hstep

/-- Where a file cannot be found for want of it, and for no other reason, its place is clear. -/
theorem clear_of_follow (hnames : ∀ name ∈ names, IsOrdinary name) (hne : names ≠ [])
    (hfound : t.at? above = some (.directory entries))
    (hread : (do
      let found ← t.follow above.reverse names
      match t.at? found with
      | some (.file content) => .ok content
      | some (.directory _) => .error .isADirectory
      | none => .error .notFound : Except Failure Bytes) = .error .notFound) :
    (Node.directory entries).Clear names ∧ (Node.directory entries).at? names = none := by
  induction names generalizing above entries with
  | nil => exact absurd rfl hne
  | cons name names ih =>
      rw [List.forall_mem_cons] at hnames
      have habsent (hchild : lookupEntry name entries = none) :
          (Node.directory entries).Clear (name :: names) ∧
            (Node.directory entries).at? (name :: names) = none := by
        constructor
        · intro child hchild'
          rw [hchild] at hchild'
          cases hchild'
        · rw [Node.at?_directory_cons, hchild, Option.bind_none]
      by_cases hlast : names = []
      · subst hlast
        rw [follow_singleton hnames.1] at hread
        simp only [bind, Except.bind, at?, Node.at?_append_singleton hfound] at hread
        apply habsent
        rcases hchild : lookupEntry name entries with _ | _ | _
        · rfl
        · rw [hchild] at hread
          cases hread
        · rw [hchild] at hread
          cases hread
      · rw [follow_cons_below hnames.1 hlast hfound] at hread
        rcases hchild : lookupEntry name entries with _ | content | below
        · exact habsent hchild
        · rw [hchild] at hread
          cases hread
        · rw [hchild] at hread
          have hnext : t.at? (above ++ [name]) = some (.directory below) := by
            rw [at?, Node.at?_append_singleton hfound, hchild]
          obtain ⟨hclear, hnone⟩ := ih hnames.2 hlast hnext hread
          refine ⟨?_, ?_⟩
          · intro child hchild'
            cases hchild.symm.trans hchild'
            exact hclear
          · rw [Node.at?_directory_cons, hchild, Option.bind_some, hnone]

theorem HasDirectory.clear_of_read (h : t.HasDirectory root above entries)
    (hnames : ∀ name ∈ names, IsFileName name) (hne : names ≠ [])
    (hsize : (names.foldl Path.join root).utf8ByteSize ≤ greatestPath)
    (hread : t.read (names.foldl Path.join root) = .error .notFound) :
    (Node.directory entries).Clear names ∧ (Node.directory entries).at? names = none := by
  rw [read, h.resolve_foldl_join hnames hne hsize] at hread
  exact clear_of_follow (fun name hname => (hnames name hname).ordinary) hne h.found hread

namespace HoldsFiles

variable {places : List String → Prop} {depth : Nat} {held : List String → Option Bytes}

theorem at?_append (h : t.HoldsFiles root above places depth held) (hplace : places names) :
    t.at? (above ++ names) = (held names).map .file := by
  obtain ⟨entries, hdirectory, hfiles⟩ := h
  rw [at?, Node.at?_append, ← at?, hdirectory.found]
  exact hfiles.found names hplace

theorem read_eq (h : t.HoldsFiles root above places depth held) (hplace : places names)
    (hnames : ∀ name ∈ names, IsFileName name) (hne : names ≠ [])
    (hsize : (names.foldl Path.join root).utf8ByteSize ≤ greatestPath) :
    t.read (names.foldl Path.join root) = match held names with
      | some content => .ok content
      | none => .error .notFound := by
  obtain ⟨entries, hdirectory, hfiles⟩ := id h
  have hfollow := follow_of_clear (fun name hname => (hnames name hname).ordinary) hne
    hdirectory.found (hfiles.clear names hplace)
  rw [read, hdirectory.resolve_foldl_join hnames hne hsize]
  rcases hfollow with hfollow | ⟨hfollow, habsent⟩
  · simp only [hfollow, bind, Except.bind, h.at?_append hplace]
    cases held names <;> rfl
  · rw [hfiles.found names hplace, Option.map_eq_none_iff] at habsent
    rw [hfollow, habsent]
    rfl

theorem put_directory {more : List String} (h : t.HoldsFiles root above places depth held)
    (hplace : places (names ++ more)) (hmore : more ≠ []) (hne : names ≠ [])
    (habsent : t.at? (above ++ names) = none) :
    (t.put (above ++ names) (.directory [])).HoldsFiles root above places depth held ∧
      (t.put (above ++ names) (.directory [])).at? (above ++ names) = some (.directory []) := by
  obtain ⟨entries, hdirectory, hfiles⟩ := h
  have hsorted := hdirectory.sorted.at? hdirectory.found
  obtain ⟨entries', hentries', hput⟩ :=
    hdirectory.put_below Node.isSorted_directory_nil hne (by
      rw [habsent]
      rintro _ ⟨⟩)
  rw [at?, Node.at?_append, ← at?, hdirectory.found] at habsent
  refine ⟨⟨entries', hput, ?_⟩, ?_⟩
  · rw [← hentries']
    exact hfiles.put_directory hplace hmore hsorted habsent
  · rw [at?, Node.at?_append, ← at?, hput.found, Option.bind_some, ← hentries',
      Node.at?_put_of_length hsorted (fun _ => hfiles.clear _ hplace) rfl, if_pos rfl]

/-- Directories can be made on the way to a place, and no file is changed by that. -/
theorem makeAlong_eq {dirs done more : List String} (h : t.HoldsFiles root above places depth held)
    (hdone : ∃ below, t.at? (above ++ done) = some (.directory below))
    (hdirs : ∀ dir ∈ dirs, IsOrdinary dir) (hplace : places (done ++ dirs ++ more))
    (hmore : more ≠ []) :
    ∃ t', t.makeAlong (above ++ done).reverse dirs = .ok t' ∧
      t'.HoldsFiles root above places depth held ∧
      ∃ below, t'.at? (above ++ (done ++ dirs)) = some (.directory below) := by
  induction dirs generalizing t done with
  | nil =>
      rw [List.append_nil]
      exact ⟨t, makeAlong.eq_1 .., h, hdone⟩
  | cons dir dirs ih =>
      rw [List.forall_mem_cons] at hdirs
      rw [List.append_cons] at hplace
      rw [makeAlong_cons_of_isOrdinary hdirs.1, reverse_concat, List.reverse_reverse,
        List.append_assoc, List.append_cons done dir dirs]
      have hway : places ((done ++ [dir]) ++ (dirs ++ more)) := by
        rwa [← List.append_assoc]
      have hrest : dirs ++ more ≠ [] := List.append_ne_nil_of_right_ne_nil _ hmore
      cases hfound : t.at? (above ++ (done ++ [dir])) with
      | none =>
          obtain ⟨h', hmade⟩ := h.put_directory hway hrest
            (List.append_ne_nil_of_right_ne_nil _ (List.cons_ne_nil dir [])) hfound
          exact ih h' ⟨_, hmade⟩ hdirs.2 hplace
      | some node =>
          cases node with
          | directory below => exact ih h ⟨below, hfound⟩ hdirs.2 hplace
          | file content =>
              obtain ⟨entries, hdirectory, hfiles⟩ := h
              rw [at?, Node.at?_append, ← at?, hdirectory.found, Option.bind_some] at hfound
              obtain ⟨name, rest, hcons⟩ := List.exists_cons_of_ne_nil hrest
              rw [hcons] at hway
              exact ((hfiles.clear _ hway).at? hfound).elim

theorem makeDirectories_eq {more : List String} (h : t.HoldsFiles root above places depth held)
    (hplace : places (names ++ more)) (hmore : more ≠ [])
    (hnames : ∀ name ∈ names, IsFileName name) (hne : names ≠ [])
    (hsize : (names.foldl Path.join root).utf8ByteSize ≤ greatestPath) :
    ∃ t', t.makeDirectories (names.foldl Path.join root) = .ok t' ∧
      t'.HoldsFiles root above places depth held ∧
      ∃ below, t'.at? (above ++ names) = some (.directory below) := by
  obtain ⟨entries, hdirectory, -⟩ := id h
  have hdone : ∃ below, t.at? (above ++ []) = some (.directory below) := by
    rw [List.append_nil]
    exact ⟨entries, hdirectory.found⟩
  have hmake := h.makeAlong_eq hdone (fun name hname => (hnames name hname).ordinary) hplace hmore
  rwa [List.append_nil, List.nil_append,
    ← hdirectory.makeDirectories_foldl_join hnames hne hsize] at hmake

theorem write_eq {file : String} (h : t.HoldsFiles root above places depth held)
    (hplace : places (names ++ [file]))
    (hbelow : ∃ below, t.at? (above ++ names) = some (.directory below))
    (hnames : ∀ name ∈ names ++ [file], IsFileName name)
    (hsize : ((names ++ [file]).foldl Path.join root).utf8ByteSize ≤ greatestPath)
    (content : Bytes) :
    ∃ t', t.write ((names ++ [file]).foldl Path.join root) content = .ok t' ∧
      t'.HoldsFiles root above places depth
        (Function.update held (names ++ [file]) (some content)) := by
  obtain ⟨entries, hdirectory, hfiles⟩ := id h
  obtain ⟨below, hbelow⟩ := hbelow
  have hne : names ++ [file] ≠ [] := List.append_ne_nil_of_right_ne_nil _ (List.cons_ne_nil file [])
  have hfollow : t.follow above.reverse (names ++ [file]) = .ok (above ++ (names ++ [file])) := by
    have hordinary : ∀ name ∈ names ++ [file], IsOrdinary name :=
      fun name hname => (hnames name hname).ordinary
    rw [List.forall_mem_append, List.forall_mem_singleton] at hordinary
    have hlast := leads_of_follow (follow_singleton (t := t) hordinary.2 (above ++ names))
    rw [← List.append_assoc]
    exact follow_of_leads ((leads_of_directory hordinary.1 hbelow).append hbelow hlast)
  obtain ⟨entries', hentries', hput⟩ :=
    hdirectory.put_below (Node.isSorted_file content) hne (by
      intro old hold
      rw [h.at?_append hplace] at hold
      obtain ⟨old, -, rfl⟩ := Option.map_eq_some_iff.mp hold
      exact Node.keepsDirectories_file old _)
  refine ⟨_, ?_, entries', hput, ?_⟩
  · rw [write, hdirectory.resolve_foldl_join hnames hne hsize]
    simp only [hfollow, bind, Except.bind, h.at?_append hplace]
    cases held (names ++ [file]) <;> rfl
  · rw [← hentries']
    exact hfiles.put_file hplace (hdirectory.sorted.at? hdirectory.found) content

end HoldsFiles

end

/-- What has become of a tree when the directories along the parts of a path have been made, from a
directory given by its names in reverse. The path leads to a directory then; what would have been
made below it is made there, and nothing could be found below it unless it was there already. -/
structure Makes (t : Tree) (above parts : List String) (made : Tree) (names : List String) :
    Prop where
  sorted : made.top.IsSorted
  keeps : t.top.KeepsDirectories made.top
  leads : made.Leads above parts names
  found : ∃ entries, made.at? names = some (.directory entries)
  goesOn : ∀ rest, t.makeAlong above (parts ++ rest) = made.makeAlong names.reverse rest
  lacks : t = made ∨ ∀ rest, rest ≠ [] → t.follow above (parts ++ rest) = .error .notFound

theorem Makes.skip {t made : Tree} {above parts names : List String}
    (h : t.Makes above parts made names) {part : String} (hpart : part = "" ∨ part = ".") :
    t.Makes above (part :: parts) made names where
  sorted := h.sorted
  keeps := h.keeps
  leads := .skip hpart h.leads
  found := h.found
  goesOn := by
    intro rest
    rw [List.cons_append, makeAlong_cons_of_skip hpart]
    exact h.goesOn rest
  lacks := by
    refine h.lacks.imp_right fun hlacks rest hrest => ?_
    rw [List.cons_append, follow_cons_of_skip hpart]
    exact hlacks rest hrest

theorem Makes.up {t made : Tree} {above parts names : List String}
    (h : t.Makes above parts made names) (name : String) :
    t.Makes (name :: above) (".." :: parts) made names where
  sorted := h.sorted
  keeps := h.keeps
  leads := .up h.leads
  found := h.found
  goesOn := by
    intro rest
    rw [List.cons_append, makeAlong_cons_up]
    exact h.goesOn rest
  lacks := by
    refine h.lacks.imp_right fun hlacks rest hrest => ?_
    rw [List.cons_append, follow_cons_up]
    exact hlacks rest hrest

theorem Makes.into {t made : Tree} {above parts names : List String} {part : String}
    (h : t.Makes (part :: above) parts made names) (hpart : IsOrdinary part)
    {entries : List (String × Node)}
    (hfound : t.at? (part :: above).reverse = some (.directory entries)) :
    t.Makes above (part :: parts) made names where
  sorted := h.sorted
  keeps := h.keeps
  leads := by
    obtain ⟨entries', hfound'⟩ := h.keeps _ _ hfound
    exact .into hpart hfound' h.leads
  found := h.found
  goesOn := by
    intro rest
    rw [List.cons_append, makeAlong_cons_of_isOrdinary hpart, hfound]
    exact h.goesOn rest
  lacks := by
    refine h.lacks.imp_right fun hlacks rest hrest => ?_
    rw [List.cons_append,
      follow_cons_of_isOrdinary hpart (List.append_ne_nil_of_right_ne_nil _ hrest), hfound]
    exact hlacks rest hrest

theorem Makes.make {t made : Tree} {above parts names : List String} {part : String}
    (h : (t.put (part :: above).reverse (.directory [])).Makes (part :: above) parts made names)
    (hpart : IsOrdinary part) (hsorted : t.top.IsSorted)
    (hmade : (t.put (part :: above).reverse (.directory [])).at? (part :: above).reverse =
      some (.directory []))
    (habsent : t.at? (part :: above).reverse = none) : t.Makes above (part :: parts) made names where
  sorted := h.sorted
  keeps := by
    refine Node.KeepsDirectories.trans ?_ h.keeps
    rw [top_put]
    refine Node.keepsDirectories_put hsorted fun old hold => ?_
    cases habsent.symm.trans hold
  leads := by
    obtain ⟨entries, hfound⟩ := h.keeps _ _ hmade
    exact .into hpart hfound h.leads
  found := h.found
  goesOn := by
    intro rest
    rw [List.cons_append, makeAlong_cons_of_isOrdinary hpart, habsent]
    exact h.goesOn rest
  lacks := by
    right
    intro rest hrest
    rw [List.cons_append,
      follow_cons_of_isOrdinary hpart (List.append_ne_nil_of_right_ne_nil _ hrest), habsent]

theorem exists_makes {t t' : Tree} {above parts rest : List String} (hsorted : t.top.IsSorted)
    (habove : ∃ entries, t.at? above.reverse = some (.directory entries))
    (h : t.makeAlong above (parts ++ rest) = .ok t') :
    ∃ made names, t.Makes above parts made names := by
  -- Each part is one of the steps above, or else it ends in an error.
  induction parts generalizing t above with
  | nil =>
      refine ⟨t, above.reverse, hsorted, .refl _, .done above, habove, fun rest => ?_, .inl rfl⟩
      rw [List.reverse_reverse, List.nil_append]
  | cons part parts ih =>
      rw [List.cons_append] at h
      by_cases hskip : part = "" ∨ part = "."
      · rw [makeAlong_cons_of_skip hskip] at h
        obtain ⟨made, names, hmakes⟩ := ih hsorted habove h
        exact ⟨made, names, hmakes.skip hskip⟩
      by_cases hup : part = ".."
      · subst hup
        cases above with
        | nil => cases h
        | cons name above =>
            rw [makeAlong_cons_up] at h
            obtain ⟨entries, hentries⟩ := habove
            rw [List.reverse_cons] at hentries
            obtain ⟨made, names, hmakes⟩ :=
              ih hsorted (Node.exists_directory_of_at?_append hentries) h
            exact ⟨made, names, hmakes.up name⟩
      by_cases hlong : greatestName < part.utf8ByteSize
      · rw [makeAlong.eq_def] at h
        simp [hskip, hup, hlong] at h
      have hpart : IsOrdinary part := by
        rw [not_or] at hskip
        exact ⟨hskip.1, hskip.2, hup, Nat.not_lt.mp hlong⟩
      rw [makeAlong_cons_of_isOrdinary hpart] at h
      rcases hfound : t.at? (part :: above).reverse with _ | content | entries
      · rw [hfound] at h
        obtain ⟨entries, hentries⟩ := habove
        have hmade : (t.put (part :: above).reverse (.directory [])).at? (part :: above).reverse =
            some (.directory []) := by
          rw [at?, top_put, List.reverse_cons]
          exact Node.at?_put_concat hsorted hentries part
        have hsorted' : (t.put (part :: above).reverse (.directory [])).top.IsSorted := by
          rw [top_put]
          exact Node.isSorted_put Node.isSorted_directory_nil hsorted _
        obtain ⟨made, names, hmakes⟩ := ih hsorted' ⟨[], hmade⟩ h
        exact ⟨made, names, hmakes.make hpart hsorted hmade hfound⟩
      · rw [hfound] at h
        cases h
      · rw [hfound] at h
        obtain ⟨made, names, hmakes⟩ := ih hsorted ⟨entries, hfound⟩ h
        exact ⟨made, names, hmakes.into hpart hfound⟩

theorem at?_top (t : Tree) :
    ∃ entries, t.at? ([] : List String).reverse = some (.directory entries) :=
  ⟨t.entries, Node.at?_nil t.top⟩

theorem isSorted_of_makeDirectories {t made : Tree} {path : Path} (hsorted : t.top.IsSorted)
    (hmake : t.makeDirectories path = .ok made) : made.top.IsSorted := by
  rw [makeDirectories] at hmake
  split_ifs at hmake
  rw [← List.append_nil path.parts] at hmake
  obtain ⟨made', names, hmakes⟩ := exists_makes hsorted (at?_top t) hmake
  rw [hmakes.goesOn, makeAlong] at hmake
  exact Except.ok.inj hmake ▸ hmakes.sorted

/-- What is made below a path is made in the same way once the path has been made itself, and before
that nothing could be read there. -/
theorem made_below {t made : Tree} {root : Path} {names : List String} (hsorted : t.top.IsSorted)
    (hrelative : root.IsRelative) (hmake : t.makeDirectories root = .ok made)
    (hnames : ∀ name ∈ names, IsFileName name) (hne : names ≠ [])
    (hsize : (names.foldl Path.join root).utf8ByteSize ≤ greatestPath) :
    t.makeDirectories (names.foldl Path.join root) =
        made.makeDirectories (names.foldl Path.join root) ∧
      (t = made ∨ t.read (names.foldl Path.join root) = .error .notFound) := by
  have hjoined := isRelative_foldl_join hrelative hnames
  have hroot : root.utf8ByteSize ≤ greatestPath :=
    Nat.le_trans (Path.utf8ByteSize_le_foldl_join root fun name hname => (hnames name hname).slash)
      hsize
  obtain ⟨ps, hps, hparts⟩ := Path.parts_foldl_join root
    (fun name hname => ⟨(hnames name hname).ordinary.1, (hnames name hname).slash⟩) hne
  obtain ⟨slash, hslash, hnothing⟩ : ∃ slash, root.parts = ps ++ slash ∧
      ∀ (t : Tree) above, t.makeAlong above slash = .ok t := by
    rcases hps with hps | hps
    · exact ⟨[], by rw [hps, List.append_nil], fun t above => makeAlong.eq_1 ..⟩
    · refine ⟨[""], hps, fun t above => ?_⟩
      rw [makeAlong_cons_of_skip (.inl rfl), makeAlong]
  rw [makeDirectories_of_isRelative hrelative hroot, hslash] at hmake
  obtain ⟨made', above, hmakes⟩ := exists_makes hsorted (at?_top t) hmake
  obtain rfl : made' = made := by
    rw [hmakes.goesOn, hnothing] at hmake
    exact Except.ok.inj hmake
  obtain ⟨entries, hfound⟩ := hmakes.found
  rw [makeDirectories_of_isRelative hjoined hsize, makeDirectories_of_isRelative hjoined hsize,
    hparts]
  constructor
  · rw [hmakes.goesOn, hmakes.leads.makeAlong_append hfound]
  · rcases hmakes.lacks with hsame | hlacks
    · exact .inl hsame
    · right
      rw [read, resolve_of_isRelative hjoined hsize, hparts, hlacks names hne]
      rfl

end Tree

end ClusterBlueprint.Files
