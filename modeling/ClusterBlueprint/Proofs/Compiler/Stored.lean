import ClusterBlueprint.Proofs.Compiler.Requests
import ClusterBlueprint.Proofs.Store.Files

namespace ClusterBlueprint

namespace Contents

/-- Whether every entity is held under the name of its blueprint. -/
def Keyed (held : Contents) : Prop :=
  ∀ name e, held name = some e → e.blueprintName = name

theorem keyed_none : Keyed fun _ => none :=
  fun _ _ h => nomatch h

theorem Keyed.update {held : Contents} (h : held.Keyed) {name : String} {e : Option Entity}
    (he : ∀ e' ∈ e, e'.blueprintName = name) : Keyed (Function.update held name e) := by
  intro name' e' hfound
  rw [Function.update_apply] at hfound
  split at hfound
  · rename_i hname
    exact (he e' hfound).trans hname.symm
  · exact h name' e' hfound

theorem Keyed.command {held : Contents} (h : held.Keyed) (command : StoreCommand) :
    Keyed (command.update held) := by
  cases command with
  | put e =>
      rw [StoreCommand.update]
      split
      · exact h.update fun e' he' => congrArg Entity.blueprintName (Option.some.inj he').symm
      · exact h
  | remove name => exact h.update fun e' he' => absurd he' (Option.not_mem_none e')
  | find name => exact h
  | names => exact h
  | reopen => exact h

theorem keyed_foldl_update (commands : List StoreCommand) :
    Keyed (commands.foldl StoreCommand.update fun _ => none) := by
  apply List.foldlRecOn (motive := Keyed) commands _ keyed_none
  intro held h command _
  exact h.command command

end Contents

namespace BlueprintStore

variable {σ : Type}

def after (store : BlueprintStore σ) (openAgain : σ → Except StoreError σ) (s : σ)
    (commands : List StoreCommand) : σ :=
  commands.foldl (fun s command => (store.perform openAgain s command).2) s

theorem Keeps.after {store : BlueprintStore σ} {openAgain : σ → Except StoreError σ}
    {Holds : σ → Contents → Prop} (h : store.Keeps openAgain Holds) {s : σ} {held : Contents}
    (hs : Holds s held) {commands : List StoreCommand}
    (hfits : ∀ command ∈ commands, command.Fits) :
    Holds (store.after openAgain s commands) (commands.foldl StoreCommand.update held) := by
  induction commands generalizing s held with
  | nil => exact hs
  | cons command commands ih =>
      rw [List.forall_mem_cons] at hfits
      exact ih (h.perform hs command hfits.1).2 hfits.2

end BlueprintStore

namespace EntityShelf

theorem get?_perform (shelf : EntityShelf) (command : StoreCommand) :
    SortedMap.get? (store.perform .ok shelf command).2 =
      command.update (SortedMap.get? shelf) := by
  funext name
  cases command with
  | put e =>
      rw [BlueprintStore.perform, put_eq, StoreCommand.update]
      split
      · rw [Function.update_apply]
        exact SortedMap.get?_insert _ _ _ _
      · rfl
  | remove name' =>
      rw [StoreCommand.update, Function.update_apply]
      exact SortedMap.get?_erase _ _ _
  | find name => rfl
  | names => rfl
  | reopen => rfl

theorem get?_after (shelf : EntityShelf) (commands : List StoreCommand) :
    SortedMap.get? (store.after .ok shelf commands) =
      commands.foldl StoreCommand.update (SortedMap.get? shelf) := by
  induction commands generalizing shelf with
  | nil => rfl
  | cons command commands ih =>
      rw [List.foldl_cons, ← get?_perform]
      exact ih _

end EntityShelf

namespace Compiler

variable {ρ σ : Type}

theorem name_of_fromEntity {c : Compiler σ} {e : Entity} {r : ResolvedBlueprint} {s s' : σ}
    (h : c.fromEntity e s = (.ok r, s')) : r.name = e.blueprintName := by
  obtain ⟨n, -, hcopies, hresolve⟩ := fromEntity_eq_ok h
  rw [ResolvedBlueprint.name, StackRegistry.blueprint_of_resolveAll hresolve]
  rw [checkCopies] at hcopies
  split at hcopies
  · cases hcopies
  · rename_i hname
    exact (not_not.mp hname).symm

theorem name_of_getBlueprint_eq_ok {c : Compiler σ} {name : String} {r : ResolvedBlueprint}
    {s s' : σ} (h : c.getBlueprint name s = (.ok r, s')) :
    ∃ e, (c.store.find name s).1 = .ok (some e) ∧ r.name = e.blueprintName := by
  rw [getBlueprint_eq] at h
  rcases hfind : c.store.find name s with ⟨_ | _ | e, s₁⟩
  · rw [hfind] at h
    nomatch h
  · rw [hfind] at h
    nomatch h
  · rw [hfind] at h
    exact ⟨e, rfl, name_of_fromEntity h⟩

/-- As long as a store is changed by commands only, a blueprint bears the name that it is loaded
by. -/
theorem name_of_getBlueprint_of_commands {store : BlueprintStore σ}
    {openAgain : σ → Except StoreError σ} {s : σ} (hstore : store.Fresh openAgain s)
    {commands : List StoreCommand} (hfits : ∀ command ∈ commands, command.Fits)
    {options : CompilerOptions} {kinds : HostGroupKinds} {registry : StackRegistry ρ} {known : ρ}
    {name : String} (hname : IsFittingName name) {r : ResolvedBlueprint} {t : ρ × σ}
    (h : (ofParts options kinds registry store).getBlueprint name
      (known, store.after openAgain s commands) = (.ok r, t)) : r.name = name := by
  obtain ⟨Holds, hkeeps, hs⟩ := hstore.keeps
  obtain ⟨e, hfound, hbears⟩ := name_of_getBlueprint_eq_ok h
  have hheld := hkeeps.find (hkeeps.after hs hfits) hname
  rw [hbears]
  apply Contents.keyed_foldl_update commands name e
  exact Except.ok.inj (hheld.symm.trans hfound)

/-- A blueprint that is loaded from files bears the name that was asked for exactly if the entity in
the file does; one that is loaded from memory always does. -/
theorem name_of_getBlueprint (options : CompilerOptions) (kinds : HostGroupKinds)
    (registry : StackRegistry ρ) (known : ρ) (name : String) :
    (∀ (files : EntityFiles) (tree : Files.Tree) r t,
      (ofParts options kinds registry files.store).getBlueprint name (known, tree) = (.ok r, t) →
        ∃ e, files.find tree name = .ok (some e) ∧ (r.name = name ↔ e.blueprintName = name)) ∧
    ∀ (commands : List StoreCommand) r t,
      (ofParts options kinds registry EntityShelf.store).getBlueprint name
          (known, EntityShelf.store.after .ok ∅ commands) = (.ok r, t) → r.name = name := by
  constructor
  · intro files tree r t h
    obtain ⟨e, hfound, hname⟩ := name_of_getBlueprint_eq_ok h
    refine ⟨e, hfound, ?_⟩
    rw [hname]
  · intro commands r t h
    obtain ⟨e, hfound, hname⟩ := name_of_getBlueprint_eq_ok h
    have hheld := congrFun (EntityShelf.get?_after ∅ commands) name
    rw [hname]
    apply Contents.keyed_foldl_update commands name e
    exact hheld.symm.trans (Except.ok.inj hfound)

def storedDemo : Entity where
  blueprintName := "demo"
  securityType := .none
  descriptorReference := none
  content := "\x7b\"blueprint_name\": \"demo\", \"stack_ids\": [\"HDP-3.0\"]\x7d"

def demoCommands : List StoreCommand :=
  [.put storedDemo, .remove "other"]

theorem name_of_getBlueprint_sample :
    ∃ r t, sample.getBlueprint "demo" (StackShelf.sample,
        EntityShelf.store.after .ok ∅ demoCommands) = (.ok r, t) ∧ r.name = "demo" := by
  have hloads : (sample.getBlueprint "demo" (StackShelf.sample,
      EntityShelf.store.after .ok ∅ demoCommands)).1.toOption.isSome = true := by
    decide +kernel
  rcases hload : sample.getBlueprint "demo" (StackShelf.sample,
      EntityShelf.store.after .ok ∅ demoCommands) with ⟨e | r, t⟩
  · rw [hload] at hloads
    cases hloads
  · obtain ⟨-, hname⟩ := name_of_getBlueprint .standard .standard StackShelf.registry
      StackShelf.sample "demo"
    exact ⟨r, t, rfl, hname demoCommands r t hload⟩

/-- A directory of entities with a copy of the file of one. -/
def copiedTree : Files.Tree where
  entries := [("db", .directory [(".blueprints",
    .directory [("copy.json", .file (EntityFiles.fileContent storedDemo))])])]

/-- A copy of a file is loaded under the name of the copy, and still bears its own. -/
theorem name_of_getBlueprint_copied :
    ((ofParts .standard .standard StackShelf.registry
        (EntityFiles.ofRoot "db").store).getBlueprint "copy"
        (StackShelf.sample, copiedTree)).1.map
      ResolvedBlueprint.name = .ok "demo" := by
  have hfound : (EntityFiles.ofRoot "db").find copiedTree "copy" = .ok (some storedDemo) :=
    EntityFiles.find_of_read (by decide) (by rfl)
  have hfind : ((EntityFiles.ofRoot "db").store.find "copy" copiedTree).1 =
      .ok (some storedDemo) := by
    simp only [EntityFiles.store]
    exact hfound
  rw [getBlueprint_of_find hfind]
  dsimp only
  decide +kernel

end Compiler

end ClusterBlueprint
