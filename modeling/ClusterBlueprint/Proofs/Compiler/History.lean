import ClusterBlueprint.Proofs.Compiler.Requests
import ClusterBlueprint.Proofs.Store.Files

namespace ClusterBlueprint

theorem isStorableName_of_isValidName {name : String} (h : Blueprint.isValidName name = true) :
    isStorableName name = true ∧ '\x00' ∉ name.toList := by
  rw [Blueprint.isValidName] at h
  cases hname : name.toList with
  | nil =>
      rw [hname] at h
      cases h
  | cons c rest =>
      rw [hname, Bool.and_eq_true, List.all_eq_true] at h
      obtain ⟨hstart, hrest⟩ := h
      have hall : ∀ c' ∈ c :: rest, Blueprint.isNameRest c' = true := by
        refine List.forall_mem_cons.mpr ⟨?_, hrest⟩
        rw [Blueprint.isNameStart] at hstart
        rw [Blueprint.isNameRest, hstart]
        rfl
      have habsent {c' : Char} (hc' : Blueprint.isNameRest c' = false) : c' ∉ c :: rest := by
        intro hmem
        rw [hall c' hmem] at hc'
        cases hc'
      have hdots {s : String} (hs : s.toList.head? = some '.') : name ≠ s := by
        rintro rfl
        rw [hname, List.head?_cons, Option.some.injEq] at hs
        rw [hs] at hstart
        exact absurd hstart (by decide)
      have hempty : name ≠ "" := by
        rintro rfl
        cases hname
      refine ⟨?_, habsent (by decide)⟩
      simp only [isStorableName, Bool.and_eq_true, List.all_eq_true, bne_iff_ne, Bool.not_eq_true',
        ← Bool.not_eq_true, String.isEmpty_iff, hname]
      refine ⟨⟨⟨hempty, fun c' hc' => ⟨?_, ?_⟩⟩, hdots rfl⟩, hdots rfl⟩
      · rintro rfl
        exact habsent (by decide) hc'
      · rintro rfl
        exact habsent (by decide) hc'

/-- Whether a resolved blueprint is another one up to the order inside its maps; the stacks are in
the same order. -/
structure ResolvedBlueprint.Matches (r' r : ResolvedBlueprint) : Prop where
  blueprint : r'.blueprint.agrees r.blueprint = true
  stackIds : r'.blueprint.stackIds = r.blueprint.stackIds
  security : r'.blueprint.security = r.blueprint.security
  catalog : r'.catalog = r.catalog

section

variable {ρ σ : Type} (registry : StackRegistry ρ) (known : ρ) (kinds : HostGroupKinds)
  (store : BlueprintStore σ)

/-- Whether a resolved blueprint has been answered by a compiler, to any request and whatever the
store held, and can be kept in a file. -/
structure Savable (r : ResolvedBlueprint) : Prop where
  produced : ∃ options request entities t,
    (Compiler.ofParts options kinds registry store).produce request (known, entities) = (.ok r, t)
  settings : r.blueprint.HasReadableSettings
  size : (r.name ++ ".json").utf8ByteSize ≤ 255

variable {registry known kinds store}

theorem Savable.isReadable (hregistry : registry.Unchanging known) (hkinds : kinds.AreOrdinary)
    {r : ResolvedBlueprint} (h : Savable registry known kinds store r) :
    r.blueprint.normalize = .ok r.blueprint ∧ r.blueprint.configuration.Grounded ∧
      (∀ g ∈ r.blueprint.hostGroups, g.configuration.Grounded ∧ kinds.ReadsPlainly g) ∧
      (registry.resolveAll r.blueprint known).1 = .ok r := by
  obtain ⟨options, request, entities, t, hproduce⟩ := h.produced
  obtain ⟨v, b, n, security, hvalue, hnormal, hresolve⟩ := Compiler.produce_eq_ok hproduce
  have hresolve : (registry.resolveAll { n with security := security } known).1 = .ok r := by
    have hstate : ((Compiler.ofParts options kinds registry store).stateFor request
        (known, entities)).1 = known :=
      Compiler.fst_stateFor_ofParts request _
    generalize (Compiler.ofParts options kinds registry store).stateFor request (known, entities) =
      state at hresolve hstate
    obtain ⟨known', entities'⟩ := state
    cases hstate
    exact congrArg Prod.fst ((StackRegistry.resolveAll_within hregistry _ entities').symm.trans
      hresolve)
  obtain ⟨hblueprint, -⟩ := StackRegistry.resolveAll_congr hresolve rfl rfl
  obtain ⟨hconfiguration, hhostGroups⟩ :=
    Codec.grounded_of_decodeValue (c := ⟨options.layout, kinds⟩) hkinds hvalue hnormal
  have hfixed := Blueprint.normalize_of_normalize hnormal
  rw [hblueprint]
  exact ⟨Blueprint.normalize_withSecurity hfixed security, hconfiguration, hhostGroups,
    hblueprint ▸ hresolve⟩

theorem fromEntity_toEntity (hregistry : registry.Unchanging known) (hkinds : kinds.AreOrdinary)
    {r : ResolvedBlueprint} (h : Savable registry known kinds store r)
    (options options' : CompilerOptions) (entities : σ) :
    ∃ r', (Compiler.ofParts options' kinds registry store).fromEntity
        ((Compiler.ofParts options kinds registry store).toEntity r.blueprint) (known, entities) =
          (.ok r', (known, entities)) ∧ r'.Matches r := by
  obtain ⟨hnormal, hconfiguration, hhostGroups, hresolve⟩ := h.isReadable hregistry hkinds
  obtain ⟨b, hraw, hback⟩ := Codec.decodeRaw_encode ⟨options.layout, kinds⟩ ⟨options'.layout, kinds⟩
    hconfiguration hhostGroups h.settings
  obtain ⟨n, hn, hagrees, hstackIds⟩ := hback.normalize.2 _ hnormal
  obtain ⟨hname, -, -, -, -, hsecurity⟩ := Blueprint.agrees_iff.mp hagrees
  have hdecode : (Compiler.ofParts options' kinds registry store).codec.decode (Utf8.encode
      ((Compiler.ofParts options kinds registry store).toEntity r.blueprint).content) = .ok n := by
    simp only [Compiler.toEntity, Compiler.codec, Compiler.ofParts]
    rw [Codec.decode_of_decodeRaw hraw, hn]
    rfl
  have hcopies : Compiler.checkCopies
      ((Compiler.ofParts options kinds registry store).toEntity r.blueprint) n = .ok () := by
    simp [Compiler.checkCopies, Compiler.toEntity, hname, hsecurity]
  obtain ⟨-, hresolve'⟩ := StackRegistry.resolveAll_congr hresolve hname hstackIds
  have hfinish : (Compiler.ofParts options' kinds registry store).finish n (known, entities) =
      (.ok ⟨n, r.catalog⟩, (known, entities)) := by
    have hwithin := StackRegistry.resolveAll_within hregistry n entities
    rw [hresolve'] at hwithin
    simp only [Compiler.finish, Compiler.ofParts, hwithin]
    rfl
  refine ⟨⟨n, r.catalog⟩, ?_, hagrees, hstackIds, hsecurity, rfl⟩
  rw [Compiler.fromEntity_of_ok hdecode hcopies, hfinish]

def IsEntityOf (registry : StackRegistry ρ) (known : ρ) (kinds : HostGroupKinds)
    (store : BlueprintStore σ) (name : String) (e : Entity) (r : ResolvedBlueprint) : Prop :=
  r.name = name ∧ Savable registry known kinds store r ∧
    ∃ options, e = (Compiler.ofParts options kinds registry store).toEntity r.blueprint

/-- Whether a store that holds certain entities has those of the blueprints that have been saved. -/
def HasSaved (registry : StackRegistry ρ) (known : ρ) (kinds : HostGroupKinds)
    (store : BlueprintStore σ) (held : Contents) (saved : String → Option ResolvedBlueprint) :
    Prop :=
  ∀ name, Option.Rel (IsEntityOf registry known kinds store name) (held name) (saved name)

theorem HasSaved.update {held : Contents} {saved : String → Option ResolvedBlueprint}
    (h : HasSaved registry known kinds store held saved) {name : String} {e : Option Entity}
    {r : Option ResolvedBlueprint}
    (hnew : Option.Rel (IsEntityOf registry known kinds store name) e r) :
    HasSaved registry known kinds store (Function.update held name e)
      (Function.update saved name r) := by
  intro name'
  by_cases hname : name' = name
  · subst hname
    rw [Function.update_self, Function.update_self]
    exact hnew
  · rw [Function.update_of_ne hname, Function.update_of_ne hname]
    exact h name'

theorem Savable.name {r : ResolvedBlueprint} (h : Savable registry known kinds store r)
    (hregistry : registry.Unchanging known) (hkinds : kinds.AreOrdinary) :
    isStorableName r.name = true ∧ IsFittingName r.name := by
  obtain ⟨hnormal, -⟩ := h.isReadable hregistry hkinds
  obtain ⟨hcheck, -⟩ := Blueprint.normalize_eq_ok_iff.mp hnormal
  obtain ⟨-, hvalid, -⟩ := Blueprint.check_eq_ok_iff.mp hcheck
  obtain ⟨hstorable, hnul⟩ := isStorableName_of_isValidName hvalid
  exact ⟨hstorable, hnul, h.size⟩

theorem save_of_put {options : CompilerOptions} {r : ResolvedBlueprint} {s : σ}
    (h : (store.put ((Compiler.ofParts options kinds registry store).toEntity r.blueprint) s).1 =
      .ok ()) :
    (Compiler.ofParts options kinds registry store).save r (known, s) = (.ok (), (known,
      (store.put ((Compiler.ofParts options kinds registry store).toEntity r.blueprint) s).2)) := by
  have hput : (Compiler.ofParts options kinds registry store).store.put
      ((Compiler.ofParts options kinds registry store).toEntity r.blueprint) (known, s) =
        (.ok (), (known, (store.put
          ((Compiler.ofParts options kinds registry store).toEntity r.blueprint) s).2)) :=
    Prod.ext h rfl
  rw [Compiler.save_eq, hput]

end

/-- A step in the history of a store: a compiler saves a resolved blueprint, or a name is given
up, or the store is opened again. -/
inductive HistoryStep where
  | save (options : CompilerOptions) (r : ResolvedBlueprint)
  | remove (name : String)
  | reopen

namespace HistoryStep

/-- What has been saved last under each name after a step. -/
def update (saved : String → Option ResolvedBlueprint) :
    HistoryStep → String → Option ResolvedBlueprint
  | save _ r => Function.update saved r.name (some r)
  | remove name => Function.update saved name none
  | reopen => saved

section

variable {ρ σ : Type} (registry : StackRegistry ρ) (known : ρ) (kinds : HostGroupKinds)
  (store : BlueprintStore σ) (openAgain : σ → Except StoreError σ)

def take (s : σ) : HistoryStep → Except CompileError σ
  | save options r =>
      match (Compiler.ofParts options kinds registry store).save r (known, s) with
      | (.ok (), t) => .ok t.2
      | (.error error, _) => .error error
  | remove name => .ok (store.remove name s).2
  | reopen => (openAgain s).mapError .store

def IsSavable : HistoryStep → Prop
  | save _ r => Savable registry known kinds store r
  | remove _ => True
  | reopen => True

variable {registry known kinds store openAgain}

theorem take_eq_ok (hregistry : registry.Unchanging known) (hkinds : kinds.AreOrdinary)
    {Holds : σ → Contents → Prop} (hstore : store.Keeps openAgain Holds) {s : σ} {held : Contents}
    {saved : String → Option ResolvedBlueprint} (hs : Holds s held)
    (hsaved : HasSaved registry known kinds store held saved) (step : HistoryStep)
    (hstep : step.IsSavable registry known kinds store) :
    ∃ s' held', step.take registry known kinds store openAgain s = .ok s' ∧ Holds s' held' ∧
      HasSaved registry known kinds store held' (step.update saved) := by
  cases step with
  | save options r =>
      obtain ⟨hstorable, hfits⟩ := Savable.name hstep hregistry hkinds
      obtain ⟨hput, hs'⟩ := hstore.put hs
        (e := (Compiler.ofParts options kinds registry store).toEntity r.blueprint) hstorable hfits
      refine ⟨_, _, ?_, hs', hsaved.update (.some ⟨rfl, hstep, options, rfl⟩)⟩
      rw [take, save_of_put hput]
  | remove name =>
      exact ⟨_, _, rfl, hstore.remove hs name, hsaved.update .none⟩
  | reopen =>
      obtain ⟨s', hreopen, hs'⟩ := hstore.reopen hs
      refine ⟨s', held, ?_, hs', hsaved⟩
      rw [take, hreopen]
      rfl

theorem foldlM_take_eq_ok (hregistry : registry.Unchanging known) (hkinds : kinds.AreOrdinary)
    {Holds : σ → Contents → Prop} (hstore : store.Keeps openAgain Holds) {s : σ} {held : Contents}
    {saved : String → Option ResolvedBlueprint} (hs : Holds s held)
    (hsaved : HasSaved registry known kinds store held saved) (steps : List HistoryStep)
    (hsteps : ∀ step ∈ steps, step.IsSavable registry known kinds store) :
    ∃ s' held', steps.foldlM (take registry known kinds store openAgain) s = .ok s' ∧
      Holds s' held' ∧
        HasSaved registry known kinds store held' (steps.foldl update saved) := by
  -- What ties the store to what has been saved is that the same names are held in both.
  induction steps generalizing s held saved with
  | nil => exact ⟨s, held, rfl, hs, hsaved⟩
  | cons step steps ih =>
      rw [List.forall_mem_cons] at hsteps
      obtain ⟨s₁, held₁, htake, hs₁, hsaved₁⟩ :=
        take_eq_ok hregistry hkinds hstore hs hsaved step hsteps.1
      obtain ⟨s', held', hrest, hs', hsaved'⟩ := ih hs₁ hsaved₁ hsteps.2
      refine ⟨s', held', ?_, hs', hsaved'⟩
      rw [List.foldlM_cons, htake]
      exact hrest

end

end HistoryStep

/-- After any history of a fresh store, in which blueprints are saved by any compilers and names
are given up, no step has failed, every compiler loads what has been saved last under a name, and
nothing under the other names. -/
theorem getBlueprint_of_history {ρ σ : Type} {registry : StackRegistry ρ} {known : ρ}
    (hregistry : registry.Unchanging known) {kinds : HostGroupKinds} (hkinds : kinds.AreOrdinary)
    {store : BlueprintStore σ} {openAgain : σ → Except StoreError σ} {s : σ}
    (hstore : store.Fresh openAgain s) (steps : List HistoryStep)
    (hsteps : ∀ step ∈ steps, step.IsSavable registry known kinds store) :
    ∃ s', steps.foldlM (HistoryStep.take registry known kinds store openAgain) s = .ok s' ∧
      (∀ name r, steps.foldl HistoryStep.update (fun _ => none) name = some r →
        ∀ options, ∃ r' t, (Compiler.ofParts options kinds registry store).getBlueprint name
          (known, s') = (.ok r', t) ∧ r'.Matches r) ∧
      ∀ name, steps.foldl HistoryStep.update (fun _ => none) name = none → IsFittingName name →
        ∀ options, ∃ t, (Compiler.ofParts options kinds registry store).getBlueprint name
          (known, s') = (.error (.noSuchBlueprint name), t) := by
  obtain ⟨Holds, hkeeps, hs⟩ := hstore.keeps
  have hsaved : HasSaved registry known kinds store (fun _ => none) fun _ => none := fun _ => .none
  obtain ⟨s', held, htaken, hs', hsaved'⟩ :=
    HistoryStep.foldlM_take_eq_ok hregistry hkinds hkeeps hs hsaved steps hsteps
  refine ⟨s', htaken, ?_, ?_⟩
  · intro name r hr options
    have hrel := hsaved' name
    rw [hr] at hrel
    generalize hheld : held name = found at hrel
    cases hrel with
    | some hentity =>
        obtain ⟨rfl, hsavable, options', rfl⟩ := hentity
        have hfound := hkeeps.find hs' (hsavable.name hregistry hkinds).2
        rw [hheld] at hfound
        rw [getBlueprint_of_find hfound]
        obtain ⟨r', hload, hmatches⟩ :=
          fromEntity_toEntity hregistry hkinds hsavable options' options (store.find r.name s').2
        exact ⟨r', _, hload, hmatches⟩
  · intro name hnone hfits options
    have hrel := hsaved' name
    rw [hnone] at hrel
    generalize hheld : held name = found at hrel
    cases hrel with
    | none =>
        have hfound := hkeeps.find hs' hfits
        rw [hheld] at hfound
        exact ⟨_, getBlueprint_of_find hfound⟩

def HostGroupKinds.sample : HostGroupKinds :=
  standard.register HostGroup.standardKind (.withCardinality "2")

theorem HostGroupKinds.areOrdinary_sample : sample.AreOrdinary :=
  areOrdinary_register areOrdinary_standard (HostGroupShape.isOrdinary_withCardinality "2") _

theorem getBlueprint_of_history_sample :
    ∃ r s' r' t,
      [.save { CompilerOptions.standard with pretty := true } r, .reopen, .remove "other"].foldlM
        (HistoryStep.take StackShelf.registry (StackShelf.ofDescriptions [⟨"HDP", "3.0", ∅, ∅⟩])
          HostGroupKinds.sample (EntityFiles.ofRoot "data").store
          (EntityFiles.ofRoot "data").prepare)
        ⟨[("data", .directory [(".blueprints", .directory [])])]⟩ = .ok s' ∧
      (Compiler.ofParts .standard .sample StackShelf.registry
        (EntityFiles.ofRoot "data").store).getBlueprint "demo"
          (StackShelf.ofDescriptions [⟨"HDP", "3.0", ∅, ∅⟩], s') = (.ok r', t) ∧ r'.Matches r := by
  obtain ⟨r, t, hproduce, hsettings, hname⟩ : ∃ r t,
      (Compiler.ofParts .standard .sample StackShelf.registry
        (EntityFiles.ofRoot "data").store).produce (.properties PropertyBag.sample none)
          (StackShelf.ofDescriptions [⟨"HDP", "3.0", ∅, ∅⟩], ∅) = (.ok r, t) ∧
      r.blueprint.settings = [] ∧ r.name = "demo" :=
    ⟨_, _, rfl, rfl, rfl⟩
  have hsavable : Savable StackShelf.registry (StackShelf.ofDescriptions [⟨"HDP", "3.0", ∅, ∅⟩])
      .sample (EntityFiles.ofRoot "data").store r := by
    refine ⟨⟨_, _, _, _, hproduce⟩, ?_, ?_⟩
    · rw [Blueprint.HasReadableSettings, hsettings]
      exact List.forall_mem_nil _
    · rw [hname]
      decide
  have hroot : EntityFiles.emptyRoot.list "data" = .ok [] := rfl
  have hfresh : BlueprintStore.Fresh (EntityFiles.ofRoot "data").store
      (EntityFiles.ofRoot "data").prepare
      ⟨[("data", .directory [(".blueprints", .directory [])])]⟩ :=
    .files EntityFiles.isSorted_emptyRoot hroot (by decide) rfl
  obtain ⟨s', htaken, hloads, -⟩ := getBlueprint_of_history
    (StackRegistry.Given.shelf [⟨"HDP", "3.0", ∅, ∅⟩]).unchanging HostGroupKinds.areOrdinary_sample
    hfresh
    [.save { CompilerOptions.standard with pretty := true } r, .reopen, .remove "other"]
    (by simpa [HistoryStep.IsSavable] using hsavable)
  obtain ⟨r', t', hload, hmatches⟩ := hloads "demo" r (by
    simp [HistoryStep.update, hname]) .standard
  exact ⟨r, s', r', t', htaken, hload, hmatches⟩

end ClusterBlueprint
