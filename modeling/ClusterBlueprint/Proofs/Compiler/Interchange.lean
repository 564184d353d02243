import ClusterBlueprint.Proofs.Compiler.Requests
import ClusterBlueprint.Proofs.Stack.Published
import ClusterBlueprint.Proofs.Store.Files

/-!
Registries that can stand in for each other. What a request asks to be resolved is known before any
stack is looked up (`produce_ofParts`), so the answer depends on a registry only by what it says
about the stacks of that blueprint. Main statement: stacks in memory and the same stacks below a root
give the same answers (`publishAll_interchangeable`).
-/

namespace ClusterBlueprint

open Files (Path Tree)

variable {ρ ρ' σ : Type}

def Request.blueprintOf (codec : Codec) (e : Entity) : Compile σ Blueprint := do
  let b ← Compiler.fromCodec (codec.decode (Utf8.encode e.content))
  Compiler.goOn (Compiler.checkCopies e b)
  pure b

/-- What is done for a request before stacks are looked up. -/
def Request.prepare (codec : Codec) (store : BlueprintStore σ) : Request → Compile σ Blueprint
  | .document text => Compiler.fromCodec (codec.decode text)
  | .properties bag security => do
      let document ← Compiler.goOn (bag.toDocument.mapError .bag)
      let b ← Compiler.fromCodec (codec.decodeValue document)
      let b ← Compiler.fromCodec (Codec.normalize b)
      pure { b with security := security.getD b.security }
  | .entity e => blueprintOf codec e
  | .stored name => do
      match ← (store.find name : StateM σ _) with
      | .ok (some e) => blueprintOf codec e
      | .ok none => throw (.noSuchBlueprint name)
      | .error error => throw (.store error)

theorem Request.prepare_stored (codec : Codec) (store : BlueprintStore σ) (name : String) (s : σ) :
    (Request.stored name).prepare codec store s = match store.find name s with
      | (.ok (some e), s) => blueprintOf codec e s
      | (.ok none, s) => (.error (.noSuchBlueprint name), s)
      | (.error error, s) => (.error (.store error), s) := by
  have hbind : (Request.stored name).prepare codec store s =
      (match (store.find name s).1 with
        | .ok (some e) => blueprintOf codec e
        | .ok none => throw (.noSuchBlueprint name)
        | .error error => throw (.store error) : Compile σ Blueprint) (store.find name s).2 := rfl
  rw [hbind]
  rcases store.find name s with ⟨_ | _ | e, s'⟩ <;> rfl

namespace Compiler

def resolved (registry : StackRegistry ρ) (known : ρ) :
    Except CompileError Blueprint × σ → Except CompileError ResolvedBlueprint × (ρ × σ)
  | (.ok b, s) => ((registry.resolveAll b known).1.mapError .resolution, (known, s))
  | (.error e, s) => (.error e, (known, s))

/-- If all that is left to do after a result is to look up stacks, then so it is before it. -/
theorem goOn_bind_resolved {α : Type} {registry : StackRegistry ρ} {known : ρ} {s : σ}
    {f : α → Compile (ρ × σ) ResolvedBlueprint} {g : α → Compile σ Blueprint}
    (hfg : ∀ a, f a (known, s) = resolved registry known (g a s)) (result : Except CompileError α) :
    (goOn result >>= f) (known, s) = resolved registry known ((goOn result >>= g) s) := by
  cases result with
  | error e => rfl
  | ok a => exact hfg a

section

variable {registry : StackRegistry ρ} {known : ρ} {options : CompilerOptions}
  {kinds : HostGroupKinds} {store : BlueprintStore σ}

theorem finish_ofParts (h : registry.Unchanging known) (b : Blueprint) (s : σ) :
    (ofParts options kinds registry store).finish b (known, s) =
      resolved registry known (.ok b, s) := by
  simp only [finish, ofParts, StackRegistry.resolveAll_within h, resolved]

theorem fromEntity_ofParts (h : registry.Unchanging known) (e : Entity) (s : σ) :
    (ofParts options kinds registry store).fromEntity e (known, s) =
      resolved registry known (Request.blueprintOf ⟨options.layout, kinds⟩ e s) := by
  apply goOn_bind_resolved
  intro b
  apply goOn_bind_resolved
  intro _
  exact finish_ofParts h b s

theorem produce_ofParts (h : registry.Unchanging known) (request : Request) (s : σ) :
    (ofParts options kinds registry store).produce request (known, s) =
      resolved registry known (request.prepare ⟨options.layout, kinds⟩ store s) := by
  cases request with
  | document text =>
      rw [Request.prepare, ← bind_pure (fromCodec _)]
      apply goOn_bind_resolved
      intro b
      exact finish_ofParts h b s
  | properties bag security =>
      apply goOn_bind_resolved
      intro document
      apply goOn_bind_resolved
      intro b
      apply goOn_bind_resolved
      intro n
      exact finish_ofParts h _ s
  | entity e => exact fromEntity_ofParts h e s
  | stored name =>
      have hfind : (ofParts options kinds registry store).store.find name (known, s) =
          ((store.find name s).1, (known, (store.find name s).2)) := rfl
      rw [produce, getBlueprint_eq, hfind, Request.prepare_stored]
      rcases store.find name s with ⟨_ | _ | e, s'⟩
      · rfl
      · rfl
      · exact fromEntity_ofParts h e s'

theorem save_ofParts (r : ResolvedBlueprint) (s : σ) :
    (ofParts options kinds registry store).save r (known, s) =
      match store.put ((ofParts options kinds registry store).toEntity r.blueprint) s with
      | (.ok (), s) => (.ok (), (known, s))
      | (.error error, s) => (.error (.store error), (known, s)) := by
  rw [save_eq]
  have hput (e : Entity) : (ofParts options kinds registry store).store.put e (known, s) =
      ((store.put e s).1, (known, (store.put e s).2)) := rfl
  rw [hput]
  rcases store.put _ s with ⟨_ | _, s'⟩ <;> rfl

end

end Compiler

namespace StackRegistry

/-- Whether two registries give the same answers about certain stacks: to lookups, for blueprints
that declare no others, and through compilers that are alike except for the registry. -/
structure Interchangeable (registry : StackRegistry ρ) (known : ρ) (registry' : StackRegistry ρ')
    (known' : ρ') (covered : StackId → Prop) : Prop where
  lookup : ∀ id, covered id → ∃ answer, registry.lookup id known = (answer, known) ∧
    registry'.lookup id known' = (answer, known')
  resolveAll : ∀ b, (∀ id ∈ b.stackIds.values, covered id) → ∃ answer,
    registry.resolveAll b known = (answer, known) ∧
      registry'.resolveAll b known' = (answer, known')
  produce : ∀ {σ : Type} (store : BlueprintStore σ) (s : σ) options kinds request,
    (∀ b, (Request.prepare ⟨options.layout, kinds⟩ store request s).1 = .ok b →
      ∀ id ∈ b.stackIds.values, covered id) →
    ∃ answer s',
      (Compiler.ofParts options kinds registry store).produce request (known, s) =
          (answer, (known, s')) ∧
        (Compiler.ofParts options kinds registry' store).produce request (known', s) =
          (answer, (known', s'))
  save : ∀ {σ : Type} (store : BlueprintStore σ) (s : σ) options kinds r, ∃ answer s',
    (Compiler.ofParts options kinds registry store).save r (known, s) = (answer, (known, s')) ∧
      (Compiler.ofParts options kinds registry' store).save r (known', s) = (answer, (known', s'))

theorem interchangeable_of_lookup {registry : StackRegistry ρ} {known : ρ}
    {registry' : StackRegistry ρ'} {known' : ρ'} (h : registry.Unchanging known)
    (h' : registry'.Unchanging known') {covered : StackId → Prop}
    (hlookup : ∀ id, covered id → (registry.lookup id known).1 = (registry'.lookup id known').1) :
    registry.Interchangeable known registry' known' covered := by
  have hresolve {b : Blueprint} (hb : ∀ id ∈ b.stackIds.values, covered id) :
      (registry.resolveAll b known).1 = (registry'.resolveAll b known').1 :=
    resolveAll_fst_congr h h' fun id hid => hlookup id (hb id hid)
  constructor
  case lookup =>
    intro id hid
    exact ⟨_, h.lookup_eq id, Prod.ext (hlookup id hid).symm (h' id)⟩
  case resolveAll =>
    intro b hb
    exact ⟨_, Prod.ext rfl (h.resolveAll b), Prod.ext (hresolve hb).symm (h'.resolveAll b)⟩
  case produce =>
    intro σ store s options kinds request hrequest
    rw [Compiler.produce_ofParts h, Compiler.produce_ofParts h']
    rcases hprepare : request.prepare ⟨options.layout, kinds⟩ store s with ⟨e | b, s'⟩
    · exact ⟨.error e, s', rfl, rfl⟩
    · rw [hprepare] at hrequest
      rw [Compiler.resolved, Compiler.resolved, hresolve (hrequest b rfl)]
      exact ⟨_, s', rfl, rfl⟩
  case save =>
    intro σ store s options kinds r
    rw [Compiler.save_ofParts, Compiler.save_ofParts]
    have hentity : (Compiler.ofParts options kinds registry store).toEntity r.blueprint =
        (Compiler.ofParts options kinds registry' store).toEntity r.blueprint := rfl
    rw [hentity]
    rcases store.put _ s with ⟨_ | _, s'⟩
    · exact ⟨_, s', rfl, rfl⟩
    · exact ⟨_, s', rfl, rfl⟩

end StackRegistry

/-- Any descriptions may be published one after the other below a fresh root. After that every stack
that fits is found, in memory and below the root, as it was accepted last; a description without a
proper id is refused and changes nothing; and the registries are interchangeable. -/
theorem publishAll_interchangeable {root : Path} {tree : Tree}
    (hroot : StackFiles.IsFreshRoot root tree) (layout : Json.Layout)
    {descriptions : List StackMetadata}
    (hfits : ∀ m ∈ descriptions, ∀ id, m.id = .ok id → StackFiles.Fits root id) :
    ∃ shelf tree', StackFiles.publishAll root layout tree descriptions = .ok (shelf, tree') ∧
      (∀ id, StackFiles.Fits root id →
        StackShelf.registry.lookup id shelf = (StackShelf.answerAfter descriptions id, shelf) ∧
          (StackFiles.registry root).lookup id tree' =
            (StackShelf.answerAfter descriptions id, tree')) ∧
      (∀ m e, m.id = .error e → StackShelf.add shelf m = .error e ∧
        StackFiles.publish root layout (shelf, tree') m = .ok (shelf, tree')) ∧
      StackShelf.registry.Interchangeable shelf (StackFiles.registry root) tree'
        (StackFiles.Fits root) := by
  obtain ⟨tree', hpublish, hmirrors⟩ := (hroot.mirrorsOnceMade layout).publishAll_eq hfits
  rw [← StackShelf.ofDescriptions_eq] at hpublish hmirrors
  have hshelf (shelf : StackShelf) (id : StackId) :
      StackShelf.registry.lookup id shelf = (StackShelf.find shelf id, shelf) := rfl
  have htree (tree : Tree) (id : StackId) :
      (StackFiles.registry root).lookup id tree = (StackFiles.find root tree id, tree) := rfl
  refine ⟨StackShelf.ofDescriptions descriptions, tree', hpublish, ?_, ?_, ?_⟩
  · intro id hid
    rw [hshelf, htree, hmirrors.find_eq hid, StackShelf.find_ofDescriptions]
    exact ⟨rfl, rfl⟩
  · intro m e hm
    have hadd : StackShelf.add (StackShelf.ofDescriptions descriptions) m = .error e := by
      rw [StackShelf.add, hm]
      rfl
    refine ⟨hadd, ?_⟩
    rw [StackFiles.publish, hadd]
  · refine StackRegistry.interchangeable_of_lookup (fun _ => rfl) (fun _ => rfl) fun id hid => ?_
    rw [hshelf, htree, hmirrors.find_eq hid]

def StackShelf.sampleDescriptions : List StackMetadata :=
  [(StackMetadata.ofId StackFiles.sampleId).withService "HDFS" ["NAMENODE"],
    ⟨"HD-P", "3.0", ∅, ∅⟩,
    (StackMetadata.ofId StackFiles.sampleId).withConfigType "core-site" ["fs.defaultFS"]]

theorem StackFiles.fits_sampleId : Fits "stacks" sampleId := by
  refine ⟨⟨by decide, by decide, by decide, by decide, by decide, by decide⟩,
    ⟨by decide, by decide, by decide, by decide, by decide, by decide⟩, by decide⟩

theorem StackFiles.fits_nextId : Fits "stacks" nextId := by
  refine ⟨⟨by decide, by decide, by decide, by decide, by decide, by decide⟩,
    ⟨by decide, by decide, by decide, by decide, by decide, by decide⟩, by decide⟩

theorem publishAll_interchangeable_sample :
    ∃ shelf tree', StackFiles.publishAll "stacks" .indented ∅ StackShelf.sampleDescriptions =
        .ok (shelf, tree') ∧
      StackShelf.registry.lookup StackFiles.sampleId shelf =
        (.ok ⟨"HDP", "3.0", ∅, .ofList [("core-site", .ofList ["fs.defaultFS"])]⟩, shelf) ∧
      (StackFiles.registry "stacks").lookup StackFiles.sampleId tree' =
        (.ok ⟨"HDP", "3.0", ∅, .ofList [("core-site", .ofList ["fs.defaultFS"])]⟩, tree') ∧
      (StackFiles.registry "stacks").lookup StackFiles.nextId tree' =
        (.error (.notFound StackFiles.nextId), tree') := by
  have hroot : StackFiles.IsFreshRoot "stacks" ∅ :=
    StackFiles.isFreshRoot_of_makeDirectories Files.Node.isSorted_directory_nil rfl rfl
  have hfits : ∀ m ∈ StackShelf.sampleDescriptions, ∀ id, m.id = .ok id →
      StackFiles.Fits "stacks" id := by
    intro m hm id hid
    simp only [StackShelf.sampleDescriptions, List.mem_cons, List.not_mem_nil, or_false] at hm
    rcases hm with rfl | rfl | rfl
    · obtain rfl : StackFiles.sampleId = id := Except.ok.inj hid
      exact StackFiles.fits_sampleId
    · nomatch hid
    · obtain rfl : StackFiles.sampleId = id := Except.ok.inj hid
      exact StackFiles.fits_sampleId
  obtain ⟨shelf, tree', hpublish, hanswers, -, -⟩ :=
    publishAll_interchangeable hroot .indented hfits
  obtain ⟨hshelf, htree⟩ := hanswers StackFiles.sampleId StackFiles.fits_sampleId
  obtain ⟨-, hnext⟩ := hanswers StackFiles.nextId StackFiles.fits_nextId
  have hsample : StackShelf.answerAfter StackShelf.sampleDescriptions StackFiles.sampleId =
      .ok ⟨"HDP", "3.0", ∅, .ofList [("core-site", .ofList ["fs.defaultFS"])]⟩ := by
    rfl
  rw [hsample] at hshelf htree
  exact ⟨shelf, tree', hpublish, hshelf, htree, hnext⟩

end ClusterBlueprint
