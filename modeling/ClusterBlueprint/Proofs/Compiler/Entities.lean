import ClusterBlueprint.Proofs.Codec.Resaving
import ClusterBlueprint.Proofs.Compiler.Lookups
import ClusterBlueprint.Proofs.Compiler.Stored

namespace ClusterBlueprint

namespace CopiedField

def all : List CopiedField := [.blueprintName, .securityType, .descriptorReference]

def Value : CopiedField → Type
  | .blueprintName => String
  | .securityType => SecurityType
  | .descriptorReference => Option String

instance : (f : CopiedField) → DecidableEq f.Value
  | .blueprintName => inferInstanceAs (DecidableEq String)
  | .securityType => inferInstanceAs (DecidableEq SecurityType)
  | .descriptorReference => inferInstanceAs (DecidableEq (Option String))

def stored : (f : CopiedField) → Entity → f.Value
  | .blueprintName, e => e.blueprintName
  | .securityType, e => e.securityType
  | .descriptorReference, e => e.descriptorReference

def declared : (f : CopiedField) → Blueprint → f.Value
  | .blueprintName, b => b.name
  | .securityType, b => b.security.type
  | .descriptorReference, b => b.security.descriptorReference

/-- How a field is written in a message; a reference that is missing has no characters. -/
def written : (f : CopiedField) → f.Value → String
  | .blueprintName, name => name
  | .securityType, type => type.name
  | .descriptorReference, reference => reference.getD ""

def mismatchOf (f : CopiedField) (e : Entity) (b : Blueprint) : CompileError :=
  .mismatch f (f.written (f.stored e)) (f.written (f.declared b))

theorem mem_all (f : CopiedField) : f ∈ all := by
  cases f <;> decide

def firstDifference (e : Entity) (b : Blueprint) : Option CopiedField :=
  all.find? fun f => f.stored e ≠ f.declared b

theorem firstDifference_eq_none_iff {e : Entity} {b : Blueprint} :
    firstDifference e b = none ↔ ∀ f : CopiedField, f.stored e = f.declared b := by
  rw [firstDifference, List.find?_eq_none]
  simp [mem_all]

theorem firstDifference_eq_some {e : Entity} {b : Blueprint} {f : CopiedField}
    (hf : f.stored e ≠ f.declared b)
    (hothers : ∀ f' : CopiedField, f' ≠ f → f'.stored e = f'.declared b) :
    firstDifference e b = some f := by
  cases hfirst : firstDifference e b with
  | none => exact absurd (firstDifference_eq_none_iff.mp hfirst f) hf
  | some f' =>
      rw [firstDifference] at hfirst
      have hf' : f'.stored e ≠ f'.declared b := by simpa using List.find?_some hfirst
      rw [not_imp_comm.mp (hothers f') hf']

theorem declared_of_agrees {b b' : Blueprint} (h : b'.agrees b = true) (f : CopiedField) :
    f.declared b' = f.declared b := by
  obtain ⟨hname, -, -, -, -, hsecurity⟩ := Blueprint.agrees_iff.mp h
  cases f with
  | blueprintName => exact hname
  | securityType => exact congrArg Security.type hsecurity
  | descriptorReference => exact congrArg Security.descriptorReference hsecurity

end CopiedField

namespace Compiler

variable {σ : Type}

open CopiedField (firstDifference)

theorem stored_toEntity (c : Compiler σ) (b : Blueprint) (f : CopiedField) :
    f.stored (c.toEntity b) = f.declared b := by
  cases f <;> rfl

theorem checkCopies_eq (e : Entity) (b : Blueprint) :
    checkCopies e b = match firstDifference e b with
      | some f => .error (f.mismatchOf e b)
      | none => .ok () := by
  have hpass {f : CopiedField} (h : ¬ f.stored e ≠ f.declared b) (fs : List CopiedField) :
      (f :: fs).find? (fun f => f.stored e ≠ f.declared b) =
        fs.find? fun f => f.stored e ≠ f.declared b :=
    List.find?_cons_of_neg fun hf => h (of_decide_eq_true hf)
  have hstop {f : CopiedField} (h : f.stored e ≠ f.declared b) (fs : List CopiedField) :
      (f :: fs).find? (fun f => f.stored e ≠ f.declared b) = some f :=
    List.find?_cons_of_pos (decide_eq_true h)
  rw [checkCopies, firstDifference, CopiedField.all]
  split
  next hname => rw [hstop (f := .blueprintName) hname]; rfl
  next hname =>
    rw [hpass (f := .blueprintName) hname]
    split
    next htype => rw [hstop (f := .securityType) htype]; rfl
    next htype =>
      rw [hpass (f := .securityType) htype]
      split
      next hreference => rw [hstop (f := .descriptorReference) hreference]; rfl
      next hreference => rw [hpass (f := .descriptorReference) hreference]; rfl

theorem fromEntity_eq (c : Compiler σ) (e : Entity) (s : σ) :
    c.fromEntity e s = match c.codec.decode (Utf8.encode e.content) with
      | .error error => (.error (.document error), s)
      | .ok b =>
          match firstDifference e b with
          | some f => (.error (f.mismatchOf e b), s)
          | none => c.finish b s := by
  cases hdecode : c.codec.decode (Utf8.encode e.content) with
  | error error =>
      have hread : fromCodec (c.codec.decode (Utf8.encode e.content)) s =
          (.error (.document error), s) := by
        rw [hdecode]
        rfl
      rw [fromEntity, bind_of_error hread]
  | ok b =>
      have hcopies := checkCopies_eq e b
      dsimp only
      cases hfirst : firstDifference e b with
      | none =>
          rw [hfirst] at hcopies
          exact fromEntity_of_ok hdecode hcopies s
      | some f =>
          have hread : fromCodec (c.codec.decode (Utf8.encode e.content)) s = (.ok b, s) := by
            rw [hdecode]
            rfl
          have hcheck : goOn (checkCopies e b) s = (.error (f.mismatchOf e b), s) := by
            rw [hcopies, hfirst]
            rfl
          dsimp only
          rw [fromEntity, bind_of_ok hread, bind_of_error hcheck]

def logged (c : Compiler σ) : Compiler (σ × LookupLog) where
  options := c.options
  kinds := c.kinds
  registry := c.registry.logged
  store := c.store.within Prod.fst fun s t => (s, t.2)

/-- Whether a compiler refuses an entity for a given reason before it looks up any stack. -/
def RefusesAtOnce (c : Compiler σ) (e : Entity) (error : CompileError) : Prop :=
  ∀ s log, c.fromEntity e s = (.error error, s) ∧
    c.logged.fromEntity e (s, log) = (.error error, (s, log))

theorem fromEntity_of_decode_error {c : Compiler σ} {e : Entity} {error : CodecError}
    (h : c.codec.decode (Utf8.encode e.content) = .error error) :
    c.RefusesAtOnce e (.document error) := by
  intro s log
  have hlogged : c.logged.codec.decode (Utf8.encode e.content) = .error error := h
  rw [fromEntity_eq, fromEntity_eq, h, hlogged]
  exact ⟨rfl, rfl⟩

theorem fromEntity_of_differs {c : Compiler σ} {e : Entity} {b : Blueprint} {f : CopiedField}
    (h : c.codec.decode (Utf8.encode e.content) = .ok b) (hfirst : firstDifference e b = some f) :
    c.RefusesAtOnce e (f.mismatchOf e b) := by
  intro s log
  have hlogged : c.logged.codec.decode (Utf8.encode e.content) = .ok b := h
  rw [fromEntity_eq, fromEntity_eq, h, hlogged]
  dsimp only
  rw [hfirst]
  exact ⟨rfl, rfl⟩

/-- Whether a blueprint has been decoded with the codec of a compiler, and from where. Decoding a
text sets no bound on how deep the settings are, since what has been read from a text is never too
deep to be read again. The other case adds the blueprints of property bags, which may get another
security afterwards: behind their values stands no text, so they may be of any depth, and their
settings have to be readable for the document of the entity to be read at all. -/
inductive HasDecoded (c : Compiler σ) : Blueprint → Prop where
  | text {text b} : c.codec.decode text = .ok b →
      (∀ entry ∈ b.settings, ∀ m ∈ entry.entries, m.2.isWhole = true) → HasDecoded c b
  | value {v b n} (security : Security) : c.codec.decodeValue v = .ok b → b.normalize = .ok n →
      n.HasReadableSettings → HasDecoded c { n with security }

theorem HasDecoded.exists_value {c : Compiler σ} {b : Blueprint} (h : c.HasDecoded b) :
    ∃ v b₀ n security, c.codec.decodeValue v = .ok b₀ ∧ b₀.normalize = .ok n ∧
      n.HasReadableSettings ∧ b = { n with security := security } := by
  cases h with
  | text hdecode hwhole =>
      obtain ⟨v, b₀, -, hvalue, hnormal⟩ := Codec.decode_eq_ok hdecode
      exact ⟨v, b₀, b, b.security, hvalue, hnormal,
        Codec.hasReadableSettings_of_decode hdecode hwhole, rfl⟩
  | value security hvalue hnormal hsettings =>
      exact ⟨_, _, _, security, hvalue, hnormal, hsettings, rfl⟩

theorem HasDecoded.decode_encode {c : Compiler σ} (hkinds : c.kinds.AreOrdinary) {b : Blueprint}
    (h : c.HasDecoded b) :
    ∃ b', c.codec.decode (Utf8.encode (c.codec.encode b)) = .ok b' ∧ b'.agrees b = true := by
  obtain ⟨v, b₀, n, security, hvalue, hnormal, hsettings, rfl⟩ := h.exists_value
  obtain ⟨hconfiguration, hhostGroups⟩ := Codec.grounded_of_decodeValue hkinds hvalue hnormal
  obtain ⟨b', hraw, hback⟩ := Codec.decodeRaw_encode c.codec c.codec
    (b := { n with security := security }) hconfiguration hhostGroups hsettings
  obtain ⟨n', hn', hagrees, -⟩ := hback.normalize.2 _
    (Blueprint.normalize_withSecurity (Blueprint.normalize_of_normalize hnormal) security)
  refine ⟨n', ?_, hagrees⟩
  rw [Codec.decode_of_decodeRaw hraw, hn']
  rfl

theorem refusesAtOnce_of_changed {c : Compiler σ} (hkinds : c.kinds.AreOrdinary) {b : Blueprint}
    (hb : c.HasDecoded b) {e : Entity} (hcontent : e.content = (c.toEntity b).content)
    {f : CopiedField} (hf : f.stored e ≠ f.stored (c.toEntity b))
    (hothers : ∀ f' : CopiedField, f' ≠ f → f'.stored e = f'.stored (c.toEntity b)) :
    c.RefusesAtOnce e (f.mismatchOf e b) := by
  obtain ⟨b', hdecode, hagrees⟩ := hb.decode_encode hkinds
  have hfields (f' : CopiedField) : f'.stored (c.toEntity b) = f'.declared b' := by
    rw [stored_toEntity, CopiedField.declared_of_agrees hagrees]
  have hfirst : firstDifference e b' = some f := by
    apply CopiedField.firstDifference_eq_some
    · rwa [← hfields]
    · intro f' hf'
      rw [hothers f' hf', hfields]
  have hmismatch : f.mismatchOf e b = f.mismatchOf e b' := by
    rw [CopiedField.mismatchOf, CopiedField.mismatchOf, CopiedField.declared_of_agrees hagrees]
  rw [← show (c.toEntity b).content = c.codec.encode b from rfl, ← hcontent] at hdecode
  rw [hmismatch]
  exact fromEntity_of_differs hdecode hfirst

/-- An entity is refused without a lookup where its document cannot be decoded or where a copied
field differs from it, and the first such field is named; otherwise its blueprint is resolved. What
comes of it agrees with all copied fields, and no change of a copied field goes unseen. -/
theorem fromEntity_detects (c : Compiler σ) (e : Entity) :
    (∀ error, c.codec.decode (Utf8.encode e.content) = .error error →
      c.RefusesAtOnce e (.document error)) ∧
    (∀ b, c.codec.decode (Utf8.encode e.content) = .ok b →
      match firstDifference e b with
      | some f => c.RefusesAtOnce e (f.mismatchOf e b)
      | none => ∀ s, c.fromEntity e s =
          ((c.registry.resolveAll b s).1.mapError .resolution, (c.registry.resolveAll b s).2)) ∧
    (∀ r s s', c.fromEntity e s = (.ok r, s') →
      e.blueprintName = r.blueprint.name ∧ e.securityType = r.blueprint.security.type ∧
        e.descriptorReference = r.blueprint.security.descriptorReference) ∧
    (c.kinds.AreOrdinary → ∀ b, c.HasDecoded b → e.content = (c.toEntity b).content →
      ∀ f : CopiedField, f.stored e ≠ f.stored (c.toEntity b) →
        (∀ f' : CopiedField, f' ≠ f → f'.stored e = f'.stored (c.toEntity b)) →
        c.RefusesAtOnce e (f.mismatchOf e b)) := by
  refine ⟨fun error => fromEntity_of_decode_error, ?_, ?_, ?_⟩
  · intro b hdecode
    cases hfirst : firstDifference e b with
    | some f => exact fromEntity_of_differs hdecode hfirst
    | none =>
        intro s
        rw [fromEntity_eq, hdecode]
        dsimp only
        rw [hfirst]
        rfl
  · intro r s s' h
    obtain ⟨n, -, hcopies, hresolve⟩ := fromEntity_eq_ok h
    rw [StackRegistry.blueprint_of_resolveAll hresolve]
    rw [checkCopies_eq] at hcopies
    cases hfirst : firstDifference e n with
    | some f =>
        rw [hfirst] at hcopies
        nomatch hcopies
    | none =>
        have hfields := CopiedField.firstDifference_eq_none_iff.mp hfirst
        exact ⟨hfields .blueprintName, hfields .securityType, hfields .descriptorReference⟩
  · intro hkinds b hb hcontent f hf hothers
    exact refusesAtOnce_of_changed hkinds hb hcontent hf hothers

def edgeSample : Compiler (StackShelf × EntityShelf) :=
  ofParts .standard Codec.edgeCodec.kinds StackShelf.registry EntityShelf.store

theorem fromEntity_detects_sample :
    (∃ error, sample.RefusesAtOnce { storedDemo with content := "" } (.document error)) ∧
      sample.RefusesAtOnce { storedDemo with blueprintName := "other", securityType := .custom }
        (.mismatch .blueprintName "other" "demo") ∧
      (∃ r t, sample.fromEntity storedDemo (StackShelf.sample, ∅) = (.ok r, t) ∧
        r.blueprint.name = "demo") ∧
      ∃ b, edgeSample.HasDecoded b ∧
        edgeSample.RefusesAtOnce { edgeSample.toEntity b with descriptorReference := some "" }
          (.mismatch .descriptorReference "" "") := by
  refine ⟨?_, ?_, ?_, ?_⟩
  · obtain ⟨error, herror⟩ : ∃ error, sample.codec.decode (Utf8.encode "") = .error error :=
      ⟨_, rfl⟩
    exact ⟨error, (fromEntity_detects sample { storedDemo with content := "" }).1 error herror⟩
  · have hnamed : (sample.codec.decode (Utf8.encode storedDemo.content)).map Blueprint.name =
        .ok "demo" := by
      decide +kernel
    obtain ⟨b, hdecode, hname⟩ := Result.map_eq_ok hnamed
    let e : Entity := { storedDemo with blueprintName := "other", securityType := .custom }
    have hdiffers : e.blueprintName ≠ b.name := by
      rw [hname]
      decide
    have hfirst : firstDifference e b = some .blueprintName :=
      List.find?_cons_of_pos (decide_eq_true hdiffers)
    have hrefuses := (fromEntity_detects sample e).2.1 b hdecode
    rw [hfirst] at hrefuses
    rw [← hname]
    exact hrefuses
  · have hloads : (sample.fromEntity storedDemo (StackShelf.sample, ∅)).1.toOption.isSome =
        true := by
      decide +kernel
    rcases hload : sample.fromEntity storedDemo (StackShelf.sample, ∅) with ⟨error | r, t⟩
    · rw [hload] at hloads
      cases hloads
    · obtain ⟨hname, -⟩ := (fromEntity_detects sample storedDemo).2.2.1 r _ t hload
      exact ⟨r, t, rfl, hname.symm⟩
  · obtain ⟨b₀, n, hvalue, hnormal, hsettings, hreference⟩ : ∃ b₀ n,
        edgeSample.codec.decodeValue Codec.repeatedGroups.sorted = .ok b₀ ∧ b₀.normalize = .ok n ∧
          n.settings = [.ofList [("limit", .number (.whole 7 (by decide)))]] ∧
          n.security.descriptorReference = none :=
      ⟨_, _, rfl, rfl, rfl, rfl⟩
    have hreadable : n.HasReadableSettings := by
      rw [Blueprint.HasReadableSettings, hsettings]
      exact List.forall_mem_singleton.mpr
        (List.forall_mem_singleton.mpr ⟨by decide, by decide, by decide⟩)
    have hdecoded : edgeSample.HasDecoded n := .value n.security hvalue hnormal hreadable
    have hkinds : edgeSample.kinds.AreOrdinary :=
      HostGroupKinds.areOrdinary_register HostGroupKinds.areOrdinary_standard
        (HostGroupShape.isOrdinary_withCardinality "2") _
    have hrefuses := (fromEntity_detects edgeSample
      { edgeSample.toEntity n with descriptorReference := some "" }).2.2.2 hkinds n hdecoded rfl
      .descriptorReference
    refine ⟨n, hdecoded, ?_⟩
    have hwritten : (CopiedField.descriptorReference.mismatchOf
        { edgeSample.toEntity n with descriptorReference := some "" } n) =
        .mismatch .descriptorReference "" "" := by
      rw [CopiedField.mismatchOf]
      simp only [CopiedField.written, CopiedField.stored, CopiedField.declared, hreference]
      rfl
    rw [← hwritten]
    apply hrefuses
    · intro hsame
      have hnone : some "" = n.security.descriptorReference := hsame
      rw [hreference] at hnone
      nomatch hnone
    · intro f hf
      cases f with
      | blueprintName => rfl
      | securityType => rfl
      | descriptorReference => exact absurd rfl hf

end Compiler

end ClusterBlueprint
