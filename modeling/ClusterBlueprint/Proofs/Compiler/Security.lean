import ClusterBlueprint.Proofs.Codec.BagDocument
import ClusterBlueprint.Proofs.Compiler.Documents
import ClusterBlueprint.Proofs.Compiler.Properties

namespace ClusterBlueprint

open Json (Value)
open Result (mapError_eq_ok)

def ResolvedBlueprint.withSecurity (r : ResolvedBlueprint) (security : Security) :
    ResolvedBlueprint :=
  { r with blueprint := { r.blueprint with security } }

/-- Whether an entity carries a security: in its copied fields and in the object that is written out
in its content. -/
structure Entity.Carries (e : Entity) (layout : Json.Layout) (security : Security) : Prop where
  securityType : e.securityType = security.type
  descriptorReference : e.descriptorReference = security.descriptorReference
  content : ∃ members, e.content = (Value.object members).toText layout ∧
    (members.map Prod.fst).Nodup ∧ Value.member? members "security" = some security.toValue

theorem StackRegistry.AnswersBy.fst_resolveAll {σ : Type} {registry : StackRegistry σ}
    {states : σ → Prop} {answer : StackId → Except LookupError StackMetadata}
    (h : registry.AnswersBy states answer) (b : Blueprint) {s s' : σ} (hs : states s)
    (hs' : states s') : (registry.resolveAll b s').1 = (registry.resolveAll b s).1 := by
  rw [resolveAll_eq, resolveAll_eq, h.resolveIds_eq h b.name (fun _ _ => rfl) ∅ hs' hs]

namespace Compiler

variable {σ : Type}

theorem carries_toEntity (c : Compiler σ) (b : Blueprint) :
    (c.toEntity b).Carries c.options.layout b.security where
  securityType := rfl
  descriptorReference := rfl
  content := by
    obtain ⟨-, -, -, -, -, hsecurity⟩ := b.member?_members
    exact ⟨b.members, rfl, b.nodup_keys_members, hsecurity⟩

def described (c : Compiler σ) (bag : PropertyBag) : Except CompileError Blueprint := do
  let document ← bag.toDocument.mapError .bag
  let b ← (c.codec.decodeValue document).mapError .document
  (Codec.normalize b).mapError .document

theorem goOn_bind {α β : Type} (x : Except CompileError α) (f : α → Except CompileError β) :
    (goOn (x >>= f) : Compile σ β) = goOn x >>= fun a => goOn (f a) := by
  cases x with
  | error e => rfl
  | ok a => rfl

/-- Only what comes after the description of a bag can take notice of a security that is given. -/
theorem fromProperties_eq (c : Compiler σ) (bag : PropertyBag) (security : Option Security) :
    c.fromProperties bag security =
      (do
        let n ← goOn (c.described bag)
        c.finish { n with security := security.getD n.security }) := by
  simp only [described, goOn_bind, bind_assoc]
  rfl

theorem fromProperties_of_described_error {c : Compiler σ} {bag : PropertyBag} {e : CompileError}
    (h : c.described bag = .error e) (security : Option Security) (s : σ) :
    c.fromProperties bag security s = (.error e, s) := by
  rw [fromProperties_eq, h]
  rfl

theorem fromProperties_of_described {c : Compiler σ} {bag : PropertyBag} {n : Blueprint}
    (h : c.described bag = .ok n) (security : Option Security) (s : σ) :
    c.fromProperties bag security s =
      c.finish { n with security := security.getD n.security } s := by
  rw [fromProperties_eq, h]
  rfl

theorem finish_withSecurity (c : Compiler σ) (n : Blueprint) (security : Security) (s : σ) :
    c.finish { n with security } s =
      ((c.finish n s).1.map (·.withSecurity security), (c.finish n s).2) := by
  have hname : ({ n with security } : Blueprint).name = n.name := rfl
  have hstackIds : ({ n with security } : Blueprint).stackIds = n.stackIds := rfl
  rw [finish, StackRegistry.resolveAll_of_same c.registry hname hstackIds, finish]
  rcases hresolve : c.registry.resolveAll n s with ⟨e | r, s'⟩
  · rfl
  · cases StackRegistry.blueprint_of_resolveAll hresolve
    rfl

/-- A security that is given ends up in the answer, and changes neither anything else in it nor the
state that is left behind. -/
theorem fromProperties_some (c : Compiler σ) (bag : PropertyBag) (security : Security) (s : σ) :
    c.fromProperties bag (some security) s =
      ((c.fromProperties bag none s).1.map (·.withSecurity security),
        (c.fromProperties bag none s).2) := by
  cases hdescribed : c.described bag with
  | error e =>
      rw [fromProperties_of_described_error hdescribed,
        fromProperties_of_described_error hdescribed]
      rfl
  | ok n =>
      rw [fromProperties_of_described hdescribed, fromProperties_of_described hdescribed]
      exact c.finish_withSecurity n security s

/-- A bag whose security makes no sense describes nothing, whatever is to take its place. -/
theorem described_of_invalid_security (c : Compiler σ) {bag : PropertyBag} {v : Value}
    {fault : Json.Fault} (hv : bag.effective? "security" = some v)
    (hinvalid : Security.decoder.ofValue v = .error fault) : ∃ e, c.described bag = .error e := by
  cases hdescribed : c.described bag with
  | error e => exact ⟨e, rfl⟩
  | ok n =>
      obtain ⟨document, hdocument, h⟩ := Result.bind_eq_ok hdescribed
      obtain ⟨b, hdecode, -⟩ := Result.bind_eq_ok h
      obtain ⟨members, rfl, hsorted, hmembers⟩ :=
        PropertyBag.members_of_toDocument (mapError_eq_ok hdocument)
      -- On its way to the decoder nothing happens to the field: only those of a stack are folded.
      have hfound : Value.member? members "security" = some v :=
        (hmembers "security" (PropertyBag.plainName?_of_not_front (by decide))).trans hv
      have hread := Codec.security_of_decodeValue (SortedMap.nodup_of_sorted hsorted)
        (mapError_eq_ok hdecode) hfound
      exact nomatch hread.symm.trans hinvalid

section

variable {c : Compiler σ} {states : σ → Prop} {answer : StackId → Except LookupError StackMetadata}
  (hregistry : c.registry.AnswersBy states answer) (bag : PropertyBag) {s s' : σ} (hs : states s)
  (hs' : states s')

include hregistry hs hs'

theorem fst_fromProperties_congr (security : Option Security) :
    (c.fromProperties bag security s').1 = (c.fromProperties bag security s).1 := by
  cases hdescribed : c.described bag with
  | error e =>
      rw [fromProperties_of_described_error hdescribed,
        fromProperties_of_described_error hdescribed]
  | ok n =>
      rw [fromProperties_of_described hdescribed, fromProperties_of_described hdescribed]
      exact congrArg (Except.mapError CompileError.resolution) (hregistry.fst_resolveAll _ hs hs')

/-- Attaching a security changes the security and nothing else. A bag is refused for the same reason
with the security and without it, also where the security of the bag itself makes no sense. What is
answered otherwise is what is answered without it, but for the security: this is the one that has
been attached, and the entity of the answer carries it, in its fields and in its document. -/
theorem fromProperties_attaches (security : Security) :
    (∀ e, (c.fromProperties bag (some security) s').1 = .error e ↔
      (c.fromProperties bag none s).1 = .error e) ∧
    (∀ v fault, bag.effective? "security" = some v → Security.decoder.ofValue v = .error fault →
      ∃ e, (c.fromProperties bag (some security) s').1 = .error e) ∧
    (∀ r', (c.fromProperties bag (some security) s').1 = .ok r' ↔
      ∃ r, (c.fromProperties bag none s).1 = .ok r ∧ r' = r.withSecurity security) ∧
    ∀ r', (c.fromProperties bag (some security) s').1 = .ok r' →
      r'.blueprint.security = security ∧
      (c.toEntity r'.blueprint).Carries c.options.layout security ∧
      (r'.blueprint.HasReadableSettings → ∃ members item,
        entityMembers (c.toEntity r'.blueprint) = .ok members ∧
        (Value.object members).at? ["security"] = some item ∧ security.IsShownBy item) := by
  -- The two runs may start in different states; both are taken back to the one without security.
  have hattached : (c.fromProperties bag (some security) s').1 =
      (c.fromProperties bag none s).1.map (·.withSecurity security) := by
    rw [fromProperties_some, fst_fromProperties_congr hregistry bag hs hs' none]
  have hanswers (r' : ResolvedBlueprint) : (c.fromProperties bag (some security) s').1 = .ok r' ↔
      ∃ r, (c.fromProperties bag none s).1 = .ok r ∧ r' = r.withSecurity security := by
    rw [hattached]
    constructor
    · intro hr'
      obtain ⟨r, hr, hwith⟩ := Result.map_eq_ok hr'
      exact ⟨r, hr, hwith.symm⟩
    · rintro ⟨r, hr, rfl⟩
      rw [hr]
      rfl
  refine ⟨?_, ?_, hanswers, ?_⟩
  · intro e
    rw [hattached]
    cases (c.fromProperties bag none s).1 with
    | error e' => exact Iff.rfl
    | ok r => exact ⟨nofun, nofun⟩
  · intro v fault hv hinvalid
    obtain ⟨e, hdescribed⟩ := c.described_of_invalid_security hv hinvalid
    exact ⟨e, congrArg Prod.fst (fromProperties_of_described_error hdescribed _ s')⟩
  · intro r' hr'
    obtain ⟨r, -, rfl⟩ := (hanswers r').mp hr'
    refine ⟨rfl, c.carries_toEntity _, fun hsettings => ?_⟩
    obtain ⟨item, hitem, hshown⟩ := (isShownBy_members hsettings).security
    exact ⟨_, item, c.entityMembers_toEntity hsettings, hitem, hshown⟩

end

def securedBag (others : List (String × Value)) : PropertyBag :=
  .ofList (others ++ [("blueprint_name", .text "demo"), ("stack_ids", .array [.text "HDP-3.0"]),
    ("Blueprints/security", .object [("type", .text "KERBEROS"),
      ("security_descriptor_reference", .text "kdc")])])

theorem fromProperties_attaches_sample :
    (∃ r members item,
      (sample.fromProperties (securedBag []) none (StackShelf.sample, ∅)).1 = .ok r ∧
      r.blueprint.security = .kerberos "kdc" ∧
      (sample.fromProperties (securedBag []) (some ⟨.custom, none⟩)
        (StackShelf.sample, SortedMap.insert ∅ "demo" storedDemo)).1 =
          .ok (r.withSecurity ⟨.custom, none⟩) ∧
      entityMembers (sample.toEntity (r.withSecurity ⟨.custom, none⟩).blueprint) = .ok members ∧
      (Value.object members).at? ["security"] = some item ∧
      item.at? ["type"] = some (.text "CUSTOM")) ∧
      ∃ e, (sample.fromProperties (securedBag [("security", .text "KERBEROS")])
          (some ⟨.custom, none⟩) (StackShelf.sample, ∅)).1 = .error e ∧
        (sample.fromProperties (securedBag [("security", .text "KERBEROS")]) none
          (StackShelf.sample, ∅)).1 = .error e := by
  have hunchanging : StackShelf.registry.Unchanging StackShelf.sample := fun _ => rfl
  have hregistry : sample.registry.AnswersBy (fun t => t.1 = StackShelf.sample) _ :=
    hunchanging.answersBy.within
  let s : StackShelf × EntityShelf := (StackShelf.sample, ∅)
  let t : StackShelf × EntityShelf := (StackShelf.sample, SortedMap.insert ∅ "demo" storedDemo)
  have hs : s.1 = StackShelf.sample := rfl
  have ht : t.1 = StackShelf.sample := rfl
  constructor
  · obtain ⟨-, -, hanswers, hcarried⟩ := fromProperties_attaches (c := sample) hregistry
      (securedBag []) hs ht ⟨.custom, none⟩
    obtain ⟨r, hr, hsecurity, hsettings⟩ : ∃ r,
        (sample.fromProperties (securedBag []) none (StackShelf.sample, ∅)).1 = .ok r ∧
          r.blueprint.security = .kerberos "kdc" ∧ r.blueprint.settings = [] :=
      ⟨_, rfl, rfl, rfl⟩
    have hattached := (hanswers _).mpr ⟨r, hr, rfl⟩
    obtain ⟨-, -, hread⟩ := hcarried _ hattached
    have hreadable : (r.withSecurity ⟨.custom, none⟩).blueprint.HasReadableSettings := by
      intro entry hentry
      rw [ResolvedBlueprint.withSecurity, hsettings] at hentry
      nomatch hentry
    obtain ⟨members, item, hmembers, hitem, hshown⟩ := hread hreadable
    exact ⟨r, members, item, hr, hsecurity, hattached, hmembers, hitem, hshown.type⟩
  · obtain ⟨hsame, hinvalid, -⟩ := fromProperties_attaches (c := sample) hregistry
      (securedBag [("security", .text "KERBEROS")]) hs hs ⟨.custom, none⟩
    obtain ⟨e, he⟩ := hinvalid (.text "KERBEROS") _ rfl rfl
    exact ⟨e, he, (hsame e).mp he⟩

end Compiler

end ClusterBlueprint
