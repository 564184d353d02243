import ClusterBlueprint.Proofs.Json.Reader
import ClusterBlueprint.Proofs.Result

namespace ClusterBlueprint.Json

open Result (bind_eq_ok map_eq_ok mapError_eq_ok)

variable {α β σ : Type}

/-- Whether a reader reads all that another one reads, with the same result. -/
def Extends (reader reader' : Reader α) : Prop :=
  ∀ ⦃bytes a rest⦄, reader bytes = .ok (a, rest) → reader' bytes = .ok (a, rest)

theorem extends_readItems {item item' : Reader α} (hitem : Extends item item') (steps : Nat)
    (first : Bool) : Extends (readItems item steps first) (readItems item' steps first) := by
  induction steps generalizing first with
  | zero => rintro bytes as rest ⟨⟩
  | succ steps ih =>
      intro bytes as rest h
      obtain ⟨next, hnext, h⟩ := bind_eq_ok h
      rw [readItems, hnext]
      cases next with
      | close bytes => exact h
      | more bytes =>
          obtain ⟨⟨a, bytes'⟩, ha, h⟩ := bind_eq_ok h
          obtain ⟨⟨as', bytes''⟩, has, h⟩ := bind_eq_ok h
          simp only [bind, Except.bind, hitem ha, ih false has]
          exact h

theorem extends_readMembers {member member' : String → σ → Reader σ}
    (hmember : ∀ key s, Extends (member key s) (member' key s)) (steps : Nat) (first : Bool)
    (s : σ) : Extends (readMembers member steps first s) (readMembers member' steps first s) := by
  induction steps generalizing first s with
  | zero => rintro bytes s' rest ⟨⟩
  | succ steps ih =>
      intro bytes s' rest h
      obtain ⟨next, hnext, h⟩ := bind_eq_ok h
      rw [readMembers, hnext]
      cases next with
      | close bytes => exact h
      | more bytes =>
          obtain ⟨⟨key, bytes'⟩, hkey, h⟩ := bind_eq_ok h
          obtain ⟨⟨s₁, bytes''⟩, hs₁, h⟩ := bind_eq_ok h
          simp only [bind, Except.bind, hkey, hmember key s hs₁]
          exact ih false s₁ h

theorem extends_memberOf {value value' : Reader α} (hvalue : Extends value value')
    (put : String → α → σ → σ) (key : String) (s : σ) :
    Extends (memberOf value put key s) (memberOf value' put key s) := by
  intro bytes s' rest h
  obtain ⟨bytes', hcolon, h⟩ := bind_eq_ok h
  obtain ⟨⟨a, bytes''⟩, ha, h⟩ := bind_eq_ok h
  simp only [memberOf, hcolon, bind, Except.bind, hvalue ha]
  exact h

theorem extends_refuseDepth (reader : Reader α) : Extends refuseDepth reader := by
  rintro bytes a rest ⟨⟩

theorem extends_readArray {item item' : Reader α} (hitem : Extends item item') :
    Extends (readArray item) (readArray item') := by
  intro bytes items rest h
  rw [readArray, extends_readItems hitem _ _ (mapError_eq_ok h)]
  rfl

theorem extends_readObject {member member' : String → σ → Reader σ}
    (hmember : ∀ key s, Extends (member key s) (member' key s)) (s : σ) :
    Extends (readObject member s) (readObject member' s) := by
  intro bytes s' rest h
  rw [readObject, extends_readMembers hmember _ _ _ (mapError_eq_ok h)]
  rfl

theorem extends_afterBracket {reader reader' : Reader α} (hreader : Extends reader reader')
    (f : α × Bytes → β × Bytes) :
    Extends (fun bytes => (reader (bytes.drop 1)).map f)
      (fun bytes => (reader' (bytes.drop 1)).map f) := by
  intro bytes b rest h
  obtain ⟨⟨a, rest'⟩, ha, heq⟩ := map_eq_ok h
  change (reader' (bytes.drop 1)).map f = _
  rw [hreader ha]
  exact congrArg Except.ok heq

theorem extends_readValueWith {array array' object object' : Reader Value}
    (harray : Extends array array') (hobject : Extends object object') :
    Extends (readValueWith array object) (readValueWith array' object') := by
  intro bytes v rest h
  rw [readValueWith] at h ⊢
  split at h
  · cases h
  · split_ifs at h ⊢
    · exact h
    · exact h
    · exact h
    · exact h
    · exact h
    · exact harray h
    · exact hobject h

/-- What is read with a bound on the depth is read with any greater one. -/
theorem extends_readValue {depth depth' : Nat} (hdepth : depth ≤ depth') :
    Extends (readValue depth) (readValue depth') := by
  induction depth generalizing depth' with
  | zero =>
      cases depth' <;> exact extends_readValueWith (extends_refuseDepth _) (extends_refuseDepth _)
  | succ depth ih =>
      obtain ⟨depth', rfl⟩ := Nat.exists_eq_add_one_of_ne_zero (Nat.ne_zero_of_lt hdepth)
      have hvalue := ih (Nat.le_of_succ_le_succ hdepth)
      apply extends_readValueWith
      · exact extends_afterBracket (extends_readArray hvalue) _
      · exact extends_afterBracket (extends_readObject (extends_memberOf hvalue putMember) []) _

/-- Where the text of a value is read, it is read as the sorted form of the value. -/
theorem eq_sorted_of_parse_toText {v w : Value} (hwhole : v.isWhole = true) {layout : Layout}
    (h : Json.parse (Utf8.encode (v.toText layout)) = .ok w) : w = v.sorted := by
  let depth := max greatestDepth v.depth
  have hread : readWhole (readValue depth) (Utf8.encode (v.toText layout)) = .ok v.sorted :=
    readWhole_toText ⟨hwhole, reads_readValue hwhole (Nat.le_max_right _ _) layout 0⟩
  obtain ⟨rest, hparse, hblank⟩ := readWhole_eq_ok_iff.mp h
  have hparse' : readWhole (readValue depth) (Utf8.encode (v.toText layout)) = .ok w :=
    readWhole_eq_ok_iff.mpr ⟨rest, extends_readValue (Nat.le_max_left _ _) hparse, hblank⟩
  exact Except.ok.inj (hparse'.symm.trans hread)

end ClusterBlueprint.Json
