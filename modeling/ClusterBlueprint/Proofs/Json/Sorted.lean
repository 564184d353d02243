import ClusterBlueprint.Json.Decoder
import ClusterBlueprint.Proofs.Json.Reader
import ClusterBlueprint.Proofs.Result

namespace ClusterBlueprint.Json

open Result (bind_eq_ok map_eq_ok mapError_eq_ok)

variable {α σ : Type}

/-- Whether everything that a reader reads has a property. -/
def Yields (reader : Reader α) (p : α → Prop) : Prop :=
  ∀ ⦃bytes a rest⦄, reader bytes = .ok (a, rest) → p a

theorem yields_readItems {item : Reader α} {p : α → Prop} (hitem : Yields item p) (steps : Nat)
    (first : Bool) : Yields (readItems item steps first) fun as => ∀ a ∈ as, p a := by
  induction steps generalizing first with
  | zero => rintro bytes as rest ⟨⟩
  | succ steps ih =>
      intro bytes as rest h
      obtain ⟨next, -, h⟩ := bind_eq_ok h
      cases next with
      | close bytes =>
          cases h
          exact List.forall_mem_nil _
      | more bytes =>
          obtain ⟨⟨a, bytes⟩, ha, h⟩ := bind_eq_ok h
          obtain ⟨⟨as, bytes⟩, has, h⟩ := bind_eq_ok h
          cases h
          exact List.forall_mem_cons.mpr ⟨hitem ha, ih false has⟩

theorem yields_readMembers {member : String → σ → Reader σ} {p : σ → Prop}
    (hmember : ∀ key s, p s → Yields (member key s) p) (steps : Nat) (first : Bool) {s : σ}
    (hs : p s) : Yields (readMembers member steps first s) p := by
  induction steps generalizing first s with
  | zero => rintro bytes s' rest ⟨⟩
  | succ steps ih =>
      intro bytes s' rest h
      obtain ⟨next, -, h⟩ := bind_eq_ok h
      cases next with
      | close bytes =>
          cases h
          exact hs
      | more bytes =>
          obtain ⟨⟨key, bytes⟩, -, h⟩ := bind_eq_ok h
          obtain ⟨⟨s₁, bytes⟩, hs₁, h⟩ := bind_eq_ok h
          exact ih false (hmember key s hs hs₁) h

theorem yields_memberOf {value : Reader α} {p : α → Prop} {q : σ → Prop} (hvalue : Yields value p)
    {put : String → α → σ → σ} (hput : ∀ key a s, p a → q s → q (put key a s)) (key : String)
    {s : σ} (hs : q s) : Yields (memberOf value put key s) q := by
  intro bytes s' rest h
  obtain ⟨bytes, -, h⟩ := bind_eq_ok h
  obtain ⟨⟨a, bytes⟩, ha, h⟩ := bind_eq_ok h
  cases h
  exact hput key a s (hvalue ha) hs

theorem yields_refuseDepth (p : α → Prop) : Yields refuseDepth p := by
  rintro bytes a rest ⟨⟩

/-- A value that is no array or object holds nothing, so all depends on the readers of those. -/
theorem yields_readValueWith {p : Value → Prop} (hscalar : ∀ v, v.depth = 0 → p v)
    {array object : Reader Value} (harray : Yields array p) (hobject : Yields object p) :
    Yields (readValueWith array object) p := by
  intro bytes v rest h
  have scalar {β : Type} {read : Except Failure β} {f : β → Value × Bytes}
      (hread : read.map f = .ok (v, rest)) (hf : ∀ b, (f b).1.depth = 0) : p v := by
    obtain ⟨b, -, heq⟩ := map_eq_ok hread
    apply hscalar
    rw [← hf b, heq]
  rw [readValueWith] at h
  split at h
  · cases h
  · split_ifs at h
    · exact scalar h fun _ => rfl
    · exact scalar h fun _ => rfl
    · exact scalar h fun _ => rfl
    · exact scalar h fun _ => rfl
    · exact scalar h fun _ => rfl
    · exact harray h
    · exact hobject h

theorem forall_mem_putMember {p : Value → Prop} (key : String) {v : Value}
    {members : List (String × Value)} (hkeys : (members.map Prod.fst).Pairwise (· < ·)) (hv : p v)
    (hmembers : ∀ m ∈ members, p m.2) : ∀ m ∈ putMember key v members, p m.2 := by
  rintro ⟨key', v'⟩ hmem
  have hfound := SortedMap.lookupEntry_of_mem
    (SortedMap.nodup_of_sorted (SortedMap.sorted_alterEntry key (fun _ => v) hkeys)) hmem
  rw [SortedMap.lookupEntry_alterEntry _ _ _ hkeys] at hfound
  split at hfound
  · cases hfound
    exact hv
  · exact hmembers _ (SortedMap.mem_of_lookupEntry hfound)

/-- Whether a value is sorted and has no more than so many arrays and objects in one another. -/
def Tidy (depth : Nat) (v : Value) : Prop :=
  v.isSorted = true ∧ v.depth ≤ depth

theorem tidy_of_depth_eq_zero (depth : Nat) {v : Value} (h : v.depth = 0) : Tidy depth v := by
  refine ⟨?_, h ▸ Nat.zero_le depth⟩
  cases v with
  | array items => nomatch h
  | object members => nomatch h
  | _ => rfl

theorem tidy_array_iff {depth : Nat} {items : List Value} :
    Tidy (depth + 1) (.array items) ↔ ∀ v ∈ items, Tidy depth v := by
  rw [Tidy, Value.isSorted_array, Value.depth, Nat.add_le_add_iff_right, Value.depthItems_le_iff,
    ← forall₂_and]
  rfl

theorem tidy_object_iff {depth : Nat} {members : List (String × Value)} :
    Tidy (depth + 1) (.object members) ↔
      (members.map Prod.fst).Pairwise (· < ·) ∧ ∀ m ∈ members, Tidy depth m.2 := by
  rw [Tidy, Value.isSorted_object, Value.depth, Nat.add_le_add_iff_right, Value.depthMembers_le_iff,
    and_assoc, ← forall₂_and]
  rfl

theorem yields_readValue (depth : Nat) : Yields (readValue depth) (Tidy depth) := by
  induction depth with
  | zero =>
      exact yields_readValueWith (fun _ => tidy_of_depth_eq_zero 0) (yields_refuseDepth _)
        (yields_refuseDepth _)
  | succ depth ih =>
      have hmember (key : String) (members : List (String × Value))
          (h : Tidy (depth + 1) (.object members)) :
          Yields (memberOf (readValue depth) putMember key members)
            fun members => Tidy (depth + 1) (.object members) := by
        refine yields_memberOf ih ?_ key h
        intro key v members hv hmembers
        rw [tidy_object_iff] at hmembers ⊢
        exact ⟨SortedMap.sorted_alterEntry key _ hmembers.1,
          forall_mem_putMember key hmembers.1 hv hmembers.2⟩
      apply yields_readValueWith fun _ => tidy_of_depth_eq_zero (depth + 1)
      · intro bytes v rest h
        obtain ⟨⟨items, rest⟩, hitems, heq⟩ := map_eq_ok h
        cases heq
        exact tidy_array_iff.mpr (yields_readItems ih _ _ (mapError_eq_ok hitems))
      · intro bytes v rest h
        obtain ⟨⟨members, rest⟩, hmembers, heq⟩ := map_eq_ok h
        cases heq
        refine yields_readMembers hmember _ _ ?_ (mapError_eq_ok hmembers)
        exact tidy_object_iff.mpr ⟨.nil, List.forall_mem_nil _⟩

/-- A value that is read from a text is sorted and not too deep. -/
theorem tidy_of_parse {text : Bytes} {v : Value} (h : parse text = .ok v) :
    Tidy greatestDepth v := by
  obtain ⟨rest, hread, -⟩ := readWhole_eq_ok_iff.mp h
  exact yields_readValue greatestDepth hread

theorem isSorted_of_parse {text : Bytes} {v : Value} (h : parse text = .ok v) :
    v.isSorted = true :=
  (tidy_of_parse h).1

theorem ne_text_of_map {β : Type} {x : Except Failure β} {f : β → Value × Bytes} {v : Value}
    {rest : Bytes} (h : x.map f = .ok (v, rest)) (hf : ∀ b s, (f b).1 ≠ .text s) :
    ∀ s, v ≠ .text s := by
  obtain ⟨b, -, heq⟩ := map_eq_ok h
  have hv : (f b).1 = v := congrArg Prod.fst heq
  exact hv ▸ hf b

theorem readValueWith_eq_text_iff {array object : Reader Value}
    (harray : Yields array fun v => ∀ s, v ≠ .text s)
    (hobject : Yields object fun v => ∀ s, v ≠ .text s) {bytes rest : Bytes} {s : String} :
    readValueWith array object bytes = .ok (.text s, rest) ↔
      Decoder.beginning (byte '"') .text Token.readText bytes = .ok (s, rest) := by
  rw [Decoder.beginning]
  cases hskip : skipBlanks bytes with
  | nil => simp [readValueWith, hskip]
  | cons b tail =>
      by_cases hquote : b = byte '"'
      · subst hquote
        rw [readValueWith_text hskip]
        dsimp only
        rw [if_pos rfl]
        cases Token.readText tail with
        | error e => simp [Except.map]
        | ok found => simp [Except.map, Prod.ext_iff]
      · dsimp only
        rw [if_neg hquote]
        refine iff_of_false (fun h => ?_) (by rintro ⟨⟩)
        rw [readValueWith, hskip] at h
        dsimp only at h
        split_ifs at h
        · exact ne_text_of_map h (by rintro _ _ ⟨⟩) s rfl
        · exact ne_text_of_map h (by rintro _ _ ⟨⟩) s rfl
        · exact ne_text_of_map h (by rintro _ _ ⟨⟩) s rfl
        · exact ne_text_of_map h (by rintro _ _ ⟨⟩) s rfl
        · exact harray h s rfl
        · exact hobject h s rfl

theorem readValue_eq_text_iff {depth : Nat} {bytes rest : Bytes} {s : String} :
    readValue depth bytes = .ok (.text s, rest) ↔
      Decoder.text.read depth bytes = .ok (s, rest) := by
  cases depth with
  | zero => exact readValueWith_eq_text_iff (yields_refuseDepth _) (yields_refuseDepth _)
  | succ depth =>
      apply readValueWith_eq_text_iff
      · exact fun _ _ _ h => ne_text_of_map h (by rintro _ _ ⟨⟩)
      · exact fun _ _ _ h => ne_text_of_map h (by rintro _ _ ⟨⟩)

namespace Decoder

theorem parse_text_eq_ok_iff {text : Bytes} {s : String} :
    Decoder.text.parse text = .ok s ↔ Json.parse text = .ok (.text s) := by
  rw [Decoder.parse, Json.parse, readWhole_eq_ok_iff, readWhole_eq_ok_iff]
  simp only [readValue_eq_text_iff]

theorem parse_refine_eq_ok_iff {β : Type} {d : Decoder α} {f : α → Except String β} {text : Bytes}
    {b : β} : (d.refine f).parse text = .ok b ↔ ∃ a, d.parse text = .ok a ∧ f a = .ok b := by
  simp only [Decoder.parse, readWhole_eq_ok_iff]
  constructor
  · rintro ⟨rest, hread, hblank⟩
    obtain ⟨⟨a, rest'⟩, ha, h⟩ := bind_eq_ok hread
    dsimp only at h
    cases hf : f a with
    | error reason =>
        rw [hf] at h
        nomatch h
    | ok b' =>
        rw [hf] at h
        cases h
        exact ⟨a, ⟨rest, ha, hblank⟩, hf⟩
  · rintro ⟨a, ⟨rest, ha, hblank⟩, hf⟩
    refine ⟨rest, ?_, hblank⟩
    simp only [Decoder.refine, ha, bind, Except.bind, hf]

end Decoder

end ClusterBlueprint.Json
