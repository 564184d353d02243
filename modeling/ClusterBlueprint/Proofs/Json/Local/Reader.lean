import ClusterBlueprint.Proofs.Json.Local.Token
import ClusterBlueprint.Proofs.Json.Reader

namespace ClusterBlueprint.Json

variable {α σ : Type}

/-- What comes next, by what comes after it: the closing bracket, or another byte, which begins an
item or a key. -/
def Next.before (closing : UInt8) : Option UInt8 → Bytes → Next
  | none, rest => .close (closing :: rest)
  | some b, rest => .more (b :: rest)

theorem isLocal_nextItem (first : Bool) :
    IsLocal 1 (Next.before (byte ']')) (nextItem first) := by
  refine isLocal_afterBlanks (fun _ => rfl) fun b => ?_
  have hmore (b : UInt8) : IsLocal 0 (Next.before (byte ']')) fun rest => .ok (.more (b :: rest)) :=
    isLocal_ok (Next.before (byte ']')) (some b)
  by_cases hclose : b = byte ']'
  · simp only [if_pos hclose]
    exact hclose ▸ isLocal_ok (Next.before (byte ']')) none
  · simp only [if_neg hclose]
    refine (hmore b).ite (.ite ?_ (isLocal_error _))
    exact (isLocal_afterBlanks (fun _ => rfl) fun b => (isLocal_error _).ite (hmore b)).weaken

theorem isLocal_nextKey (first : Bool) :
    IsLocal 1 (Next.before (byte '\x7d')) (nextKey first) := by
  refine isLocal_afterBlanks (fun _ => rfl) fun b => ?_
  have hmore (b : UInt8) :
      IsLocal 0 (Next.before (byte '\x7d')) fun rest => .ok (.more (b :: rest)) :=
    isLocal_ok (Next.before (byte '\x7d')) (some b)
  by_cases hclose : b = byte '\x7d'
  · simp only [if_pos hclose]
    exact hclose ▸ isLocal_ok (Next.before (byte '\x7d')) none
  · simp only [if_neg hclose]
    refine ((hmore b).ite (isLocal_error _)).ite (.ite ?_ (isLocal_error _))
    exact (isLocal_afterBlanks (fun _ => rfl) fun b =>
      (hmore b).ite ((isLocal_error _).ite (isLocal_error _))).weaken

theorem isLocal_readColon : IsLocal 1 restOnly readColon :=
  isLocal_afterBlanks (fun _ => rfl) fun _ => (isLocal_ok _ ()).ite (isLocal_error _)

theorem readItems_congr (item : Reader α) (steps : Nat) (first : Bool) {bytes bytes' : Bytes}
    (h : skipBlanks bytes = skipBlanks bytes') :
    readItems item steps first bytes = readItems item steps first bytes' := by
  cases steps with
  | zero => rfl
  | succ steps => simp only [readItems, nextItem, h]

theorem skipBlanks_of_nextItem {first : Bool} {bytes rest : Bytes}
    (h : nextItem first bytes = .ok (.close rest)) : skipBlanks bytes = rest := by
  rw [nextItem] at h
  split at h
  · cases h
  next b tail hskip =>
    split at h
    · cases h
      exact hskip
    split at h
    · cases h
    split at h
    · split at h
      · cases h
      · split at h <;> cases h
    · cases h

/-- The items of an array are read from the text before its closing bracket, and reading goes on
from there as from anywhere else. -/
theorem readItems_append {item : Reader α} (hitem : IsLocal 1 Prod.mk item) {steps : Nat}
    {first : Bool} {bytes rest : Bytes} {as : List α}
    (h : readItems item steps first bytes = .ok (as, rest)) :
    ∃ inner, bytes = inner ++ byte ']' :: rest ∧ as.length ≤ inner.length ∧
      (as = [] → skipBlanks inner = []) ∧ ∀ steps tail, as.length ≤ steps → EndsNumber tail →
        readItems item steps first (inner ++ tail) =
          (readItems item (steps - as.length) (first && as.isEmpty) tail).map
            fun (bs, rest) => (as ++ bs, rest) := by
  induction steps generalizing first bytes as with
  | zero => cases h
  | succ steps ih =>
      obtain ⟨next, hnext, hgo⟩ := Result.bind_eq_ok h
      obtain ⟨b, mid, rfl, taken, rfl, htaken, hnext'⟩ := isLocal_nextItem first bytes next hnext
      cases b with
      | none =>
          cases hgo
          have hskip := skipBlanks_of_nextItem hnext
          obtain ⟨blanks, hbytes, hblanks⟩ := exists_blanks (taken ++ mid)
          rw [hskip] at hbytes
          refine ⟨blanks, hbytes, Nat.zero_le _, fun _ => ?_, ?_⟩
          · simpa [skipBlanks] using hblanks []
          · intro steps tail _ _
            rw [readItems_congr item steps first (hblanks tail), List.isEmpty_nil, Bool.and_true]
            cases readItems item steps first tail <;> rfl
      | some b =>
          obtain ⟨⟨a, mid'⟩, ha, hgo⟩ := Result.bind_eq_ok hgo
          obtain ⟨⟨as', rest'⟩, has, heq⟩ := Result.bind_eq_ok hgo
          cases heq
          obtain ⟨a', mid'', heq, taken', rfl, -, hitem'⟩ := hitem.uncons b mid (a, mid') ha
          cases heq
          obtain ⟨inner, rfl, hlength, -, hinner⟩ := ih has
          refine ⟨taken ++ (taken' ++ inner), by simp, ?_, fun h => ?_, ?_⟩
          · simp only [List.length_cons, List.length_append]
            omega
          · cases h
          · intro steps tail hsteps htail
            have hlike : EndsLike (inner ++ byte ']' :: rest) (inner ++ tail) :=
              EndsLike.append (.inr htail) inner
            cases steps with
            | zero => cases hsteps
            | succ steps =>
                have hfirst := hnext' _ (hlike.append taken')
                have hsecond := hitem' _ hlike
                have hrest := hinner steps tail (Nat.le_of_succ_le_succ hsteps) htail
                simp only [List.append_assoc, readItems, hfirst, Next.before, bind, Except.bind,
                  hsecond, hrest, List.isEmpty_cons, Bool.and_false, Bool.false_and,
                  List.length_cons, Nat.add_sub_add_right]
                cases readItems item (steps - as'.length) false tail <;> rfl

theorem readItems_close (item : Reader α) {steps : Nat} (hsteps : 0 < steps) (first : Bool)
    (rest : Bytes) : readItems item steps first (byte ']' :: rest) = .ok ([], rest) := by
  obtain ⟨steps, rfl⟩ := Nat.exists_eq_add_of_lt hsteps
  have hnext := nextItem_close first (skipBlanks_cons (b := byte ']') (by decide) rest)
  simp only [readItems, hnext, bind, Except.bind, List.drop_succ_cons, List.drop_zero]

theorem endsNumber_close (rest : Bytes) : EndsNumber (byte ']' :: rest) :=
  endsNumber_cons rest (by decide)

/-- There are steps enough to read the items of an array again, before any other rest. -/
theorem readItems_again {item : Reader α} (hitem : IsLocal 1 Prod.mk item) {steps : Nat}
    {first : Bool} {inner rest : Bytes} {as : List α}
    (h : readItems item steps first (inner ++ byte ']' :: rest) = .ok (as, rest)) {steps' : Nat}
    (hsteps : inner.length < steps') (rest' : Bytes) :
    readItems item steps' first (inner ++ byte ']' :: rest') = .ok (as, rest') := by
  obtain ⟨inner', hinner, hlength, -, happend⟩ := readItems_append hitem h
  obtain rfl : inner = inner' := List.append_cancel_right hinner
  rw [happend steps' _ (by omega) (endsNumber_close rest'), readItems_close item (by omega)]
  exact congrArg (fun as => Except.ok (as, rest')) (List.append_nil as)

theorem isLocal_readArray {item : Reader α} (hitem : IsLocal 1 Prod.mk item) :
    IsLocal 0 Prod.mk (readArray item) := by
  apply IsLocal.mapError
  rintro bytes ⟨as, rest⟩ h
  obtain ⟨inner, rfl, -⟩ := readItems_append hitem h
  refine ⟨as, rest, rfl, inner ++ [byte ']'], by simp, Nat.zero_le _, ?_⟩
  intro rest' _
  simp only [List.append_assoc, List.singleton_append]
  refine readItems_again hitem h ?_ rest'
  rw [List.length_append]
  omega

/-- The insides of two arrays in one: with a comma between them, if there is anything in both. -/
def joined (xs ys : Bytes) : Bytes :=
  if skipBlanks xs = [] then ys else if skipBlanks ys = [] then xs else xs ++ byte ',' :: ys

theorem nextItem_afterComma {bytes rest : Bytes} (h : nextItem true bytes = .ok (.more rest)) :
    nextItem false (byte ',' :: bytes) = .ok (.more rest) := by
  have hcomma : skipBlanks (byte ',' :: bytes) = byte ',' :: bytes := skipBlanks_cons (by decide) _
  have hclose : byte ',' ≠ byte ']' := by decide
  simp only [nextItem, hcomma, if_neg hclose, Bool.false_eq_true, if_false, if_true] at h ⊢
  cases hskip : skipBlanks bytes with
  | nil =>
      rw [hskip] at h
      cases h
  | cons b tail =>
      rw [hskip] at h
      by_cases hb : b = byte ']'
      · simp only [if_pos hb] at h
        cases h
      · simpa only [if_neg hb] using h

theorem readItems_afterComma {item : Reader α} {steps : Nat} {bytes rest : Bytes} {as : List α}
    (h : readItems item steps true bytes = .ok (as, rest)) (has : as ≠ []) :
    readItems item steps false (byte ',' :: bytes) = .ok (as, rest) := by
  cases steps with
  | zero => nomatch h
  | succ steps =>
      obtain ⟨next, hnext, hgo⟩ := Result.bind_eq_ok h
      cases next with
      | close bytes =>
          cases hgo
          exact absurd rfl has
      | more bytes =>
          simp only [readItems, nextItem_afterComma hnext]
          exact hgo

theorem skipBlanks_append {blanks : Bytes} (h : skipBlanks blanks = []) (tail : Bytes) :
    skipBlanks (blanks ++ tail) = skipBlanks tail := by
  obtain ⟨blanks', hbytes, hblanks⟩ := exists_blanks blanks
  rw [h, List.append_nil] at hbytes
  rw [hbytes]
  exact hblanks tail

theorem eq_nil_of_blank {item : Reader α} {steps : Nat} {first : Bool} {blanks rest rest' : Bytes}
    {as : List α} (hblanks : skipBlanks blanks = [])
    (h : readItems item steps first (blanks ++ byte ']' :: rest) = .ok (as, rest')) : as = [] := by
  cases steps with
  | zero => nomatch h
  | succ steps =>
      rw [readItems_congr item _ first (skipBlanks_append hblanks _),
        readItems_close item (Nat.succ_pos steps)] at h
      cases h
      rfl

/-- The items of two arrays are read one after the other. -/
theorem readArray_joined {item : Reader α} (hitem : IsLocal 1 Prod.mk item) {xs ys rest : Bytes}
    {as bs : List α} (hx : readArray item (xs ++ byte ']' :: rest) = .ok (as, rest))
    (hy : readArray item (ys ++ byte ']' :: rest) = .ok (bs, rest)) :
    readArray item (joined xs ys ++ byte ']' :: rest) = .ok (as ++ bs, rest) := by
  have has := Result.mapError_eq_ok hx
  have hbs := Result.mapError_eq_ok hy
  rw [joined]
  split
  next hblank =>
    rw [eq_nil_of_blank hblank has]
    exact hy
  split
  next hblank =>
    rw [eq_nil_of_blank hblank hbs, List.append_nil]
    exact hx
  next hxs hys =>
    obtain ⟨inner, hinner, hlength, hnone, happend⟩ := readItems_append hitem has
    obtain rfl : xs = inner := List.append_cancel_right hinner
    obtain ⟨inner, hinner, -, hnone', -⟩ := readItems_append hitem hbs
    obtain rfl : ys = inner := List.append_cancel_right hinner
    have hempty : as.isEmpty = false := List.isEmpty_eq_false_iff.mpr fun h => hxs (hnone h)
    have hcomma : EndsNumber (byte ',' :: (ys ++ byte ']' :: rest)) := endsNumber_cons _ (by decide)
    have hagain {steps : Nat} (hsteps : ys.length < steps) :=
      readItems_afterComma (readItems_again hitem hbs hsteps rest) fun h => hys (hnone' h)
    simp only [readArray, List.append_assoc, List.cons_append]
    rw [happend _ _ (by simp; omega) hcomma, hempty, Bool.and_false, hagain (by simp; omega)]
    rfl

theorem takesIn_readMembers {member : String → σ → Reader σ}
    (hmember : ∀ key s, IsLocal 0 Prod.mk (member key s)) {steps : Nat} {first : Bool} {s : σ}
    {bytes : Bytes} {c : σ × Bytes} (h : readMembers member steps first s bytes = .ok c) :
    ∃ a rest, c = (a, rest) ∧
      TakesIn (fun steps => readMembers member steps first s) (a, ·) bytes rest := by
  induction steps generalizing first s bytes with
  | zero => nomatch h
  | succ steps ih =>
      obtain ⟨next, hnext, hgo⟩ := Result.bind_eq_ok h
      obtain ⟨b, mid, rfl, htakes⟩ := isLocal_nextKey first bytes next hnext
      cases b with
      | none =>
          cases hgo
          exact ⟨s, mid, rfl, htakes.bindIn (fun _ _ => rfl) (takesIn_nothing (s, ·) mid)⟩
      | some b =>
          obtain ⟨keyed, hkey, hgo⟩ := Result.bind_eq_ok hgo
          obtain ⟨filled, hfilled, hgo⟩ := Result.bind_eq_ok hgo
          obtain ⟨key, mid', rfl, htext⟩ := Token.isLocal_readText mid keyed hkey
          obtain ⟨s', mid'', rfl, hvalue⟩ := hmember key s mid' filled hfilled
          obtain ⟨a, rest, rfl, hrest⟩ := ih hgo
          refine ⟨a, rest, rfl, htakes.bindIn (fun _ _ => rfl) ?_⟩
          exact htext.bindIn (fun _ _ => rfl) (hvalue.bindIn (fun _ _ => rfl) hrest)

theorem isLocal_readMembers {member : String → σ → Reader σ}
    (hmember : ∀ key s, IsLocal 0 Prod.mk (member key s)) (s : σ) :
    IsLocal 0 Prod.mk fun bytes => readMembers member (bytes.length + 1) true s bytes := by
  intro bytes c h
  obtain ⟨a, rest, rfl, htakes⟩ := takesIn_readMembers hmember h
  exact ⟨a, rest, rfl, htakes.takes⟩

theorem isLocal_readObject {member : String → σ → Reader σ}
    (hmember : ∀ key s, IsLocal 0 Prod.mk (member key s)) (s : σ) :
    IsLocal 0 Prod.mk (readObject member s) :=
  (isLocal_readMembers hmember s).mapError _

theorem isLocal_memberOf {value : Reader α} (hvalue : IsLocal 1 Prod.mk value)
    (put : String → α → σ → σ) (key : String) (s : σ) :
    IsLocal 0 Prod.mk (memberOf value put key s) :=
  (isLocal_readColon.bind fun _ => hvalue.weaken.bind fun a => isLocal_ok _ (put key a s)).weaken

theorem isLocal_readValueWith {array object : Reader Value}
    (harray : ∀ b, IsLocal 0 Prod.mk fun tail => array (b :: tail))
    (hobject : ∀ b, IsLocal 0 Prod.mk fun tail => object (b :: tail)) :
    IsLocal 1 Prod.mk (readValueWith array object) := by
  have hword (word : List Char) (v : Value) :
      IsLocal 0 Prod.mk fun rest => (readWord word rest).map (v, ·) :=
    (isLocal_readWord word).map (k := fun _ => v) fun _ _ => rfl
  refine isLocal_afterBlanks (fun _ => rfl) fun b => ?_
  refine (hword _ .null).ite ((hword _ (.bool true)).ite ((hword _ (.bool false)).ite ?_))
  refine ((Token.isLocal_readNumber b).map (k := Value.number) fun _ _ => rfl).ite ?_
  refine (Token.isLocal_readText.map (k := Value.text) fun _ _ => rfl).ite ?_
  exact (harray b).ite ((hobject b).ite (isLocal_error _))

theorem isLocal_readValue (depth : Nat) : IsLocal 1 Prod.mk (readValue depth) := by
  induction depth with
  | zero => exact isLocal_readValueWith (fun _ => isLocal_error _) fun _ => isLocal_error _
  | succ depth ih =>
      refine isLocal_readValueWith (fun _ => ?_) fun _ => ?_
      · exact (isLocal_readArray ih).map (k := Value.array) fun _ _ => rfl
      · exact (isLocal_readObject (isLocal_memberOf ih putMember) []).map (k := Value.object)
          fun _ _ => rfl

end ClusterBlueprint.Json
