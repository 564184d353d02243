import ClusterBlueprint.Proofs.Json.Number
import ClusterBlueprint.Proofs.Result

/-!
What is taken off a text. A function that gets something from a text and leaves a rest is local if
it gets the same from the bytes that it has taken, whatever comes after them (`IsLocal`). A number
has no end of its own, so that the byte after it has a say: either it is the byte that came next
before, or it does not go on with a number (`EndsLike`). The lemmas follow the ways in which readers
are put together.
-/

namespace ClusterBlueprint.Json

variable {α β γ δ : Type}

/-- Whether a number that is over before some bytes is over before others too: they begin alike, or
with nothing that could go on with a number. -/
def EndsLike (rest rest' : Bytes) : Prop :=
  rest'.head? = rest.head? ∨ EndsNumber rest'

theorem EndsLike.append {rest rest' : Bytes} (h : EndsLike rest rest') (taken : Bytes) :
    EndsLike (taken ++ rest) (taken ++ rest') := by
  cases taken with
  | nil => exact h
  | cons b taken => exact .inl rfl

/-- Whether what is got from a text comes from some first bytes of it alone, at least `least` of
them, so that the same is got from them before any other rest. What is got is given by the rest. -/
def Takes (least : Nat) (f : Bytes → Except Failure γ) (out : Bytes → γ) (bytes rest : Bytes) :
    Prop :=
  ∃ taken, bytes = taken ++ rest ∧ least ≤ taken.length ∧
    ∀ rest', EndsLike rest rest' → f (taken ++ rest') = .ok (out rest')

/-- The same of a loop, if there is a step for each byte that is taken. -/
def TakesIn (loop : (steps : Nat) → Bytes → Except Failure γ) (out : Bytes → γ)
    (bytes rest : Bytes) : Prop :=
  ∃ taken, bytes = taken ++ rest ∧ ∀ steps rest', taken.length ≤ steps → EndsLike rest rest' →
    loop steps (taken ++ rest') = .ok (out rest')

theorem exists_blanks (bytes : Bytes) :
    ∃ blanks, bytes = blanks ++ skipBlanks bytes ∧
      ∀ tail, skipBlanks (blanks ++ tail) = skipBlanks tail := by
  refine ⟨bytes.takeWhile isBlankByte, List.takeWhile_append_dropWhile.symm, ?_⟩
  intro tail
  apply List.dropWhile_append_of_pos
  intro b hb
  exact List.all_eq_true.mp List.all_takeWhile b hb

theorem skipBlanks_cons_of_skipBlanks {bytes : Bytes} {b : UInt8} {tail : Bytes}
    (h : skipBlanks bytes = b :: tail) (rest : Bytes) : skipBlanks (b :: rest) = b :: rest := by
  have hhead := bytes.head?_dropWhile_not isBlankByte
  rw [← skipBlanks, h] at hhead
  exact List.dropWhile_cons_of_neg (by simpa using hhead)

section Takes

variable {f : Bytes → Except Failure γ} {out : Bytes → γ} {bytes rest : Bytes} {least : Nat}

theorem takes_nothing (out : Bytes → γ) (rest : Bytes) :
    Takes 0 (fun bytes => .ok (out bytes)) out rest rest :=
  ⟨[], rfl, Nat.zero_le _, fun _ _ => rfl⟩

theorem Takes.cons {b : UInt8} {tail : Bytes}
    (h : Takes 0 (fun tail => f (b :: tail)) out tail rest) : Takes 0 f out (b :: tail) rest := by
  obtain ⟨taken, rfl, -, htaken⟩ := h
  exact ⟨b :: taken, rfl, Nat.zero_le _, htaken⟩

theorem Takes.uncons {b : UInt8} {tail : Bytes} (h : Takes (least + 1) f out (b :: tail) rest) :
    Takes least (fun tail => f (b :: tail)) out tail rest := by
  obtain ⟨taken, hbytes, hleast, htaken⟩ := h
  cases taken with
  | nil => nomatch hleast
  | cons b' taken =>
      rw [List.cons_append, List.cons.injEq] at hbytes
      obtain ⟨rfl, rfl⟩ := hbytes
      exact ⟨taken, rfl, Nat.le_of_succ_le_succ hleast, htaken⟩

theorem Takes.bind {g : γ → Except Failure δ} {out' : Bytes → δ} {mid : Bytes}
    (h : Takes least f out bytes mid) (h' : Takes 0 (fun bytes => g (out bytes)) out' mid rest) :
    Takes least (fun bytes => f bytes >>= g) out' bytes rest := by
  obtain ⟨taken, rfl, hleast, htaken⟩ := h
  obtain ⟨taken', rfl, -, htaken'⟩ := h'
  refine ⟨taken ++ taken', (List.append_assoc _ _ _).symm, ?_, ?_⟩
  · rw [List.length_append]
    exact Nat.le_add_right_of_le hleast
  · intro rest' hrest
    simp only [List.append_assoc, htaken _ (hrest.append taken')]
    exact htaken' rest' hrest

variable {loop : (steps : Nat) → Bytes → Except Failure γ}

theorem TakesIn.cons {b : UInt8} {tail : Bytes}
    (h : TakesIn (fun steps tail => loop (steps + 1) (b :: tail)) out tail rest) :
    TakesIn loop out (b :: tail) rest := by
  obtain ⟨taken, rfl, htaken⟩ := h
  refine ⟨b :: taken, rfl, ?_⟩
  intro steps rest' hsteps hrest
  cases steps with
  | zero => nomatch hsteps
  | succ steps => exact htaken steps rest' (Nat.le_of_succ_le_succ hsteps) hrest

/-- A loop that goes on with what `f` got; for `least` steps it takes as many bytes. -/
theorem Takes.bindIn {f : Bytes → Except Failure δ} {g : (steps : Nat) → δ → Except Failure γ}
    {out' : Bytes → δ} {mid : Bytes} (h : Takes least f out' bytes mid)
    (hloop : ∀ steps bytes, loop (steps + least) bytes = f bytes >>= g steps)
    (h' : TakesIn (fun steps mid => g steps (out' mid)) out mid rest) :
    TakesIn loop out bytes rest := by
  obtain ⟨taken, rfl, hleast, htaken⟩ := h
  obtain ⟨taken', rfl, htaken'⟩ := h'
  refine ⟨taken ++ taken', (List.append_assoc _ _ _).symm, ?_⟩
  intro steps rest' hsteps hrest
  rw [List.length_append] at hsteps
  have hcount : least ≤ steps := by omega
  obtain ⟨steps, rfl⟩ := Nat.exists_eq_add_of_le' hcount
  rw [List.append_assoc, hloop, htaken _ (hrest.append taken')]
  exact htaken' steps rest' (by omega) hrest

theorem takesIn_nothing (out : Bytes → γ) (rest : Bytes) :
    TakesIn (fun _ bytes => .ok (out bytes)) out rest rest :=
  ⟨[], rfl, fun _ _ _ _ => rfl⟩

theorem TakesIn.more (h : TakesIn loop out bytes rest) :
    TakesIn (fun steps => loop (steps + 1)) out bytes rest := by
  obtain ⟨taken, hbytes, htaken⟩ := h
  refine ⟨taken, hbytes, ?_⟩
  intro steps rest' hsteps hrest
  exact htaken (steps + 1) rest' (Nat.le_succ_of_le hsteps) hrest

/-- A loop that does not look at blanks in front. -/
theorem TakesIn.afterBlanks
    (hloop : ∀ steps {bytes bytes'}, skipBlanks bytes = skipBlanks bytes' →
      loop steps bytes = loop steps bytes')
    (h : TakesIn loop out (skipBlanks bytes) rest) : TakesIn loop out bytes rest := by
  obtain ⟨taken, hbytes, htaken⟩ := h
  obtain ⟨blanks, hblanks, hskip⟩ := exists_blanks bytes
  rw [hbytes, ← List.append_assoc] at hblanks
  refine ⟨blanks ++ taken, hblanks, ?_⟩
  intro steps rest' hsteps hrest
  rw [List.length_append] at hsteps
  rw [List.append_assoc, hloop steps (hskip _)]
  exact htaken steps rest' (by omega) hrest

/-- A loop that gets nothing from nothing looks at the first byte. -/
theorem TakesIn.of_cons {loop' : (steps : Nat) → Bytes → Except Failure γ} {b : UInt8}
    {tail : Bytes} (h : TakesIn loop out (b :: tail) rest)
    (hnil : ∀ steps c, loop steps [] ≠ .ok c)
    (hloop : ∀ steps tail, loop' steps (b :: tail) = loop steps (b :: tail)) :
    TakesIn loop' out (b :: tail) rest := by
  obtain ⟨taken, hbytes, htaken⟩ := h
  cases taken with
  | nil => exact absurd (htaken 0 [] (Nat.le_refl 0) (.inr endsNumber_nil)) (hnil 0 _)
  | cons b' taken =>
      obtain ⟨rfl, rfl⟩ := List.cons.inj hbytes
      refine ⟨b :: taken, rfl, ?_⟩
      intro steps rest' hsteps hrest
      exact (hloop steps (taken ++ rest')).trans (htaken steps rest' hsteps hrest)

/-- There are steps enough for a loop when there is one for each byte of the text. -/
theorem TakesIn.takes (h : TakesIn loop out bytes rest) :
    Takes 0 (fun bytes => loop (bytes.length + 1) bytes) out bytes rest := by
  obtain ⟨taken, rfl, htaken⟩ := h
  refine ⟨taken, rfl, Nat.zero_le _, ?_⟩
  intro rest' hrest
  apply htaken _ _ _ hrest
  rw [List.length_append]
  omega

end Takes

/-- Whether a function takes something off each text from which it gets anything, at least `least`
bytes. What it gets is given by the rest and something else. -/
def IsLocal (least : Nat) (out : α → Bytes → γ) (f : Bytes → Except Failure γ) : Prop :=
  ∀ bytes c, f bytes = .ok c → ∃ a rest, c = out a rest ∧ Takes least f (out a) bytes rest

/-- What a function gets that gets nothing but the rest. -/
abbrev restOnly (_ : Unit) (rest : Bytes) : Bytes :=
  rest

section IsLocal

variable {least : Nat} {out : α → Bytes → γ} {f g : Bytes → Except Failure γ}

theorem isLocal_error (e : Bytes → Failure) : IsLocal least out fun bytes => .error (e bytes) :=
  fun _ _ h => nomatch h

theorem isLocal_ok (out : α → Bytes → γ) (a : α) : IsLocal 0 out fun rest => .ok (out a rest) := by
  intro bytes c h
  cases h
  exact ⟨a, bytes, rfl, takes_nothing (out a) bytes⟩

theorem IsLocal.weaken (h : IsLocal least out f) : IsLocal 0 out f := by
  intro bytes c hc
  obtain ⟨a, rest, rfl, taken, hbytes, -, htaken⟩ := h bytes c hc
  exact ⟨a, rest, rfl, taken, hbytes, Nat.zero_le _, htaken⟩

theorem IsLocal.ite {p : Prop} [Decidable p] (hf : IsLocal least out f) (hg : IsLocal least out g) :
    IsLocal least out fun bytes => if p then f bytes else g bytes := by
  by_cases h : p
  · simpa only [if_pos h] using hf
  · simpa only [if_neg h] using hg

theorem IsLocal.map {out' : β → Bytes → δ} (hf : IsLocal least out f) {h : γ → δ} {k : α → β}
    (hh : ∀ a rest, h (out a rest) = out' (k a) rest) :
    IsLocal least out' fun bytes => (f bytes).map h := by
  intro bytes c hc
  obtain ⟨c', hc', rfl⟩ := Result.map_eq_ok hc
  obtain ⟨a, rest, rfl, taken, hbytes, hleast, htaken⟩ := hf bytes c' hc'
  refine ⟨k a, rest, hh a rest, taken, hbytes, hleast, ?_⟩
  intro rest' hrest
  simp only [htaken rest' hrest, Except.map, hh]

theorem IsLocal.mapError (hf : IsLocal least out f) (h : Failure → Failure) :
    IsLocal least out fun bytes => (f bytes).mapError h := by
  intro bytes c hc
  obtain ⟨a, rest, rfl, taken, hbytes, hleast, htaken⟩ := hf bytes c (Result.mapError_eq_ok hc)
  refine ⟨a, rest, rfl, taken, hbytes, hleast, ?_⟩
  intro rest' hrest
  simp only [htaken rest' hrest, Except.mapError]

theorem IsLocal.bind {out' : β → Bytes → δ} (hf : IsLocal least out f)
    {h : γ → Except Failure δ} (hh : ∀ a, IsLocal 0 out' fun rest => h (out a rest)) :
    IsLocal least out' fun bytes => f bytes >>= h := by
  intro bytes c hc
  obtain ⟨c', hc', hnext⟩ := Result.bind_eq_ok hc
  obtain ⟨a, mid, rfl, hfirst⟩ := hf bytes c' hc'
  obtain ⟨b, rest, rfl, hsecond⟩ := hh a mid c hnext
  exact ⟨b, rest, rfl, hfirst.bind hsecond⟩

theorem isLocal_cons (hnil : ∀ c, f [] ≠ .ok c)
    (hcons : ∀ b, IsLocal 0 out fun tail => f (b :: tail)) : IsLocal 0 out f := by
  intro bytes c hc
  cases bytes with
  | nil => exact absurd hc (hnil c)
  | cons b tail =>
      obtain ⟨a, rest, rfl, htakes⟩ := hcons b tail c hc
      exact ⟨a, rest, rfl, htakes.cons⟩

theorem IsLocal.uncons (h : IsLocal (least + 1) out f) (b : UInt8) :
    IsLocal least out fun tail => f (b :: tail) := by
  intro tail c hc
  obtain ⟨a, rest, rfl, htakes⟩ := h (b :: tail) c hc
  exact ⟨a, rest, rfl, htakes.uncons⟩

theorem isLocal_afterBlanks {e : Failure} {g : UInt8 → Bytes → Except Failure γ}
    (hf : ∀ bytes, f bytes = match skipBlanks bytes with
      | [] => .error e
      | b :: tail => g b tail)
    (hg : ∀ b, IsLocal 0 out (g b)) : IsLocal 1 out f := by
  intro bytes c hc
  rw [hf] at hc
  cases hskip : skipBlanks bytes with
  | nil =>
      rw [hskip] at hc
      nomatch hc
  | cons b tail =>
      rw [hskip] at hc
      obtain ⟨a, rest, rfl, taken, rfl, -, htaken⟩ := hg b tail c hc
      obtain ⟨blanks, hbytes, hblanks⟩ := exists_blanks bytes
      refine ⟨a, rest, rfl, blanks ++ b :: taken, ?_, ?_, ?_⟩
      · rw [hbytes, hskip, List.append_assoc, List.cons_append]
      · rw [List.length_append, List.length_cons]
        omega
      · intro rest' hrest
        rw [hf, List.append_assoc, hblanks, List.cons_append, skipBlanks_cons_of_skipBlanks hskip]
        exact htaken rest' hrest

end IsLocal

end ClusterBlueprint.Json
