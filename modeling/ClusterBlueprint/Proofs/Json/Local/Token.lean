import ClusterBlueprint.Json.Token.Text
import ClusterBlueprint.Proofs.Json.Local.Basic

namespace ClusterBlueprint.Json

variable {α γ : Type}

theorem isLocal_readWord (word : List Char) : IsLocal 0 restOnly (readWord word) := by
  induction word with
  | nil => exact isLocal_ok restOnly ()
  | cons c word ih =>
      have hcons (b : UInt8) : IsLocal 0 restOnly fun tail => readWord (c :: word) (b :: tail) :=
        ih.ite (isLocal_error _)
      exact isLocal_cons nofun hcons

namespace Token

theorem isLocal_readPairByte (expected : UInt8) : IsLocal 0 restOnly (readPairByte expected) :=
  isLocal_cons nofun fun _ => (isLocal_ok _ ()).ite (isLocal_error _)

theorem isLocal_readHex : IsLocal 0 Prod.mk readHex := by
  refine isLocal_cons nofun fun a => isLocal_cons nofun fun b => isLocal_cons nofun fun c =>
    isLocal_cons nofun fun d => ?_
  simp only [readHex]
  rcases hexDigit? a with _ | a
  · exact isLocal_error _
  rcases hexDigit? b with _ | b
  · exact isLocal_error _
  rcases hexDigit? c with _ | c
  · exact isLocal_error _
  rcases hexDigit? d with _ | d
  · exact isLocal_error _
  exact isLocal_ok _ _

theorem isLocal_readUnicodeEscape : IsLocal 0 Prod.mk readUnicodeEscape := by
  apply isLocal_readHex.bind
  intro unit
  refine (isLocal_error _).ite (.ite ?_ (isLocal_ok _ _))
  refine (isLocal_readPairByte _).bind fun _ => ?_
  refine (isLocal_readPairByte _).bind fun _ => ?_
  refine isLocal_readHex.bind fun second => ?_
  exact (isLocal_ok _ _).ite (isLocal_error _)

theorem isLocal_readEscape : IsLocal 0 Prod.mk readEscape := by
  refine isLocal_cons nofun fun b => ?_
  simp only [readEscape]
  cases simpleEscape? b with
  | some c => exact isLocal_ok _ c
  | none => exact isLocal_readUnicodeEscape.ite (isLocal_error _)

theorem takesIn_gatherText {steps : Nat} {gathered bytes : Bytes} {c : Bytes × Bytes}
    (h : gatherText steps gathered bytes = .ok c) :
    ∃ a rest, c = (a, rest) ∧
      TakesIn (fun steps => gatherText steps gathered) (a, ·) bytes rest := by
  induction steps generalizing gathered bytes with
  | zero => nomatch h
  | succ steps ih =>
      cases bytes with
      | nil => nomatch h
      | cons b tail =>
          rw [gatherText.eq_def] at h
          dsimp only at h
          split at h
          next hquote =>
            cases h
            refine ⟨gathered.reverse, tail, rfl, TakesIn.cons ?_⟩
            simpa only [gatherText, if_pos hquote] using takesIn_nothing _ tail
          next hquote =>
          split at h
          next hescape =>
            cases hc : readEscape tail with
            | error e =>
                rw [hc] at h
                nomatch h
            | ok escaped =>
                obtain ⟨char, mid, rfl, htakes⟩ := isLocal_readEscape tail escaped hc
                rw [hc] at h
                obtain ⟨a, rest, rfl, hrest⟩ := ih h
                refine ⟨a, rest, rfl, TakesIn.cons (htakes.bindIn (g := fun steps escaped =>
                  gatherText steps ((Utf8.encodeChar escaped.1).reverse ++ gathered) escaped.2)
                  ?_ hrest)⟩
                intro steps bytes
                simp only [gatherText, if_neg hquote, if_pos hescape]
                cases readEscape bytes <;> rfl
          next hescape =>
            split at h
            next => nomatch h
            next hcontrol =>
              obtain ⟨a, rest, rfl, hrest⟩ := ih h
              refine ⟨a, rest, rfl, TakesIn.cons ?_⟩
              simpa only [gatherText, if_neg hquote, if_neg hescape, if_neg hcontrol] using hrest

theorem isLocal_gatherText :
    IsLocal 0 Prod.mk fun bytes => gatherText (bytes.length + 1) [] bytes := by
  intro bytes c hc
  obtain ⟨a, rest, rfl, htakes⟩ := takesIn_gatherText hc
  exact ⟨a, rest, rfl, htakes.takes⟩

theorem isLocal_readText : IsLocal 0 Prod.mk readText := by
  apply isLocal_gatherText.bind
  intro gathered
  dsimp only
  cases Utf8.decode gathered with
  | ok s => exact isLocal_ok _ s
  | error offset => exact isLocal_error _

theorem exists_digits (bytes : Bytes) :
    ∃ digits rest, bytes = digits ++ rest ∧ (∀ b ∈ digits, (digit? b).isSome = true) ∧
      startsWithDigit rest = false := by
  induction bytes with
  | nil => exact ⟨[], [], rfl, nofun, rfl⟩
  | cons b bytes ih =>
      by_cases hb : (digit? b).isSome = true
      · obtain ⟨digits, rest, rfl, hdigits, hrest⟩ := ih
        exact ⟨b :: digits, rest, rfl, List.forall_mem_cons.mpr ⟨hb, hdigits⟩, hrest⟩
      · exact ⟨[], b :: bytes, rfl, nofun, Bool.eq_false_iff.mpr hb⟩

theorem passDigits_append {digits rest : Bytes} (hdigits : ∀ b ∈ digits, (digit? b).isSome = true)
    (hrest : startsWithDigit rest = false) :
    passDigits (digits ++ rest) = (digits.length, rest) := by
  induction digits with
  | nil =>
      cases rest with
      | nil => rfl
      | cons b rest =>
          rw [startsWithDigit] at hrest
          simp only [List.nil_append, passDigits, hrest, Bool.false_eq_true, if_false,
            List.length_nil]
  | cons b digits ih =>
      rw [List.forall_mem_cons] at hdigits
      simp only [List.cons_append, passDigits, if_pos hdigits.1, ih hdigits.2, List.length_cons]

theorem exists_gatherDigits (limit value count : Nat) {digits : Bytes}
    (hdigits : ∀ b ∈ digits, (digit? b).isSome = true) :
    ∃ value' count' left, (∀ b ∈ left, (digit? b).isSome = true) ∧
      ∀ rest, startsWithDigit rest = false →
        gatherDigits limit value count (digits ++ rest) = (value', count', left ++ rest) := by
  induction digits generalizing value count with
  | nil =>
      refine ⟨value, count, [], nofun, ?_⟩
      intro rest hrest
      cases rest with
      | nil => rfl
      | cons b rest =>
          rw [startsWithDigit, Option.isSome_eq_false_iff, Option.isNone_iff_eq_none] at hrest
          simp only [List.nil_append, gatherDigits, hrest]
  | cons b digits ih =>
      obtain ⟨d, hd⟩ := Option.isSome_iff_exists.mp (hdigits b List.mem_cons_self)
      by_cases hlimit : value * 10 + d ≤ limit
      · obtain ⟨value', count', left, hleft, hgather⟩ :=
          ih (value * 10 + d) (count + 1) (List.forall_mem_cons.mp hdigits).2
        refine ⟨value', count', left, hleft, ?_⟩
        intro rest hrest
        simp only [List.cons_append, gatherDigits, hd, if_pos hlimit, hgather rest hrest]
      · refine ⟨value, count, b :: digits, hdigits, ?_⟩
        intro rest hrest
        simp only [List.cons_append, gatherDigits, hd, if_neg hlimit]

theorem startsWithDigit_append {digits rest : Bytes}
    (hdigits : ∀ b ∈ digits, (digit? b).isSome = true) (hrest : startsWithDigit rest = false) :
    startsWithDigit (digits ++ rest) = !digits.isEmpty := by
  cases digits with
  | nil => exact hrest
  | cons b digits => exact hdigits b List.mem_cons_self

variable {out : α → Bytes → γ} {f g : Bytes → Except Failure γ}

theorem startsWithDigit_of_endsLike {rest rest' : Bytes} (h : EndsLike rest rest')
    (hrest : startsWithDigit rest = false) : startsWithDigit rest' = false := by
  rcases h with hhead | hend
  · cases rest <;> cases rest' <;> simp_all [startsWithDigit]
  · exact startsWithDigit_of_endsNumber hend

theorem isLocal_digits
    (hf : ∀ digits, (∀ b ∈ digits, (digit? b).isSome = true) → ∃ g, IsLocal 0 out g ∧
      ∀ rest, startsWithDigit rest = false → f (digits ++ rest) = g rest) : IsLocal 0 out f := by
  intro bytes c hc
  obtain ⟨digits, rest, rfl, hdigits, hrest⟩ := exists_digits bytes
  obtain ⟨g, hg, hfg⟩ := hf digits hdigits
  rw [hfg rest hrest] at hc
  obtain ⟨a, rest, rfl, taken, rfl, -, htaken⟩ := hg rest c hc
  refine ⟨a, rest, rfl, digits ++ taken, (List.append_assoc _ _ _).symm, Nat.zero_le _, ?_⟩
  intro rest' hlike
  rw [List.append_assoc, hfg _ (startsWithDigit_of_endsLike (hlike.append taken) hrest)]
  exact htaken rest' hlike

/-- A function that looks at whether the next byte goes on with a number, and takes it only then. -/
theorem isLocal_peek (goesOn : UInt8 → Prop) (hend : ∀ b rest, goesOn b → ¬ EndsNumber (b :: rest))
    (hcons : ∀ b, goesOn b → IsLocal 0 out fun tail => f (b :: tail)) (hg : IsLocal 0 out g)
    (hfg : ∀ bytes, (∀ b ∈ bytes.head?, ¬ goesOn b) → f bytes = g bytes) : IsLocal 0 out f := by
  intro bytes c hc
  by_cases hbytes : ∀ b ∈ bytes.head?, ¬ goesOn b
  · rw [hfg bytes hbytes] at hc
    obtain ⟨a, rest, rfl, taken, rfl, -, htaken⟩ := hg bytes c hc
    refine ⟨a, rest, rfl, taken, rfl, Nat.zero_le _, ?_⟩
    intro rest' hlike
    rw [hfg, htaken rest' hlike]
    intro b hb hgoes
    rcases hlike.append taken with hhead | hnumber
    · exact hbytes b (hhead ▸ hb) hgoes
    · obtain ⟨tail, htail⟩ := List.head?_eq_some_iff.mp hb
      rw [htail] at hnumber
      exact hend b tail hgoes hnumber
  · cases bytes with
    | nil => exact absurd nofun hbytes
    | cons b tail =>
        have hb : goesOn b := by simpa using hbytes
        obtain ⟨a, rest, rfl, htakes⟩ := hcons b hb tail c hc
        exact ⟨a, rest, rfl, htakes.cons⟩

theorem isLocal_scaled (negative : Bool) (significand : Nat) (power : Int) :
    IsLocal 0 Prod.mk (scaled negative significand power) := by
  unfold scaled
  cases Double.ofDecimal negative significand power with
  | some x => exact isLocal_ok _ (Number.double x)
  | none => exact isLocal_error _

theorem isLocal_afterSign {fromFirst : Bool → UInt8 → Bytes → Except Failure γ}
    (hnil : ∀ bytes down, readSign bytes = (down, []) → ∀ c, f bytes ≠ .ok c)
    (hcons : ∀ bytes down b rest, readSign bytes = (down, b :: rest) →
      f bytes = fromFirst down b rest)
    (hfirst : ∀ down b, IsLocal 0 out (fromFirst down b)) : IsLocal 0 out f := by
  have hsign (sign : UInt8) (down : Bool) (h : ∀ rest, readSign (sign :: rest) = (down, rest)) :
      IsLocal 0 out fun tail => f (sign :: tail) := by
    refine isLocal_cons (hnil _ down (h [])) fun b => ?_
    simpa only [hcons _ _ _ _ (h _)] using hfirst down b
  refine isLocal_cons (hnil [] false rfl) fun b => ?_
  by_cases hplus : b = byte '+'
  · exact hsign b false fun rest => by simp only [readSign, if_pos hplus]
  by_cases hminus : b = byte '-'
  · exact hsign b true fun rest => by simp only [readSign, if_neg hplus, if_pos hminus]
  have hother (rest : Bytes) : readSign (b :: rest) = (false, b :: rest) := by
    simp only [readSign, if_neg hplus, if_neg hminus]
  simpa only [hcons _ _ _ _ (hother _)] using hfirst false b

/-- The digits of an exponent after the first one. -/
theorem isLocal_exponentDigits (negative : Bool) (significand first : Nat)
    (power : Nat → Int) (overflows : Bool) :
    IsLocal 0 Prod.mk fun rest =>
      let (exponent, _, rest) := gatherDigits greatestExponent first 1 rest
      if startsWithDigit rest then
        if overflows then .error (.here .numberOutOfRange (rest.drop 1))
        else .ok (.double (.zero negative), (passDigits rest).2)
      else scaled negative significand (power exponent) rest := by
  refine isLocal_digits fun digits hdigits => ?_
  obtain ⟨exponent, _, left, hleft, hgather⟩ :=
    exists_gatherDigits greatestExponent first 1 hdigits
  cases left with
  | nil =>
      refine ⟨_, isLocal_scaled negative significand (power exponent), ?_⟩
      intro rest hrest
      simp only [hgather rest hrest, List.nil_append, hrest, Bool.false_eq_true, if_false]
  | cons b left =>
      cases overflows with
      | true =>
          refine ⟨_, isLocal_error fun rest => .here .numberOutOfRange (left ++ rest), ?_⟩
          intro rest hrest
          simp only [hgather rest hrest, startsWithDigit_append hleft hrest, List.isEmpty_cons,
            Bool.not_false, if_true]
          rfl
      | false =>
          refine ⟨_, isLocal_ok _ (Number.double (.zero negative)), ?_⟩
          intro rest hrest
          simp only [hgather rest hrest, startsWithDigit_append hleft hrest, List.isEmpty_cons,
            Bool.not_false, if_true, Bool.false_eq_true, if_false, passDigits_append hleft hrest]

theorem isLocal_readExponent (negative : Bool) (significand : Nat) (power : Int) :
    IsLocal 0 Prod.mk (readExponent negative significand power) := by
  refine isLocal_afterSign (fun bytes down h => by simp [readExponent, h])
    (fun bytes down b rest h => by simp only [readExponent, h]; exact rfl) ?_
  intro down b
  cases digit? b with
  | none => exact isLocal_error _
  | some first =>
      exact isLocal_exponentDigits negative significand first
        (fun exponent => if down then power - exponent else power + exponent)
        (significand ≠ 0 && !down)

def isExponent (b : UInt8) : Prop :=
  b = byte 'e' ∨ b = byte 'E'

theorem not_endsNumber_of_isExponent (b : UInt8) (rest : Bytes) (h : isExponent b) :
    ¬ EndsNumber (b :: rest) := by
  intro hend
  obtain ⟨-, -, hlower, hupper⟩ := hend b rfl
  exact h.elim hlower hupper

theorem startsWithExponent_eq_true_iff {bytes : Bytes} :
    startsWithExponent bytes = true ↔ ∃ b ∈ bytes.head?, isExponent b := by
  cases bytes <;> simp [startsWithExponent, isExponent]

theorem startsWithExponent_eq_false {bytes : Bytes} (h : ∀ b ∈ bytes.head?, ¬ isExponent b) :
    startsWithExponent bytes = false := by
  rw [Bool.eq_false_iff, Ne, startsWithExponent_eq_true_iff]
  rintro ⟨b, hb, hexponent⟩
  exact h b hb hexponent

/-- A function that goes on with an exponent, if one comes next. -/
theorem isLocal_beforeExponent {onExponent : Bytes → Except Failure γ}
    (hf : ∀ bytes, f bytes =
      if startsWithExponent bytes then onExponent (bytes.drop 1) else g bytes)
    (hexponent : IsLocal 0 out onExponent) (hg : IsLocal 0 out g) : IsLocal 0 out f := by
  refine isLocal_peek isExponent not_endsNumber_of_isExponent ?_ hg ?_
  · intro b hb
    have hstarts (tail : Bytes) : startsWithExponent (b :: tail) = true :=
      startsWithExponent_eq_true_iff.mpr ⟨b, rfl, hb⟩
    simpa only [hf, hstarts, if_true, List.drop_succ_cons, List.drop_zero] using hexponent
  · intro bytes hbytes
    rw [hf, startsWithExponent_eq_false hbytes]
    rfl

/-- A function that goes on with a fraction, if one comes next. -/
theorem isLocal_beforeFraction {onFraction : Bytes → Except Failure γ}
    (hpoint : ∀ tail, f (byte '.' :: tail) = onFraction tail)
    (hother : ∀ bytes, (∀ b ∈ bytes.head?, b ≠ byte '.') → f bytes = g bytes)
    (hfraction : IsLocal 0 out onFraction) (hg : IsLocal 0 out g) : IsLocal 0 out f := by
  refine isLocal_peek (· = byte '.') ?_ ?_ hg hother
  · intro b rest hb hend
    exact (hend b rfl).2.1 hb
  · rintro b rfl
    simpa only [hpoint] using hfraction

theorem isLocal_beforeNoDigit {e : Bytes → Failure}
    (hf : ∀ bytes, f bytes = if startsWithDigit bytes then .error (e bytes) else g bytes)
    (hg : IsLocal 0 out g) : IsLocal 0 out f := by
  refine isLocal_peek (fun b => (digit? b).isSome = true) ?_ ?_ hg ?_
  · intro b rest hb hend
    rw [(hend b rfl).1] at hb
    nomatch hb
  · intro b hb
    simp only [hf, startsWithDigit, hb, if_true]
    exact isLocal_error _
  · intro bytes hbytes
    cases bytes with
    | nil => rw [hf]; rfl
    | cons b tail => rw [hf, startsWithDigit, if_neg (hbytes b rfl)]

theorem isLocal_readScale (negative : Bool) (significand : Nat) (power : Int) :
    IsLocal 0 Prod.mk (readScale negative significand power) :=
  isLocal_beforeExponent (fun _ => rfl) (isLocal_readExponent negative significand power)
    (isLocal_scaled negative significand power)

theorem isLocal_readFraction (negative : Bool) (significand : Nat) (power : Int) :
    IsLocal 0 Prod.mk (readFraction negative significand power) := by
  refine isLocal_digits fun digits hdigits => ?_
  obtain ⟨value, count, left, hleft, hgather⟩ :=
    exists_gatherDigits greatestSignificand significand 0 hdigits
  by_cases hnone : (decide (count = 0) && left.isEmpty) = true
  · refine ⟨fun rest => .error (if rest = [] then .here .endInValue []
      else .afterNext .invalidNumber rest), isLocal_error _, ?_⟩
    intro rest hrest
    simp only [readFraction, hgather rest hrest, startsWithDigit_append hleft hrest, Bool.not_not,
      hnone, if_true]
    rw [Bool.and_eq_true, List.isEmpty_iff] at hnone
    rw [hnone.2]
    cases rest <;> rfl
  · refine ⟨_, isLocal_readScale negative value (power - count), ?_⟩
    intro rest hrest
    simp only [readFraction, hgather rest hrest, startsWithDigit_append hleft hrest, Bool.not_not,
      hnone, passDigits_append hleft hrest]
    rfl

theorem isLocal_wholeNumber (negative : Bool) (significand : Nat) :
    IsLocal 0 Prod.mk (wholeNumber negative significand) := by
  refine (isLocal_ok _ _).ite ?_
  cases Number.ofInt? (if negative then -significand else significand) with
  | some n => exact isLocal_ok _ n
  | none => exact isLocal_scaled negative significand 0

theorem isLocal_readAfterInteger (negative : Bool) (significand extra : Nat) :
    IsLocal 0 Prod.mk (readAfterInteger negative significand extra) := by
  refine isLocal_beforeFraction (fun _ => rfl) (g := fun bytes =>
    if startsWithExponent bytes || extra ≠ 0 then readScale negative significand extra bytes
    else wholeNumber negative significand bytes) ?_
    (isLocal_readFraction negative significand extra) ?_
  · intro bytes hbytes
    cases bytes with
    | nil => by_cases hextra : extra = 0 <;> simp [readAfterInteger, startsWithExponent, hextra]
    | cons b tail => rw [readAfterInteger, if_neg (hbytes b rfl)]
  · by_cases hextra : extra = 0
    · refine isLocal_beforeExponent (fun bytes => ?_)
        (isLocal_readExponent negative significand extra) (isLocal_wholeNumber negative significand)
      cases hexponent : startsWithExponent bytes <;> simp [hexponent, hextra, readScale]
    · simpa [hextra] using isLocal_readScale negative significand extra

theorem isLocal_readUnsigned (negative : Bool) (b : UInt8) :
    IsLocal 0 Prod.mk fun tail => readUnsigned negative (b :: tail) := by
  simp only [readUnsigned]
  cases digit? b with
  | none => exact isLocal_error _
  | some first =>
      cases first with
      | zero => exact isLocal_beforeNoDigit (fun _ => rfl) (isLocal_readAfterInteger negative 0 0)
      | succ first =>
          refine isLocal_digits fun digits hdigits => ?_
          obtain ⟨significand, _, left, hleft, hgather⟩ :=
            exists_gatherDigits greatestSignificand (first + 1) 1 hdigits
          refine ⟨_, isLocal_readAfterInteger negative significand left.length, ?_⟩
          intro rest hrest
          simp only [hgather rest hrest, passDigits_append hleft hrest]

theorem isLocal_readNumber (b : UInt8) : IsLocal 0 Prod.mk fun tail => readNumber (b :: tail) := by
  have hnegative : IsLocal 0 Prod.mk (readUnsigned true) :=
    isLocal_cons (by simp [readUnsigned]) (isLocal_readUnsigned true)
  exact hnegative.ite (isLocal_readUnsigned false b)

end Token

end ClusterBlueprint.Json
