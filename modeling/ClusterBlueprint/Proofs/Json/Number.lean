import ClusterBlueprint.Json.Printer
import ClusterBlueprint.Json.Token.Number
import ClusterBlueprint.Proofs.Text.Utf8

namespace ClusterBlueprint.Json

/-- Whether a number is over before these bytes: neither a digit nor a fraction nor an exponent
comes next. -/
def EndsNumber (rest : Bytes) : Prop :=
  ∀ b ∈ rest.head?, digit? b = none ∧ b ≠ byte '.' ∧ b ≠ byte 'e' ∧ b ≠ byte 'E'

theorem endsNumber_nil : EndsNumber [] := by
  simp [EndsNumber]

theorem endsNumber_cons {b : UInt8} (rest : Bytes)
    (h : digit? b = none ∧ b ≠ byte '.' ∧ b ≠ byte 'e' ∧ b ≠ byte 'E') :
    EndsNumber (b :: rest) := by
  simpa [EndsNumber] using h

theorem toNat_of_isDigit {c : Char} (h : c.isDigit = true) : 48 ≤ c.toNat ∧ c.toNat ≤ 57 :=
  Char.isDigit_iff_toNat.mp h

theorem digit?_of_isDigit {c : Char} (h : c.isDigit = true) :
    digit? (byte c) = some (c.toNat - 48) := by
  have h := toNat_of_isDigit h
  have hvalue : (byte c).toNat = c.toNat := Utf8.toNat_ofNat_of_lt (by omega)
  have hrange : (byte '0' ≤ byte c && byte c ≤ byte '9') = true := by
    simp only [UInt8.le_iff_toNat_le, hvalue, Bool.and_eq_true, decide_eq_true_eq]
    exact h
  rw [digit?, if_pos hrange, hvalue]

theorem encodeChars_digits_cons {c : Char} (h : c.isDigit = true) (cs : List Char) :
    Utf8.encodeChars (c :: cs) = byte c :: Utf8.encodeChars cs := by
  have h := toNat_of_isDigit h
  exact Utf8.encodeChars_cons_of_ascii (by omega) cs

theorem eq_zero_of_head_toDigits {n : Nat} {c : Char} {cs : List Char}
    (h : Nat.toDigits 10 n = c :: cs) (hc : c = '0') : n = 0 := by
  induction n using Nat.strongRecOn generalizing cs with
  | ind n ih =>
      by_cases hn : n < 10
      · rw [Nat.toDigits_of_lt_base hn] at h
        have hall : ∀ m < 10, m.digitChar = '0' → m = 0 := by decide
        exact hall n hn ((List.cons.inj h).1.trans hc)
      · rw [Nat.toDigits_of_base_le (by decide) (by omega)] at h
        have hne : Nat.toDigits 10 (n / 10) ≠ [] := Nat.toDigits_ne_nil
        obtain ⟨d, ds, hd⟩ := List.exists_cons_of_ne_nil hne
        rw [hd, List.cons_append] at h
        have hzero := ih (n / 10) (by omega) (hd.trans (congrArg (· :: ds) (List.cons.inj h).1))
        omega

theorem le_ofDigitChars (cs : List Char) (n : Nat) : n ≤ Nat.ofDigitChars 10 cs n := by
  induction cs generalizing n with
  | nil => simp
  | cons c cs ih =>
      rw [Nat.ofDigitChars_cons]
      exact Nat.le_trans (by omega) (ih _)

namespace Token

theorem startsWithDigit_of_endsNumber {rest : Bytes} (h : EndsNumber rest) :
    startsWithDigit rest = false := by
  cases rest with
  | nil => rfl
  | cons b rest => simp [startsWithDigit, (h b (by simp)).1]

theorem startsWithExponent_of_endsNumber {rest : Bytes} (h : EndsNumber rest) :
    startsWithExponent rest = false := by
  cases rest with
  | nil => rfl
  | cons b rest =>
      obtain ⟨-, -, hlower, hupper⟩ := h b (by simp)
      simp only [startsWithExponent, hlower, hupper, decide_false, Bool.or_self]

theorem passDigits_of_endsNumber {rest : Bytes} (h : EndsNumber rest) :
    passDigits rest = (0, rest) := by
  cases rest with
  | nil => rfl
  | cons b rest => simp [passDigits, (h b (by simp)).1]

theorem gatherDigits_digits {limit : Nat} (cs : List Char) (hdigits : ∀ c ∈ cs, c.isDigit = true)
    {value : Nat} (hlimit : Nat.ofDigitChars 10 cs value ≤ limit) (count : Nat) {rest : Bytes}
    (hrest : EndsNumber rest) :
    gatherDigits limit value count (Utf8.encodeChars cs ++ rest) =
      (Nat.ofDigitChars 10 cs value, count + cs.length, rest) := by
  induction cs generalizing value count with
  | nil =>
      cases rest with
      | nil => rfl
      | cons b rest => simp [gatherDigits, (hrest b (by simp)).1]
  | cons c cs ih =>
      have hc := hdigits c (by simp)
      rw [Nat.ofDigitChars_cons] at hlimit ⊢
      have hvalue : 10 * value + (c.toNat - '0'.toNat) = value * 10 + (c.toNat - 48) := by
        rw [Nat.mul_comm]
        rfl
      rw [hvalue] at hlimit ⊢
      have hstep : value * 10 + (c.toNat - 48) ≤ limit := Nat.le_trans (le_ofDigitChars _ _) hlimit
      simp only [encodeChars_digits_cons hc, List.cons_append, gatherDigits, digit?_of_isDigit hc]
      rw [if_pos hstep, ih (fun d hd => hdigits d (by simp [hd])) hlimit, List.length_cons,
        Nat.add_assoc, Nat.add_comm 1]

theorem readAfterInteger_of_endsNumber (negative : Bool) (significand : Nat) {rest : Bytes}
    (h : EndsNumber rest) :
    readAfterInteger negative significand 0 rest = wholeNumber negative significand rest := by
  cases rest with
  | nil => simp [readAfterInteger]
  | cons b rest =>
      rw [readAfterInteger, if_neg (h b (by simp)).2.1, startsWithExponent_of_endsNumber h]
      simp

theorem readUnsigned_toDigits (negative : Bool) {n : Nat} (hn : n ≤ greatestSignificand)
    {rest : Bytes} (hrest : EndsNumber rest) :
    readUnsigned negative (Utf8.encodeChars (Nat.toDigits 10 n) ++ rest) =
      wholeNumber negative n rest := by
  have hne : Nat.toDigits 10 n ≠ [] := Nat.toDigits_ne_nil
  obtain ⟨c, cs, hcs⟩ := List.exists_cons_of_ne_nil hne
  have hdigits : ∀ d ∈ Nat.toDigits 10 n, d.isDigit = true := fun d hd =>
    Nat.isDigit_of_mem_toDigits (by decide) (by decide) hd
  have hvalue : Nat.ofDigitChars 10 (Nat.toDigits 10 n) 0 = n := Nat.ofDigitChars_ten_toDigits
  rw [hcs] at hdigits hvalue ⊢
  have hc := hdigits c (by simp)
  rw [encodeChars_digits_cons hc, List.cons_append, readUnsigned, digit?_of_isDigit hc]
  rw [Nat.ofDigitChars_cons] at hvalue
  -- A zero at the front is read on its own, so it has to be the whole number.
  cases hfirst : c.toNat - 48 with
  | zero =>
      have hzero : c = '0' := by
        have hc := toNat_of_isDigit hc
        apply Char.toNat_inj.mp
        show c.toNat = 48
        omega
      have hn0 := eq_zero_of_head_toDigits hcs hzero
      subst hn0
      obtain rfl : cs = [] := by
        rw [Nat.toDigits_zero] at hcs
        exact (List.cons.inj hcs).2.symm
      simp [startsWithDigit_of_endsNumber hrest, readAfterInteger_of_endsNumber _ _ hrest]
  | succ first =>
      have hstart : 10 * 0 + (c.toNat - '0'.toNat) = first + 1 := by
        rw [← hfirst]
        show 10 * 0 + (c.toNat - 48) = _
        omega
      rw [hstart] at hvalue
      have hlimit : Nat.ofDigitChars 10 cs (first + 1) ≤ greatestSignificand := by omega
      simp only [gatherDigits_digits cs (fun d hd => hdigits d (by simp [hd])) hlimit 1 hrest,
        passDigits_of_endsNumber hrest, readAfterInteger_of_endsNumber _ _ hrest, hvalue]

theorem wholeNumber_natAbs (n : Int) (fits : FitsWord n) (rest : Bytes) :
    wholeNumber (decide (n < 0)) n.natAbs rest = .ok (.whole n fits, rest) := by
  have hsign : (if decide (n < 0) = true then -(n.natAbs : Int) else n.natAbs) = n := by
    split <;> rename_i h <;> simp only [decide_eq_true_eq] at h <;> omega
  have hzero : (decide (n < 0) && decide (n.natAbs = 0)) = false := by
    simp only [Bool.and_eq_false_iff, decide_eq_false_iff_not]
    omega
  simp only [wholeNumber, hzero, Bool.false_eq_true, if_false, hsign, Number.ofInt?, dif_pos fits]

end Token

theorem readNumber_renderInt (n : Int) (fits : FitsWord n) {rest : Bytes}
    (hrest : EndsNumber rest) :
    Token.readNumber (Utf8.encodeChars (renderInt n) ++ rest) = .ok (.whole n fits, rest) := by
  have hlimit : n.natAbs ≤ Token.greatestSignificand := by
    obtain ⟨hlow, hhigh⟩ := fits
    simp only [Token.greatestSignificand]
    omega
  by_cases hn : n < 0
  · rw [renderInt, if_pos hn, List.singleton_append, Utf8.encodeChars_cons_of_ascii (by decide),
      List.cons_append, Token.readNumber, if_pos rfl, Token.readUnsigned_toDigits _ hlimit hrest]
    simpa [hn] using Token.wholeNumber_natAbs n fits rest
  · have hne : Nat.toDigits 10 n.natAbs ≠ [] := Nat.toDigits_ne_nil
    obtain ⟨c, cs, hcs⟩ := List.exists_cons_of_ne_nil hne
    have hc : c.isDigit = true :=
      Nat.isDigit_of_mem_toDigits (by decide) (by decide) (hcs ▸ List.mem_cons_self)
    have hread := Token.readUnsigned_toDigits false hlimit hrest
    rw [hcs, encodeChars_digits_cons hc, List.cons_append] at hread
    have hminus : byte c ≠ byte '-' := by
      intro h
      have hdigit := digit?_of_isDigit hc
      rw [h] at hdigit
      exact Option.some_ne_none _ (hdigit.symm.trans (by decide))
    rw [renderInt, if_neg hn, List.nil_append, hcs, encodeChars_digits_cons hc, List.cons_append,
      Token.readNumber, if_neg hminus, hread]
    simpa [hn] using Token.wholeNumber_natAbs n fits rest

end ClusterBlueprint.Json
