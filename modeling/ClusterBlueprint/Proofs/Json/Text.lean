import ClusterBlueprint.Json.Printer
import ClusterBlueprint.Json.Token.Text
import ClusterBlueprint.Proofs.Text.Utf8

namespace ClusterBlueprint.Json

namespace Token

theorem hexDigit?_hexDigit : ∀ n < 16, hexDigit? (byte (hexDigit n)) = some n := by
  decide

theorem hexDigit_toNat_lt : ∀ n < 16, (hexDigit n).toNat < 0x80 := by
  decide

/-- Whether a byte inside a string stands for itself. -/
def IsPlainByte (b : UInt8) : Prop :=
  b ≠ byte '"' ∧ b ≠ byte '\\' ∧ ¬ b < 0x20

theorem gatherText_plain (bytes : Bytes) (hplain : ∀ b ∈ bytes, IsPlainByte b) (steps : Nat)
    (gathered rest : Bytes) :
    gatherText (steps + bytes.length) gathered (bytes ++ rest) =
      gatherText steps (bytes.reverse ++ gathered) rest := by
  induction bytes generalizing gathered with
  | nil => rfl
  | cons b bytes ih =>
      obtain ⟨hquote, hslash, hcontrol⟩ := hplain b (by simp)
      rw [List.length_cons, ← Nat.add_assoc, List.cons_append, gatherText, if_neg hquote,
        if_neg hslash, if_neg hcontrol, ih (fun b' hb' => hplain b' (by simp [hb']))]
      simp

theorem isPlainByte_of_mem_encodeChar {c : Char} (hquote : c ≠ '"') (hslash : c ≠ '\\')
    (hcontrol : ¬ c.toNat < 0x20) {b : UInt8} (hb : b ∈ Utf8.encodeChar c) : IsPlainByte b := by
  have hne {n : Nat} (hn : n < 0x100) (h : b.toNat ≠ n) : b ≠ UInt8.ofNat n := by
    rintro rfl
    exact h (Utf8.toNat_ofNat_of_lt hn)
  by_cases hascii : c.toNat < 0x80
  · rw [Utf8.encodeChar_of_ascii hascii, List.mem_singleton] at hb
    have hvalue : b.toNat = c.toNat := by
      rw [hb]
      exact Utf8.toNat_ofNat_of_lt (by omega)
    have hchar {d : Char} (h : c ≠ d) : c.toNat ≠ d.toNat := fun heq => h (Char.toNat_inj.mp heq)
    refine ⟨hne (by decide) (hvalue ▸ hchar hquote), hne (by decide) (hvalue ▸ hchar hslash), ?_⟩
    rw [UInt8.lt_iff_toNat_lt, hvalue]
    exact hcontrol
  · have hlarge := Utf8.le_toNat_of_mem_encodeChar (by omega) hb
    refine ⟨hne (by decide) ?_, hne (by decide) ?_, ?_⟩
    · show b.toNat ≠ 34
      omega
    · show b.toNat ≠ 92
      omega
    · rw [UInt8.lt_iff_toNat_lt]
      show ¬ b.toNat < 32
      omega

theorem readUnicodeEscape_control {c : Char} (h : c.toNat < 0x20) (rest : Bytes) :
    readUnicodeEscape (byte '0' :: byte '0' :: byte (hexDigit (c.toNat / 16)) ::
      byte (hexDigit (c.toNat % 16)) :: rest) = .ok (c, rest) := by
  have hzero : hexDigit? (byte '0') = some 0 := by decide
  have hhigh := hexDigit?_hexDigit (c.toNat / 16) (by omega)
  have hlow := hexDigit?_hexDigit (c.toNat % 16) (by omega)
  have hunit : ((0 * 16 + 0) * 16 + c.toNat / 16) * 16 + c.toNat % 16 = c.toNat := by omega
  have htrailing : isTrailingSurrogate c.toNat = false := by
    simp only [isTrailingSurrogate, Bool.and_eq_false_iff, decide_eq_false_iff_not]
    omega
  have hleading : isLeadingSurrogate c.toNat = false := by
    simp only [isLeadingSurrogate, Bool.and_eq_false_iff, decide_eq_false_iff_not]
    omega
  simp only [readUnicodeEscape, readHex, hzero, hhigh, hlow, hunit, bind, Except.bind,
    htrailing, hleading, Bool.false_eq_true, if_false, Char.ofNat_toNat]

theorem readEscape_simple {b : UInt8} {c : Char} (h : simpleEscape? b = some c) (rest : Bytes) :
    readEscape (b :: rest) = .ok (c, rest) := by
  rw [readEscape, h]

/-- A character is written as it is, or as a backslash and an escape that stands for it. -/
theorem escapeChar_cases (c : Char) :
    (escapeChar c = [c] ∧ ∀ b ∈ Utf8.encodeChar c, IsPlainByte b) ∨
      ∃ escape, escapeChar c = '\\' :: escape ∧
        ∀ rest, readEscape (Utf8.encodeChars escape ++ rest) = .ok (c, rest) := by
  have simple (d : Char) (hd : d.toNat < 0x80) (hb : simpleEscape? (byte d) = some c)
      (rest : Bytes) :
      readEscape (Utf8.encodeChars [d] ++ rest) = .ok (c, rest) := by
    rw [Utf8.encodeChars_cons_of_ascii hd]
    exact readEscape_simple hb rest
  unfold escapeChar
  split_ifs with h1 h2 h3 h4 h5 h6 h7 h8
  · exact .inr ⟨_, rfl, simple '"' (by decide) (by subst h1; decide)⟩
  · exact .inr ⟨_, rfl, simple '\\' (by decide) (by subst h2; decide)⟩
  · exact .inr ⟨_, rfl, simple 'b' (by decide) (by subst h3; decide)⟩
  · exact .inr ⟨_, rfl, simple 't' (by decide) (by subst h4; decide)⟩
  · exact .inr ⟨_, rfl, simple 'n' (by decide) (by subst h5; decide)⟩
  · exact .inr ⟨_, rfl, simple 'f' (by decide) (by subst h6; decide)⟩
  · exact .inr ⟨_, rfl, simple 'r' (by decide) (by subst h7; decide)⟩
  · refine .inr ⟨_, rfl, fun rest => ?_⟩
    have hhigh := hexDigit_toNat_lt (c.toNat / 16) (by omega)
    have hlow := hexDigit_toNat_lt (c.toNat % 16) (by omega)
    rw [Utf8.encodeChars_cons_of_ascii (by decide), Utf8.encodeChars_cons_of_ascii (by decide),
      Utf8.encodeChars_cons_of_ascii (by decide), Utf8.encodeChars_cons_of_ascii hhigh,
      Utf8.encodeChars_cons_of_ascii hlow]
    exact readUnicodeEscape_control h8 rest
  · exact .inl ⟨rfl, fun b hb => isPlainByte_of_mem_encodeChar h1 h2 h8 hb⟩

/-- One written character is gathered as the bytes of the character, in at most as many steps as it
has written bytes. -/
theorem gatherText_escapeChar (c : Char) {steps : Nat}
    (hsteps : (Utf8.encodeChars (escapeChar c)).length ≤ steps) (gathered rest : Bytes) :
    ∃ left, steps ≤ left + (Utf8.encodeChars (escapeChar c)).length ∧
      gatherText steps gathered (Utf8.encodeChars (escapeChar c) ++ rest) =
        gatherText left ((Utf8.encodeChar c).reverse ++ gathered) rest := by
  rcases escapeChar_cases c with ⟨hself, hplain⟩ | ⟨escape, hescape, hread⟩
  · have hbytes : Utf8.encodeChars (escapeChar c) = Utf8.encodeChar c := by
      rw [hself, Utf8.encodeChars_cons, Utf8.encodeChars_nil, List.append_nil]
    rw [hbytes] at hsteps ⊢
    obtain ⟨left, rfl⟩ := Nat.exists_eq_add_of_le' hsteps
    exact ⟨left, Nat.le_refl _, gatherText_plain _ hplain left gathered rest⟩
  · rw [hescape, Utf8.encodeChars_cons_of_ascii (by decide)] at hsteps ⊢
    rw [List.length_cons] at hsteps ⊢
    obtain ⟨left, rfl⟩ := Nat.exists_eq_add_of_le' (Nat.le_of_add_left_le hsteps)
    refine ⟨left, by omega, ?_⟩
    rw [List.cons_append, gatherText, if_neg (by decide), if_pos (by decide), hread]

theorem gatherText_escaped (cs : List Char) {steps : Nat}
    (hsteps : (Utf8.encodeChars (cs.flatMap escapeChar)).length < steps) (gathered rest : Bytes) :
    gatherText steps gathered (Utf8.encodeChars (cs.flatMap escapeChar) ++ byte '"' :: rest) =
      .ok (gathered.reverse ++ Utf8.encodeChars cs, rest) := by
  induction cs generalizing steps gathered with
  | nil =>
      obtain ⟨steps, rfl⟩ := Nat.exists_eq_add_of_lt hsteps
      simp [gatherText]
  | cons c cs ih =>
      rw [List.flatMap_cons, Utf8.encodeChars_append, List.length_append] at hsteps
      have hfirst : (Utf8.encodeChars (escapeChar c)).length ≤ steps := by omega
      obtain ⟨left, hleft, hc⟩ := gatherText_escapeChar c hfirst gathered
        (Utf8.encodeChars (cs.flatMap escapeChar) ++ byte '"' :: rest)
      rw [List.flatMap_cons, Utf8.encodeChars_append, List.append_assoc, hc, ih (by omega)]
      simp [Utf8.encodeChars_cons]

theorem readText_escaped (cs : List Char) (rest : Bytes) :
    readText (Utf8.encodeChars (cs.flatMap escapeChar) ++ byte '"' :: rest) =
      .ok (String.ofList cs, rest) := by
  have hsteps : (Utf8.encodeChars (cs.flatMap escapeChar)).length <
      (Utf8.encodeChars (cs.flatMap escapeChar) ++ byte '"' :: rest).length + 1 := by
    rw [List.length_append]
    omega
  have hgather := gatherText_escaped cs hsteps [] rest
  have hdecode : Utf8.decode (Utf8.encodeChars cs) = .ok (String.ofList cs) := by
    simpa [Utf8.encode] using Utf8.decode_encode (String.ofList cs)
  simp only [readText, hgather, bind, Except.bind, List.reverse_nil, List.nil_append, hdecode]

end Token

theorem encodeChars_renderText (s : String) :
    Utf8.encodeChars (renderText s) =
      byte '"' :: (Utf8.encodeChars (s.toList.flatMap escapeChar) ++ [byte '"']) := by
  rw [renderText, List.cons_append, Utf8.encodeChars_cons_of_ascii (by decide),
    Utf8.encodeChars_append, Utf8.encodeChars_cons_of_ascii (by decide) [], Utf8.encodeChars_nil]

theorem readText_renderText (s : String) (rest : Bytes) :
    ∃ bytes, Utf8.encodeChars (renderText s) ++ rest = byte '"' :: bytes ∧
      Token.readText bytes = .ok (s, rest) := by
  refine ⟨_, by rw [encodeChars_renderText, List.cons_append], ?_⟩
  rw [List.append_assoc, List.singleton_append, Token.readText_escaped, String.ofList_toList]

end ClusterBlueprint.Json
