import ClusterBlueprint.Text.Utf8
import Mathlib.Tactic.SplitIfs

namespace ClusterBlueprint.Utf8

@[simp]
theorem encodeChars_nil : encodeChars [] = [] :=
  rfl

theorem encodeChars_cons (c : Char) (cs : List Char) :
    encodeChars (c :: cs) = encodeChar c ++ encodeChars cs := by
  simp [encodeChars]

@[simp]
theorem encodeChars_append (cs ds : List Char) :
    encodeChars (cs ++ ds) = encodeChars cs ++ encodeChars ds := by
  simp [encodeChars]

theorem encodeChar_of_ascii {c : Char} (h : c.toNat < 0x80) :
    encodeChar c = [UInt8.ofNat c.toNat] := by
  simp [encodeChar, h]

theorem encodeChars_cons_of_ascii {c : Char} (h : c.toNat < 0x80) (cs : List Char) :
    encodeChars (c :: cs) = UInt8.ofNat c.toNat :: encodeChars cs := by
  rw [encodeChars_cons, encodeChar_of_ascii h]
  rfl

theorem encodeChar_ne_nil (c : Char) : encodeChar c ≠ [] := by
  unfold encodeChar
  dsimp only
  split_ifs <;> simp

theorem length_le_length_encodeChars (cs : List Char) : cs.length ≤ (encodeChars cs).length := by
  induction cs with
  | nil => simp
  | cons c rest ih =>
      have hc := List.length_pos_iff.mpr (encodeChar_ne_nil c)
      rw [encodeChars_cons, List.length_append, List.length_cons]
      omega

theorem toNat_lt (c : Char) : c.toNat < 0x110000 := by
  rcases c.valid with hc | hc
  · exact Nat.lt_trans hc (by decide)
  · exact hc.2

/-- Outside of ASCII no byte of a character looks like an ASCII character. -/
theorem le_toNat_of_mem_encodeChar {c : Char} (h : 0x80 ≤ c.toNat) {b : UInt8}
    (hb : b ∈ encodeChar c) : 0x80 ≤ b.toNat := by
  have hmax := toNat_lt c
  have hcont (n : Nat) : 0x80 ≤ (continuation n).toNat := by
    rw [toNat_continuation]
    omega
  have hlead {n : Nat} (hlow : 0x80 ≤ n) (hhigh : n < 0x100) : 0x80 ≤ (UInt8.ofNat n).toNat := by
    rw [toNat_ofNat_of_lt hhigh]
    exact hlow
  unfold encodeChar at hb
  dsimp only at hb
  split_ifs at hb with h1 h2 h3
  · omega
  · simp only [List.mem_cons, List.not_mem_nil, or_false] at hb
    rcases hb with rfl | rfl
    · exact hlead (by omega) (by omega)
    · exact hcont _
  · simp only [List.mem_cons, List.not_mem_nil, or_false] at hb
    rcases hb with rfl | rfl | rfl
    · exact hlead (by omega) (by omega)
    · exact hcont _
    · exact hcont _
  · simp only [List.mem_cons, List.not_mem_nil, or_false] at hb
    rcases hb with rfl | rfl | rfl | rfl
    · exact hlead (by omega) (by omega)
    · exact hcont _
    · exact hcont _
    · exact hcont _

theorem ofNat_cons_lt {k m n : Nat} (hm : k + m < 0x100) (hn : k + n < 0x100) {x y : Bytes}
    (h : m < n ∨ m = n ∧ x < y) : UInt8.ofNat (k + m) :: x < UInt8.ofNat (k + n) :: y := by
  rw [List.cons_lt_cons_iff, UInt8.lt_iff_toNat_lt, ← UInt8.toNat_inj, toNat_ofNat_of_lt hm,
    toNat_ofNat_of_lt hn, Nat.add_lt_add_iff_left, Nat.add_left_cancel_iff]
  exact h

/-- Of two numbers in order the leading bits are in order, or they agree and the rest is in order.
-/
theorem continuation_cons_lt {m n : Nat} {x y : Bytes} (h : m < n ∨ m = n ∧ x < y) :
    m / 0x40 < n / 0x40 ∨ m / 0x40 = n / 0x40 ∧ continuation m :: x < continuation n :: y := by
  by_cases hlead : m / 0x40 < n / 0x40
  · exact .inl hlead
  · refine .inr ⟨by omega, ofNat_cons_lt (by omega) (by omega) ?_⟩
    rcases h with h | ⟨h, hxy⟩
    · exact .inl (by omega)
    · exact .inr ⟨by omega, hxy⟩

theorem encodeChar_append_lt {c d : Char} (h : c < d) (x y : Bytes) :
    encodeChar c ++ x < encodeChar d ++ y := by
  have hlt : c.toNat < d.toNat := UInt32.lt_iff_toNat_lt.mp (Char.lt_def.mp h)
  have hmax := toNat_lt d
  have hlead {m n : Nat} (hmn : m < n) (hn : n < 0x100) {x y : Bytes} :
      UInt8.ofNat m :: x < UInt8.ofNat n :: y := by
    have hcons := ofNat_cons_lt (k := 0) (m := m) (n := n) (x := x) (y := y) (by omega) (by omega)
      (.inl hmn)
    rwa [Nat.zero_add, Nat.zero_add] at hcons
  have htwo := continuation_cons_lt (.inl hlt) (x := x) (y := y)
  have hthree := continuation_cons_lt htwo
  have hfour := continuation_cons_lt hthree
  simp only [Nat.div_div_eq_div_mul, Nat.reduceMul] at hthree hfour
  unfold encodeChar
  dsimp only
  -- A longer character begins with a greater byte; two of one length differ in some digit.
  split_ifs with c1 d1 d2 d3 c2 d1 d2 d3 c3 d1 d2 d3 d1 d2 d3
  · exact hlead hlt (by omega)
  · exact hlead (Nat.lt_add_right _ (by omega)) (by omega)
  · exact hlead (Nat.lt_add_right _ (by omega)) (by omega)
  · exact hlead (Nat.lt_add_right _ (by omega)) (by omega)
  · exact absurd (Nat.lt_trans hlt d1) c1
  · exact ofNat_cons_lt (by omega) (by omega) htwo
  · exact hlead (Nat.lt_add_right _ (by omega)) (by omega)
  · exact hlead (Nat.lt_add_right _ (by omega)) (by omega)
  · exact absurd (Nat.lt_trans hlt d1) c1
  · exact absurd (Nat.lt_trans hlt d2) c2
  · exact ofNat_cons_lt (by omega) (by omega) hthree
  · exact hlead (Nat.lt_add_right _ (by omega)) (by omega)
  · exact absurd (Nat.lt_trans hlt d1) c1
  · exact absurd (Nat.lt_trans hlt d2) c2
  · exact absurd (Nat.lt_trans hlt d3) c3
  · exact ofNat_cons_lt (by omega) (by omega) hfour

theorem encodeChars_lt {cs ds : List Char} (h : cs < ds) : encodeChars cs < encodeChars ds := by
  induction h with
  | nil =>
      rename_i d ds
      obtain ⟨b, rest, hd⟩ := List.exists_cons_of_ne_nil (encodeChar_ne_nil d)
      rw [encodeChars_cons, hd]
      exact List.nil_lt_cons b _
  | cons _ ih =>
      rw [encodeChars_cons, encodeChars_cons]
      exact List.append_left_lt ih
  | rel h =>
      rw [encodeChars_cons, encodeChars_cons]
      exact encodeChar_append_lt h _ _

theorem encode_lt {s t : String} (h : s < t) : encode s < encode t :=
  encodeChars_lt h

end ClusterBlueprint.Utf8
