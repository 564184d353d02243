namespace ClusterBlueprint

/-- A text or a document as it lies in a file or comes over a wire. -/
abbrev Bytes := List UInt8

namespace Utf8

def continuation (bits : Nat) : UInt8 :=
  UInt8.ofNat (0x80 + bits % 0x40)

def encodeChar (c : Char) : Bytes :=
  let n := c.toNat
  if n < 0x80 then [UInt8.ofNat n]
  else if n < 0x800 then [UInt8.ofNat (0xC0 + n / 0x40), continuation n]
  else if n < 0x10000 then
    [UInt8.ofNat (0xE0 + n / 0x1000), continuation (n / 0x40), continuation n]
  else
    [UInt8.ofNat (0xF0 + n / 0x40000), continuation (n / 0x1000), continuation (n / 0x40),
      continuation n]

def encodeChars (cs : List Char) : Bytes :=
  cs.flatMap encodeChar

def encode (s : String) : Bytes :=
  encodeChars s.toList

def isContinuation (b : UInt8) : Bool :=
  0x80 ≤ b.toNat && b.toNat < 0xC0

/-- The character with the given leading bits and continuation bytes, unless one of those is no
continuation byte, a shorter form exists (the code point is below `least`), or the code point
belongs to no character. -/
def assemble (least lead : Nat) (tail : Bytes) : Option Char :=
  let n := tail.foldl (fun n b => n * 0x40 + (b.toNat - 0x80)) lead
  if n.isValidChar ∧ least ≤ n ∧ tail.all isContinuation = true then some (Char.ofNat n)
  else none

def sequence? (first : UInt8) (tail : Bytes) : Option Char :=
  match tail with
  | [_] =>
      if 0xC0 ≤ first.toNat && first.toNat < 0xE0 then assemble 0x80 (first.toNat - 0xC0) tail
      else none
  | [_, _] =>
      if 0xE0 ≤ first.toNat && first.toNat < 0xF0 then assemble 0x800 (first.toNat - 0xE0) tail
      else none
  | [_, _, _] =>
      if 0xF0 ≤ first.toNat && first.toNat < 0xF8 then assemble 0x10000 (first.toNat - 0xF0) tail
      else none
  | _ => none

/-- The characters of a byte sequence, or the offset at which it stops being UTF-8. -/
def decodeFrom (offset : Nat) : Bytes → Except Nat (List Char)
  | [] => .ok []
  | a :: rest =>
      if a.toNat < 0x80 then (decodeFrom (offset + 1) rest).map (Char.ofNat a.toNat :: ·)
      else
        match rest with
        | [] => .error offset
        | b :: rest =>
            match sequence? a [b] with
            | some char => (decodeFrom (offset + 2) rest).map (char :: ·)
            | none =>
                match rest with
                | [] => .error offset
                | c :: rest =>
                    match sequence? a [b, c] with
                    | some char => (decodeFrom (offset + 3) rest).map (char :: ·)
                    | none =>
                        match rest with
                        | [] => .error offset
                        | d :: rest =>
                            match sequence? a [b, c, d] with
                            | some char => (decodeFrom (offset + 4) rest).map (char :: ·)
                            | none => .error offset

def decode (bytes : Bytes) : Except Nat String :=
  (decodeFrom 0 bytes).map String.ofList

theorem toNat_ofNat_of_lt {n : Nat} (h : n < 0x100) : (UInt8.ofNat n).toNat = n := by
  rw [UInt8.toNat_ofNat']
  exact Nat.mod_eq_of_lt h

theorem toNat_continuation (bits : Nat) : (continuation bits).toNat = 0x80 + bits % 0x40 :=
  toNat_ofNat_of_lt (by omega)

theorem isContinuation_continuation (bits : Nat) : isContinuation (continuation bits) = true := by
  simp only [isContinuation, toNat_continuation, Bool.and_eq_true, decide_eq_true_eq]
  omega

theorem assemble_eq_some {least lead : Nat} {tail : Bytes} {c : Char}
    (hvalue : tail.foldl (fun n b => n * 0x40 + (b.toNat - 0x80)) lead = c.toNat)
    (hleast : least ≤ c.toNat) (htail : ∀ b ∈ tail, isContinuation b = true) :
    assemble least lead tail = some c := by
  have hvalid : c.toNat.isValidChar := c.valid
  have hall : tail.all isContinuation = true := List.all_eq_true.mpr htail
  simp only [assemble, hvalue, Char.ofNat_toNat]
  rw [if_pos ⟨hvalid, hleast, hall⟩]

theorem decodeFrom_encodeChar_append (offset : Nat) (c : Char) (rest : Bytes) :
    decodeFrom offset (encodeChar c ++ rest) =
      (decodeFrom (offset + (encodeChar c).length) rest).map (c :: ·) := by
  have hmax : c.toNat < 0x110000 := by
    rcases c.valid with h | h
    · exact Nat.lt_trans h (by decide)
    · exact h.2
  have hcont := isContinuation_continuation
  by_cases h1 : c.toNat < 0x80
  · have hbyte := toNat_ofNat_of_lt (n := c.toNat) (by omega)
    simp only [encodeChar, h1, if_true, List.cons_append, List.nil_append]
    rw [decodeFrom.eq_def]
    simp [hbyte, h1]
  by_cases h2 : c.toNat < 0x800
  · have hlead := toNat_ofNat_of_lt (n := 0xC0 + c.toNat / 0x40) (by omega)
    have hbig : ¬ 0xC0 + c.toNat / 0x40 < 0x80 := by omega
    have hseq : sequence? (UInt8.ofNat (0xC0 + c.toNat / 0x40)) [continuation c.toNat] =
        some c := by
      have hc : 0xC0 ≤ 0xC0 + c.toNat / 0x40 ∧ 0xC0 + c.toNat / 0x40 < 0xE0 := by omega
      simp only [sequence?, hlead, hc.1, hc.2, decide_true, Bool.and_true, if_true]
      refine assemble_eq_some ?_ (by omega) (by simp [hcont])
      simp only [List.foldl_cons, List.foldl_nil, toNat_continuation]
      omega
    simp only [encodeChar, h1, h2, if_true, if_false, List.cons_append, List.nil_append]
    rw [decodeFrom.eq_def]
    simp only [hlead, hbig, if_false, hseq, List.length_cons, List.length_nil]
  by_cases h3 : c.toNat < 0x10000
  · have hlead := toNat_ofNat_of_lt (n := 0xE0 + c.toNat / 0x1000) (by omega)
    have hbig : ¬ 0xE0 + c.toNat / 0x1000 < 0x80 := by omega
    have htwo : ¬ 0xE0 + c.toNat / 0x1000 < 0xE0 := by omega
    have hskip (b : UInt8) : sequence? (UInt8.ofNat (0xE0 + c.toNat / 0x1000)) [b] = none := by
      simp only [sequence?, hlead, htwo, decide_false, Bool.and_false, Bool.false_eq_true,
        if_false]
    have hseq : sequence? (UInt8.ofNat (0xE0 + c.toNat / 0x1000))
        [continuation (c.toNat / 0x40), continuation c.toNat] = some c := by
      have hc : 0xE0 ≤ 0xE0 + c.toNat / 0x1000 ∧ 0xE0 + c.toNat / 0x1000 < 0xF0 := by omega
      simp only [sequence?, hlead, hc.1, hc.2, decide_true, Bool.and_true, if_true]
      refine assemble_eq_some ?_ (by omega) (by simp [hcont])
      simp only [List.foldl_cons, List.foldl_nil, toNat_continuation]
      omega
    simp only [encodeChar, h1, h2, h3, if_true, if_false, List.cons_append, List.nil_append]
    rw [decodeFrom.eq_def]
    simp only [hlead, hbig, if_false, hskip, hseq, List.length_cons, List.length_nil]
  · have hlead := toNat_ofNat_of_lt (n := 0xF0 + c.toNat / 0x40000) (by omega)
    have hbig : ¬ 0xF0 + c.toNat / 0x40000 < 0x80 := by omega
    have htwo : ¬ 0xF0 + c.toNat / 0x40000 < 0xE0 := by omega
    have hthree : ¬ 0xF0 + c.toNat / 0x40000 < 0xF0 := by omega
    have hskip (b : UInt8) : sequence? (UInt8.ofNat (0xF0 + c.toNat / 0x40000)) [b] = none := by
      simp only [sequence?, hlead, htwo, decide_false, Bool.and_false, Bool.false_eq_true,
        if_false]
    have hskip' (b b' : UInt8) :
        sequence? (UInt8.ofNat (0xF0 + c.toNat / 0x40000)) [b, b'] = none := by
      simp only [sequence?, hlead, hthree, decide_false, Bool.and_false, Bool.false_eq_true,
        if_false]
    have hseq : sequence? (UInt8.ofNat (0xF0 + c.toNat / 0x40000))
        [continuation (c.toNat / 0x1000), continuation (c.toNat / 0x40),
          continuation c.toNat] = some c := by
      have hc : 0xF0 ≤ 0xF0 + c.toNat / 0x40000 ∧ 0xF0 + c.toNat / 0x40000 < 0xF8 := by omega
      simp only [sequence?, hlead, hc.1, hc.2, decide_true, Bool.and_true, if_true]
      refine assemble_eq_some ?_ (by omega) (by simp [hcont])
      simp only [List.foldl_cons, List.foldl_nil, toNat_continuation]
      omega
    simp only [encodeChar, h1, h2, h3, if_false, List.cons_append, List.nil_append]
    rw [decodeFrom.eq_def]
    simp only [hlead, hbig, if_false, hskip, hskip', hseq, List.length_cons, List.length_nil]

theorem decodeFrom_encodeChars (offset : Nat) (cs : List Char) :
    decodeFrom offset (encodeChars cs) = .ok cs := by
  induction cs generalizing offset with
  | nil => rfl
  | cons c rest ih =>
      rw [encodeChars, List.flatMap_cons, decodeFrom_encodeChar_append]
      show Except.map (c :: ·) (decodeFrom _ (encodeChars rest)) = _
      rw [ih]
      rfl

theorem decode_encode (s : String) : decode (encode s) = .ok s := by
  rw [decode, encode, decodeFrom_encodeChars]
  simp [Except.map]

end Utf8

end ClusterBlueprint
