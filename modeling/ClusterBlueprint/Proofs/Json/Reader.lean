import ClusterBlueprint.Proofs.Json.Number
import ClusterBlueprint.Proofs.Json.Text
import ClusterBlueprint.Proofs.Json.Value
import Mathlib.Data.List.Forall2

/-!
Reading the texts of values. Main statement: the text of a value without floating-point numbers is
read back as the sorted form of the value (`parse_toText`), in every layout. The lemmas on arrays
and objects hold for all readers of their items and members, so that the readers of typed values
share them.
-/

namespace ClusterBlueprint.Json

variable {α σ : Type}

/-- Whether a reader, started before blanks and a text, gets a result and stops behind the text. -/
def Reads (reader : Reader α) (cs : List Char) (a : α) : Prop :=
  ∀ bytes rest, skipBlanks bytes = Utf8.encodeChars cs ++ rest → EndsNumber rest →
    reader bytes = .ok (a, rest)

theorem skipBlanks_cons {b : UInt8} (h : isBlankByte b = false) (rest : Bytes) :
    skipBlanks (b :: rest) = b :: rest := by
  simp [skipBlanks, h]

theorem skipBlanks_replicate (n : Nat) (rest : Bytes) :
    skipBlanks (Utf8.encodeChars (List.replicate n ' ') ++ rest) = skipBlanks rest := by
  induction n with
  | zero => rfl
  | succ n ih =>
      rw [List.replicate_succ, Utf8.encodeChars_cons_of_ascii (by decide), List.cons_append]
      exact ih

@[simp]
theorem skipBlanks_newline (layout : Layout) (level : Nat) (rest : Bytes) :
    skipBlanks (Utf8.encodeChars (layout.newline level) ++ rest) = skipBlanks rest := by
  cases layout with
  | compact => rfl
  | indented =>
      rw [Layout.newline, Utf8.encodeChars_cons_of_ascii (by decide), List.cons_append]
      exact skipBlanks_replicate (2 * level) rest

/-- Whether bytes begin a value: their first one is no blank and does not close an array. -/
def BeginsValue (bytes : Bytes) : Prop :=
  ∃ b rest, bytes = b :: rest ∧ isBlankByte b = false ∧ b ≠ byte ']'

theorem skipBlanks_of_beginsValue {bytes : Bytes} (h : BeginsValue bytes) :
    skipBlanks bytes = bytes := by
  obtain ⟨b, rest, rfl, hblank, -⟩ := h
  exact skipBlanks_cons hblank rest

theorem beginsValue_append {bytes : Bytes} (h : BeginsValue bytes) (rest : Bytes) :
    BeginsValue (bytes ++ rest) := by
  obtain ⟨b, tail, rfl, hb⟩ := h
  exact ⟨b, tail ++ rest, rfl, hb⟩

theorem encodeChars_renderInt (n : Int) :
    ∃ b bytes, Utf8.encodeChars (renderInt n) = b :: bytes ∧
      (b = byte '-' ∨ ∃ c, c.isDigit = true ∧ b = byte c) := by
  by_cases hn : n < 0
  · refine ⟨byte '-', Utf8.encodeChars (Nat.toDigits 10 n.natAbs), ?_, .inl rfl⟩
    rw [renderInt, if_pos hn, List.singleton_append, Utf8.encodeChars_cons_of_ascii (by decide)]
  · have hne : Nat.toDigits 10 n.natAbs ≠ [] := Nat.toDigits_ne_nil
    obtain ⟨c, cs, hcs⟩ := List.exists_cons_of_ne_nil hne
    have hc : c.isDigit = true :=
      Nat.isDigit_of_mem_toDigits (by decide) (by decide) (hcs ▸ List.mem_cons_self)
    refine ⟨byte c, Utf8.encodeChars cs, ?_, .inr ⟨c, hc, rfl⟩⟩
    rw [renderInt, if_neg hn, List.nil_append, hcs, encodeChars_digits_cons hc]

theorem byte_digit_ne {c : Char} (hc : c.isDigit = true) {b : UInt8} (hb : digit? b = none) :
    byte c ≠ b := by
  rintro rfl
  exact Option.some_ne_none _ ((digit?_of_isDigit hc).symm.trans hb)

theorem beginsValue_renderInt (n : Int) : BeginsValue (Utf8.encodeChars (renderInt n)) := by
  obtain ⟨b, bytes, hbytes, rfl | ⟨c, hc, rfl⟩⟩ := encodeChars_renderInt n
  · exact ⟨_, bytes, hbytes, by decide, by decide⟩
  · refine ⟨_, bytes, hbytes, ?_, byte_digit_ne hc (by decide)⟩
    simp only [isBlankByte, Bool.or_eq_false_iff, beq_eq_false_iff_ne]
    exact ⟨⟨⟨byte_digit_ne hc (by decide), byte_digit_ne hc (by decide)⟩,
      byte_digit_ne hc (by decide)⟩, byte_digit_ne hc (by decide)⟩

theorem beginsValue_render {v : Value} (hwhole : v.isWhole = true) (layout : Layout) (level : Nat) :
    BeginsValue (Utf8.encodeChars (v.render layout level)) := by
  have ascii {c : Char} {cs : List Char} (hc : c.toNat < 0x80)
      (hb : isBlankByte (byte c) = false ∧ byte c ≠ byte ']') :
      BeginsValue (Utf8.encodeChars (c :: cs)) :=
    ⟨_, _, Utf8.encodeChars_cons_of_ascii hc cs, hb⟩
  cases v with
  | null => exact ascii (by decide) (by decide)
  | bool b => cases b <;> exact ascii (by decide) (by decide)
  | number n =>
      cases n with
      | whole n fits => exact beginsValue_renderInt n
      | double x => simp [Value.isWhole, Value.everywhere] at hwhole
  | text s => exact ascii (by decide) (by decide)
  | array items => cases items <;> exact ascii (by decide) (by decide)
  | object members => cases members <;> exact ascii (by decide) (by decide)

theorem nextItem_close (first : Bool) {bytes rest : Bytes}
    (h : skipBlanks bytes = byte ']' :: rest) :
    nextItem first bytes = .ok (.close (byte ']' :: rest)) := by
  simp only [nextItem, h, if_true]

theorem nextItem_first {bytes : Bytes} (h : BeginsValue (skipBlanks bytes)) :
    nextItem true bytes = .ok (.more (skipBlanks bytes)) := by
  obtain ⟨b, rest, hskip, -, hclose⟩ := h
  simp only [nextItem, hskip, if_neg hclose, if_true]

theorem nextItem_comma {bytes tail : Bytes} (h : skipBlanks bytes = byte ',' :: tail)
    (htail : BeginsValue (skipBlanks tail)) :
    nextItem false bytes = .ok (.more (skipBlanks tail)) := by
  obtain ⟨b, rest, hskip, -, hclose⟩ := htail
  have hcomma : byte ',' ≠ byte ']' := by decide
  simp only [nextItem, h, hskip, if_neg hclose, if_neg hcomma, Bool.false_eq_true, if_false,
    if_true]

theorem endsNumber_newline (layout : Layout) (level : Nat) {c : Char} (hc : c.toNat < 0x80)
    (hend : ∀ rest, EndsNumber (byte c :: rest)) (rest : Bytes) :
    EndsNumber (Utf8.encodeChars (layout.newline level ++ [c]) ++ rest) := by
  cases layout with
  | compact =>
      rw [Layout.newline, List.nil_append, Utf8.encodeChars_cons_of_ascii hc]
      exact hend _
  | indented =>
      rw [Layout.newline, List.cons_append, Utf8.encodeChars_cons_of_ascii (by decide)]
      exact endsNumber_cons _ (by decide)

theorem endsNumber_renderItems (layout : Layout) (level : Nat) (items : List Value) (rest : Bytes) :
    EndsNumber (Utf8.encodeChars (Value.renderItems layout level items) ++ rest) := by
  cases items with
  | nil =>
      exact endsNumber_newline layout level (by decide)
        (fun _ => endsNumber_cons _ (by decide)) rest
  | cons item items =>
      rw [Value.renderItems, List.cons_append, List.cons_append,
        Utf8.encodeChars_cons_of_ascii (by decide)]
      exact endsNumber_cons _ (by decide)

theorem length_lt_length_renderItems (layout : Layout) (level : Nat) (items : List Value) :
    items.length < (Value.renderItems layout level items).length := by
  induction items with
  | nil => simp [Value.renderItems]
  | cons item items ih =>
      simp only [Value.renderItems, List.length_cons, List.length_append] at ih ⊢
      omega

/-- What reading an item and its value have to do with each other. -/
def ReadsItem (item : Reader α) (layout : Layout) (level : Nat) (v : Value) (a : α) : Prop :=
  v.isWhole = true ∧ Reads item (v.render layout level) a

/-- The rest of an array, from a comma or the closing bracket on. -/
theorem readItems_renderItems {item : Reader α} {layout : Layout} {level : Nat}
    {items : List Value} {as : List α}
    (hitems : List.Forall₂ (ReadsItem item layout (level + 1)) items as) {steps : Nat}
    (hsteps : items.length < steps) (rest : Bytes) :
    readItems item steps false (Utf8.encodeChars (Value.renderItems layout level items) ++ rest) =
      .ok (as, rest) := by
  induction hitems generalizing steps with
  | nil =>
      obtain ⟨steps, rfl⟩ := Nat.exists_eq_add_of_lt hsteps
      have hnext : skipBlanks (Utf8.encodeChars (Value.renderItems layout level []) ++ rest) =
          byte ']' :: rest := by
        rw [Value.renderItems, Utf8.encodeChars_append, List.append_assoc, skipBlanks_newline]
        exact skipBlanks_cons (by decide) rest
      simp only [readItems, nextItem_close false hnext, bind, Except.bind, List.drop_succ_cons,
        List.drop_zero]
  | @cons v a items as hitem hitems ih =>
      obtain ⟨hwhole, hread⟩ := hitem
      cases steps with
      | zero => exact absurd hsteps (Nat.not_lt_zero _)
      | succ steps =>
          have hskip := skipBlanks_of_beginsValue
            (beginsValue_append (beginsValue_render hwhole layout (level + 1))
              (Utf8.encodeChars (Value.renderItems layout level items) ++ rest))
          have hcomma : skipBlanks
              (Utf8.encodeChars (Value.renderItems layout level (v :: items)) ++ rest) =
              byte ',' :: (Utf8.encodeChars (layout.newline (level + 1)) ++
                (Utf8.encodeChars (v.render layout (level + 1)) ++
                  (Utf8.encodeChars (Value.renderItems layout level items) ++ rest))) := by
            rw [Value.renderItems, List.cons_append, List.cons_append,
              Utf8.encodeChars_cons_of_ascii (by decide), Utf8.encodeChars_append,
              Utf8.encodeChars_append]
            simp only [List.append_assoc, List.cons_append]
            exact skipBlanks_cons (by decide) _
          have hnext := nextItem_comma hcomma (by
            rw [skipBlanks_newline, hskip]
            exact beginsValue_append (beginsValue_render hwhole layout (level + 1)) _)
          rw [skipBlanks_newline, hskip] at hnext
          have hitem := hread _ _ hskip (endsNumber_renderItems layout level items rest)
          have hrest := ih (Nat.lt_of_succ_lt_succ hsteps)
          simp only [readItems, hnext, bind, Except.bind, hitem, hrest]

theorem readArray_render {item : Reader α} {layout : Layout} {level : Nat} {items : List Value}
    {as : List α} (hitems : List.Forall₂ (ReadsItem item layout (level + 1)) items as)
    (rest : Bytes) :
    ∃ bytes, Utf8.encodeChars ((Value.array items).render layout level) ++ rest =
        byte '[' :: bytes ∧ readArray item bytes = .ok (as, rest) := by
  cases hitems with
  | nil =>
      refine ⟨byte ']' :: rest, ?_, ?_⟩
      · rw [Value.render, Utf8.encodeChars_cons_of_ascii (by decide),
          Utf8.encodeChars_cons_of_ascii (by decide)]
        rfl
      · have hnext := nextItem_close true (skipBlanks_cons (b := byte ']') (by decide) rest)
        simp only [readArray, readItems, hnext, bind, Except.bind, Except.mapError,
          List.drop_succ_cons, List.drop_zero]
  | @cons v a items as hitem hitems =>
      obtain ⟨hwhole, hread⟩ := hitem
      refine ⟨_, by
        rw [Value.render, List.cons_append, List.cons_append,
          Utf8.encodeChars_cons_of_ascii (by decide), List.cons_append], ?_⟩
      simp only [Utf8.encodeChars_append, List.append_assoc]
      have hbegins := beginsValue_append (beginsValue_render hwhole layout (level + 1))
        (Utf8.encodeChars (Value.renderItems layout level items) ++ rest)
      have hskip := skipBlanks_of_beginsValue hbegins
      have hnext := nextItem_first (by rwa [skipBlanks_newline layout (level + 1), hskip])
      rw [skipBlanks_newline, hskip] at hnext
      have hitem := hread _ _ hskip (endsNumber_renderItems layout level items rest)
      have hrest {steps : Nat} (hsteps : _ < steps) := readItems_renderItems hitems hsteps rest
      have hlength := length_lt_length_renderItems layout level items
      have hbytes := Utf8.length_le_length_encodeChars (Value.renderItems layout level items)
      simp only [readArray, readItems, hnext, bind, Except.bind, hitem]
      -- The rest takes more bytes than it has items, so there are steps enough.
      rw [hrest (by simp only [List.length_append]; omega)]
      rfl

theorem nextKey_close (first : Bool) {bytes rest : Bytes}
    (h : skipBlanks bytes = byte '\x7d' :: rest) :
    nextKey first bytes = .ok (.close (byte '\x7d' :: rest)) := by
  simp only [nextKey, h, if_true]

theorem nextKey_first {bytes rest : Bytes} (h : skipBlanks bytes = byte '"' :: rest) :
    nextKey true bytes = .ok (.more (byte '"' :: rest)) := by
  have hclose : byte '"' ≠ byte '\x7d' := by decide
  simp only [nextKey, h, if_neg hclose, if_true]

theorem nextKey_comma {bytes tail rest : Bytes} (h : skipBlanks bytes = byte ',' :: tail)
    (htail : skipBlanks tail = byte '"' :: rest) :
    nextKey false bytes = .ok (.more (byte '"' :: rest)) := by
  have hclose : byte ',' ≠ byte '\x7d' := by decide
  simp only [nextKey, h, htail, if_neg hclose, Bool.false_eq_true, if_false, if_true]

theorem endsNumber_renderMembers (layout : Layout) (level : Nat) (members : List (String × Value))
    (rest : Bytes) :
    EndsNumber (Utf8.encodeChars (Value.renderMembers layout level members) ++ rest) := by
  cases members with
  | nil =>
      exact endsNumber_newline layout level (by decide)
        (fun _ => endsNumber_cons _ (by decide)) rest
  | cons m members =>
      rw [Value.renderMembers, List.cons_append, List.cons_append, List.cons_append,
        List.cons_append, Utf8.encodeChars_cons_of_ascii (by decide)]
      exact endsNumber_cons _ (by decide)

theorem length_lt_length_renderMembers (layout : Layout) (level : Nat)
    (members : List (String × Value)) :
    members.length < (Value.renderMembers layout level members).length := by
  induction members with
  | nil => simp [Value.renderMembers]
  | cons m members ih =>
      simp only [Value.renderMembers, List.length_cons, List.length_append] at ih ⊢
      omega

/-- Whether the members of an object, read one after the other by a reader that starts at the colon,
lead from one state to another. -/
def ReadsMembers (member : String → σ → Reader σ) (layout : Layout) (level : Nat) :
    List (String × Value) → σ → σ → Prop
  | [], s, s' => s = s'
  | (key, v) :: members, s, s' =>
      ∃ s₁, Reads (member key s) (layout.colon ++ v.render layout level) s₁ ∧
        ReadsMembers member layout level members s₁ s'

theorem skipBlanks_renderText (key : String) (rest : Bytes) :
    skipBlanks (Utf8.encodeChars (renderText key) ++ rest) =
      Utf8.encodeChars (renderText key) ++ rest := by
  rw [encodeChars_renderText, List.cons_append]
  exact skipBlanks_cons (by decide) _

theorem skipBlanks_colon (layout : Layout) (cs : List Char) (rest : Bytes) :
    skipBlanks (Utf8.encodeChars (layout.colon ++ cs) ++ rest) =
      Utf8.encodeChars (layout.colon ++ cs) ++ rest := by
  cases layout <;>
    rw [Layout.colon, List.cons_append, Utf8.encodeChars_cons_of_ascii (by decide)] <;>
    exact skipBlanks_cons (by decide) _

/-- The rest of an object, from a comma or the closing brace on. -/
theorem readMembers_renderMembers {member : String → σ → Reader σ} {layout : Layout} {level : Nat}
    {members : List (String × Value)} {s s' : σ}
    (hmembers : ReadsMembers member layout (level + 1) members s s') {steps : Nat}
    (hsteps : members.length < steps) (rest : Bytes) :
    readMembers member steps false s
      (Utf8.encodeChars (Value.renderMembers layout level members) ++ rest) = .ok (s', rest) := by
  induction members generalizing s steps with
  | nil =>
      obtain rfl : s = s' := hmembers
      obtain ⟨steps, rfl⟩ := Nat.exists_eq_add_of_lt hsteps
      have hnext : skipBlanks (Utf8.encodeChars (Value.renderMembers layout level []) ++ rest) =
          byte '\x7d' :: rest := by
        rw [Value.renderMembers, Utf8.encodeChars_append, List.append_assoc, skipBlanks_newline]
        exact skipBlanks_cons (by decide) rest
      simp only [readMembers, nextKey_close false hnext, bind, Except.bind, List.drop_succ_cons,
        List.drop_zero]
  | cons m members ih =>
      obtain ⟨key, v⟩ := m
      obtain ⟨s₁, hread, hmembers⟩ := hmembers
      cases steps with
      | zero => exact absurd hsteps (Nat.not_lt_zero _)
      | succ steps =>
          obtain ⟨bytes, hkey, htext⟩ := readText_renderText key
            (Utf8.encodeChars (layout.colon ++ v.render layout (level + 1)) ++
              (Utf8.encodeChars (Value.renderMembers layout level members) ++ rest))
          have hcomma : skipBlanks
              (Utf8.encodeChars (Value.renderMembers layout level ((key, v) :: members)) ++ rest) =
              byte ',' ::
                (Utf8.encodeChars (layout.newline (level + 1)) ++ (byte '"' :: bytes)) := by
            rw [← hkey, Value.renderMembers]
            simp only [List.cons_append,
              Utf8.encodeChars_cons_of_ascii (by decide : ','.toNat < 0x80),
              Utf8.encodeChars_append, List.append_assoc]
            exact skipBlanks_cons (by decide) _
          have hnext := nextKey_comma hcomma (by
            rw [skipBlanks_newline, ← hkey, skipBlanks_renderText, hkey])
          have hvalue := hread _ _ (skipBlanks_colon layout (v.render layout (level + 1)) _)
            (endsNumber_renderMembers layout level members rest)
          have hrest := ih hmembers (Nat.lt_of_succ_lt_succ hsteps)
          simp only [readMembers, hnext, bind, Except.bind, List.drop_succ_cons, List.drop_zero,
            htext, hvalue, hrest]

theorem readMembers_render {member : String → σ → Reader σ} {layout : Layout} {level : Nat}
    {members : List (String × Value)} {s s' : σ}
    (hmembers : ReadsMembers member layout (level + 1) members s s') (rest : Bytes) :
    ∃ bytes, Utf8.encodeChars ((Value.object members).render layout level) ++ rest =
        byte '\x7b' :: bytes ∧
      readMembers member (bytes.length + 1) true s bytes = .ok (s', rest) := by
  cases members with
  | nil =>
      obtain rfl : s = s' := hmembers
      refine ⟨byte '\x7d' :: rest, ?_, ?_⟩
      · rw [Value.render, Utf8.encodeChars_cons_of_ascii (by decide),
          Utf8.encodeChars_cons_of_ascii (by decide)]
        rfl
      · have hnext := nextKey_close true (skipBlanks_cons (b := byte '\x7d') (by decide) rest)
        simp only [readMembers, hnext, bind, Except.bind, List.drop_succ_cons, List.drop_zero]
  | cons m members =>
      obtain ⟨key, v⟩ := m
      obtain ⟨s₁, hread, hmembers⟩ := hmembers
      obtain ⟨bytes, hkey, htext⟩ := readText_renderText key
        (Utf8.encodeChars (layout.colon ++ v.render layout (level + 1)) ++
          (Utf8.encodeChars (Value.renderMembers layout level members) ++ rest))
      have hlength := length_lt_length_renderMembers layout level members
      have hbytes := Utf8.length_le_length_encodeChars (Value.renderMembers layout level members)
      have hsize := congrArg List.length hkey
      rw [encodeChars_renderText] at hsize
      simp only [List.length_append, List.length_cons] at hsize
      refine ⟨Utf8.encodeChars (layout.newline (level + 1)) ++ (byte '"' :: bytes), ?_, ?_⟩
      · rw [← hkey, Value.render]
        simp only [List.cons_append,
          Utf8.encodeChars_cons_of_ascii (by decide : '\x7b'.toNat < 0x80),
          Utf8.encodeChars_append, List.append_assoc]
      · have hquote : skipBlanks (Utf8.encodeChars (layout.newline (level + 1)) ++
            (byte '"' :: bytes)) = byte '"' :: bytes := by
          rw [skipBlanks_newline, ← hkey, skipBlanks_renderText]
        have hnext := nextKey_first hquote
        have hvalue := hread _ _ (skipBlanks_colon layout (v.render layout (level + 1)) _)
          (endsNumber_renderMembers layout level members rest)
        have hrest {steps : Nat} (hsteps : _ < steps) :=
          readMembers_renderMembers hmembers hsteps rest
        simp only [readMembers, hnext, bind, Except.bind, List.drop_succ_cons, List.drop_zero,
          htext, hvalue]
        rw [hrest (by simp only [List.length_append, List.length_cons]; omega)]

theorem readValueWith_number {array object : Reader Value} {bytes tail : Bytes} {b : UInt8}
    (hskip : skipBlanks bytes = b :: tail)
    (hb : b = byte '-' ∨ ∃ c, c.isDigit = true ∧ b = byte c) :
    readValueWith array object bytes =
      (Token.readNumber (b :: tail)).map fun (n, rest) => (.number n, rest) := by
  rcases hb with rfl | ⟨c, hc, rfl⟩
  · simp only [readValueWith, hskip]
    rfl
  · have hnumber : (decide (byte c = byte '-') || (digit? (byte c)).isSome) = true := by
      simp [digit?_of_isDigit hc]
    have hn : byte c ≠ byte 'n' := byte_digit_ne hc (by decide)
    have ht : byte c ≠ byte 't' := byte_digit_ne hc (by decide)
    have hf : byte c ≠ byte 'f' := byte_digit_ne hc (by decide)
    simp only [readValueWith, hskip, if_neg hn, if_neg ht, if_neg hf, if_pos hnumber]

theorem readValueWith_text {array object : Reader Value} {bytes tail : Bytes}
    (hskip : skipBlanks bytes = byte '"' :: tail) :
    readValueWith array object bytes =
      (Token.readText tail).map fun (s, rest) => (.text s, rest) := by
  simp only [readValueWith, hskip]
  rfl

theorem readValueWith_array {array object : Reader Value} {bytes tail : Bytes}
    (hskip : skipBlanks bytes = byte '[' :: tail) :
    readValueWith array object bytes = array (byte '[' :: tail) := by
  simp only [readValueWith, hskip]
  rfl

theorem readValueWith_object {array object : Reader Value} {bytes tail : Bytes}
    (hskip : skipBlanks bytes = byte '\x7b' :: tail) :
    readValueWith array object bytes = object (byte '\x7b' :: tail) := by
  simp only [readValueWith, hskip]
  rfl

theorem reads_scalar {array object : Reader Value} {v : Value} (hwhole : v.isWhole = true)
    (hdepth : v.depth = 0) (layout : Layout) (level : Nat) :
    Reads (readValueWith array object) (v.render layout level) v := by
  intro bytes rest hskip hrest
  cases v with
  | null =>
      rw [Value.render] at hskip
      simp only [readValueWith, hskip]
      rfl
  | bool b =>
      cases b <;> rw [Value.render] at hskip <;> simp only [readValueWith, hskip] <;> rfl
  | number n =>
      cases n with
      | whole n fits =>
          have hread := readNumber_renderInt n fits hrest
          obtain ⟨b, tail, hbytes, hb⟩ := encodeChars_renderInt n
          rw [Value.render, Number.render, hbytes] at hskip
          rw [hbytes] at hread
          rw [readValueWith_number hskip hb]
          exact congrArg (Except.map _) hread
      | double x => simp [Value.isWhole, Value.everywhere] at hwhole
  | text s =>
      obtain ⟨tail, hquote, htext⟩ := readText_renderText s rest
      rw [Value.render, hquote] at hskip
      rw [readValueWith_text hskip, htext]
      rfl
  | array items => simp [Value.depth] at hdepth
  | object members => simp [Value.depth] at hdepth

/-- What stands after a colon is read as what stands on its own. -/
theorem reads_afterColon {value : Reader α} {layout : Layout} {level : Nat} {v : Value} {a : α}
    (hvalue : Reads value (v.render layout level) a)
    (hbegins : BeginsValue (Utf8.encodeChars (v.render layout level))) {bytes rest : Bytes}
    (hskip : skipBlanks bytes =
      Utf8.encodeChars (layout.colon ++ v.render layout level) ++ rest)
    (hrest : EndsNumber rest) :
    (do
      let bytes ← readColon bytes
      value bytes) = .ok (a, rest) := by
  rw [Utf8.encodeChars_append, List.append_assoc] at hskip
  have hcolon : readColon bytes = .ok (Utf8.encodeChars layout.colon.tail ++
      (Utf8.encodeChars (v.render layout level) ++ rest)) := by
    cases layout <;> simp only [readColon, hskip] <;> rfl
  have hblank : skipBlanks (Utf8.encodeChars layout.colon.tail ++
      (Utf8.encodeChars (v.render layout level) ++ rest)) =
        Utf8.encodeChars (v.render layout level) ++ rest := by
    have hvalue := skipBlanks_of_beginsValue (beginsValue_append hbegins rest)
    cases layout <;> exact hvalue
  simp only [hcolon, bind, Except.bind, hvalue _ rest hblank hrest]

theorem reads_memberOf {value : Reader α} {layout : Layout} {level : Nat} {v : Value} {a : α}
    (hvalue : Reads value (v.render layout level) a)
    (hbegins : BeginsValue (Utf8.encodeChars (v.render layout level)))
    (put : String → α → σ → σ) (key : String) (s : σ) :
    Reads (memberOf value put key s) (layout.colon ++ v.render layout level) (put key a s) := by
  intro bytes rest hskip hrest
  have hread := reads_afterColon hvalue hbegins hskip hrest
  rw [memberOf, ← bind_assoc, hread]
  rfl

theorem readsMembers_memberOf {value : Reader α} {layout : Layout} {level : Nat}
    {members : List (String × Value)} {entries : List (String × α)}
    (h : List.Forall₂ (fun m entry => m.1 = entry.1 ∧ ReadsItem value layout level m.2 entry.2)
      members entries) (put : String → α → σ → σ) (s : σ) :
    ReadsMembers (memberOf value put) layout level members s
      (entries.foldl (fun s entry => put entry.1 entry.2 s) s) := by
  induction h generalizing s with
  | nil => rfl
  | cons hm _ ih =>
      obtain ⟨hkey, hwhole, hread⟩ := hm
      refine ⟨_, ?_, ih _⟩
      rw [hkey]
      exact reads_memberOf hread (beginsValue_render hwhole layout level) put _ s

/-- The text of a value is read back, from anywhere in a text, if there is depth enough left. -/
theorem reads_readValue {v : Value} (hwhole : v.isWhole = true) {depth : Nat}
    (hdepth : v.depth ≤ depth) (layout : Layout) (level : Nat) :
    Reads (readValue depth) (v.render layout level) v.sorted := by
  -- What is inside a value has one level of depth less and stands one level further in.
  induction v using Value.induction generalizing depth level with
  | null | bool | number | text =>
      cases depth <;> exact reads_scalar hwhole rfl layout level
  | array items ih =>
      rw [Value.isWhole_array] at hwhole
      cases depth with
      | zero => simp [Value.depth] at hdepth
      | succ depth =>
          have hitems : ∀ v ∈ items, v.depth ≤ depth :=
            Value.depthItems_le_iff.mp (Nat.le_of_succ_le_succ hdepth)
          have hread : List.Forall₂ (ReadsItem (readValue depth) layout (level + 1)) items
              (items.map Value.sorted) := by
            rw [List.forall₂_map_right_iff, List.forall₂_same]
            exact fun v hv => ⟨hwhole v hv, ih v hv (hwhole v hv) (hitems v hv) (level + 1)⟩
          intro bytes rest hskip hrest
          obtain ⟨tail, hbracket, harray⟩ := readArray_render hread rest
          rw [readValue, readValueWith_array (hskip.trans hbracket), List.drop_one, List.tail_cons,
            harray, Value.sorted_array]
          rfl
  | object members ih =>
      rw [Value.isWhole_object] at hwhole
      cases depth with
      | zero => simp [Value.depth] at hdepth
      | succ depth =>
          have hmembers : ∀ m ∈ members, m.2.depth ≤ depth :=
            Value.depthMembers_le_iff.mp (Nat.le_of_succ_le_succ hdepth)
          have hentries : List.Forall₂ (fun m entry => m.1 = entry.1 ∧
              ReadsItem (readValue depth) layout (level + 1) m.2 entry.2) members
              (Value.sortedMembers members) := by
            rw [Value.sortedMembers_eq_map, List.forall₂_map_right_iff, List.forall₂_same]
            exact fun m hm => ⟨rfl, hwhole m hm,
              ih m hm (hwhole m hm) (hmembers m hm) (level + 1)⟩
          intro bytes rest hskip hrest
          obtain ⟨tail, hbrace, hobject⟩ :=
            readMembers_render (readsMembers_memberOf hentries putMember []) rest
          rw [readValue, readValueWith_object (hskip.trans hbrace), List.drop_one, List.tail_cons,
            readObject, hobject, Value.sorted_object]
          rfl

/-- What is read from the text of a value is the whole of it. -/
theorem readWhole_eq_ok_iff {reader : Reader α} {text : Bytes} {a : α} :
    readWhole reader text = .ok a ↔ ∃ rest, reader text = .ok (a, rest) ∧ skipBlanks rest = [] := by
  rw [readWhole]
  cases reader text with
  | error e => simp
  | ok c =>
      obtain ⟨a', rest⟩ := c
      cases hrest : skipBlanks rest <;> simp [hrest]

theorem readWhole_toText {reader : Reader α} {v : Value} {layout : Layout} {a : α}
    (h : ReadsItem reader layout 0 v a) :
    readWhole reader (Utf8.encode (v.toText layout)) = .ok a := by
  obtain ⟨hwhole, hread⟩ := h
  have hskip : skipBlanks (Utf8.encode (v.toText layout)) =
      Utf8.encodeChars (v.render layout 0) ++ [] := by
    rw [Utf8.encode, Value.toText, String.toList_ofList, List.append_nil]
    exact skipBlanks_of_beginsValue (beginsValue_render hwhole layout 0)
  exact readWhole_eq_ok_iff.mpr ⟨[], hread _ [] hskip endsNumber_nil, rfl⟩

/-- The text of a value is read back as the sorted form of the value. -/
theorem parse_toText {v : Value} (hwhole : v.isWhole = true) (hdepth : v.depth ≤ greatestDepth)
    (layout : Layout) : Json.parse (Utf8.encode (v.toText layout)) = .ok v.sorted :=
  readWhole_toText ⟨hwhole, reads_readValue hwhole hdepth layout 0⟩

end ClusterBlueprint.Json
