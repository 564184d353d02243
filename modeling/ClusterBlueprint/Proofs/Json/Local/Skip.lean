import ClusterBlueprint.Json.Skip
import ClusterBlueprint.Proofs.Json.Local.Reader

namespace ClusterBlueprint.Json.Skip

theorem isLocal_passDigits : IsLocal 0 restOnly fun bytes => .ok (Token.passDigits bytes).2 := by
  refine Token.isLocal_digits fun digits hdigits => ⟨_, isLocal_ok restOnly (), ?_⟩
  intro rest hrest
  rw [Token.passDigits_append hdigits hrest]

theorem isLocal_exponent : IsLocal 0 restOnly exponent := by
  refine Token.isLocal_afterSign (fun bytes down h => by simp [exponent, h])
    (fun bytes down b rest h => by simp only [exponent, h]; exact rfl) ?_
  intro _ b
  cases digit? b with
  | none => exact isLocal_error _
  | some _ => exact isLocal_passDigits

theorem isLocal_scale : IsLocal 0 restOnly scale :=
  Token.isLocal_beforeExponent (fun _ => rfl) isLocal_exponent (isLocal_ok _ ())

theorem isLocal_fraction :
    IsLocal 0 restOnly fun bytes =>
      if startsWithDigit bytes then scale (Token.passDigits bytes).2
      else .error (.afterNext .invalidNumber bytes) := by
  refine Token.isLocal_digits fun digits hdigits => ?_
  cases digits with
  | nil =>
      refine ⟨_, isLocal_error fun rest => .afterNext .invalidNumber rest, ?_⟩
      intro rest hrest
      rw [List.nil_append, hrest]
      rfl
  | cons b digits =>
      refine ⟨_, isLocal_scale, ?_⟩
      intro rest hrest
      rw [Token.startsWithDigit_append hdigits hrest, Token.passDigits_append hdigits hrest]
      rfl

theorem isLocal_afterInteger : IsLocal 0 restOnly afterInteger := by
  refine Token.isLocal_beforeFraction (fun _ => rfl) ?_ isLocal_fraction isLocal_scale
  intro bytes hbytes
  cases bytes with
  | nil => rfl
  | cons b tail => rw [afterInteger, if_neg (hbytes b rfl)]

theorem isLocal_unsigned (b : UInt8) : IsLocal 0 restOnly fun tail => unsigned (b :: tail) := by
  simp only [unsigned]
  cases digit? b with
  | none => exact isLocal_error _
  | some first =>
      cases first with
      | zero => exact Token.isLocal_beforeNoDigit (fun _ => rfl) isLocal_afterInteger
      | succ first => exact isLocal_passDigits.bind fun _ => isLocal_afterInteger

theorem isLocal_escape : IsLocal 0 restOnly escape := by
  refine isLocal_cons nofun fun b => (isLocal_ok _ ()).ite (.ite ?_ (isLocal_error _))
  exact Token.isLocal_readHex.map (k := fun _ => ()) fun _ _ => rfl

theorem takesIn_text {steps : Nat} {bytes rest : Bytes} (h : text steps bytes = .ok rest) :
    TakesIn text (restOnly ()) bytes rest := by
  induction steps generalizing bytes with
  | zero => nomatch h
  | succ steps ih =>
      cases bytes with
      | nil => nomatch h
      | cons b tail =>
          rw [text.eq_def] at h
          dsimp only at h
          split at h
          next hquote =>
            cases h
            refine TakesIn.cons ?_
            simpa only [text, if_pos hquote] using takesIn_nothing (restOnly ()) rest
          next hquote =>
          split at h
          next hescape =>
            cases hc : escape tail with
            | error e =>
                rw [hc] at h
                nomatch h
            | ok mid =>
                obtain ⟨_, mid, rfl, htakes⟩ := isLocal_escape tail mid hc
                rw [hc] at h
                refine TakesIn.cons (htakes.bindIn ?_ (ih h))
                intro steps bytes
                simp only [text, if_neg hquote, if_pos hescape]
                cases escape bytes <;> rfl
          next hescape =>
            split at h
            next => nomatch h
            next hcontrol =>
              refine TakesIn.cons ?_
              simpa only [text, if_neg hquote, if_neg hescape, if_neg hcontrol] using ih h

theorem isLocal_text : IsLocal 0 restOnly fun bytes => text (bytes.length + 1) bytes :=
  fun _ rest h => ⟨(), rest, rfl, (takesIn_text h).takes⟩

theorem isLocal_entry_object : IsLocal 1 restOnly (entry .object) := by
  refine isLocal_afterBlanks (fun _ => rfl) fun b => ?_
  exact (isLocal_text.bind fun _ => isLocal_readColon.weaken).ite (isLocal_error _)

theorem isLocal_entry (frame : Frame) : IsLocal 0 restOnly (entry frame) := by
  cases frame with
  | array => exact isLocal_ok restOnly ()
  | object => exact isLocal_entry_object.weaken

/-- What is left to do, by the frames that are still open and the rest. -/
def Pending.before : Option (List Frame) → Bytes → Pending
  | none, rest => .done rest
  | some frames, rest => .value frames rest

theorem isLocal_afterValue (frames : List Frame) :
    IsLocal 0 Pending.before (afterValue frames) := by
  induction frames with
  | nil => exact isLocal_ok Pending.before none
  | cons frame frames ih =>
      refine (isLocal_afterBlanks (fun _ => rfl) fun b => ?_).weaken
      refine IsLocal.ite ?_ (ih.ite (isLocal_error _))
      exact (isLocal_entry frame).map (k := fun _ => some (frame :: frames)) fun _ _ => rfl

theorem isLocal_enter_object (frames : List Frame) :
    IsLocal 1 Pending.before (enter .object frames) := by
  refine isLocal_afterBlanks (fun _ => rfl) fun b => (isLocal_afterValue frames).ite ?_
  exact (isLocal_entry_object.uncons b).map (k := fun _ => some (.object :: frames)) fun _ _ => rfl

theorem isLocal_valueStart (frames : List Frame) {b : UInt8} (hb : b ≠ byte '[')
    (hskip : ∀ tail, skipBlanks (b :: tail) = b :: tail) :
    IsLocal 0 Pending.before fun tail => valueStart frames (b :: tail) := by
  have hafter {f : Bytes → Except Failure Bytes} (hf : IsLocal 0 restOnly f) :
      IsLocal 0 Pending.before fun bytes => f bytes >>= afterValue frames :=
    hf.bind fun _ => isLocal_afterValue frames
  simp only [valueStart, hskip, if_neg hb]
  refine (hafter (isLocal_readWord _)).ite ((hafter (isLocal_readWord _)).ite
    ((hafter (isLocal_readWord _)).ite ?_))
  refine (hafter (isLocal_cons (by simp [unsigned]) isLocal_unsigned)).ite
    ((hafter (isLocal_unsigned b)).ite ?_)
  exact (hafter isLocal_text).ite ((isLocal_enter_object frames).weaken.ite (isLocal_error _))

/-- Passes over what is left to do. -/
def Pending.values (steps : Nat) : Pending → Except Failure Bytes
  | .done rest => .ok rest
  | .value frames rest => Skip.values steps frames rest

theorem values_succ (steps : Nat) (frames : List Frame) (bytes : Bytes) :
    values (steps + 1) frames bytes = valueStart frames bytes >>= Pending.values steps := by
  rw [values]
  cases valueStart frames bytes with
  | error e => rfl
  | ok pending => cases pending <;> rfl

theorem values_congr (frames : List Frame) (steps : Nat) {bytes bytes' : Bytes}
    (h : skipBlanks bytes = skipBlanks bytes') :
    values steps frames bytes = values steps frames bytes' := by
  cases steps with
  | zero => rfl
  | succ steps => rw [values, values, valueStart, valueStart, h]

theorem takesIn_pending {a : Option (List Frame)} {steps : Nat} {mid rest : Bytes}
    (hvalues : ∀ {frames bytes}, values steps frames bytes = .ok rest →
      TakesIn (fun steps => values steps frames) (restOnly ()) bytes rest)
    (h : Pending.values steps (Pending.before a mid) = .ok rest) :
    TakesIn (fun steps mid => Pending.values steps (Pending.before a mid)) (restOnly ()) mid
      rest := by
  cases a with
  | none =>
      cases h
      exact takesIn_nothing (restOnly ()) mid
  | some frames => exact hvalues h

/-- The next byte after the opening bracket of an array is looked at, and is passed over only if it
is the closing one. -/
theorem takesIn_array {steps : Nat} {frames : List Frame} {tail rest : Bytes}
    (hvalues : ∀ {frames bytes}, values steps frames bytes = .ok rest →
      TakesIn (fun steps => values steps frames) (restOnly ()) bytes rest)
    (h : values (steps + 1) frames (byte '[' :: tail) = .ok rest) :
    TakesIn (fun steps tail => values (steps + 1) frames (byte '[' :: tail)) (restOnly ()) tail
      rest := by
  have hstart (steps : Nat) (tail : Bytes) : values (steps + 1) frames (byte '[' :: tail) =
      enter .array frames tail >>= Pending.values steps :=
    values_succ steps frames _
  simp only [hstart] at h ⊢
  refine TakesIn.afterBlanks (fun steps _ _ h => by rw [enter, enter, h]) ?_
  obtain ⟨pending, henter, hgo⟩ := Result.bind_eq_ok h
  rw [enter] at henter
  cases hskip : skipBlanks tail with
  | nil =>
      rw [hskip] at henter
      nomatch henter
  | cons b tail =>
      have hb := skipBlanks_cons_of_skipBlanks hskip
      rw [hskip] at henter
      by_cases hclose : b = Frame.array.closing
      · simp only [if_pos hclose] at henter
        obtain ⟨a, mid, rfl, htakes⟩ := isLocal_afterValue frames tail pending henter
        refine TakesIn.cons (htakes.bindIn ?_ (takesIn_pending hvalues hgo).more)
        intro steps bytes
        simp only [enter, hb, if_pos hclose, Nat.add_zero]
      · simp only [if_neg hclose] at henter
        cases henter
        refine TakesIn.of_cons (hvalues hgo) (fun steps c hc => ?_) fun steps bytes => ?_
        · cases steps <;> nomatch hc
        · simp only [enter, hb, if_neg hclose]
          rfl

theorem takesIn_values {steps : Nat} {frames : List Frame} {bytes rest : Bytes}
    (h : values steps frames bytes = .ok rest) :
    TakesIn (fun steps => values steps frames) (restOnly ()) bytes rest := by
  induction steps generalizing frames bytes with
  | zero => nomatch h
  | succ steps ih =>
      refine TakesIn.afterBlanks (values_congr frames) ?_
      cases hskip : skipBlanks bytes with
      | nil =>
          rw [values, valueStart, hskip] at h
          nomatch h
      | cons b tail =>
          have hb := skipBlanks_cons_of_skipBlanks hskip
          rw [values_congr frames _ (hskip.trans (hb tail).symm)] at h
          refine TakesIn.cons ?_
          by_cases harray : b = byte '['
          · subst harray
            exact takesIn_array ih h
          · rw [values_succ] at h
            obtain ⟨pending, hstart, hgo⟩ := Result.bind_eq_ok h
            obtain ⟨a, mid, rfl, htakes⟩ := isLocal_valueStart frames harray hb tail pending hstart
            exact htakes.bindIn (fun steps _ => values_succ steps frames _) (takesIn_pending ih hgo)

theorem isLocal_value : IsLocal 0 restOnly value :=
  fun _ rest h => ⟨(), rest, rfl, (takesIn_values h).takes⟩

end ClusterBlueprint.Json.Skip
