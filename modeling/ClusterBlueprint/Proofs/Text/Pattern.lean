import ClusterBlueprint.Text.Blank

namespace ClusterBlueprint.Text

inductive ClassItem where
  | char (c : Char)
  | escaped (c : Char)
  | range (low high : Char)
  | blank
deriving DecidableEq, Repr

namespace ClassItem

def has : ClassItem → Char → Bool
  | .char d, c => c == d
  | .escaped d, c => c == d
  | .range low high, c => low ≤ c && c ≤ high
  | .blank, c => isBlank c

def text : ClassItem → String
  | .char c => String.singleton c
  | .escaped c => "\\" ++ String.singleton c
  | .range low high => String.singleton low ++ "-" ++ String.singleton high
  | .blank => "\\s"

end ClassItem

inductive CharClass where
  | char (c : Char)
  | notBlank
  | within (items : List ClassItem)
  | without (items : List ClassItem)
deriving DecidableEq, Repr

namespace CharClass

def has : CharClass → Char → Bool
  | .char d, c => c == d
  | .notBlank, c => !isBlank c
  | .within items, c => items.any (·.has c)
  | .without items, c => !items.any (·.has c)

def text : CharClass → String
  | .char c => String.singleton c
  | .notBlank => "\\S"
  | .within items => "[" ++ String.join (items.map ClassItem.text) ++ "]"
  | .without items => "[^" ++ String.join (items.map ClassItem.text) ++ "]"

end CharClass

/-- How often the characters of a class follow one another. -/
inductive Times where
  | once
  | zeroOrMore
  | oneOrMore
deriving DecidableEq, Repr

namespace Times

def Allows : Times → Nat → Prop
  | .once, n => n = 1
  | .zeroOrMore, _ => True
  | .oneOrMore, n => n ≠ 0

def text : Times → String
  | .once => ""
  | .zeroOrMore => "*"
  | .oneOrMore => "+"

end Times

structure Pattern where
  parts : List (CharClass × Times)
deriving DecidableEq, Repr

namespace Pattern

/-- Whether characters fall into runs, one for each part and of the length that it allows. -/
def InParts : List (CharClass × Times) → List Char → Prop
  | [], cs => cs = []
  | (chars, times) :: parts, cs =>
      ∃ run rest, cs = run ++ rest ∧ (∀ c ∈ run, chars.has c = true) ∧ times.Allows run.length ∧
        InParts parts rest

def Matches (p : Pattern) (s : String) : Prop :=
  InParts p.parts s.toList

def text (p : Pattern) : String :=
  "^" ++ String.join (p.parts.map fun part => part.1.text ++ part.2.text) ++ "$"

theorem inParts_once {chars : CharClass} {parts : List (CharClass × Times)} {cs : List Char} :
    InParts ((chars, .once) :: parts) cs ↔
      ∃ c rest, cs = c :: rest ∧ chars.has c = true ∧ InParts parts rest := by
  constructor
  · rintro ⟨run, rest, rfl, hrun, hlength, hrest⟩
    obtain ⟨c, rfl⟩ := List.length_eq_one_iff.mp hlength
    exact ⟨c, rest, rfl, hrun c (List.mem_singleton_self c), hrest⟩
  · rintro ⟨c, rest, rfl, hc, hrest⟩
    refine ⟨[c], rest, rfl, ?_, rfl, hrest⟩
    rintro _ (_ | ⟨_, ⟨⟩⟩)
    exact hc

theorem inParts_last {chars : CharClass} {times : Times} {cs : List Char} :
    InParts [(chars, times)] cs ↔ (∀ c ∈ cs, chars.has c = true) ∧ times.Allows cs.length := by
  constructor
  · rintro ⟨run, rest, rfl, hrun, htimes, rfl⟩
    rw [List.append_nil]
    exact ⟨hrun, htimes⟩
  · rintro ⟨hcs, htimes⟩
    exact ⟨cs, [], (List.append_nil cs).symm, hcs, htimes, rfl⟩

end Pattern

end ClusterBlueprint.Text
