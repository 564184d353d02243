import ClusterBlueprint.Json.Double
import ClusterBlueprint.SortedMap

namespace ClusterBlueprint.Json

def FitsWord (value : Int) : Prop :=
  -0x8000000000000000 ≤ value ∧ value < 0x10000000000000000

instance (value : Int) : Decidable (FitsWord value) :=
  inferInstanceAs (Decidable (_ ∧ _))

/-- A JSON number: a whole one that fits a word of 64 bits, or a floating-point one. -/
inductive Number where
  | whole (value : Int) (fits : FitsWord value)
  | double (value : Double)
deriving DecidableEq

def Number.ofInt? (value : Int) : Option Number :=
  if fits : FitsWord value then some (.whole value fits) else none

def Number.sameValue : Number → Number → Bool
  | .whole m _, .whole n _ => m == n
  | .double x, .double y => x.sameValue y
  | _, _ => false

/-- A JSON value. The members of an object stand in the order they were written in. -/
inductive Value where
  | null
  | bool (value : Bool)
  | number (value : Number)
  | text (value : String)
  | array (items : List Value)
  | object (members : List (String × Value))

namespace Value

instance : Inhabited Value := ⟨.null⟩

mutual

def decEq : (v w : Value) → Decidable (v = w)
  | .null, .null => isTrue rfl
  | .bool a, .bool b => decidable_of_iff (a = b) (by simp)
  | .number a, .number b => decidable_of_iff (a = b) (by simp)
  | .text a, .text b => decidable_of_iff (a = b) (by simp)
  | .array a, .array b => @decidable_of_iff _ (a = b) (by simp) (decEqItems a b)
  | .object a, .object b => @decidable_of_iff _ (a = b) (by simp) (decEqMembers a b)
  | .null, .bool _ | .null, .number _ | .null, .text _ | .null, .array _ | .null, .object _
  | .bool _, .null | .bool _, .number _ | .bool _, .text _ | .bool _, .array _ | .bool _, .object _
  | .number _, .null | .number _, .bool _ | .number _, .text _ | .number _, .array _
  | .number _, .object _
  | .text _, .null | .text _, .bool _ | .text _, .number _ | .text _, .array _ | .text _, .object _
  | .array _, .null | .array _, .bool _ | .array _, .number _ | .array _, .text _
  | .array _, .object _
  | .object _, .null | .object _, .bool _ | .object _, .number _ | .object _, .text _
  | .object _, .array _ => isFalse (by simp)

def decEqItems : (vs ws : List Value) → Decidable (vs = ws)
  | [], [] => isTrue rfl
  | [], _ :: _ | _ :: _, [] => isFalse (by simp)
  | v :: vs, w :: ws =>
      @decidable_of_iff _ (v = w ∧ vs = ws) (by simp)
        (@instDecidableAnd _ _ (decEq v w) (decEqItems vs ws))

def decEqMembers : (ms ns : List (String × Value)) → Decidable (ms = ns)
  | [], [] => isTrue rfl
  | [], _ :: _ | _ :: _, [] => isFalse (by simp)
  | (k, v) :: ms, (l, w) :: ns =>
      @decidable_of_iff _ (k = l ∧ v = w ∧ ms = ns) (by simp [and_assoc])
        (@instDecidableAnd _ _ (inferInstanceAs (Decidable (k = l)))
          (@instDecidableAnd _ _ (decEq v w) (decEqMembers ms ns)))

end

instance : DecidableEq Value := decEq

mutual

/-- Whether two values are equal, numbers compared by value and the members of objects at the same
places. -/
def sameValue : Value → Value → Bool
  | .null, .null => true
  | .bool a, .bool b => a == b
  | .number a, .number b => a.sameValue b
  | .text a, .text b => a == b
  | .array a, .array b => sameItems a b
  | .object a, .object b => sameMembers a b
  | _, _ => false

def sameItems : List Value → List Value → Bool
  | [], [] => true
  | v :: vs, w :: ws => sameValue v w && sameItems vs ws
  | _, _ => false

def sameMembers : List (String × Value) → List (String × Value) → Bool
  | [], [] => true
  | (k, v) :: ms, (l, w) :: ns => k == l && sameValue v w && sameMembers ms ns
  | _, _ => false

end

def member? (members : List (String × Value)) (key : String) : Option Value :=
  SortedMap.lookupEntry key members

end Value

end ClusterBlueprint.Json
