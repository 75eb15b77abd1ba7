import JsonShapes.Fields
import JsonShapes.Number.Binary64

/-!
# JSON values

Integers and doubles are told apart by how they are spelled, integers have no bounds, and doubles
include the three that are not finite. Objects keep the order of their members.
-/

namespace JsonShapes

inductive Json where
  | null
  | bool (b : Bool)
  | int (n : Int)
  | double (x : Binary64)
  | str (s : Text)
  | arr (items : List Json)
  | obj (members : List (Text × Json))

namespace Json

/-- The members of an object. -/
def members? : Json → Option (List (Text × Json))
  | .obj members => some members
  | _ => none

/-- The member of an object with the given key. -/
def get? (j : Json) (key : Text) : Option Json := j.members?.bind (Fields.get? · key)

instance : Inhabited Json := ⟨.null⟩

mutual

/-- Whether two values are the same, order of members included. -/
def same : Json → Json → Bool
  | .null, .null => true
  | .bool a, .bool b => a == b
  | .int a, .int b => a == b
  | .double a, .double b => a == b
  | .str a, .str b => a == b
  | .arr a, .arr b => sameAll a b
  | .obj a, .obj b => sameMembers a b
  | _, _ => false

def sameAll : List Json → List Json → Bool
  | [], [] => true
  | a :: as, b :: bs => same a b && sameAll as bs
  | _, _ => false

def sameMembers : List (Text × Json) → List (Text × Json) → Bool
  | [], [] => true
  | (k, a) :: as, (l, b) :: bs => k == l && same a b && sameMembers as bs
  | _, _ => false

end

mutual

theorem same_iff : ∀ a b : Json, same a b = true ↔ a = b
  | .null, b => by cases b <;> simp [same]
  | .bool _, b => by cases b <;> simp [same]
  | .int _, b => by cases b <;> simp [same]
  | .double _, b => by cases b <;> simp [same]
  | .str _, b => by cases b <;> simp [same]
  | .arr a, b => by
    cases b <;> simp [same]
    exact sameAll_iff a _
  | .obj a, b => by
    cases b <;> simp [same]
    exact sameMembers_iff a _

theorem sameAll_iff : ∀ a b : List Json, sameAll a b = true ↔ a = b
  | [], b => by cases b <;> simp [sameAll]
  | a :: as, [] => by simp [sameAll]
  | a :: as, b :: bs => by
    simp only [sameAll, Bool.and_eq_true, List.cons.injEq, same_iff a b, sameAll_iff as bs]

theorem sameMembers_iff : ∀ a b : List (Text × Json), sameMembers a b = true ↔ a = b
  | [], b => by cases b <;> simp [sameMembers]
  | (k, a) :: as, [] => by simp [sameMembers]
  | (k, a) :: as, (l, b) :: bs => by
    simp only [sameMembers, Bool.and_eq_true, beq_iff_eq, List.cons.injEq, Prod.mk.injEq,
      same_iff a b, sameMembers_iff as bs]

end

instance : DecidableEq Json := fun a b => decidable_of_iff _ (same_iff a b)

end Json

end JsonShapes
