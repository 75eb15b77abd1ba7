import JsonShapes.Shape.Fault

/-!
# Records

The properties of a record type are kept in order, together with an index that gives the position of
each key. Building a record goes through the properties once, enters their keys into the index and
refuses a key that is already there. Lookups and updates go through the index; an update builds the
record anew, so that it is checked as any other.
-/

namespace JsonShapes

/-- The properties of a record type in order, and the position of each key among them. -/
structure Record where
  properties : List (Text × Shape)
  index : List (Text × Nat)
deriving DecidableEq

namespace Record

/-- The index with the keys of further properties entered, the first of which stands at the given
position. -/
def enter : List (Text × Nat) → Nat → List (Text × Shape) → Except Fault (List (Text × Nat))
  | index, _, [] => .ok index
  | index, position, (key, _) :: rest =>
    if Fields.contains index key then .error (.duplicateKey key)
    else enter (Fields.set index key position) (position + 1) rest

/-- The record with the given properties, unless a key repeats. -/
def ofFields (properties : List (Text × Shape)) : Except Fault Record :=
  match enter [] 0 properties with
  | .error fault => .error fault
  | .ok index => .ok ⟨properties, index⟩

/-- The record type as a shape, which has no need of the index. -/
def toShape (r : Record) : Shape := .object r.properties

def contains (r : Record) (key : Text) : Bool := Fields.contains r.index key

def size (r : Record) : Nat := r.properties.length

def keys (r : Record) : List Text := Fields.keys r.properties

/-- The type of a property, or `fallback` if there is none of that key. The positions of an index
are always positions of properties. -/
def get (r : Record) (key : Text) (fallback : Option Shape) : Option Shape :=
  match Fields.get? r.index key with
  | none => fallback
  | some position => r.properties[position]?.map Prod.snd

/-- The record with a property set: in its place if the key is there, at the end if not. -/
def withProperty (r : Record) (key : Text) (value : Shape) : Except Fault Record :=
  match Fields.get? r.index key with
  | none => ofFields (r.properties ++ [(key, value)])
  | some position => ofFields (r.properties.set position (key, value))

end Record

/-- The record type with the given properties, unless a key repeats. -/
def Shape.ofFields (fields : List (Text × Shape)) : Except Fault Shape :=
  (Record.ofFields fields).map Record.toShape

end JsonShapes
