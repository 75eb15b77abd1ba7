import JsonShapes.Text.Basic

/-!
# Insertion-ordered fields

The members of a JSON object and the properties of a record type are lists of keyed values. Setting
a key that is present keeps its place; a new key goes to the end. Lists built this way never repeat
a key.
-/

namespace JsonShapes

namespace Fields

variable {α : Type}

def keys (fields : List (Text × α)) : List Text := fields.map Prod.fst

def get? : List (Text × α) → Text → Option α
  | [], _ => none
  | (k, v) :: rest, key => if k = key then some v else get? rest key

def contains (fields : List (Text × α)) (key : Text) : Bool := (get? fields key).isSome

/-- The fields with `key` holding `value`: in its place if it is there, at the end if not. -/
def set : List (Text × α) → Text → α → List (Text × α)
  | [], key, value => [(key, value)]
  | (k, v) :: rest, key, value =>
    if k = key then (key, value) :: rest else (k, v) :: set rest key value

/-- The keys that are not in `seen`, each listed where it is first met. -/
def distinctAfter (seen : List Text) : List Text → List Text
  | [] => []
  | key :: rest =>
    if key ∈ seen then distinctAfter seen rest else key :: distinctAfter (key :: seen) rest

/-- The keys of several lists of fields, each listed where it is first met. -/
def union (keyLists : List (List Text)) : List Text := distinctAfter [] keyLists.flatten

@[simp] theorem get?_nil (key : Text) : get? ([] : List (Text × α)) key = none := rfl

@[simp] theorem get?_cons (k : Text) (v : α) (rest : List (Text × α)) (key : Text) :
    get? ((k, v) :: rest) key = if k = key then some v else get? rest key := rfl

theorem get?_set (fields : List (Text × α)) (key other : Text) (value : α) :
    get? (set fields key value) other = if key = other then some value else get? fields other := by
  induction fields with
  | nil => simp [set]
  | cons field rest ih =>
    obtain ⟨k, v⟩ := field
    by_cases h : k = key
    · subst h
      by_cases e : k = other <;> simp [set, e]
    · by_cases e : k = other
      · subst e
        have h' : ¬key = k := fun x => h x.symm
        simp [set, h, h']
      · simp [set, h, e, ih]

theorem keys_set (fields : List (Text × α)) (key : Text) (value : α) :
    keys (set fields key value) =
      if key ∈ keys fields then keys fields else keys fields ++ [key] := by
  induction fields with
  | nil => simp [set, keys]
  | cons field rest ih =>
    obtain ⟨k, v⟩ := field
    by_cases h : k = key
    · subst h
      simp [set, keys]
    · have h' : ¬key = k := fun x => h x.symm
      simp only [keys] at ih
      by_cases m : key ∈ rest.map Prod.fst <;> simp_all [set, keys]

theorem mem_distinctAfter {key : Text} {seen ks : List Text} :
    key ∈ distinctAfter seen ks ↔ key ∈ ks ∧ key ∉ seen := by
  induction ks generalizing seen with
  | nil => simp [distinctAfter]
  | cons k ks ih =>
    rw [distinctAfter]
    by_cases e : key = k
    · subst e
      split <;> simp_all
    · split <;> simp_all

theorem mem_union {key : Text} {keyLists : List (List Text)} :
    key ∈ union keyLists ↔ ∃ ks ∈ keyLists, key ∈ ks := by
  simp [union, mem_distinctAfter]

theorem mem_of_get?_eq_some {fields : List (Text × α)} {key : Text} {value : α}
    (h : get? fields key = some value) : (key, value) ∈ fields := by
  induction fields with
  | nil => simp at h
  | cons field rest ih =>
    obtain ⟨k, v⟩ := field
    rw [get?_cons] at h
    split at h
    · next e => simp_all
    · simp [ih h]

end Fields

end JsonShapes
