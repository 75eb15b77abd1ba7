import JsonShapes.Json.Reader

/-!
# Steps of the reader

What the reader of documents does at one place, given what it finds further on. A value shows by its
first code point that neither white space nor a closing bracket stands there, so that whoever knows
that a value can be read need not ask how it starts.
-/

namespace JsonShapes

namespace Json

/-- Words and numbers do not start like strings, arrays and objects. -/
theorem readValue_of_readScalar {s : Text} {r : Json × Text} (h : readScalar s = .ok r)
    (fuel : Nat) : readValue (fuel + 1) s = .ok r := by
  cases s with
  | nil => cases h
  | cons c t =>
      have string : c ≠ '"' := by
        rintro rfl
        cases h
      have array : c ≠ '[' := by
        rintro rfl
        cases h
      have object : c ≠ '\x7b' := by
        rintro rfl
        cases h
      rw [readValue, if_neg string, if_neg array, if_neg object, h]

/-- White space, a closing bracket and a mark of byte order: no value starts with one of them. -/
def outside : List CodePoint := [' ', '\t', '\n', '\r', ']', CodePoint.ofNat 0xFEFF]

theorem exists_eq_cons_of_readValue {fuel : Nat} {s : Text} {r : Json × Text}
    (h : readValue fuel s = .ok r) : ∃ c t, s = c :: t ∧ c ∉ outside := by
  cases fuel with
  | zero => cases h
  | succ fuel =>
      cases s with
      | nil => cases h
      | cons c t =>
          have fails : ∀ d ∈ outside,
              readValue (fuel + 1) (d :: t) = .error (.problem .value (d :: t)) := by
            simp only [outside, List.forall_mem_cons]
            exact ⟨rfl, rfl, rfl, rfl, rfl, rfl, nofun⟩
          refine ⟨c, t, rfl, fun listed => ?_⟩
          rw [fails c listed] at h
          cases h

theorem skipSpace_append {s : Text} (blank : ∀ c ∈ s, isSpace c = true) (t : Text) :
    skipSpace (s ++ t) = skipSpace t :=
  List.dropWhile_append_of_pos blank

theorem skipSpace_cons {c : CodePoint} (h : c ∉ outside) (t : Text) :
    skipSpace (c :: t) = c :: t := by
  simp only [outside, List.mem_cons, not_or] at h
  exact List.dropWhile_cons_of_neg (by simp [isSpace, h])

theorem skipSpace_of_readValue {fuel : Nat} {s : Text} {r : Json × Text}
    (h : readValue fuel s = .ok r) : skipSpace s = s := by
  obtain ⟨c, t, rfl, inside⟩ := exists_eq_cons_of_readValue h
  exact skipSpace_cons inside t

/-- A value with nothing around it is a document. -/
theorem parse_of_readValue {s : Text} {v : Json}
    (h : readValue (2 * s.length + 2) s = .ok (v, [])) : parse s = .ok v := by
  obtain ⟨c, t, rfl, inside⟩ := exists_eq_cons_of_readValue h
  have mark : c.val ≠ 0xFEFF := by
    intro same
    obtain ⟨val, isLt⟩ := c
    subst same
    exact inside (by simp [outside, CodePoint.ofNat])
  have document : readDocument (c :: t) = .ok v := by
    rw [readDocument, if_neg mark, skipSpace_of_readValue h, h]
    rfl
  rw [parse, document]

variable {fuel : Nat} {s rest after others : Text}

theorem readItems_last {item : Json} (h : readValue fuel s = .ok (item, after))
    (closes : skipSpace after = CodePoint.ofChar ']' :: rest) :
    readItems (fuel + 1) s = .ok ([item], rest) := by
  rw [readItems, h]
  simp only [closes, if_true]

theorem readItems_cons {item : Json} {items : List Json}
    (h : readValue fuel s = .ok (item, after))
    (goesOn : skipSpace after = CodePoint.ofChar ',' :: others)
    (later : readItems fuel (skipSpace others) = .ok (items, rest)) :
    readItems (fuel + 1) s = .ok (item :: items, rest) := by
  have notClosing : CodePoint.ofChar ',' ≠ ']' := by decide
  rw [readItems, h]
  simp only [goesOn, if_neg notClosing, if_true, later]

theorem exists_eq_cons_of_readItems {r : List Json × Text} (h : readItems fuel s = .ok r) :
    ∃ c t, s = c :: t ∧ c ∉ outside := by
  cases fuel with
  | zero => cases h
  | succ fuel =>
      rw [readItems] at h
      split at h
      · cases h
      · next read => exact exists_eq_cons_of_readValue read

theorem skipSpace_of_readItems {r : List Json × Text} (h : readItems fuel s = .ok r) :
    skipSpace s = s := by
  obtain ⟨c, t, rfl, inside⟩ := exists_eq_cons_of_readItems h
  exact skipSpace_cons inside t

theorem readValue_arr {items : List Json} (h : readItems fuel (skipSpace s) = .ok (items, rest)) :
    readValue (fuel + 1) (CodePoint.ofChar '[' :: s) = .ok (.arr items, rest) := by
  obtain ⟨c, t, eq, inside⟩ := exists_eq_cons_of_readItems h
  have notClosing : c ≠ ']' := by
    rintro rfl
    exact inside (by decide)
  rw [eq] at h
  rw [readValue, if_neg (by decide), if_pos rfl, eq]
  simp only [if_neg notClosing, h]

/-- A key and a value at the front of a text, with a colon between them. -/
def ReadsMember (fuel : Nat) (s key : Text) (value : Json) (after : Text) : Prop :=
  ∃ inside afterKey afterColon, s = CodePoint.ofChar '"' :: inside ∧
    readString s (inside.length + 1) inside = .ok (key, afterKey) ∧
    skipSpace afterKey = CodePoint.ofChar ':' :: afterColon ∧
    readValue fuel (skipSpace afterColon) = .ok (value, after)

variable {before : List (Text × Json)} {key : Text} {value : Json}

theorem readMembers_last (h : ReadsMember fuel s key value after)
    (closes : skipSpace after = CodePoint.ofChar '\x7d' :: rest) :
    readMembers (fuel + 1) before s = .ok (Fields.set before key value, rest) := by
  obtain ⟨inside, afterKey, afterColon, rfl, string, colon, read⟩ := h
  rw [readMembers, if_pos rfl, string]
  simp only [colon, if_true, read, closes]

theorem readMembers_cons (h : ReadsMember fuel s key value after)
    (goesOn : skipSpace after = CodePoint.ofChar ',' :: others) :
    readMembers (fuel + 1) before s =
      readMembers fuel (Fields.set before key value) (skipSpace others) := by
  have notClosing : CodePoint.ofChar ',' ≠ '\x7d' := by decide
  obtain ⟨inside, afterKey, afterColon, rfl, string, colon, read⟩ := h
  rw [readMembers, if_pos rfl, string]
  simp only [colon, if_true, read, goesOn, if_neg notClosing]

theorem exists_eq_cons_of_readMembers {r : List (Text × Json) × Text}
    (h : readMembers fuel before s = .ok r) : ∃ t, s = CodePoint.ofChar '"' :: t := by
  cases fuel with
  | zero => cases h
  | succ fuel =>
      cases s with
      | nil => cases h
      | cons c t =>
          rw [readMembers] at h
          split at h
          · next quote => exact ⟨t, by rw [quote]⟩
          · cases h

theorem skipSpace_of_readMembers {r : List (Text × Json) × Text}
    (h : readMembers fuel before s = .ok r) : skipSpace s = s := by
  obtain ⟨t, rfl⟩ := exists_eq_cons_of_readMembers h
  exact skipSpace_cons (by decide) t

theorem readValue_obj {members : List (Text × Json)}
    (h : readMembers fuel [] (skipSpace s) = .ok (members, rest)) :
    readValue (fuel + 1) (CodePoint.ofChar '\x7b' :: s) = .ok (.obj members, rest) := by
  obtain ⟨t, eq⟩ := exists_eq_cons_of_readMembers h
  have notClosing : CodePoint.ofChar '"' ≠ '\x7d' := by decide
  rw [eq] at h
  rw [readValue, if_neg (by decide), if_neg (by decide), if_pos rfl, eq]
  simp only [if_neg notClosing, h]

end Json

end JsonShapes
