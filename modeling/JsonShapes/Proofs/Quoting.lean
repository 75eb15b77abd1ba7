import JsonShapes.Proofs.Reader
import JsonShapes.Proofs.Spelling

/-!
# String literals of the emitted languages

A string literal of an emitted expression is a spelling as well: what must be escaped is escaped,
surrogates are given by number, and every other code point stands for itself. So a literal reads as
the text that it was made of, except that a split pair is joined.
-/

namespace JsonShapes

namespace Text

/-- Joining pairs changes every text that holds a split one. -/
theorem unsplit_of_joined_eq {t : Text} (h : t.joined = t) : t.Unsplit := by
  fun_induction joined t with
  | case1 high low rest pair ih =>
      rw [Bool.and_eq_true] at pair
      have large := CodePoint.le_val_ofPair pair.1 pair.2
      have isHigh := pair.1
      simp only [CodePoint.isHighSurrogate, Bool.and_eq_true, decide_eq_true_eq] at isHigh
      rw [(List.cons.inj h).1] at large
      omega
  | case2 high low rest apart ih =>
      rw [Bool.and_eq_true] at apart
      exact ⟨apart, ih (List.cons.inj h).2⟩
  | case3 t short =>
      cases t with
      | nil => trivial
      | cons c t =>
          cases t with
          | nil => trivial
          | cons d t => exact absurd rfl (short c d t)

theorem escapeSurrogates_eq_self {t : Text} (h : ∀ c ∈ t, c.isSurrogate = false) :
    t.escapeSurrogates = t := by
  induction t with
  | nil => rfl
  | cons c t ih =>
      rw [List.forall_mem_cons] at h
      rw [escapeSurrogates, List.flatMap_cons, if_neg (by simp [h.1])]
      exact congrArg (c :: ·) (ih h.2)

theorem escapeSurrogates_append (s t : Text) :
    (s ++ t).escapeSurrogates = s.escapeSurrogates ++ t.escapeSurrogates :=
  List.flatMap_append

end Text

namespace CodePoint

theorem val_hexDigit {n : Nat} (h : n < 16) :
    0x30 ≤ (hexDigit n).val ∧ (hexDigit n).val ≤ 0x66 ∧ (hexDigit n).val ≠ 0x5C := by
  unfold hexDigit
  split
  · rw [val_ofNat (by omega)]
    omega
  · rw [val_ofNat (by omega)]
    omega

theorem isSurrogate_eq_false {c : CodePoint} (h : c.val < 0xD800) : c.isSurrogate = false := by
  simp [isSurrogate, Nat.not_le.mpr h]

theorem isSurrogate_of_large {c : CodePoint} (h : 0x10000 ≤ c.val) : c.isSurrogate = false := by
  simp only [isSurrogate, Bool.and_eq_false_iff, decide_eq_false_iff_not]
  omega

end CodePoint

/-- Hexadecimal digits are neither quotes nor backslashes. -/
theorem Text.val_of_mem_hex {width n : Nat} {c : CodePoint} (h : c ∈ hex width n) :
    0x30 ≤ c.val ∧ c.val ≤ 0x66 ∧ c.val ≠ 0x5C := by
  induction width generalizing n with
  | zero => cases h
  | succ width ih =>
      rw [hex, List.mem_append, List.mem_singleton] at h
      rcases h with h | rfl
      · exact ih h
      · exact CodePoint.val_hexDigit (Nat.mod_lt n (by decide))

namespace Json

/-- What may stand behind a backslash, other than the letter that announces a number. -/
def escapable : List CodePoint := ['"', '\\', '/', 'b', 'f', 'n', 'r', 't']

theorem mem_escapable {e c : CodePoint} (h : shortEscape? e = some c) : e ∈ escapable := by
  by_contra other
  simp only [escapable, List.mem_cons, List.not_mem_nil, or_false, not_or] at other
  simp [shortEscape?, other] at h

theorem val_of_shortEscape? {e c : CodePoint} (h : shortEscape? e = some c) :
    0x22 ≤ e.val ∧ e.val ≤ 0x74 := by
  have range : ∀ e ∈ escapable, 0x22 ≤ e.val ∧ e.val ≤ 0x74 := by decide
  exact range e (mem_escapable h)

end Json

namespace Quoted

theorem isSurrogate_of_mem_unicodeEscape {n : Nat} {d : CodePoint} (h : d ∈ unicodeEscape n) :
    d.isSurrogate = false := by
  rw [unicodeEscape, List.mem_cons, List.mem_cons] at h
  rcases h with rfl | rfl | h
  · decide
  · decide
  · have range := Text.val_of_mem_hex h
    exact CodePoint.isSurrogate_eq_false (by omega)

/-- The spelling of a code point holds no surrogates but the code point itself. -/
theorem Escaped.isSurrogate_eq_false {c : CodePoint} {text : Text} (h : Escaped c text)
    (notSurrogate : c.isSurrogate = false) {d : CodePoint} (listed : d ∈ text) :
    d.isSurrogate = false := by
  cases h with
  | itself printable quote backslash =>
      rw [List.mem_singleton.mp listed]
      exact notSurrogate
  | short notNumber short =>
      rw [List.mem_cons, List.mem_singleton] at listed
      rcases listed with rfl | rfl
      · decide
      · have range := Json.val_of_shortEscape? short
        exact CodePoint.isSurrogate_eq_false (by omega)
  | number bound => exact isSurrogate_of_mem_unicodeEscape listed
  | pair bound =>
      rcases List.mem_append.mp listed with listed | listed
      · exact isSurrogate_of_mem_unicodeEscape listed
      · exact isSurrogate_of_mem_unicodeEscape listed

theorem Escaped.ne_nil {c : CodePoint} {text : Text} (h : Escaped c text) : text ≠ [] := by
  cases h <;> simp [unicodeEscape]

variable {spell : CodePoint → Text}

theorem IsSpelling.length_le (h : IsSpelling spell) (t : Text) :
    t.length ≤ (t.flatMap spell).length := by
  induction t with
  | nil => exact Nat.zero_le _
  | cons c t ih =>
      have positive := List.length_pos_iff.mpr (h.escaped c).ne_nil
      rw [List.flatMap_cons, List.length_append, List.length_cons]
      omega

/-- The reader has fuel for the whole inside of a string. -/
theorem IsSpelling.readString_inside (h : IsSpelling spell) (opening rest t : Text) :
    Json.readString opening ((t.flatMap spell ++ CodePoint.ofChar '"' :: rest).length + 1)
      (t.flatMap spell ++ CodePoint.ofChar '"' :: rest) = .ok (t.joined, rest) := by
  apply h.readString
  have := h.length_le t
  rw [List.length_append]
  omega

theorem IsSpelling.readValue (h : IsSpelling spell) (t rest : Text) (fuel : Nat) :
    Json.readValue (fuel + 1)
      (CodePoint.ofChar '"' :: (t.flatMap spell ++ CodePoint.ofChar '"' :: rest)) =
        .ok (.str t.joined, rest) := by
  rw [Json.readValue, if_pos rfl, h.readString_inside]

/-- One code point of a string literal of the emitted languages. -/
def spellPlain (c : CodePoint) : Text := (escape .plain c).escapeSurrogates

theorem spellPlain_of_surrogate {c : CodePoint} (h : c.isSurrogate = true) :
    spellPlain c = unicodeEscape c.val := by
  have range : 0xD800 ≤ c.val := by
    simp only [CodePoint.isSurrogate, Bool.and_eq_true, decide_eq_true_eq] at h
    exact h.1
  rw [spellPlain, escape_of_le .plain (by omega)]
  simp [Text.escapeSurrogates, h, unicodeEscape]

theorem isSpelling_spellPlain : IsSpelling spellPlain := by
  refine ⟨fun c => ?_, fun c => spellPlain_of_surrogate⟩
  cases surrogate : c.isSurrogate with
  | true =>
      rw [spellPlain_of_surrogate surrogate]
      simp only [CodePoint.isSurrogate, Bool.and_eq_true, decide_eq_true_eq] at surrogate
      exact .number (by omega)
  | false =>
      have escaped := escaped_escape .plain c
      rw [spellPlain, Text.escapeSurrogates_eq_self fun d hd =>
        escaped.isSurrogate_eq_false surrogate hd]
      exact escaped

theorem quote_eq (t : Text) :
    t.quote = CodePoint.ofChar '"' :: (t.flatMap spellPlain ++ [CodePoint.ofChar '"']) := by
  have inside : Text.escapeSurrogates (t.flatMap (escape .plain)) = t.flatMap spellPlain :=
    List.flatMap_assoc
  have outside : Text.escapeSurrogates "\"" = [CodePoint.ofChar '"'] := by decide +kernel
  rw [Text.quote, write, Text.escapeSurrogates_append, Text.escapeSurrogates_append, inside,
    outside]
  rfl

/-- The forms that the spelling of a code point takes in a literal. There is no pair of escapes:
beyond the first plane every code point stands for itself. -/
inductive Plain (c : CodePoint) : Text → Prop
  | itself (notQuote : c ≠ '"') (notBackslash : c ≠ '\\') : Plain c [c]
  | short {e : CodePoint} (notNumber : e ≠ 'u') (h : Json.shortEscape? e = some c) :
      Plain c [CodePoint.ofChar '\\', e]
  | number (h : c.val < 0x10000) : Plain c (unicodeEscape c.val)

theorem plain_spellPlain (c : CodePoint) : Plain c (spellPlain c) := by
  have itself : c.val ≠ 0x22 → c.val ≠ 0x5C → Plain c [c] := fun quote backslash =>
    .itself (fun same => quote (CodePoint.eq_ofChar_iff.1 same))
      fun same => backslash (CodePoint.eq_ofChar_iff.1 same)
  rcases Nat.lt_or_ge c.val 0x10000 with small | large
  · have view := isSpelling_spellPlain.escaped c
    generalize spellPlain c = text at view
    cases view with
    | itself printable quote backslash => exact itself quote backslash
    | short notNumber short => exact .short notNumber short
    | number bound => exact .number bound
    | pair bound => omega
  · have notSurrogate := CodePoint.isSurrogate_of_large large
    have form : spellPlain c = [c] := by
      rw [spellPlain, escape_of_le .plain (by omega)]
      simp [Text.escapeSurrogates, notSurrogate]
    rw [form]
    exact itself (by omega) (by omega)

/-- The spelling of a code point shows where it ends, whatever follows. -/
theorem Plain.append_inj {c d : CodePoint} {a b s t : Text} (hc : Plain c a) (hd : Plain d b)
    (h : a ++ s = b ++ t) : c = d ∧ s = t := by
  cases hc with
  | itself notQuote notBackslash =>
      cases hd with
      | itself notQuote' notBackslash' => exact List.cons.inj h
      | short notNumber short => exact absurd (List.cons.inj h).1 notBackslash
      | number bound => exact absurd (List.cons.inj h).1 notBackslash
  | short notNumber short =>
      cases hd with
      | itself notQuote notBackslash => exact absurd (List.cons.inj h).1.symm notBackslash
      | short notNumber' short' =>
          obtain ⟨same, rest⟩ := List.cons.inj (List.cons.inj h).2
          rw [same, short'] at short
          exact ⟨(Option.some.inj short).symm, rest⟩
      | number bound => exact absurd (List.cons.inj (List.cons.inj h).2).1 notNumber
  | number bound =>
      cases hd with
      | itself notQuote notBackslash => exact absurd (List.cons.inj h).1.symm notBackslash
      | short notNumber short => exact absurd (List.cons.inj (List.cons.inj h).2).1.symm notNumber
      | number bound' =>
          have digits : Text.hex 4 c.val ++ s = Text.hex 4 d.val ++ t :=
            (List.cons.inj (List.cons.inj h).2).2
          obtain ⟨same, rest⟩ := List.append_inj digits rfl
          have numbers := Json.hex4?_hex bound '"' []
          rw [same, Json.hex4?_hex bound' '"' []] at numbers
          have number : d.val = c.val := congrArg Prod.fst (Option.some.inj numbers)
          exact ⟨CodePoint.eq_of_val_eq number.symm, rest⟩

/-- No spelling of a code point starts like the end of a literal. -/
theorem Plain.append_ne {c : CodePoint} {a : Text} (h : Plain c a) (s rest : Text) :
    a ++ s ≠ CodePoint.ofChar '"' :: rest := by
  have backslash : CodePoint.ofChar '\\' ≠ CodePoint.ofChar '"' := by decide
  intro same
  cases h with
  | itself notQuote notBackslash => exact notQuote (List.cons.inj same).1
  | short notNumber short => exact backslash (List.cons.inj same).1
  | number bound => exact backslash (List.cons.inj same).1

theorem flatMap_spellPlain_inj {s t rest after : Text}
    (h : s.flatMap spellPlain ++ CodePoint.ofChar '"' :: rest =
      t.flatMap spellPlain ++ CodePoint.ofChar '"' :: after) : s = t ∧ rest = after := by
  induction s generalizing t with
  | nil =>
      cases t with
      | nil => exact ⟨rfl, (List.cons.inj h).2⟩
      | cons d t =>
          rw [List.flatMap_cons, List.append_assoc] at h
          exact absurd h.symm ((plain_spellPlain d).append_ne _ _)
  | cons c s ih =>
      rw [List.flatMap_cons, List.append_assoc] at h
      cases t with
      | nil => exact absurd h ((plain_spellPlain c).append_ne _ _)
      | cons d t =>
          rw [List.flatMap_cons, List.append_assoc] at h
          obtain ⟨rfl, later⟩ := (plain_spellPlain c).append_inj (plain_spellPlain d) h
          obtain ⟨rfl, same⟩ := ih later
          exact ⟨rfl, same⟩

/-- A literal determines its text and where it ends. Unlike the canonical spelling, it keeps a split
pair apart from the code point that the pair stands for. -/
theorem quote_append_inj {s t rest after : Text} (h : s.quote ++ rest = t.quote ++ after) :
    s = t ∧ rest = after := by
  rw [quote_eq, quote_eq, List.cons_append, List.cons_append, List.append_assoc,
    List.append_assoc] at h
  exact flatMap_spellPlain_inj (List.cons.inj h).2

theorem quote_injective : Function.Injective Text.quote := by
  intro s t same
  exact (quote_append_inj (congrArg (· ++ []) same)).1

end Quoted

/-- A literal reads as its text with split pairs joined. -/
theorem Json.parse_quote (t : Text) : parse t.quote = .ok (.str t.joined) := by
  rw [Quoted.quote_eq]
  exact parse_of_readValue (Quoted.isSpelling_spellPlain.readValue t [] _)

end JsonShapes
