import JsonShapes.Proofs.OutputLayout

/-!
# The grammar of string literals

A string literal of JSON is a quote, spellings of single code points, and a quote. This says where a
literal ends without reading it: no spelling starts with a quote, and none is the beginning of
another, so that at most one literal starts at a place.

Texts are quoted in two passes. The first escapes what has to be escaped, the second writes out the
surrogates that are left. Together they spell code point by code point, which is why the result is a
literal, whatever backslashes, quotes and surrogates follow one another in the text.
-/

namespace JsonShapes

namespace Json

/-- The spelling of one code point, or of one half of a pair. -/
inductive Spelled : Text → Prop
  | itself {c : CodePoint} (printable : 0x20 ≤ c.val) (notQuote : c ≠ '"')
      (notBackslash : c ≠ '\\') : Spelled [c]
  | short {e : CodePoint} (listed : e ∈ escapable) : Spelled ['\\', e]
  | number {a b c d : CodePoint} (digits : ∀ x ∈ [a, b, c, d], x.hexValue?.isSome = true) :
      Spelled ['\\', 'u', a, b, c, d]

/-- A literal without its opening quote. -/
inductive LiteralTail : Text → Prop
  | quote : LiteralTail ['"']
  | cons {piece rest : Text} (spelled : Spelled piece) (closes : LiteralTail rest) :
      LiteralTail (piece ++ rest)

def IsLiteral (t : Text) : Prop := ∃ inside, t = CodePoint.ofChar '"' :: inside ∧ LiteralTail inside

theorem Spelled.append_ne {piece : Text} (h : Spelled piece) (s t : Text) :
    piece ++ s ≠ CodePoint.ofChar '"' :: t := by
  have backslash : CodePoint.ofChar '\\' ≠ CodePoint.ofChar '"' := by decide
  intro same
  cases h with
  | itself printable notQuote notBackslash => exact notQuote (List.cons.inj same).1
  | short listed => exact backslash (List.cons.inj same).1
  | number digits => exact backslash (List.cons.inj same).1

/-- No spelling is the beginning of another. -/
theorem Spelled.append_inj {a b s t : Text} (ha : Spelled a) (hb : Spelled b)
    (h : a ++ s = b ++ t) : a = b ∧ s = t := by
  have notListed : CodePoint.ofChar 'u' ∉ escapable := by decide
  cases ha with
  | itself printable notQuote notBackslash =>
      cases hb with
      | itself => exact ⟨congrArg ([·]) (List.cons.inj h).1, (List.cons.inj h).2⟩
      | short => exact absurd (List.cons.inj h).1 notBackslash
      | number => exact absurd (List.cons.inj h).1 notBackslash
  | short listed =>
      cases hb with
      | itself printable notQuote notBackslash =>
          exact absurd (List.cons.inj h).1.symm notBackslash
      | short => exact List.append_inj h rfl
      | number =>
          rw [(List.cons.inj (List.cons.inj h).2).1] at listed
          exact absurd listed notListed
  | number digits =>
      cases hb with
      | itself printable notQuote notBackslash =>
          exact absurd (List.cons.inj h).1.symm notBackslash
      | short listed =>
          rw [← (List.cons.inj (List.cons.inj h).2).1] at listed
          exact absurd listed notListed
      | number => exact List.append_inj h rfl

theorem LiteralTail.append_inj {a b s t : Text} (ha : LiteralTail a) (hb : LiteralTail b)
    (h : a ++ s = b ++ t) : a = b ∧ s = t := by
  induction ha generalizing b with
  | quote =>
      cases hb with
      | quote => exact List.append_inj h rfl
      | cons spelled closes =>
          rw [List.append_assoc] at h
          exact absurd h.symm (spelled.append_ne _ _)
  | cons spelled closes ih =>
      rw [List.append_assoc] at h
      cases hb with
      | quote => exact absurd h (spelled.append_ne _ _)
      | cons spelled' closes' =>
          rw [List.append_assoc] at h
          obtain ⟨rfl, later⟩ := spelled.append_inj spelled' h
          obtain ⟨rfl, same⟩ := ih closes' later
          exact ⟨rfl, same⟩

/-- Of all texts that start at a place, at most one is a literal. -/
theorem IsLiteral.append_inj {a b s t : Text} (ha : IsLiteral a) (hb : IsLiteral b)
    (h : a ++ s = b ++ t) : a = b ∧ s = t := by
  obtain ⟨inside, rfl, closes⟩ := ha
  obtain ⟨inside', rfl, closes'⟩ := hb
  obtain ⟨rfl, same⟩ := closes.append_inj closes' (List.cons.inj h).2
  exact ⟨rfl, same⟩

theorem spelled_unicodeEscape (n : Nat) : Spelled (Quoted.unicodeEscape n) := by
  refine .number ?_
  simp [CodePoint.hexValue?_hexDigit_mod]

end Json

namespace Quoted

open Json (LiteralTail IsLiteral)

theorem Escaped.literalTail {c : CodePoint} {text rest : Text} (h : Escaped c text)
    (closes : LiteralTail rest) : LiteralTail (text ++ rest) := by
  cases h with
  | itself printable notQuote notBackslash =>
      refine .cons (.itself printable ?_ ?_) closes
      · exact fun same => notQuote (CodePoint.eq_ofChar_iff.1 same)
      · exact fun same => notBackslash (CodePoint.eq_ofChar_iff.1 same)
  | short notNumber short => exact .cons (.short (Json.mem_escapable short)) closes
  | number bound => exact .cons (Json.spelled_unicodeEscape _) closes
  | pair bound =>
      rw [List.append_assoc]
      exact .cons (Json.spelled_unicodeEscape _) (.cons (Json.spelled_unicodeEscape _) closes)

theorem IsSpelling.literalTail {spell : CodePoint → Text} (h : IsSpelling spell) (t : Text) :
    LiteralTail (t.flatMap spell ++ [CodePoint.ofChar '"']) := by
  induction t with
  | nil => exact .quote
  | cons c t ih =>
      rw [List.flatMap_cons, List.append_assoc]
      exact (h.escaped c).literalTail ih

theorem isLiteral_quote (t : Text) : IsLiteral t.quote :=
  ⟨_, quote_eq t, isSpelling_spellPlain.literalTail t⟩

/-- Reading the value at the front of a text takes a literal and leaves what follows. -/
theorem readValue_quote (t rest : Text) (fuel : Nat) :
    Json.readValue (fuel + 1) (t.quote ++ rest) = .ok (.str t.joined, rest) := by
  rw [quote_eq, List.cons_append, List.append_assoc, List.singleton_append]
  exact isSpelling_spellPlain.readValue t rest fuel

theorem parse_quote_eq_iff {t : Text} : Json.parse t.quote = .ok (.str t) ↔ t.Unsplit := by
  rw [Json.parse_quote, Except.ok.injEq, Json.str.injEq]
  exact ⟨Text.unsplit_of_joined_eq, Text.joined_of_unsplit⟩

/-- A quoted text has neither control characters nor surrogates. It ends as a literal where it ends
as a text, by the grammar as well as for the reader and whatever follows. It belongs to no other
text, and it reads as the text itself exactly if that holds no split pair. -/
theorem quote_delimits_and_determines (t : Text) :
    (∀ c ∈ t.quote, 0x20 ≤ c.val ∧ c.isSurrogate = false) ∧
    (IsLiteral t.quote ∧ ∀ literal after rest, IsLiteral literal →
      literal ++ after = t.quote ++ rest → literal = t.quote ∧ after = rest) ∧
    (∀ fuel rest, Json.readValue (fuel + 1) (t.quote ++ rest) = .ok (.str t.joined, rest)) ∧
    (∀ s : Text, s.quote = t.quote → s = t) ∧
    (Json.parse t.quote = .ok (.str t) ↔ t.Unsplit) := by
  refine ⟨fun c listed => ?_, ⟨isLiteral_quote t, fun literal after rest isLiteral same => ?_⟩,
    fun fuel rest => readValue_quote t rest fuel, fun s same => quote_injective same,
    parse_quote_eq_iff⟩
  · exact ⟨printable_quote t c listed, Text.isEncodable_iff.1 (Text.isEncodable_quote t) c listed⟩
  · exact isLiteral.append_inj (isLiteral_quote t) same

end Quoted

end JsonShapes
