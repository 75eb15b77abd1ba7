import JsonShapes.Json.Quoted
import JsonShapes.Json.Reader
import Mathlib.Data.Set.Function

/-!
# Spellings of texts

A spelling writes a text code point by code point, each of them as itself or as an escape.
Surrogates are always escaped by number, so that a high one followed by a low one cannot be told
from the pair of escapes that spells a code point beyond the first plane. Reading a spelling back
therefore joins such a pair, and nothing else is lost.

Canonical texts use the ASCII spelling, in which every code point beyond the first plane is a pair
of escapes. Two consequences are used throughout: a spelling ends where its closing quote stands,
whatever follows, and texts that hold no split pair have spellings of their own.

Whether a set of texts is told apart by its spellings is `Set.InjOn (Quoted.write .ascii)`. It can
always be assumed of the plain texts, which spell themselves, in addition.
-/

namespace JsonShapes

namespace CodePoint

theorem eq_of_val_eq {a b : CodePoint} (h : a.val = b.val) : a = b := by
  cases a
  cases b
  simp_all

theorem eq_ofChar_iff {c : CodePoint} {x : Char} : c = ofChar x ↔ c.val = x.toNat := by
  constructor
  · rintro rfl
    rfl
  · intro h
    exact eq_of_val_eq h

@[simp] theorem ofNat_val (c : CodePoint) : ofNat c.val = c := by
  simp [ofNat, c.isLt]

theorem val_ofNat {n : Nat} (h : n < 0x110000) : (ofNat n).val = n := by
  simp [ofNat, h]

/-- The code point that a high and a low surrogate stand for together. -/
def ofPair (high low : CodePoint) : CodePoint :=
  ofNat (0x10000 + (high.val - 0xD800) * 0x400 + (low.val - 0xDC00))

theorem hexValue?_hexDigit {n : Nat} (h : n < 16) : (hexDigit n).hexValue? = some n := by
  by_cases small : n < 10
  · have val : (ofNat (0x30 + n)).val = 0x30 + n := val_ofNat (by omega)
    simp only [hexDigit, small, if_true, hexValue?, isDigit, val]
    rw [if_pos (by simp; omega)]
    simp
  · have val : (ofNat (0x61 + (n - 10))).val = 0x61 + (n - 10) := val_ofNat (by omega)
    simp only [hexDigit, small, if_false, hexValue?, isDigit, val]
    rw [if_neg (by simp; omega), if_pos (by simp; omega)]
    simp
    omega

theorem hexValue?_hexDigit_mod (n : Nat) : (hexDigit (n % 16)).hexValue? = some (n % 16) :=
  hexValue?_hexDigit (Nat.mod_lt n (by decide))

end CodePoint

namespace Text

/-- No high surrogate stands directly before a low one. -/
def Unsplit : Text → Prop
  | high :: low :: rest =>
    ¬(high.isHighSurrogate = true ∧ low.isLowSurrogate = true) ∧ Unsplit (low :: rest)
  | _ => True

/-- The text with every high surrogate that stands directly before a low one joined to it. -/
def joined : Text → Text
  | high :: low :: rest =>
    if high.isHighSurrogate && low.isLowSurrogate then CodePoint.ofPair high low :: joined rest
    else high :: joined (low :: rest)
  | t => t

theorem joined_of_unsplit {t : Text} (h : t.Unsplit) : t.joined = t := by
  fun_induction joined t with
  | case1 high low rest pair ih =>
      rw [Bool.and_eq_true] at pair
      exact absurd pair h.1
  | case2 high low rest apart ih => rw [ih h.2]
  | case3 t short => rfl

end Text

namespace CodePoint

theorem le_val_ofPair {high low : CodePoint} (h : high.isHighSurrogate = true)
    (l : low.isLowSurrogate = true) : 0x10000 ≤ (ofPair high low).val := by
  simp only [isHighSurrogate, isLowSurrogate, Bool.and_eq_true, decide_eq_true_eq] at h l
  rw [ofPair, val_ofNat (by omega)]
  omega

/-- A code point that spells itself: printable ASCII other than the quote and the backslash. -/
def IsPlain (c : CodePoint) : Prop :=
  0x20 ≤ c.val ∧ c.val < 0x7F ∧ c.val ≠ 0x22 ∧ c.val ≠ 0x5C

instance (c : CodePoint) : Decidable c.IsPlain := by
  unfold IsPlain
  infer_instance

end CodePoint

namespace Text

/-- Every code point spells itself. -/
def IsPlain (t : Text) : Prop := ∀ c ∈ t, c.IsPlain

instance (t : Text) : Decidable t.IsPlain := inferInstanceAs (Decidable (∀ c ∈ t, c.IsPlain))

/-- Joining a pair leaves a code point that is not plain. -/
theorem joined_eq_of_isPlain {t : Text} (h : t.joined.IsPlain) : t.joined = t := by
  fun_induction joined t with
  | case1 high low rest pair ih =>
      rw [Bool.and_eq_true] at pair
      have large := CodePoint.le_val_ofPair pair.1 pair.2
      have plain := h _ List.mem_cons_self
      have := plain.2.1
      omega
  | case2 first second rest apart ih =>
      rw [ih fun c hc => h c (List.mem_cons_of_mem _ hc)]
  | case3 t short => rfl

theorem unsplit_of_isPlain {t : Text} (h : t.IsPlain) : t.Unsplit := by
  fun_induction Unsplit t with
  | case1 high low rest ih =>
      refine ⟨fun pair => ?_, ih fun c hc => h c (List.mem_cons_of_mem _ hc)⟩
      have plain := h _ List.mem_cons_self
      have isHigh := pair.1
      simp only [CodePoint.isHighSurrogate, Bool.and_eq_true, decide_eq_true_eq] at isHigh
      have := plain.2.1
      omega
  | case2 t short => trivial

end Text

namespace Json

theorem hex4?_hex {n : Nat} (h : n < 0x10000) (c : CodePoint) (rest : Text) :
    hex4? (Text.hex 4 n ++ c :: rest) = some (n, c :: rest) := by
  simp only [Text.hex, List.nil_append, List.cons_append, hex4?, CodePoint.hexValue?_hexDigit_mod,
    bind, Option.bind_some, pure, Option.some.injEq, Prod.mk.injEq, and_true]
  omega

end Json

namespace Quoted

open Json (shortEscape? hex4? lowEscape? readEscape readString)

/-- The four forms that the spelling of a code point can take. -/
inductive Escaped (c : CodePoint) : Text → Prop
  | itself (printable : 0x20 ≤ c.val) (notQuote : c.val ≠ 0x22) (notBackslash : c.val ≠ 0x5C) :
      Escaped c [c]
  | short {e : CodePoint} (notNumber : e ≠ 'u') (h : shortEscape? e = some c) :
      Escaped c ['\\', e]
  | number (h : c.val < 0x10000) : Escaped c (unicodeEscape c.val)
  | pair (h : 0x10000 ≤ c.val) :
      Escaped c (unicodeEscape (0xD800 + (c.val - 0x10000) / 0x400) ++
        unicodeEscape (0xDC00 + (c.val - 0x10000) % 0x400))

theorem escaped_escape (style : Style) (c : CodePoint) : Escaped c (escape style c) := by
  have short : ∀ {d e : CodePoint}, e ≠ 'u' → shortEscape? e = some d → c = d →
      Escaped c ['\\', e] := by
    rintro d e notNumber h rfl
    exact .short notNumber h
  have number : c.val < 0x10000 → Escaped c (unicodeEscape c.val) := .number
  unfold escape
  refine iteInduction (motive := Escaped c) (short (by decide) (by decide)) fun quote => ?_
  refine iteInduction (motive := Escaped c) (short (by decide) (by decide)) fun backslash => ?_
  refine iteInduction (motive := Escaped c) (short (by decide) (by decide)) fun _ => ?_
  refine iteInduction (motive := Escaped c) (short (by decide) (by decide)) fun _ => ?_
  refine iteInduction (motive := Escaped c) (short (by decide) (by decide)) fun _ => ?_
  refine iteInduction (motive := Escaped c) (fun h => ?_) fun _ => ?_
  · exact short (d := CodePoint.ofNat 0x0C) (by decide) (by decide) (CodePoint.eq_of_val_eq h)
  refine iteInduction (motive := Escaped c) (fun h => ?_) fun _ => ?_
  · exact short (d := CodePoint.ofNat 0x08) (by decide) (by decide) (CodePoint.eq_of_val_eq h)
  refine iteInduction (motive := Escaped c) (fun h => number (by omega)) fun control => ?_
  rw [CodePoint.eq_ofChar_iff] at quote backslash
  have itself : Escaped c [c] := .itself (by omega) quote backslash
  cases style with
  | plain => exact itself
  | ascii =>
      refine iteInduction (motive := Escaped c) (fun _ => itself) fun _ => ?_
      exact iteInduction (motive := Escaped c) number fun large => .pair (by omega)

theorem lowEscape?_unicodeEscape {n : Nat} (bound : n < 0x10000) (d : CodePoint) (rest : Text) :
    lowEscape? (unicodeEscape n ++ d :: rest) =
      if 0xDC00 ≤ n ∧ n ≤ 0xDFFF then some (n, d :: rest) else none := by
  simp only [unicodeEscape, List.cons_append, lowEscape?, decide_true, Bool.and_self, if_true,
    Json.hex4?_hex bound, Bool.and_eq_true, decide_eq_true_eq]

/-- A numbered escape that is no half of a pair is read as its number. -/
theorem readEscape_number {opening backslash rest : Text} {c : CodePoint} (bound : c.val < 0x10000)
    (nonempty : rest ≠ []) (alone : c.isHighSurrogate = true → lowEscape? rest = none) :
    readEscape opening backslash ('u' :: (Text.hex 4 c.val ++ rest)) = .ok (c, rest) := by
  obtain ⟨d, rest, rfl⟩ := List.exists_cons_of_ne_nil nonempty
  simp only [readEscape, if_true, Json.hex4?_hex bound]
  split
  · next high =>
      rw [alone high, CodePoint.ofNat_val]
  · rw [CodePoint.ofNat_val]

/-- Two numbered escapes that form a pair are read as one code point. -/
theorem readEscape_pair {opening backslash rest : Text} {high low : Nat} (nonempty : rest ≠ [])
    (isHigh : 0xD800 ≤ high ∧ high ≤ 0xDBFF) (isLow : 0xDC00 ≤ low ∧ low ≤ 0xDFFF) :
    readEscape opening backslash ('u' :: (Text.hex 4 high ++ (unicodeEscape low ++ rest))) =
      .ok (CodePoint.ofNat (0x10000 + (high - 0xD800) * 0x400 + (low - 0xDC00)), rest) := by
  obtain ⟨d, rest, rfl⟩ := List.exists_cons_of_ne_nil nonempty
  have second : lowEscape? (unicodeEscape low ++ d :: rest) = some (low, d :: rest) := by
    rw [lowEscape?_unicodeEscape (by omega), if_pos isLow]
  rw [readEscape, if_pos rfl]
  have first : hex4? (Text.hex 4 high ++ (unicodeEscape low ++ d :: rest)) =
      some (high, unicodeEscape low ++ d :: rest) :=
    Json.hex4?_hex (show high < 0x10000 by omega) _ _
  simp only [first, second]
  rw [if_pos (by simp [isHigh])]

theorem readString_of_readEscape {opening text rest after t : Text} {c : CodePoint} {fuel : Nat}
    (escaped : ∀ backslash, readEscape opening backslash text = .ok (c, rest))
    (read : readString opening fuel rest = .ok (t, after)) :
    readString opening (fuel + 1) ('\\' :: text) = .ok (c :: t, after) := by
  have notQuote : CodePoint.ofChar '\\' ≠ CodePoint.ofChar '"' := by decide
  simp only [readString, if_neg notQuote, if_true, escaped, read]

/-- The reader takes the spelling of one code point in one step, unless it is the high half of a
pair whose low half follows. -/
theorem Escaped.readString {opening text rest after t : Text} {c : CodePoint} {fuel : Nat}
    (h : Escaped c text) (nonempty : rest ≠ [])
    (alone : c.isHighSurrogate = true → lowEscape? rest = none)
    (read : Json.readString opening fuel rest = .ok (t, after)) :
    Json.readString opening (fuel + 1) (text ++ rest) = .ok (c :: t, after) := by
  cases h with
  | itself printable quote backslash =>
      have notQuote : ¬c = CodePoint.ofChar '"' := fun h => quote (CodePoint.eq_ofChar_iff.1 h)
      have notBackslash : ¬c = CodePoint.ofChar '\\' := fun h =>
        backslash (CodePoint.eq_ofChar_iff.1 h)
      have notControl : ¬c.val < 0x20 := by omega
      simp only [List.cons_append, List.nil_append, Json.readString, if_neg notQuote,
        if_neg notBackslash, if_neg notControl, read]
  | @short e notNumber short =>
      rw [List.cons_append, List.cons_append, List.nil_append]
      refine readString_of_readEscape (fun backslash => ?_) read
      simp only [readEscape, if_neg notNumber, short]
  | number bound =>
      exact readString_of_readEscape
        (fun backslash => readEscape_number bound nonempty alone) read
  | pair bound =>
      have := c.isLt
      have number : 0x10000 + (0xD800 + (c.val - 0x10000) / 0x400 - 0xD800) * 0x400 +
          (0xDC00 + (c.val - 0x10000) % 0x400 - 0xDC00) = c.val := by omega
      rw [List.append_assoc, unicodeEscape, List.cons_append, List.cons_append]
      refine readString_of_readEscape (fun backslash => ?_) read
      rw [readEscape_pair nonempty (by constructor <;> omega) (by constructor <;> omega), number,
        CodePoint.ofNat_val]

/-- A way to spell texts code point by code point, in which surrogates are given by number. -/
structure IsSpelling (spell : CodePoint → Text) : Prop where
  escaped : ∀ c, Escaped c (spell c)
  surrogate : ∀ c, c.isSurrogate = true → spell c = unicodeEscape c.val

variable {spell : CodePoint → Text}

/-- No escape of a low surrogate stands at the front of a spelling that does not start with one. -/
theorem IsSpelling.lowEscape?_eq_none (h : IsSpelling spell) {t rest : Text}
    (notLow : ∀ c u, t = c :: u → c.isLowSurrogate = false) :
    lowEscape? (t.flatMap spell ++ CodePoint.ofChar '"' :: rest) = none := by
  cases t with
  | nil =>
      cases rest with
      | nil => rfl
      | cons d rest =>
          have notBackslash : CodePoint.ofChar '"' ≠ CodePoint.ofChar '\\' := by decide
          simp [lowEscape?, notBackslash]
  | cons c u =>
      have low := notLow c u rfl
      rw [List.flatMap_cons, List.append_assoc]
      have nonempty : u.flatMap spell ++ CodePoint.ofChar '"' :: rest ≠ [] := by simp
      obtain ⟨d, after, same⟩ := List.exists_cons_of_ne_nil nonempty
      rw [same]
      have view := h.escaped c
      generalize spell c = text at view
      cases view with
      | itself printable quote backslash =>
          have notBackslash : ¬c = CodePoint.ofChar '\\' := fun h =>
            backslash (CodePoint.eq_ofChar_iff.1 h)
          simp [lowEscape?, notBackslash]
      | short notNumber _ => simp [lowEscape?, notNumber]
      | number bound =>
          rw [lowEscape?_unicodeEscape bound, if_neg]
          simpa [CodePoint.isLowSurrogate] using low
      | pair bound =>
          have := c.isLt
          have unit : 0xD800 + (c.val - 0x10000) / 0x400 < 0xDC00 := by omega
          generalize 0xD800 + (c.val - 0x10000) / 0x400 = high at unit
          rw [List.append_assoc]
          rw [unicodeEscape.eq_1 (0xDC00 + _), List.cons_append]
          rw [lowEscape?_unicodeEscape (by omega), if_neg (by omega)]

/-- A code point beyond ASCII has no escape of its own. -/
theorem escape_of_le (style : Style) {c : CodePoint} (large : 0x7F ≤ c.val) :
    escape style c = match style with
      | .plain => [c]
      | .ascii =>
        if c.val < 0x10000 then unicodeEscape c.val
        else
          unicodeEscape (0xD800 + (c.val - 0x10000) / 0x400) ++
            unicodeEscape (0xDC00 + (c.val - 0x10000) % 0x400) := by
  have notChar : ∀ x : Char, x.toNat < 0x7F → ¬c = CodePoint.ofChar x := by
    intro x small same
    rw [CodePoint.eq_ofChar_iff] at same
    omega
  unfold escape
  rw [if_neg (notChar _ (by decide)), if_neg (notChar _ (by decide)),
    if_neg (notChar _ (by decide)), if_neg (notChar _ (by decide)),
    if_neg (notChar _ (by decide)), if_neg (by omega), if_neg (by omega), if_neg (by omega)]
  cases style with
  | plain => rfl
  | ascii => exact if_neg (by omega)

theorem isSpelling_ascii : IsSpelling (escape .ascii) := by
  refine ⟨escaped_escape .ascii, fun c surrogate => ?_⟩
  simp only [CodePoint.isSurrogate, Bool.and_eq_true, decide_eq_true_eq] at surrogate
  rw [escape_of_le .ascii (by omega)]
  exact if_pos (by omega)

/-- Reading a spelling up to its closing quote gives the text with its split pairs joined. The
induction follows `joined`, since a split pair is read in one step. -/
theorem IsSpelling.readString (h : IsSpelling spell) (opening rest t : Text) (fuel : Nat)
    (enough : t.length < fuel) :
    Json.readString opening fuel (t.flatMap spell ++ CodePoint.ofChar '"' :: rest) =
      .ok (t.joined, rest) := by
  fun_induction Text.joined t generalizing fuel with
  | case1 high low t pair ih =>
      obtain ⟨fuel, rfl⟩ : ∃ n, fuel = n + 1 := ⟨fuel - 1, by omega⟩
      rw [Bool.and_eq_true] at pair
      have surrogates : high.isSurrogate = true ∧ low.isSurrogate = true := by
        simp [CodePoint.isSurrogate_eq, pair]
      simp only [CodePoint.isHighSurrogate, CodePoint.isLowSurrogate, Bool.and_eq_true,
        decide_eq_true_eq] at pair
      obtain ⟨isHigh, isLow⟩ := pair
      have read := ih fuel (by simp only [List.length_cons] at enough; omega)
      rw [List.flatMap_cons, List.flatMap_cons, h.surrogate high surrogates.1,
        h.surrogate low surrogates.2, List.append_assoc, List.append_assoc,
        unicodeEscape, List.cons_append, List.cons_append]
      exact readString_of_readEscape
        (fun backslash => readEscape_pair (by simp) isHigh isLow) read
  | case2 first second t apart ih =>
      obtain ⟨fuel, rfl⟩ : ∃ n, fuel = n + 1 := ⟨fuel - 1, by omega⟩
      have read := ih fuel (by simp only [List.length_cons] at enough ⊢; omega)
      rw [List.flatMap_cons, List.append_assoc]
      refine (h.escaped first).readString (by simp) (fun high => h.lowEscape?_eq_none ?_) read
      intro c u same
      cases same
      simpa [high] using apart
  | case3 t short =>
      obtain ⟨fuel, rfl⟩ : ∃ n, fuel = n + 1 := ⟨fuel - 1, by omega⟩
      have closing : ∀ fuel, Json.readString opening (fuel + 1) (CodePoint.ofChar '"' :: rest) =
          .ok ([], rest) := fun fuel => by simp [Json.readString]
      cases t with
      | nil => exact closing fuel
      | cons c t =>
          cases t with
          | nil =>
              obtain ⟨fuel, rfl⟩ : ∃ n, fuel = n + 1 := ⟨fuel - 1, by simp at enough; omega⟩
              rw [List.flatMap_cons, List.flatMap_nil, List.append_nil]
              exact (h.escaped c).readString (by simp)
                (fun _ => h.lowEscape?_eq_none (t := []) (by simp)) (closing fuel)
          | cons d t => exact absurd rfl (short c d t)

/-- A spelling ends at its closing quote, so what follows it can be told apart from it. -/
theorem write_append_inj {s t rest after : Text}
    (h : write .ascii s ++ rest = write .ascii t ++ after) :
    write .ascii s = write .ascii t ∧ rest = after := by
  have opened : s.flatMap (escape .ascii) ++ CodePoint.ofChar '"' :: rest =
      t.flatMap (escape .ascii) ++ CodePoint.ofChar '"' :: after := by
    simpa [write, Text.ofString] using h
  have first := isSpelling_ascii.readString [] rest s (s.length + t.length + 1) (by omega)
  have second := isSpelling_ascii.readString [] after t (s.length + t.length + 1) (by omega)
  rw [opened, second] at first
  have same : after = rest := congrArg Prod.snd (Except.ok.inj first)
  subst same
  exact ⟨List.append_cancel_right h, rfl⟩

/-- Texts of one spelling are the same once their split pairs are joined. -/
theorem joined_eq_of_write_eq {s t : Text} (h : write .ascii s = write .ascii t) :
    s.joined = t.joined := by
  have opened : s.flatMap (escape .ascii) ++ [CodePoint.ofChar '"'] =
      t.flatMap (escape .ascii) ++ [CodePoint.ofChar '"'] := by
    simpa [write, Text.ofString] using h
  have first := isSpelling_ascii.readString [] [] s (s.length + t.length + 1) (by omega)
  have second := isSpelling_ascii.readString [] [] t (s.length + t.length + 1) (by omega)
  rw [opened, second] at first
  exact (congrArg Prod.fst (Except.ok.inj first)).symm

/-- Texts without split pairs are told apart by their spellings. -/
theorem injOn_write_of_unsplit {S : Set Text} (unsplit : ∀ t ∈ S, t.Unsplit) :
    S.InjOn (write .ascii) := by
  intro s hs t ht h
  have same := joined_eq_of_write_eq h
  rwa [Text.joined_of_unsplit (unsplit s hs), Text.joined_of_unsplit (unsplit t ht)] at same

theorem eq_of_write_eq_of_isPlain {s t : Text} (plain : t.IsPlain)
    (h : write .ascii s = write .ascii t) : s = t := by
  have same := joined_eq_of_write_eq h
  rw [Text.joined_of_unsplit (Text.unsplit_of_isPlain plain)] at same
  rw [← same, Text.joined_eq_of_isPlain (same ▸ plain)]

/-- Plain texts can be added to any texts that are told apart by their spellings. -/
theorem injOn_write_union_plain {S : Set Text} (apart : S.InjOn (write .ascii)) :
    (S ∪ {t | t.IsPlain}).InjOn (write .ascii) := by
  rintro s hs t (ht | plain) h
  · rcases hs with hs | plain
    · exact apart hs ht h
    · exact (eq_of_write_eq_of_isPlain plain h.symm).symm
  · exact eq_of_write_eq_of_isPlain plain h

end Quoted

end JsonShapes
