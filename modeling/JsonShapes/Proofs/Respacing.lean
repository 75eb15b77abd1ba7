import JsonShapes.Proofs.NumberText
import JsonShapes.Proofs.Quoting
import JsonShapes.Text.Lines

/-!
# Changes of white space

White space between tokens means nothing. A change of white space is a function on texts that keeps
what is not blank, and blanks inside string literals; it may drop blanks at the end, or add text
behind a blank there. A word, a number and a string that is read off the front of a text is read off
the changed text too, and the changed rest is left.
-/

namespace JsonShapes

namespace Json

theorem isBlank_of_isSpace {c : CodePoint} (h : isSpace c = true) : c.isBlank = true := by
  simp only [isSpace, Bool.or_eq_true, decide_eq_true_eq] at h
  rcases h with ((rfl | rfl) | rfl) | rfl <;> decide

theorem ne_of_isBlank {c d : CodePoint} (blank : c.isBlank = true) (solid : d.isBlank = false) :
    c ≠ d := by
  rintro rfl
  exact absurd blank (by simp [solid])

/-- Nothing stands at the front of the text, or a blank. -/
def Pauses (s : Text) : Prop := ∀ c ∈ s.head?, c.isBlank = true

/-- The function changes white space between tokens only, up to the last token. -/
structure Respaces (f : Text → Text) : Prop where
  keeps : ∀ {c : CodePoint} {s : Text}, c.isBlank = false → f (c :: s) = c :: f s
  /-- In front of a token, and so in a string literal, only control characters may be changed. -/
  keepsInside : ∀ {c d : CodePoint} {s : Text}, 0x20 ≤ c.val → d ∈ s → d.isBlank = false →
    f (c :: s) = c :: f s
  spaces : ∀ {c : CodePoint} {s t : Text}, skipSpace s = c :: t → c.isBlank = false →
    skipSpace (f s) = c :: f t
  pauses : ∀ {s : Text}, Pauses s → Pauses (f s)
  mem : ∀ {c : CodePoint} {s : Text}, c ∈ s → c.isBlank = false → c ∈ f s

theorem respaces_id : Respaces id where
  keeps _ := rfl
  keepsInside _ _ _ := rfl
  spaces h _ := h
  pauses h := h
  mem h _ := h

namespace Respaces

variable {f : Text → Text} (hf : Respaces f)
include hf

theorem eq_cons_or_pauses (s : Text) :
    (∃ c t, s = c :: t ∧ c.isBlank = false ∧ f s = c :: f t) ∨ Pauses s ∧ Pauses (f s) := by
  cases s with
  | nil => exact .inr ⟨nofun, hf.pauses nofun⟩
  | cons c t =>
      by_cases blank : c.isBlank = true
      · have pauses : Pauses (c :: t) := by
          intro d first
          rwa [← Option.some.inj first]
        exact .inr ⟨pauses, hf.pauses pauses⟩
      · rw [Bool.not_eq_true] at blank
        exact .inl ⟨c, t, rfl, blank, hf.keeps blank⟩

/-- What is not blank comes from the text that was changed. -/
theorem exists_eq_cons {c : CodePoint} {s t : Text} (h : f s = c :: t) (solid : c.isBlank = false) :
    ∃ u, s = c :: u ∧ f u = t := by
  obtain ⟨d, u, rfl, -, eq⟩ | ⟨-, pauses⟩ := hf.eq_cons_or_pauses s
  · cases h.symm.trans eq
    exact ⟨u, rfl, rfl⟩
  · rw [h] at pauses
    exact absurd (pauses c rfl) (by simp [solid])

theorem skipSpace_eq {c : CodePoint} {s t : Text} (h : skipSpace s = c :: t)
    (solid : c.isBlank = false) : skipSpace (f s) = f (skipSpace s) := by
  rw [hf.spaces h solid, h, hf.keeps solid]

end Respaces

/-- The space is the last blank of ASCII. -/
theorem isBlank_of_ascii {c : CodePoint} (low : 0x20 < c.val) (high : c.val < 0x80) :
    c.isBlank = false := by
  simp only [CodePoint.isBlank, CodePoint.isWhiteSpace, Bool.or_eq_false_iff,
    Bool.and_eq_false_iff, decide_eq_false_iff_not, beq_eq_false_iff_ne]
  omega

theorem isBlank_of_isDigit {c : CodePoint} (h : c.isDigit = true) : c.isBlank = false := by
  simp only [CodePoint.isDigit, Bool.and_eq_true, decide_eq_true_eq] at h
  exact isBlank_of_ascii (by omega) (by omega)

/-- The sign of an exponent, and what follows it. -/
def exponentSign : Text → Bool × Text
  | [] => (false, [])
  | c :: rest =>
    if c = '-' then (true, rest) else if c = '+' then (false, rest) else (false, c :: rest)

theorem exponent?_cons (c : CodePoint) (s : Text) :
    exponent? (c :: s) =
      if c = 'e' ∨ c = 'E' then
        match (exponentSign s).2.takeWhile CodePoint.isDigit with
        | [] => none
        | digits =>
          some (if (exponentSign s).1 then -(Text.toNat digits : Int) else Text.toNat digits,
            (exponentSign s).2.dropWhile CodePoint.isDigit)
      else none := by
  unfold exponent?
  simp only [Bool.or_eq_true, decide_eq_true_eq]
  cases s with
  | nil => rfl
  | cons d s => rfl

namespace Pauses

variable {s : Text} (h : Pauses s)
include h

/-- A number does not go on past a blank. -/
theorem endsNumber : s.EndsNumber := by
  intro c first
  have blank := h c first
  refine ⟨?_, ne_of_isBlank blank (by decide), ne_of_isBlank blank (by decide),
    ne_of_isBlank blank (by decide)⟩
  by_contra digit
  rw [isBlank_of_isDigit (by simpa using digit)] at blank
  cases blank

theorem takeWhile_isDigit : s.takeWhile CodePoint.isDigit = [] :=
  Text.takeWhile_isDigit (t := []) nofun h.endsNumber.noDigit

theorem dropWhile_isDigit : s.dropWhile CodePoint.isDigit = s :=
  Text.dropWhile_isDigit (t := []) nofun h.endsNumber.noDigit

theorem wholeDigits?_eq_none : wholeDigits? s = none := by
  cases s with
  | nil => rfl
  | cons c t =>
      have notDigit := (h.endsNumber c rfl).1
      rw [wholeDigits?, if_neg (ne_of_isBlank (h c rfl) (by decide)), if_neg (by simp [notDigit])]

theorem exponentSign_eq : exponentSign s = (false, s) := by
  cases s with
  | nil => rfl
  | cons c t =>
      rw [exponentSign, if_neg (ne_of_isBlank (h c rfl) (by decide)),
        if_neg (ne_of_isBlank (h c rfl) (by decide))]

theorem dropStart?_eq_none {b : CodePoint} (solid : b.isBlank = false) (word : Text) :
    Text.dropStart? (b :: word) s = none := by
  cases s with
  | nil => rfl
  | cons c t => exact Json.dropStart?_eq_none (ne_of_isBlank (h c rfl) solid).symm word t

end Pauses

namespace Respaces

variable {f : Text → Text} (hf : Respaces f)
include hf

theorem takeWhile_isDigit (s : Text) :
    (f s).takeWhile CodePoint.isDigit = s.takeWhile CodePoint.isDigit := by
  induction s with
  | nil => rw [(hf.pauses (s := []) nofun).takeWhile_isDigit, List.takeWhile_nil]
  | cons c s ih =>
      obtain ⟨_, _, same, solid, eq⟩ | ⟨pauses, pauses'⟩ := hf.eq_cons_or_pauses (c :: s)
      · cases same
        rw [eq, List.takeWhile_cons, List.takeWhile_cons, ih]
      · rw [pauses.takeWhile_isDigit, pauses'.takeWhile_isDigit]

theorem dropWhile_isDigit (s : Text) :
    (f s).dropWhile CodePoint.isDigit = f (s.dropWhile CodePoint.isDigit) := by
  induction s with
  | nil => exact (hf.pauses (s := []) nofun).dropWhile_isDigit
  | cons c s ih =>
      obtain ⟨_, _, same, solid, eq⟩ | ⟨pauses, pauses'⟩ := hf.eq_cons_or_pauses (c :: s)
      · cases same
        rw [eq, List.dropWhile_cons, List.dropWhile_cons]
        split
        · exact ih
        · exact eq.symm
      · rw [pauses.dropWhile_isDigit, pauses'.dropWhile_isDigit]

theorem wholeDigits?_map (s : Text) :
    wholeDigits? (f s) = (wholeDigits? s).map (Prod.map id f) := by
  obtain ⟨c, t, rfl, -, eq⟩ | ⟨pauses, pauses'⟩ := hf.eq_cons_or_pauses s
  · rw [eq, wholeDigits?, wholeDigits?, hf.takeWhile_isDigit, hf.dropWhile_isDigit]
    split
    · rfl
    split
    · rfl
    · rfl
  · rw [pauses.wholeDigits?_eq_none, pauses'.wholeDigits?_eq_none, Option.map_none]

theorem fraction?_map (s : Text) : fraction? (f s) = (fraction? s).map (Prod.map id f) := by
  obtain ⟨c, t, rfl, -, eq⟩ | ⟨pauses, pauses'⟩ := hf.eq_cons_or_pauses s
  · rw [eq, fraction?, fraction?, hf.takeWhile_isDigit, hf.dropWhile_isDigit]
    split
    · split
      · rfl
      · rfl
    · rfl
  · rw [fraction?_eq_none fun c hc => (pauses.endsNumber c hc).2.1,
      fraction?_eq_none fun c hc => (pauses'.endsNumber c hc).2.1, Option.map_none]

theorem exponentSign_map (s : Text) : exponentSign (f s) = Prod.map id f (exponentSign s) := by
  obtain ⟨c, t, rfl, -, eq⟩ | ⟨pauses, pauses'⟩ := hf.eq_cons_or_pauses s
  · rw [eq, exponentSign, exponentSign]
    split
    · rfl
    split
    · rfl
    · rw [Prod.map_apply, eq, id]
  · rw [pauses.exponentSign_eq, pauses'.exponentSign_eq, Prod.map_apply, id]

theorem exponent?_map (s : Text) : exponent? (f s) = (exponent? s).map (Prod.map id f) := by
  obtain ⟨c, t, rfl, -, eq⟩ | ⟨pauses, pauses'⟩ := hf.eq_cons_or_pauses s
  · rw [eq, exponent?_cons, exponent?_cons, hf.exponentSign_map, Prod.map_fst, Prod.map_snd, id,
      hf.takeWhile_isDigit, hf.dropWhile_isDigit]
    split
    · split
      · rfl
      · rfl
    · rfl
  · rw [exponent?_eq_none pauses.endsNumber, exponent?_eq_none pauses'.endsNumber, Option.map_none]

theorem afterFraction_map (s : Text) :
    ((fraction? (f s)).map Prod.snd).getD (f s) = f (((fraction? s).map Prod.snd).getD s) := by
  rw [hf.fraction?_map]
  cases fraction? s with
  | none => rfl
  | some r => rfl

/-- A number takes the same digits, and fails no more than before. -/
theorem readNumber {negative : Bool} {start s rest : Text} {v : Json}
    (h : Json.readNumber negative start s = .ok (v, rest)) (start' : Text) :
    Json.readNumber negative start' (f s) = .ok (v, f rest) := by
  unfold Json.readNumber at h ⊢
  rw [hf.wholeDigits?_map]
  cases digits : wholeDigits? s with
  | none =>
      rw [digits] at h
      cases h
  | some r =>
      obtain ⟨whole, after⟩ := r
      simp only [digits, Option.map_some, Prod.map, id, hf.afterFraction_map, hf.exponent?_map]
        at h ⊢
      rw [hf.fraction?_map]
      generalize exponent? (((fraction? after).map Prod.snd).getD after) = power at h ⊢
      generalize fraction? after = fraction at h ⊢
      -- without fraction and exponent the limit on digits applies, to the same digits
      cases fraction with
      | some r =>
          cases power <;> cases h <;> rfl
      | none =>
          cases power with
          | some r =>
              cases h
              rfl
          | none =>
              simp only [Option.map_none] at h ⊢
              split at h
              · cases h
              · next short =>
                  cases h
                  rw [if_neg short]

theorem dropStart?_map {word : Text} (solid : ∀ c ∈ word, c.isBlank = false) (s : Text) :
    Text.dropStart? word (f s) = (Text.dropStart? word s).map f := by
  induction word generalizing s with
  | nil => rfl
  | cons b word ih =>
      rw [List.forall_mem_cons] at solid
      obtain ⟨c, t, rfl, -, eq⟩ | ⟨pauses, pauses'⟩ := hf.eq_cons_or_pauses s
      · rw [eq, Text.dropStart?, Text.dropStart?]
        split
        · exact ih solid.2 t
        · rfl
      · rw [pauses.dropStart?_eq_none solid.1, pauses'.dropStart?_eq_none solid.1, Option.map_none]

theorem word?_map (s : Text) : word? (f s) = (word? s).map (Prod.map id f) := by
  have solid : ∀ w ∈ words, ∀ c ∈ w.1, c.isBlank = false := by decide
  unfold word?
  generalize words = spelled at solid
  induction spelled with
  | nil => rfl
  | cons w spelled ih =>
      obtain ⟨w, j⟩ := w
      rw [List.forall_mem_cons] at solid
      have dropped : Text.dropStart? w (f s) = (Text.dropStart? w s).map f :=
        hf.dropStart?_map solid.1 s
      rw [List.findSome?_cons, List.findSome?_cons, ih solid.2]
      dsimp only
      rw [dropped]
      cases Text.dropStart? w s with
      | none => rfl
      | some rest => rfl

theorem readScalar {s rest : Text} {v : Json} (h : Json.readScalar s = .ok (v, rest)) :
    Json.readScalar (f s) = .ok (v, f rest) := by
  unfold Json.readScalar at h ⊢
  rw [hf.word?_map]
  cases word : word? s with
  | some r =>
      rw [word] at h
      cases h
      rfl
  | none =>
      rw [word] at h
      cases s with
      | nil => cases h
      | cons c t =>
          simp only [Option.map_none] at h ⊢
          split at h
          · next minus =>
              rw [hf.keeps (by rw [minus]; decide)]
              simp only [if_pos minus]
              exact hf.readNumber h _
          · next other =>
              obtain ⟨d, u, same, digit⟩ := exists_eq_cons_of_readNumber h
              cases same
              have read := hf.readNumber h (c :: f t)
              rw [hf.keeps (isBlank_of_isDigit digit)] at read ⊢
              simp only [if_neg other]
              exact read

end Respaces

/-- Something has to follow the four digits. In a string that can be read this is at least the
closing quote, so that no escape is cut short. -/
theorem hex4?_eq_some_iff {s rest : Text} {n : Nat} :
    hex4? s = some (n, rest) ↔ rest ≠ [] ∧ ∃ a b c d w x y z, s = a :: b :: c :: d :: rest ∧
      a.hexValue? = some w ∧ b.hexValue? = some x ∧ c.hexValue? = some y ∧ d.hexValue? = some z ∧
      ((w * 16 + x) * 16 + y) * 16 + z = n := by
  constructor
  · intro h
    unfold hex4? at h
    split at h
    · simp only [bind, Option.bind_eq_some_iff, pure, Option.some.injEq, Prod.mk.injEq] at h
      obtain ⟨w, ha, x, hb, y, hc, z, hd, rfl, rfl⟩ := h
      exact ⟨List.cons_ne_nil _ _, _, _, _, _, _, _, _, _, rfl, ha, hb, hc, hd, rfl⟩
    · cases h
  · rintro ⟨nonempty, a, b, c, d, w, x, y, z, rfl, ha, hb, hc, hd, rfl⟩
    obtain ⟨e, rest, rfl⟩ := List.exists_cons_of_ne_nil nonempty
    simp [hex4?, ha, hb, hc, hd]

theorem isBlank_of_hexValue? {c : CodePoint} {n : Nat} (h : c.hexValue? = some n) :
    c.isBlank = false := by
  have range : 0x30 ≤ c.val ∧ c.val ≤ 0x66 := by
    simp only [CodePoint.hexValue?, CodePoint.isDigit, Bool.and_eq_true, decide_eq_true_eq] at h
    split at h
    · omega
    split at h
    · omega
    split at h
    · omega
    · cases h
  exact isBlank_of_ascii (by omega) (by omega)

theorem hex4?_suffix {s rest : Text} {n : Nat} (h : hex4? s = some (n, rest)) : rest <:+ s := by
  obtain ⟨-, a, b, c, d, w, x, y, z, rfl, -⟩ := hex4?_eq_some_iff.1 h
  exact List.suffix_append [a, b, c, d] rest

theorem lowEscape?_suffix {s rest : Text} {n : Nat} (h : lowEscape? s = some (n, rest)) :
    rest <:+ s := by
  unfold lowEscape? at h
  split at h
  · next a b s =>
      split at h
      · split at h
        · next digits =>
            split at h
            · cases h
              exact (hex4?_suffix digits).trans (List.suffix_append [a, b] s)
            · cases h
        · cases h
      · cases h
  · cases h

theorem readEscape_suffix {opening backslash s rest : Text} {c : CodePoint}
    (h : readEscape opening backslash s = .ok (c, rest)) : rest <:+ s := by
  cases s with
  | nil => cases h
  | cons b s =>
      refine List.IsSuffix.trans ?_ (List.suffix_cons b s)
      rw [readEscape] at h
      split at h
      · split at h
        · cases h
        · next digits =>
            split at h
            · split at h
              · next low =>
                  rw [Except.ok.injEq, Prod.mk.injEq] at h
                  rw [← h.2]
                  exact (lowEscape?_suffix low).trans (hex4?_suffix digits)
              · cases h
                exact hex4?_suffix digits
            · cases h
              exact hex4?_suffix digits
      · split at h
        · cases h
          exact List.suffix_refl _
        · cases h

theorem readString_suffix {opening s t rest : Text} {fuel : Nat}
    (h : readString opening fuel s = .ok (t, rest)) : CodePoint.ofChar '"' :: rest <:+ s := by
  induction fuel generalizing s t with
  | zero => cases h
  | succ fuel ih =>
      cases s with
      | nil => cases h
      | cons c s =>
          rw [readString] at h
          split at h
          · next quote =>
              cases h
              rw [quote]
          split at h
          · split at h
            · cases h
            · next escaped =>
                split at h
                · cases h
                · next later =>
                    cases h
                    have within := (ih later).trans (readEscape_suffix escaped)
                    exact within.trans (List.suffix_cons c s)
          split at h
          · cases h
          · split at h
            · cases h
            · next later =>
                cases h
                exact (ih later).trans (List.suffix_cons c s)

theorem length_lt_of_readString {opening s t rest : Text} {fuel : Nat}
    (h : readString opening fuel s = .ok (t, rest)) : rest.length < s.length :=
  (readString_suffix h).length_le

/-- A quote is no hexadecimal digit. -/
theorem quote_mem_of_hex {c : CodePoint} {s : Text} {n : Nat} (hex : c.hexValue? = some n)
    (h : CodePoint.ofChar '"' ∈ c :: s) : CodePoint.ofChar '"' ∈ s := by
  have notHex : (CodePoint.ofChar '"').hexValue? = none := by decide
  refine (List.mem_cons.1 h).resolve_left ?_
  rintro rfl
  cases notHex.symm.trans hex

theorem lowEscape?_eq_none_of_ne {c : CodePoint} (other : c ≠ '\\') (s : Text) :
    lowEscape? (c :: s) = none := by
  cases s with
  | nil => rfl
  | cons d s => simp [lowEscape?, other]

theorem Pauses.lowEscape?_eq_none {s : Text} (h : Pauses s) : lowEscape? s = none := by
  cases s with
  | nil => rfl
  | cons c s => exact lowEscape?_eq_none_of_ne (ne_of_isBlank (h c rfl) (by decide)) s

theorem Pauses.lowEscape?_backslash {s : Text} (h : Pauses s) :
    lowEscape? ('\\' :: s) = none := by
  cases s with
  | nil => rfl
  | cons c s =>
      have other : c ≠ 'u' := ne_of_isBlank (h c rfl) (by decide)
      simp [lowEscape?, other]

namespace Respaces

variable {f : Text → Text} (hf : Respaces f)
include hf

theorem hex4?_map {s : Text} (quote : CodePoint.ofChar '"' ∈ s) :
    hex4? (f s) = (hex4? s).map (Prod.map id f) := by
  apply Option.ext
  rintro ⟨n, changed⟩
  simp only [Option.map_eq_some_iff, Prod.exists, Prod.map_apply, id, Prod.mk.injEq]
  constructor
  · intro h
    obtain ⟨-, a, b, c, d, w, x, y, z, eq, ha, hb, hc, hd, rfl⟩ := hex4?_eq_some_iff.1 h
    obtain ⟨afterA, rfl, eqA⟩ := hf.exists_eq_cons eq (isBlank_of_hexValue? ha)
    obtain ⟨afterB, rfl, eqB⟩ := hf.exists_eq_cons eqA (isBlank_of_hexValue? hb)
    obtain ⟨afterC, rfl, eqC⟩ := hf.exists_eq_cons eqB (isBlank_of_hexValue? hc)
    obtain ⟨rest, rfl, eqD⟩ := hf.exists_eq_cons eqC (isBlank_of_hexValue? hd)
    have later := quote_mem_of_hex hd (quote_mem_of_hex hc (quote_mem_of_hex hb
      (quote_mem_of_hex ha quote)))
    exact ⟨_, rest, hex4?_eq_some_iff.2 ⟨List.ne_nil_of_mem later, a, b, c, d, w, x, y, z, rfl, ha,
      hb, hc, hd, rfl⟩, rfl, eqD⟩
  · rintro ⟨n, rest, h, rfl, rfl⟩
    obtain ⟨-, a, b, c, d, w, x, y, z, rfl, ha, hb, hc, hd, rfl⟩ := hex4?_eq_some_iff.1 h
    have later := quote_mem_of_hex hd (quote_mem_of_hex hc (quote_mem_of_hex hb
      (quote_mem_of_hex ha quote)))
    rw [hf.keeps (isBlank_of_hexValue? ha), hf.keeps (isBlank_of_hexValue? hb),
      hf.keeps (isBlank_of_hexValue? hc), hf.keeps (isBlank_of_hexValue? hd)]
    exact hex4?_eq_some_iff.2 ⟨List.ne_nil_of_mem (hf.mem later (by decide)), a, b, c, d, w, x, y,
      z, rfl, ha, hb, hc, hd, rfl⟩

theorem lowEscape?_map {s : Text} (quote : CodePoint.ofChar '"' ∈ s) :
    lowEscape? (f s) = (lowEscape? s).map (Prod.map id f) := by
  obtain ⟨a, t, rfl, -, eq⟩ | ⟨pauses, pauses'⟩ := hf.eq_cons_or_pauses s
  · rw [eq]
    by_cases backslash : a = '\\'
    · subst backslash
      have quoteT : CodePoint.ofChar '"' ∈ t := (List.mem_cons.1 quote).resolve_left (by decide)
      obtain ⟨b, u, rfl, -, eqT⟩ | ⟨pauses, pauses'⟩ := hf.eq_cons_or_pauses t
      · rw [eqT]
        by_cases number : b = 'u'
        · subst number
          have quoteU : CodePoint.ofChar '"' ∈ u :=
            (List.mem_cons.1 quoteT).resolve_left (by decide)
          simp only [lowEscape?, hf.hex4?_map quoteU, decide_true, Bool.and_self, if_true]
          cases hex4? u with
          | none => rfl
          | some r =>
              simp only [Option.map_some, Prod.map, id]
              split <;> rfl
        · simp [lowEscape?, number]
      · rw [pauses.lowEscape?_backslash, pauses'.lowEscape?_backslash, Option.map_none]
    · rw [lowEscape?_eq_none_of_ne backslash, lowEscape?_eq_none_of_ne backslash, Option.map_none]
  · rw [pauses.lowEscape?_eq_none, pauses'.lowEscape?_eq_none, Option.map_none]

theorem readEscape {opening backslash s rest : Text} {c : CodePoint}
    (h : Json.readEscape opening backslash s = .ok (c, rest)) (quote : CodePoint.ofChar '"' ∈ rest)
    (opening' backslash' : Text) :
    Json.readEscape opening' backslash' (f s) = .ok (c, f rest) := by
  cases s with
  | nil => cases h
  | cons b s =>
      rw [Json.readEscape] at h
      split at h
      · next number =>
          split at h
          · cases h
          · next n after digits =>
              have solid : b.isBlank = false := by
                rw [number]
                decide
              -- the quote stands behind the digits, and behind a second escape if there is one
              have first : ∀ {t : Text}, CodePoint.ofChar '"' ∈ t → t <:+ after →
                  hex4? (f s) = some (n, f after) := by
                intro t quote behind
                have inside := (hex4?_suffix digits).mem (behind.mem quote)
                rw [hf.hex4?_map inside, digits, Option.map_some, Prod.map_apply, id]
              split at h
              · next high =>
                  split at h
                  · next low second =>
                      rw [Except.ok.injEq, Prod.mk.injEq] at h
                      obtain ⟨rfl, rfl⟩ := h
                      have behind := lowEscape?_suffix second
                      simp only [hf.keeps solid, Json.readEscape, if_pos number,
                        first quote behind, if_pos high, hf.lowEscape?_map (behind.mem quote),
                        second, Option.map_some, Prod.map_apply, id]
                  · next alone =>
                      cases h
                      simp only [hf.keeps solid, Json.readEscape, if_pos number,
                        first quote (List.suffix_refl _), if_pos high, hf.lowEscape?_map quote,
                        alone, Option.map_none]
              · next notHigh =>
                  cases h
                  simp only [hf.keeps solid, Json.readEscape, if_pos number,
                    first quote (List.suffix_refl _), if_neg notHigh]
      · next notNumber =>
          split at h
          · next short =>
              cases h
              have range := val_of_shortEscape? short
              have solid : b.isBlank = false := isBlank_of_ascii (by omega) (by omega)
              simp only [hf.keeps solid, Json.readEscape, if_neg notNumber, short]
          · cases h

/-- A string takes the same code points, blanks among them. -/
theorem readString {opening s t rest : Text} {fuel : Nat}
    (h : Json.readString opening fuel s = .ok (t, rest)) (opening' : Text) {fuel' : Nat}
    (enough : (f s).length < fuel') : Json.readString opening' fuel' (f s) = .ok (t, f rest) := by
  induction fuel generalizing s t fuel' with
  | zero => cases h
  | succ fuel ih =>
      obtain ⟨fuel', rfl⟩ := Nat.exists_eq_add_of_lt (Nat.zero_lt_of_lt enough)
      rw [Nat.zero_add] at enough ⊢
      cases s with
      | nil => cases h
      | cons c s =>
          rw [Json.readString] at h
          split at h
          · next quote =>
              cases h
              subst quote
              rw [hf.keeps (by decide), Json.readString, if_pos rfl]
          split at h
          · next backslash =>
              split at h
              · cases h
              · next d after escape =>
                  split at h
                  · cases h
                  · next later =>
                      cases h
                      subst backslash
                      have quote := (readString_suffix later).mem List.mem_cons_self
                      have escaped := fun b => hf.readEscape escape quote opening' b
                      have shorter := (readEscape_suffix (escaped [])).length_le
                      rw [hf.keeps (by decide), List.length_cons] at enough
                      rw [hf.keeps (by decide)]
                      exact Quoted.readString_of_readEscape escaped (ih later (by omega))
          split at h
          · cases h
          · next notQuote notBackslash printable =>
              split at h
              · cases h
              · next later =>
                  cases h
                  have quote := (readString_suffix later).mem List.mem_cons_self
                  have kept : f (c :: s) = c :: f s :=
                    hf.keepsInside (Nat.le_of_not_lt printable) quote (by decide)
                  rw [kept, List.length_cons] at enough
                  rw [kept, Json.readString, if_neg notQuote, if_neg notBackslash,
                    if_neg printable, ih later (by omega)]

end Respaces

end Json

end JsonShapes
