import JsonShapes.Proofs.Respacing
import Mathlib.Data.List.DropRight

/-!
# White space in documents

What the reader takes off the front of a text it takes off the text with its white space changed.
So a document keeps its value when its line ends are made equal, when blanks are dropped at its two
ends and when white space is put there, and a document that is followed by something else is known
as malformed in all these forms.
-/

namespace JsonShapes

theorem Text.normalizeLines_cons {c : CodePoint} (other : c ≠ '\r') (s : Text) :
    normalizeLines (c :: s) = c :: normalizeLines s := by
  rw [normalizeLines.eq_def]
  exact if_neg other

namespace Json

/-- The reader takes a thing off the front of a text if it has fuel enough for that. What is taken
off bounds the fuel that is needed, so that nothing depends on fuel in excess. -/
def Takes {α : Type} (read : Nat → Text → Read α) (s : Text) (a : α) (rest : Text) : Prop :=
  rest.length < s.length ∧
    ∀ fuel, 2 * s.length ≤ fuel + 2 * rest.length → read fuel s = .ok (a, rest)

theorem length_skipSpace_le (s : Text) : (skipSpace s).length ≤ s.length :=
  (List.dropWhile_suffix isSpace).length_le

theorem length_lt_of_skipSpace {c : CodePoint} {s rest : Text} (h : skipSpace s = c :: rest) :
    rest.length < s.length := by
  have shorter := length_skipSpace_le s
  rw [h] at shorter
  exact shorter

theorem mem_of_skipSpace {c : CodePoint} {s rest : Text} (h : skipSpace s = c :: rest) : c ∈ s := by
  apply (List.dropWhile_suffix isSpace).mem
  rw [skipSpace] at h
  rw [h]
  exact List.mem_cons_self

namespace Takes

/-- Taking something off needs fuel, so only fuel that is not used up is of interest. -/
theorem of_succ {α : Type} {read : Nat → Text → Read α} {s rest : Text} {a : α}
    (shorter : rest.length < s.length)
    (h : ∀ fuel, 2 * s.length ≤ fuel + 1 + 2 * rest.length → read (fuel + 1) s = .ok (a, rest)) :
    Takes read s a rest := by
  refine ⟨shorter, fun fuel enough => ?_⟩
  obtain ⟨fuel, rfl⟩ : ∃ n, fuel = n + 1 := ⟨fuel - 1, by omega⟩
  exact h fuel enough

variable {s rest after others : Text} {v : Json} {items : List Json} {key : Text}
variable {before members : List (Text × Json)}

theorem scalar (h : readScalar s = .ok (v, rest)) (shorter : rest.length < s.length) :
    Takes readValue s v rest := by
  exact of_succ shorter fun fuel _ => readValue_of_readScalar h fuel

theorem str {t : Text}
    (h : readString (CodePoint.ofChar '"' :: s) (s.length + 1) s = .ok (t, rest)) :
    Takes readValue (CodePoint.ofChar '"' :: s) (.str t) rest := by
  have shorter := length_lt_of_readString h
  refine of_succ (Nat.lt_succ_of_lt shorter) fun fuel _ => ?_
  rw [readValue, if_pos rfl, h]

theorem arr_nil (h : skipSpace s = CodePoint.ofChar ']' :: rest) :
    Takes readValue (CodePoint.ofChar '[' :: s) (.arr []) rest := by
  have shorter := length_lt_of_skipSpace h
  refine of_succ (Nat.lt_succ_of_lt shorter) fun fuel _ => ?_
  rw [readValue, if_neg (by decide), if_pos rfl, h]
  rfl

theorem arr (h : Takes readItems (skipSpace s) items rest) :
    Takes readValue (CodePoint.ofChar '[' :: s) (.arr items) rest := by
  obtain ⟨taken, read⟩ := h
  have shorter := length_skipSpace_le s
  refine of_succ (by rw [List.length_cons]; omega) fun fuel enough => ?_
  rw [List.length_cons] at enough
  exact readValue_arr (read fuel (by omega))

theorem items_last (h : Takes readValue s v after)
    (closes : skipSpace after = CodePoint.ofChar ']' :: rest) : Takes readItems s [v] rest := by
  obtain ⟨taken, read⟩ := h
  have shorter := length_lt_of_skipSpace closes
  refine of_succ (shorter.trans taken) fun fuel enough => ?_
  exact readItems_last (read fuel (by omega)) closes

theorem items_cons (h : Takes readValue s v after)
    (goesOn : skipSpace after = CodePoint.ofChar ',' :: others)
    (later : Takes readItems (skipSpace others) items rest) :
    Takes readItems s (v :: items) rest := by
  obtain ⟨taken, read⟩ := h
  obtain ⟨takenLater, readLater⟩ := later
  have shorter := length_lt_of_skipSpace goesOn
  have shorter' := length_skipSpace_le others
  refine of_succ (by omega) fun fuel enough => ?_
  exact readItems_cons (read fuel (by omega)) goesOn (readLater fuel (by omega))

theorem obj_nil (h : skipSpace s = CodePoint.ofChar '\x7d' :: rest) :
    Takes readValue (CodePoint.ofChar '\x7b' :: s) (.obj []) rest := by
  have shorter := length_lt_of_skipSpace h
  refine of_succ (Nat.lt_succ_of_lt shorter) fun fuel _ => ?_
  rw [readValue, if_neg (by decide), if_neg (by decide), if_pos rfl, h]
  rfl

theorem obj (h : Takes (readMembers · []) (skipSpace s) members rest) :
    Takes readValue (CodePoint.ofChar '\x7b' :: s) (.obj members) rest := by
  obtain ⟨taken, read⟩ := h
  have shorter := length_skipSpace_le s
  refine of_succ (by rw [List.length_cons]; omega) fun fuel enough => ?_
  rw [List.length_cons] at enough
  exact readValue_obj (read fuel (by omega))

end Takes

/-- A key and a value can be taken off the front of a text, with a colon between them. -/
def TakesMember (s key : Text) (v : Json) (after : Text) : Prop :=
  ∃ inside afterKey afterColon, s = CodePoint.ofChar '"' :: inside ∧
    readString s (inside.length + 1) inside = .ok (key, afterKey) ∧
    skipSpace afterKey = CodePoint.ofChar ':' :: afterColon ∧
    Takes readValue (skipSpace afterColon) v after

namespace TakesMember

variable {s key rest after others : Text} {v : Json} {before members : List (Text × Json)}

theorem length_lt (h : TakesMember s key v after) : after.length < s.length := by
  obtain ⟨inside, afterKey, afterColon, rfl, string, colon, taken, -⟩ := h
  have key := length_lt_of_readString string
  have mark := length_lt_of_skipSpace colon
  have shorter := length_skipSpace_le afterColon
  rw [List.length_cons]
  omega

theorem readsMember (h : TakesMember s key v after) {fuel : Nat}
    (enough : 2 * s.length ≤ fuel + 2 + 2 * after.length) : ReadsMember fuel s key v after := by
  obtain ⟨inside, afterKey, afterColon, rfl, string, colon, -, read⟩ := h
  have key := length_lt_of_readString string
  have mark := length_lt_of_skipSpace colon
  have shorter := length_skipSpace_le afterColon
  rw [List.length_cons] at enough
  exact ⟨inside, afterKey, afterColon, rfl, string, colon, read fuel (by omega)⟩

theorem last (h : TakesMember s key v after)
    (closes : skipSpace after = CodePoint.ofChar '\x7d' :: rest) :
    Takes (readMembers · before) s (Fields.set before key v) rest := by
  have taken := h.length_lt
  have shorter := length_lt_of_skipSpace closes
  refine Takes.of_succ (shorter.trans taken) fun fuel enough => ?_
  exact readMembers_last (h.readsMember (by omega)) closes

theorem cons (h : TakesMember s key v after)
    (goesOn : skipSpace after = CodePoint.ofChar ',' :: others)
    (later : Takes (readMembers · (Fields.set before key v)) (skipSpace others) members rest) :
    Takes (readMembers · before) s members rest := by
  have taken := h.length_lt
  obtain ⟨takenLater, readLater⟩ := later
  have shorter := length_lt_of_skipSpace goesOn
  have shorter' := length_skipSpace_le others
  refine Takes.of_succ (by omega) fun fuel enough => ?_
  exact (readMembers_cons (h.readsMember (by omega)) goesOn).trans (readLater fuel (by omega))

end TakesMember

/-- A value does not start with a blank. -/
theorem isBlank_of_readScalar {c : CodePoint} {s : Text} {r : Json × Text}
    (h : readScalar (c :: s) = .ok r) : c.isBlank = false := by
  by_contra blank
  rw [Bool.not_eq_false] at blank
  have pauses : Pauses (c :: s) := by
    rintro _ ⟨⟩
    exact blank
  have word : word? (c :: s) = none := by
    have solid : ∀ w ∈ words, w.1.head?.map CodePoint.isBlank = some false := by decide
    refine List.findSome?_eq_none_iff.2 fun w hw => ?_
    obtain ⟨b, head, notBlank⟩ := Option.map_eq_some_iff.1 (solid w hw)
    obtain ⟨tail, eq⟩ := List.head?_eq_some_iff.1 head
    simp only [eq, pauses.dropStart?_eq_none notBlank, Option.map_none]
  have minus : c ≠ '-' := ne_of_isBlank blank (by decide)
  simp only [readScalar, word, if_neg minus] at h
  obtain ⟨d, t, same, digit⟩ := exists_eq_cons_of_readNumber h
  cases same
  exact absurd blank (by simp [isBlank_of_isDigit digit])

theorem isBlank_of_readValue {fuel : Nat} {c : CodePoint} {s : Text} {r : Json × Text}
    (h : readValue fuel (c :: s) = .ok r) : c.isBlank = false := by
  cases fuel with
  | zero => cases h
  | succ fuel =>
      rw [readValue] at h
      split at h
      · next quote =>
          rw [quote]
          decide
      split at h
      · next bracket =>
          rw [bracket]
          decide
      split at h
      · next brace =>
          rw [brace]
          decide
      · exact isBlank_of_readScalar h

theorem isBlank_of_readItems {fuel : Nat} {c : CodePoint} {s : Text} {r : List Json × Text}
    (h : readItems fuel (c :: s) = .ok r) : c.isBlank = false := by
  cases fuel with
  | zero => cases h
  | succ fuel =>
      rw [readItems] at h
      split at h
      · cases h
      · next read => exact isBlank_of_readValue read

theorem isBlank_of_readMembers {fuel : Nat} {before : List (Text × Json)} {c : CodePoint} {s : Text}
    {r : List (Text × Json) × Text} (h : readMembers fuel before (c :: s) = .ok r) :
    c.isBlank = false := by
  obtain ⟨t, same⟩ := exists_eq_cons_of_readMembers h
  cases same
  decide

theorem length_afterFraction_le (s : Text) :
    (((fraction? s).map Prod.snd).getD s).length ≤ s.length := by
  cases s with
  | nil => exact Nat.le_refl _
  | cons c s =>
      rw [fraction?]
      split
      · split
        · exact Nat.le_refl _
        · exact (List.dropWhile_suffix _).length_le.trans (Nat.le_succ _)
      · exact Nat.le_refl _

theorem length_afterExponent_le (s : Text) :
    (((exponent? s).map Prod.snd).getD s).length ≤ s.length := by
  have sign : ∀ t : Text, (exponentSign t).2.length ≤ t.length := by
    intro t
    cases t with
    | nil => exact Nat.le_refl _
    | cons c t =>
        rw [exponentSign]
        split
        · exact Nat.le_succ _
        split
        · exact Nat.le_succ _
        · exact Nat.le_refl _
  cases s with
  | nil => exact Nat.le_refl _
  | cons c s =>
      rw [exponent?_cons]
      split
      · split
        · exact Nat.le_refl _
        · exact ((List.dropWhile_suffix _).length_le.trans (sign s)).trans (Nat.le_succ _)
      · exact Nat.le_refl _

theorem length_lt_of_wholeDigits? {s whole rest : Text} (h : wholeDigits? s = some (whole, rest)) :
    rest.length < s.length := by
  cases s with
  | nil => cases h
  | cons c s =>
      rw [wholeDigits?] at h
      split at h
      · cases h
        exact Nat.lt_succ_self _
      split at h
      · cases h
        exact Nat.lt_succ_of_le (List.dropWhile_suffix _).length_le
      · cases h

theorem length_lt_of_readNumber {negative : Bool} {start s rest : Text} {v : Json}
    (h : readNumber negative start s = .ok (v, rest)) : rest.length < s.length := by
  unfold readNumber at h
  split at h
  · cases h
  · next whole after digits =>
      refine Nat.lt_of_le_of_lt ?_ (length_lt_of_wholeDigits? digits)
      have fraction := length_afterFraction_le after
      have exponent := length_afterExponent_le (((fraction? after).map Prod.snd).getD after)
      split at h
      · split at h
        · cases h
        · cases h
          exact Nat.le_refl _
      · cases h
        exact exponent.trans fraction

theorem length_lt_of_readScalar {s rest : Text} {v : Json} (h : readScalar s = .ok (v, rest)) :
    rest.length < s.length := by
  unfold readScalar at h
  split at h
  · next r word =>
      cases h
      have nonempty : ∀ w ∈ words, 0 < w.1.length := by decide
      obtain ⟨w, listed, found⟩ := List.exists_of_findSome?_eq_some word
      obtain ⟨after, dropped, same⟩ := Option.map_eq_some_iff.1 found
      cases same
      have positive := nonempty w listed
      rw [Text.dropStart?_eq_some_iff.1 dropped, List.length_append]
      omega
  · split at h
    · split at h
      · exact Nat.lt_succ_of_lt (length_lt_of_readNumber h)
      · exact length_lt_of_readNumber h
    · cases h

/-- The members of an object are its first one, and those behind a comma if there is one. -/
theorem exists_readsMember {fuel : Nat} {before members : List (Text × Json)} {s rest : Text}
    (h : readMembers (fuel + 1) before s = .ok (members, rest)) :
    ∃ key v after, ReadsMember fuel s key v after ∧
      (skipSpace after = CodePoint.ofChar '\x7d' :: rest ∧ members = Fields.set before key v ∨
        ∃ others, skipSpace after = CodePoint.ofChar ',' :: others ∧
          readMembers fuel (Fields.set before key v) (skipSpace others) = .ok (members, rest)) := by
  cases s with
  | nil => cases h
  | cons q inside =>
      rw [readMembers] at h
      split at h
      · next quote =>
          subst quote
          split at h
          · cases h
          · next key afterKey string =>
              split at h
              · cases h
              · next c afterColon colon =>
                  split at h
                  · next isColon =>
                      subst isColon
                      split at h
                      · cases h
                      · next v after read =>
                          refine ⟨key, v, after, ⟨inside, afterKey, afterColon, rfl, string, colon,
                            read⟩, ?_⟩
                          split at h
                          · cases h
                          · next d others spaces =>
                              split at h
                              · next closes =>
                                  cases h
                                  subst closes
                                  exact .inl ⟨spaces, rfl⟩
                              split at h
                              · next comma =>
                                  subst comma
                                  exact .inr ⟨others, spaces, h⟩
                              · cases h
                  · cases h
      · cases h

/-- With the given fuel, what is taken off a text is taken off the changed text. -/
structure RespacesAt (f : Text → Text) (fuel : Nat) : Prop where
  value : ∀ {s rest : Text} {v : Json}, readValue fuel s = .ok (v, rest) →
    Takes readValue (f s) v (f rest)
  items : ∀ {s rest : Text} {items : List Json}, readItems fuel s = .ok (items, rest) →
    Takes readItems (f s) items (f rest)
  members : ∀ {before members : List (Text × Json)} {s rest : Text},
    readMembers fuel before s = .ok (members, rest) →
    Takes (readMembers · before) (f s) members (f rest)

namespace Respaces

variable {f : Text → Text} (hf : Respaces f) {fuel : Nat}
include hf

theorem value_succ (ih : RespacesAt f fuel) {s rest : Text} {v : Json}
    (h : readValue (fuel + 1) s = .ok (v, rest)) : Takes readValue (f s) v (f rest) := by
  cases s with
  | nil => cases h
  | cons c s =>
      rw [readValue] at h
      split at h
      · next quote =>
          split at h
          · cases h
          · next string =>
              cases h
              subst quote
              rw [hf.keeps (by decide)]
              exact .str (hf.readString string _ (Nat.lt_succ_self _))
      split at h
      · next bracket =>
          subst bracket
          rw [hf.keeps (by decide)]
          split at h
          · cases h
          · next d after spaces =>
              split at h
              · next closes =>
                  cases h
                  subst closes
                  exact .arr_nil (hf.spaces spaces (by decide))
              · split at h
                · cases h
                · next read =>
                    cases h
                    have taken := ih.items read
                    rw [← spaces, ← hf.skipSpace_eq spaces (isBlank_of_readItems read)] at taken
                    exact .arr taken
      split at h
      · next brace =>
          subst brace
          rw [hf.keeps (by decide)]
          split at h
          · cases h
          · next d after spaces =>
              split at h
              · next closes =>
                  cases h
                  subst closes
                  exact .obj_nil (hf.spaces spaces (by decide))
              · split at h
                · cases h
                · next read =>
                    cases h
                    have taken := ih.members read
                    rw [← spaces, ← hf.skipSpace_eq spaces (isBlank_of_readMembers read)] at taken
                    exact .obj taken
      · exact .scalar (hf.readScalar h) (length_lt_of_readScalar (hf.readScalar h))

theorem items_succ (ih : RespacesAt f fuel) {s rest : Text} {items : List Json}
    (h : readItems (fuel + 1) s = .ok (items, rest)) : Takes readItems (f s) items (f rest) := by
  rw [readItems] at h
  split at h
  · cases h
  · next item after read =>
      have taken := ih.value read
      split at h
      · cases h
      · next c others spaces =>
          split at h
          · next closes =>
              cases h
              subst closes
              exact taken.items_last (hf.spaces spaces (by decide))
          split at h
          · next comma =>
              subst comma
              split at h
              · cases h
              · next later =>
                  cases h
                  obtain ⟨d, t, eq, -⟩ := exists_eq_cons_of_readItems later
                  have takenLater := ih.items later
                  rw [← hf.skipSpace_eq eq (isBlank_of_readItems (eq ▸ later))] at takenLater
                  exact taken.items_cons (hf.spaces spaces (by decide)) takenLater
          · cases h

theorem takesMember (ih : RespacesAt f fuel) {s key after : Text} {v : Json}
    (h : ReadsMember fuel s key v after) : TakesMember (f s) key v (f after) := by
  obtain ⟨inside, afterKey, afterColon, rfl, string, colon, read⟩ := h
  obtain ⟨c, t, eq, -⟩ := exists_eq_cons_of_readValue read
  have taken := ih.value read
  rw [← hf.skipSpace_eq eq (isBlank_of_readValue (eq ▸ read))] at taken
  rw [hf.keeps (by decide)]
  exact ⟨f inside, f afterKey, f afterColon, rfl, hf.readString string _ (Nat.lt_succ_self _),
    hf.spaces colon (by decide), taken⟩

theorem members_succ (ih : RespacesAt f fuel) {before members : List (Text × Json)} {s rest : Text}
    (h : readMembers (fuel + 1) before s = .ok (members, rest)) :
    Takes (readMembers · before) (f s) members (f rest) := by
  obtain ⟨key, v, after, read, ⟨closes, rfl⟩ | ⟨others, goesOn, later⟩⟩ := exists_readsMember h
  · exact (hf.takesMember ih read).last (hf.spaces closes (by decide))
  · obtain ⟨t, eq⟩ := exists_eq_cons_of_readMembers later
    have taken := ih.members later
    rw [← hf.skipSpace_eq eq (by decide)] at taken
    exact (hf.takesMember ih read).cons (hf.spaces goesOn (by decide)) taken

theorem respacesAt (fuel : Nat) : RespacesAt f fuel := by
  induction fuel with
  | zero =>
      constructor
      · intro s rest v h
        cases h
      · intro s rest items h
        cases h
      · intro before members s rest h
        cases h
  | succ fuel ih => exact ⟨hf.value_succ ih, hf.items_succ ih, hf.members_succ ih⟩

end Respaces

/-- White space and a value can be taken off the front of a text. -/
def Leads (s : Text) (v : Json) (rest : Text) : Prop := Takes readValue (skipSpace s) v rest

theorem skipSpace_eq_nil_iff {s : Text} : skipSpace s = [] ↔ ∀ c ∈ s, isSpace c = true := by
  rw [skipSpace, List.dropWhile_eq_nil_iff]

theorem exists_leads_of_parse {s : Text} {v : Json} (h : parse s = .ok v) :
    ∃ rest, Leads s v rest ∧ ∀ c ∈ rest, isSpace c = true := by
  have document : readDocument s = .ok v := by
    unfold parse at h
    split at h
    · next read =>
        cases h
        exact read
    · cases h
    · cases h
  unfold readDocument at document
  split at document
  · split at document
    · cases document
    split at document
    · cases document
    · next rest read =>
        split at document
        · next blank =>
            cases document
            exact ⟨rest, (respaces_id.respacesAt _).value read, skipSpace_eq_nil_iff.1 blank⟩
        · cases document
  · cases document

namespace Leads

variable {s rest : Text} {v : Json}

theorem exists_skipSpace_eq (h : Leads s v rest) :
    ∃ c t, skipSpace s = c :: t ∧ c.isBlank = false ∧ c ∉ outside := by
  have read := h.2 (2 * (skipSpace s).length) (Nat.le_add_right _ _)
  obtain ⟨c, t, eq, inside⟩ := exists_eq_cons_of_readValue read
  exact ⟨c, t, eq, isBlank_of_readValue (eq ▸ read), inside⟩

/-- What is read of a document that starts with a value. -/
theorem readDocument_eq (h : Leads s v rest) :
    readDocument s = if skipSpace rest = [] then .ok v
      else .error (.problem .extraData (skipSpace rest)) := by
  obtain ⟨c, t, eq, -, inside⟩ := h.exists_skipSpace_eq
  cases s with
  | nil => cases eq
  | cons d s =>
      have mark : d.val ≠ 0xFEFF := by
        intro same
        have isMark : d = CodePoint.ofNat 0xFEFF := CodePoint.eq_of_val_eq same
        rw [isMark, skipSpace, List.dropWhile_cons_of_neg (by decide)] at eq
        cases eq
        exact inside (by decide)
      have enough := length_skipSpace_le (d :: s)
      rw [readDocument, if_neg mark, h.2 _ (by omega)]
      dsimp only
      cases skipSpace rest with
      | nil => rfl
      | cons e after => rfl

theorem parse (h : Leads s v rest) (blank : ∀ c ∈ rest, isSpace c = true) :
    Json.parse s = .ok v := by
  rw [Json.parse, h.readDocument_eq, if_pos (skipSpace_eq_nil_iff.2 blank)]

/-- Something else behind the value makes the document malformed. -/
theorem exists_parse_eq_error (h : Leads s v rest) {c : CodePoint} (listed : c ∈ rest)
    (other : isSpace c = false) :
    ∃ place, Json.parse s = .error (.malformed .extraData place) := by
  have more : skipSpace rest ≠ [] := by
    intro blank
    exact absurd (skipSpace_eq_nil_iff.1 blank c listed) (by simp [other])
  rw [Json.parse, h.readDocument_eq, if_neg more]
  exact ⟨_, rfl⟩

theorem respace {f : Text → Text} (hf : Respaces f) (h : Leads s v rest) :
    Leads (f s) v (f rest) := by
  obtain ⟨c, t, eq, solid, -⟩ := h.exists_skipSpace_eq
  have read := h.2 _ (Nat.le_add_right _ _)
  rw [Leads, hf.skipSpace_eq eq solid]
  exact (hf.respacesAt _).value read

theorem append_left {blanks : Text} (blank : ∀ c ∈ blanks, isSpace c = true) (h : Leads s v rest) :
    Leads (blanks ++ s) v rest := by
  rw [Leads, skipSpace_append blank]
  exact h

/-- No blank in front of a value is anything but white space. -/
theorem dropWhile_isBlank (h : Leads s v rest) : Leads (s.dropWhile CodePoint.isBlank) v rest := by
  obtain ⟨c, t, eq, solid, inside⟩ := h.exists_skipSpace_eq
  have dropped : s.dropWhile CodePoint.isBlank = skipSpace s := by
    have blank : ∀ d ∈ s.takeWhile isSpace, d.isBlank = true :=
      fun d hd => isBlank_of_isSpace (List.mem_takeWhile_imp hd)
    calc s.dropWhile CodePoint.isBlank
        = (s.takeWhile isSpace ++ skipSpace s).dropWhile CodePoint.isBlank := by
          rw [skipSpace, List.takeWhile_append_dropWhile]
      _ = (skipSpace s).dropWhile CodePoint.isBlank := List.dropWhile_append_of_pos blank
      _ = skipSpace s := by rw [eq, List.dropWhile_cons_of_neg (by simp [solid])]
  rw [Leads, dropped, eq, skipSpace_cons inside, ← eq]
  exact h

end Leads

theorem isSpace_of_solid {c : CodePoint} (solid : c.isBlank = false) : isSpace c = false := by
  by_contra space
  rw [Bool.not_eq_false] at space
  exact absurd (isBlank_of_isSpace space) (by simp [solid])

theorem exists_solid_of_parse {s : Text} {v : Json} (h : parse s = .ok v) :
    ∃ c ∈ s, c.isBlank = false := by
  obtain ⟨rest, leads, -⟩ := exists_leads_of_parse h
  obtain ⟨c, t, eq, solid, -⟩ := leads.exists_skipSpace_eq
  exact ⟨c, mem_of_skipSpace eq, solid⟩

theorem skipSpace_append_of_ne_nil {s : Text} (h : skipSpace s ≠ []) (t : Text) :
    skipSpace (s ++ t) = skipSpace s ++ t := by
  rw [skipSpace, List.dropWhile_append, if_neg (by simpa [skipSpace] using h), skipSpace]

/-- Text may follow, if a blank comes first. -/
theorem respaces_append {tail : Text} (pauses : Pauses tail) : Respaces (· ++ tail) where
  keeps _ := rfl
  keepsInside _ _ _ := rfl
  spaces {c s t} h _ := by
    have nonempty : skipSpace s ≠ [] := by
      rw [h]
      exact List.cons_ne_nil c t
    rw [skipSpace_append_of_ne_nil nonempty, h, List.cons_append]
  pauses {s} h := by
    cases s with
    | nil => exact pauses
    | cons c s => exact h
  mem h _ := List.mem_append_left tail h

theorem rdropWhile_cons {α : Type} {p : α → Bool} {a b : α} {l : List α} (listed : b ∈ a :: l)
    (kept : p b = false) : (a :: l).rdropWhile p = a :: l.rdropWhile p := by
  rw [List.rdropWhile, List.reverse_cons, List.dropWhile_append]
  split
  · next none =>
      have dropped : l.rdropWhile p = [] := by
        rw [List.rdropWhile, List.isEmpty_iff.1 none, List.reverse_nil]
      have first : p a = false := by
        rcases List.mem_cons.1 listed with rfl | later
        · exact kept
        · exact absurd (List.rdropWhile_eq_nil_iff.1 dropped b later) (by simp [kept])
      rw [dropped, List.dropWhile_cons_of_neg (by simp [first]), List.reverse_singleton]
  · rw [List.reverse_append, List.reverse_singleton, List.singleton_append, List.rdropWhile]

/-- Blanks may be dropped at the end. -/
theorem respaces_rdropWhile : Respaces (List.rdropWhile CodePoint.isBlank) where
  keeps solid := rdropWhile_cons List.mem_cons_self solid
  keepsInside _ listed solid := rdropWhile_cons (List.mem_cons_of_mem _ listed) solid
  spaces {c s t} h solid := by
    induction s with
    | nil => cases h
    | cons d s ih =>
        rw [rdropWhile_cons (mem_of_skipSpace h) solid]
        by_cases space : isSpace d = true
        · rw [skipSpace, List.dropWhile_cons_of_pos space] at h ⊢
          exact ih h
        · rw [skipSpace, List.dropWhile_cons_of_neg space] at h ⊢
          cases h
          rfl
  pauses {s} h c first := by
    rw [← List.rdropWhile_append_rtakeWhile (p := CodePoint.isBlank) (l := s)] at h
    exact h c (List.mem_head?_append_of_mem_head? first)
  mem {c s} listed solid := by
    rw [← List.rdropWhile_append_rtakeWhile (p := CodePoint.isBlank) (l := s),
      List.mem_append] at listed
    refine listed.resolve_right fun blank => ?_
    exact absurd (List.mem_rtakeWhile_imp blank) (by simp [solid])

/-- Line ends may be made equal. -/
theorem respaces_normalizeLines : Respaces Text.normalizeLines where
  keeps {c s} solid := Text.normalizeLines_cons (ne_of_isBlank (by decide) solid).symm s
  keepsInside {c d s} printable _ _ := by
    refine Text.normalizeLines_cons ?_ s
    rintro rfl
    exact absurd printable (by decide)
  spaces {c s t} h solid := by
    fun_induction Text.normalizeLines s with
    | case1 => cases h
    | case2 => cases h
    | case3 s ih => exact ih h
    | case4 d s notLine ih => exact ih h
    | case5 d s notReturn ih =>
        by_cases space : isSpace d = true
        · rw [skipSpace, List.dropWhile_cons_of_pos space] at h ⊢
          exact ih h
        · rw [skipSpace, List.dropWhile_cons_of_neg space] at h ⊢
          cases h
          rfl
  pauses {s} h := by
    fun_cases Text.normalizeLines s with
    | case1 => exact h
    | case2 =>
        rintro _ ⟨⟩
        decide
    | case3 s =>
        rintro _ ⟨⟩
        decide
    | case4 d s notLine =>
        rintro _ ⟨⟩
        decide
    | case5 d s notReturn => exact h
  mem {c s} listed solid := by
    have notReturn : c ≠ '\r' := (ne_of_isBlank (by decide) solid).symm
    have notLine : c ≠ '\n' := (ne_of_isBlank (by decide) solid).symm
    fun_induction Text.normalizeLines s with
    | case1 => cases listed
    | case2 => exact absurd (List.mem_singleton.1 listed) notReturn
    | case3 s ih =>
        rw [List.mem_cons, List.mem_cons] at listed
        exact List.mem_cons_of_mem _ (ih ((listed.resolve_left notReturn).resolve_left notLine))
    | case4 d s _ ih =>
        exact List.mem_cons_of_mem _ (ih ((List.mem_cons.1 listed).resolve_left notReturn))
    | case5 d s _ ih =>
        rcases List.mem_cons.1 listed with rfl | later
        · exact List.mem_cons_self
        · exact List.mem_cons_of_mem _ (ih later)

variable {s : Text} {v : Json}

/-- White space around a document means nothing. -/
theorem parse_append {before behind : Text} (blankBefore : ∀ c ∈ before, isSpace c = true)
    (blankBehind : ∀ c ∈ behind, isSpace c = true) (h : parse s = .ok v) :
    parse (before ++ (s ++ behind)) = .ok v := by
  obtain ⟨rest, leads, blank⟩ := exists_leads_of_parse h
  have pauses : Pauses behind := fun c first =>
    isBlank_of_isSpace (blankBehind c (List.mem_of_mem_head? first))
  refine ((leads.respace (respaces_append pauses)).append_left blankBefore).parse ?_
  exact List.forall_mem_append.2 ⟨blank, blankBehind⟩

theorem isSpace_of_mem_normalizeLines {t : Text} (h : ∀ c ∈ t, isSpace c = true) :
    ∀ c ∈ t.normalizeLines, isSpace c = true := by
  fun_induction Text.normalizeLines t with
  | case1 => exact h
  | case2 => decide
  | case3 s ih =>
      rw [List.forall_mem_cons, List.forall_mem_cons] at h
      exact List.forall_mem_cons.2 ⟨by decide, ih h.2.2⟩
  | case4 d s notLine ih =>
      rw [List.forall_mem_cons] at h
      exact List.forall_mem_cons.2 ⟨by decide, ih h.2⟩
  | case5 d s notReturn ih =>
      rw [List.forall_mem_cons] at h
      exact List.forall_mem_cons.2 ⟨h.1, ih h.2⟩

theorem parse_normalizeLines (h : parse s = .ok v) : parse s.normalizeLines = .ok v := by
  obtain ⟨rest, leads, blank⟩ := exists_leads_of_parse h
  exact (leads.respace respaces_normalizeLines).parse (isSpace_of_mem_normalizeLines blank)

theorem Leads.trim {rest : Text} (h : Leads s v rest) :
    Leads s.trim v (rest.rdropWhile CodePoint.isBlank) :=
  h.dropWhile_isBlank.respace respaces_rdropWhile

theorem parse_trim (h : parse s = .ok v) : parse s.trim = .ok v := by
  obtain ⟨rest, leads, blank⟩ := exists_leads_of_parse h
  exact leads.trim.parse fun c hc => blank c ((List.rdropWhile_prefix ..).subset hc)

end Json

end JsonShapes
