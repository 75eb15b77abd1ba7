import JsonShapes.Emit.Writer
import JsonShapes.Proofs.Quoting
import JsonShapes.Text.Lines
import Mathlib.Data.List.Forall2

/-!
# The tokens of emitted text

A scanner takes emitted text apart into words, string literals and marks. Blanks end a word and mean
nothing else, so that the layout of the text leaves no trace in its tokens. A string literal ends at
the first quote that no backslash stands before, whatever it holds.

The scanner is a machine that is fed one code point at a time. What it does with a piece of text
does not depend on the tokens before it, so pieces that end with a token are taken apart one by one.
-/

namespace JsonShapes

namespace Emit

/-- The letters of ASCII. -/
def isLetter (c : CodePoint) : Bool := c.isLowerLetter || c.isUpperLetter

inductive Token where
  | word (letters : Text)
  /-- A string literal as it is spelled, quotes included. -/
  | literal (spelling : Text)
  | mark (c : CodePoint)
deriving DecidableEq

/-- The token that the next code point may continue. -/
inductive Pending where
  /-- The letters of a word, or nothing. -/
  | word (letters : Text)
  | literal (spelling : Text)
  /-- A literal up to a backslash. -/
  | escape (spelling : Text)
deriving DecidableEq

/-- The tokens that have been read, from the last one on, and the pending one. -/
structure Scanner where
  tokens : List Token
  pending : Pending
deriving DecidableEq

namespace Scanner

/-- The tokens once no further letter follows. -/
def closeWord (letters : Text) (tokens : List Token) : List Token :=
  if letters.isEmpty then tokens else .word letters :: tokens

def step : Scanner → CodePoint → Scanner
  | ⟨tokens, .word letters⟩, c =>
    if c.isBlank then ⟨closeWord letters tokens, .word []⟩
    else if isLetter c then ⟨tokens, .word (letters ++ [c])⟩
    else if c = '"' then ⟨closeWord letters tokens, .literal [c]⟩
    else ⟨.mark c :: closeWord letters tokens, .word []⟩
  | ⟨tokens, .literal spelling⟩, c =>
    if c = '"' then ⟨.literal (spelling ++ [c]) :: tokens, .word []⟩
    else if c = '\\' then ⟨tokens, .escape (spelling ++ [c])⟩
    else ⟨tokens, .literal (spelling ++ [c])⟩
  | ⟨tokens, .escape spelling⟩, c => ⟨tokens, .literal (spelling ++ [c])⟩

def run (s : Scanner) (t : Text) : Scanner := t.foldl step s

/-- The scanner as if the given tokens had been read before. -/
def after (before : List Token) (s : Scanner) : Scanner := ⟨s.tokens ++ before, s.pending⟩

theorem closeWord_append (letters : Text) (tokens before : List Token) :
    closeWord letters (tokens ++ before) = closeWord letters tokens ++ before := by
  unfold closeWord
  split <;> rfl

/-- A step does not look at the tokens that have been read. -/
theorem step_after (before : List Token) (s : Scanner) (c : CodePoint) :
    step (after before s) c = after before (step s c) := by
  obtain ⟨tokens, pending⟩ := s
  cases pending with
  | word letters =>
      simp only [after, step, closeWord_append]
      split
      · rfl
      split
      · rfl
      split
      · rfl
      · rfl
  | literal spelling =>
      simp only [after, step]
      split
      · rfl
      split
      · rfl
      · rfl
  | escape spelling => rfl

theorem run_after (before : List Token) (s : Scanner) (t : Text) :
    run (after before s) t = after before (run s t) := by
  induction t generalizing s with
  | nil => rfl
  | cons c t ih =>
      change run (step (after before s) c) t = after before (run (step s c) t)
      rw [step_after, ih]

theorem run_append (s : Scanner) (t u : Text) : run s (t ++ u) = run (run s t) u :=
  List.foldl_append

end Scanner

open Scanner

/-- The tokens of a text, unless it ends inside a string literal. -/
def tokenize (t : Text) : Option (List Token) :=
  match run ⟨[], .word []⟩ t with
  | ⟨tokens, .word letters⟩ => some (closeWord letters tokens).reverse
  | _ => none

/-- The text is made of the given tokens and ends with the last of them. -/
def Lexes (t : Text) (tokens : List Token) : Prop :=
  run ⟨[], .word []⟩ t = ⟨tokens.reverse, .word []⟩

instance (t : Text) (tokens : List Token) : Decidable (Lexes t tokens) :=
  inferInstanceAs (Decidable (_ = _))

theorem Lexes.tokenize {t : Text} {tokens : List Token} (h : Lexes t tokens) :
    tokenize t = some tokens := by
  rw [Emit.tokenize, show run ⟨[], .word []⟩ t = _ from h]
  exact congrArg some (List.reverse_reverse tokens)

theorem Lexes.nil : Lexes [] [] := rfl

theorem Lexes.append {t u : Text} {tokens others : List Token} (h : Lexes t tokens)
    (next : Lexes u others) : Lexes (t ++ u) (tokens ++ others) := by
  have start : (⟨tokens.reverse, .word []⟩ : Scanner) = after tokens.reverse ⟨[], .word []⟩ := rfl
  rw [Lexes, run_append, show run ⟨[], .word []⟩ t = _ from h, start, run_after,
    show run ⟨[], .word []⟩ u = _ from next, after, List.reverse_append]

theorem Lexes.of_blank {t : Text} (h : ∀ c ∈ t, c.isBlank = true) : Lexes t [] := by
  induction t with
  | nil => exact .nil
  | cons c t ih =>
      rw [List.forall_mem_cons] at h
      have first : Lexes [c] [] := by
        simp [Lexes, run, step, h.1, closeWord]
      exact first.append (ih h.2)

/-- The text does not continue a word. Behind a text that ends with a word, which further letters
would continue, only such a text can stand. -/
def StartsApart (t : Text) : Prop := ∀ c ∈ t.head?, isLetter c = false

instance (t : Text) : Decidable (StartsApart t) :=
  inferInstanceAs (Decidable (∀ c ∈ t.head?, isLetter c = false))

theorem StartsApart.nil : StartsApart [] := by decide

theorem StartsApart.append {t u : Text} (h : StartsApart t) (next : StartsApart u) :
    StartsApart (t ++ u) := by
  cases t with
  | nil => exact next
  | cons c t => exact h

theorem StartsApart.append_left {t : Text} (h : StartsApart t) (nonempty : t ≠ []) (u : Text) :
    StartsApart (t ++ u) := by
  cases t with
  | nil => exact absurd rfl nonempty
  | cons c t => exact h

theorem not_isLetter_of_isBlank {c : CodePoint} (h : c.isBlank = true) : isLetter c = false := by
  simp only [CodePoint.isBlank, CodePoint.isWhiteSpace, Bool.or_eq_true, Bool.and_eq_true,
    decide_eq_true_eq, beq_iff_eq] at h
  simp only [isLetter, CodePoint.isLowerLetter, CodePoint.isUpperLetter, Bool.or_eq_false_iff,
    Bool.and_eq_false_iff, decide_eq_false_iff_not]
  omega

theorem StartsApart.of_blank {t : Text} (h : ∀ c ∈ t, c.isBlank = true) : StartsApart t :=
  fun _ first => not_isLetter_of_isBlank (h _ (List.mem_of_mem_head? first))

theorem tokenize_eq_some_iff {t : Text} {tokens : List Token} :
    tokenize t = some tokens ↔
      ∃ read letters, run ⟨[], .word []⟩ t = ⟨read, .word letters⟩ ∧
        closeWord letters read = tokens.reverse := by
  rw [tokenize]
  split
  · next read letters eq =>
      rw [Option.some.injEq, List.reverse_eq_iff]
      constructor
      · exact fun closed => ⟨read, letters, eq, closed⟩
      · rintro ⟨read', letters', eq', closed⟩
        cases eq.symm.trans eq'
        exact closed
  · next other =>
      constructor
      · intro impossible
        cases impossible
      · rintro ⟨read, letters, eq, -⟩
        exact absurd eq (other read letters)

/-- A code point other than a letter ends the pending word. -/
theorem step_word {c : CodePoint} (h : isLetter c = false) (tokens : List Token) (letters : Text) :
    step ⟨tokens, .word letters⟩ c = step ⟨closeWord letters tokens, .word []⟩ c := by
  have closed : closeWord [] (closeWord letters tokens) = closeWord letters tokens := rfl
  simp only [step, h, closed, Bool.false_eq_true, if_false]

theorem run_append_of_tokenize {t : Text} {tokens : List Token} (h : tokenize t = some tokens)
    {u : Text} (nonempty : u ≠ []) (apart : StartsApart u) :
    run ⟨[], .word []⟩ (t ++ u) = after tokens.reverse (run ⟨[], .word []⟩ u) := by
  obtain ⟨read, letters, eq, closed⟩ := tokenize_eq_some_iff.mp h
  cases u with
  | nil => exact absurd rfl nonempty
  | cons c u =>
      have notLetter : isLetter c = false := apart c rfl
      rw [run_append, eq, ← run_after]
      change run (step ⟨read, .word letters⟩ c) u = run (step ⟨tokens.reverse, .word []⟩ c) u
      rw [step_word notLetter, closed]

theorem tokenize_of_run_eq_after {t u : Text} {tokens others : List Token}
    (h : run ⟨[], .word []⟩ t = after tokens.reverse (run ⟨[], .word []⟩ u))
    (later : tokenize u = some others) : tokenize t = some (tokens ++ others) := by
  obtain ⟨read, letters, eq, closed⟩ := tokenize_eq_some_iff.mp later
  refine tokenize_eq_some_iff.mpr ⟨read ++ tokens.reverse, letters, ?_, ?_⟩
  · rw [h, eq, after]
  · rw [closeWord_append, closed, List.reverse_append]

theorem tokenize_append {t u : Text} {tokens others : List Token} (h : tokenize t = some tokens)
    (apart : StartsApart u) (next : tokenize u = some others) :
    tokenize (t ++ u) = some (tokens ++ others) := by
  cases u with
  | nil =>
      have none : [] = others := Option.some.inj next
      rwa [← none, List.append_nil, List.append_nil]
  | cons c u =>
      have run := run_append_of_tokenize h (List.cons_ne_nil c u) apart
      exact tokenize_of_run_eq_after run next

theorem tokenize_append_of_lexes {t u : Text} {tokens others : List Token} (h : Lexes t tokens)
    (next : tokenize u = some others) : tokenize (t ++ u) = some (tokens ++ others) := by
  refine tokenize_of_run_eq_after ?_ next
  rw [run_append, show run ⟨[], .word []⟩ t = _ from h, ← run_after]
  rfl

theorem lexes_append_of_tokenize {t u : Text} {tokens others : List Token}
    (h : tokenize t = some tokens) (nonempty : u ≠ []) (apart : StartsApart u)
    (next : Lexes u others) : Lexes (t ++ u) (tokens ++ others) := by
  rw [Lexes, run_append_of_tokenize h nonempty apart, show run ⟨[], .word []⟩ u = _ from next,
    after, List.reverse_append]

theorem Lexes.ne_nil {t : Text} {tokens : List Token} (h : Lexes t tokens)
    (nonempty : tokens ≠ []) : t ≠ [] := by
  rintro rfl
  exact nonempty (List.reverse_eq_nil_iff.mp (congrArg Scanner.tokens h).symm)

theorem run_literal_of_ne (tokens : List Token) (spelling : Text) {t : Text}
    (h : ∀ c ∈ t, c ≠ '"' ∧ c ≠ '\\') :
    run ⟨tokens, .literal spelling⟩ t = ⟨tokens, .literal (spelling ++ t)⟩ := by
  induction t generalizing spelling with
  | nil => rw [List.append_nil]; rfl
  | cons c t ih =>
      rw [List.forall_mem_cons] at h
      obtain ⟨⟨quote, backslash⟩, rest⟩ := h
      change run (step ⟨tokens, .literal spelling⟩ c) t = _
      rw [step, if_neg quote, if_neg backslash, ih _ rest, List.append_assoc, List.singleton_append]

theorem run_unicodeEscape (tokens : List Token) (spelling : Text) (n : Nat) :
    run ⟨tokens, .literal spelling⟩ (Quoted.unicodeEscape n) =
      ⟨tokens, .literal (spelling ++ Quoted.unicodeEscape n)⟩ := by
  have digits : ∀ c ∈ Text.hex 4 n, c ≠ '"' ∧ c ≠ '\\' := by
    intro c hc
    obtain ⟨low, -, backslash⟩ := Text.val_of_mem_hex hc
    constructor
    · rintro rfl
      exact absurd low (by decide)
    · rintro rfl
      exact backslash rfl
  -- the backslash hides the letter after it, and what follows are digits
  change run ⟨tokens, .literal (spelling ++ [CodePoint.ofChar '\\'] ++ [CodePoint.ofChar 'u'])⟩
    (Text.hex 4 n) = _
  rw [run_literal_of_ne tokens _ digits]
  simp [Quoted.unicodeEscape]

/-- The spelling of a code point does not end a string literal. -/
theorem run_escaped (tokens : List Token) (spelling : Text) {c : CodePoint} {text : Text}
    (h : Quoted.Escaped c text) :
    run ⟨tokens, .literal spelling⟩ text = ⟨tokens, .literal (spelling ++ text)⟩ := by
  cases h with
  | itself printable quote backslash =>
      apply run_literal_of_ne
      rw [List.forall_mem_singleton]
      exact ⟨fun same => quote (CodePoint.eq_ofChar_iff.1 same),
        fun same => backslash (CodePoint.eq_ofChar_iff.1 same)⟩
  | @short e notNumber short =>
      change (⟨tokens, .literal (spelling ++ [CodePoint.ofChar '\\'] ++ [e])⟩ : Scanner) = _
      rw [List.append_assoc, List.singleton_append]
  | number bound => exact run_unicodeEscape tokens spelling _
  | pair bound =>
      rw [run_append, run_unicodeEscape, run_unicodeEscape, List.append_assoc]

theorem run_flatMap {spell : CodePoint → Text} (h : Quoted.IsSpelling spell)
    (tokens : List Token) (spelling t : Text) :
    run ⟨tokens, .literal spelling⟩ (t.flatMap spell) =
      ⟨tokens, .literal (spelling ++ t.flatMap spell)⟩ := by
  induction t generalizing spelling with
  | nil =>
      rw [List.flatMap_nil, List.append_nil]
      rfl
  | cons c t ih =>
      rw [List.flatMap_cons, run_append, run_escaped tokens spelling (h.escaped c), ih,
        List.append_assoc]

/-- A quoted text is one token. -/
theorem Lexes.quote (t : Text) : Lexes t.quote [.literal t.quote] := by
  rw [Quoted.quote_eq, Lexes]
  change run ⟨[], .literal [CodePoint.ofChar '"']⟩
    (t.flatMap Quoted.spellPlain ++ [CodePoint.ofChar '"']) = _
  rw [run_append, run_flatMap Quoted.isSpelling_spellPlain]
  rfl

/-- Lines are indented by blanks, if the output has lines. -/
def Options.Blank (o : Options) : Prop := o.minify = true ∨ ∀ c ∈ o.indent, c.isBlank = true

variable {o : Options}

theorem Lexes.newline (o : Options) : Lexes o.newline [] := by
  unfold Options.newline
  split
  · exact .nil
  · decide +kernel

theorem Lexes.times {t : Text} (h : Lexes t []) (n : Nat) : Lexes (Text.times n t) [] := by
  induction n with
  | zero => exact .nil
  | succ n ih => exact h.append ih

theorem Lexes.pad (blank : o.Blank) (depth : Nat) : Lexes (o.pad depth) [] := by
  unfold Options.pad
  split
  · exact .nil
  · next lines =>
      have indent : ∀ c ∈ o.indent, c.isBlank = true := blank.resolve_left lines
      exact (Lexes.of_blank indent).times depth

theorem StartsApart.newline (o : Options) : StartsApart o.newline := by
  unfold Options.newline
  split
  · exact .nil
  · decide

theorem StartsApart.pad (blank : o.Blank) (depth : Nat) : StartsApart (o.pad depth) := by
  unfold Options.pad
  split
  · exact .nil
  · next lines =>
      have indent : StartsApart o.indent := .of_blank (blank.resolve_left lines)
      induction depth with
      | zero => exact .nil
      | succ depth ih => exact indent.append ih

theorem Lexes.keySeparator (o : Options) : Lexes o.keySeparator [.mark ':'] := by
  unfold Options.keySeparator
  split
  · decide +kernel
  · decide +kernel

theorem writeMembers_eq_map (g : Grammar) (o : Options) (depth : Nat)
    (fields : List (Text × Shape)) :
    writeMembers g o depth fields =
      fields.map fun f => f.1.quote ++ o.keySeparator ++ write g o depth f.2 := by
  induction fields with
  | nil => rfl
  | cons f fields ih => rw [writeMembers, ih, List.map_cons]

theorem writeAll_eq_map (g : Grammar) (o : Options) (depth : Nat) (shapes : List Shape) :
    writeAll g o depth shapes = shapes.map (write g o depth) := by
  induction shapes with
  | nil => rfl
  | cons s shapes ih => rw [writeAll, ih, List.map_cons]

/-- Lists of tokens with a separator between them. -/
def separated (separator : Token) : List (List Token) → List Token
  | [] => []
  | [item] => item
  | item :: items => item ++ separator :: separated separator items

/-- A separator that no word runs into keeps the tokens of the texts that it joins apart. -/
theorem tokenize_join {separator : Text} {token : Token} (lexes : Lexes separator [token])
    (apart : StartsApart separator) {texts : List Text} {items : List (List Token)}
    (h : List.Forall₂ (fun t tokens => tokenize t = some tokens) texts items) :
    tokenize (Text.join separator texts) = some (separated token items) := by
  have separates : ∀ t, StartsApart (separator ++ t) :=
    apart.append_left (lexes.ne_nil (List.cons_ne_nil _ _))
  induction h with
  | nil => rfl
  | cons first rest ih =>
      cases rest with
      | nil => exact first
      | cons second rest =>
          have whole := tokenize_append first (separates _) (tokenize_append_of_lexes lexes ih)
          rw [← List.append_assoc] at whole
          exact whole

/-- Items on lines of their own are separated by the separators only. -/
theorem Lexes.block (blank : o.Blank) {b : Brackets} {opening closing : List Token}
    (opens : Lexes b.opening opening) (closes : Lexes b.closing closing)
    (closesApart : StartsApart b.closing) (nonempty : closing ≠ []) {separator : Text}
    {token : Token} (lexes : Lexes separator [token]) (apart : StartsApart separator) (depth : Nat)
    {texts : List Text} {items : List (List Token)}
    (h : List.Forall₂ (fun t tokens => Emit.tokenize t = some tokens) texts items) :
    Lexes (block o depth b separator texts) (opening ++ separated token items ++ closing) := by
  have padded : List.Forall₂ (fun t tokens => Emit.tokenize t = some tokens)
      (texts.map fun item => o.pad (depth + 1) ++ item) items := by
    rw [List.forall₂_map_left_iff]
    exact h.imp fun _ _ item => tokenize_append_of_lexes (Lexes.pad blank (depth + 1)) item
  have separates : StartsApart (separator ++ o.newline) :=
    apart.append_left (lexes.ne_nil (List.cons_ne_nil _ _)) _
  have joined := tokenize_join (lexes.append (.newline o)) separates padded
  have last := ((Lexes.newline o).append (Lexes.pad blank depth)).append closes
  have lastApart := ((StartsApart.newline o).append (.pad blank depth)).append closesApart
  have inside := lexes_append_of_tokenize joined (last.ne_nil nonempty) lastApart last
  have whole := (opens.append (.newline o)).append inside
  rw [Emit.block]
  simpa using whole

theorem exists_separated_cons (separator : Token) (item : List Token) (items : List (List Token)) :
    ∃ rest, separated separator (item :: items) = item ++ rest := by
  cases items with
  | nil => exact ⟨[], (List.append_nil item).symm⟩
  | cons second items => exact ⟨_, rfl⟩

theorem length_le_separated (separator : Token) {items : List (List Token)}
    (h : ∀ item ∈ items, item ≠ []) : items.length ≤ (separated separator items).length := by
  induction items with
  | nil => exact Nat.zero_le _
  | cons item items ih =>
      rw [List.forall_mem_cons] at h
      have positive := List.length_pos_iff.mpr h.1
      cases items with
      | nil => exact positive
      | cons second items =>
          have others := ih h.2
          simp only [separated, List.length_append, List.length_cons] at others ⊢
          omega

theorem length_le_of_mem_separated (separator : Token) {items : List (List Token)}
    {item : List Token} (h : item ∈ items) : item.length ≤ (separated separator items).length := by
  induction items with
  | nil => cases h
  | cons first items ih =>
      cases items with
      | nil =>
          rw [List.mem_singleton.mp h]
          exact Nat.le_refl _
      | cons second items =>
          rw [separated, List.length_append, List.length_cons]
          · cases h with
            | head => exact Nat.le_add_right _ _
            | tail _ h =>
                have := ih h
                omega
          · exact List.cons_ne_nil _ _

theorem dropPrefix?_mark (c : CodePoint) (rest : List Token) :
    (Token.mark c :: rest).dropPrefix? [.mark c] = some rest := by
  simp [List.dropPrefix?]

theorem dropPrefix?_eq_none {t : Token} {c : CodePoint} (other : t ≠ .mark c)
    (rest : List Token) : (t :: rest).dropPrefix? [.mark c] = none := by
  simp [List.dropPrefix?, other]

/-- Items with a mark between them, at least one. The fuel bounds their number. -/
def readSequence {α : Type} (separator : CodePoint) (item : List Token → Option (α × List Token)) :
    Nat → List Token → Option (List α × List Token)
  | 0, _ => none
  | fuel + 1, tokens => do
    let (first, rest) ← item tokens
    match rest.dropPrefix? [.mark separator] with
    | some rest =>
      let (others, rest) ← readSequence separator item fuel rest
      some (first :: others, rest)
    | none => some ([first], rest)

/-- Items are read one by one, if each is read before a separator and before what follows all. -/
theorem readSequence_separated {α β : Type} {separator : CodePoint}
    {item : List Token → Option (α × List Token)} {value : β → α} {tokens : β → List Token}
    {l : List β} {follows : List Token → Prop} {rest : List Token}
    (between : ∀ after, follows (.mark separator :: after)) (last : follows rest)
    (ends : rest.dropPrefix? [.mark separator] = none)
    (reads : ∀ b ∈ l, ∀ after, follows after →
      item (tokens b ++ after) = some (value b, after))
    (nonempty : l ≠ []) {fuel : Nat} (enough : l.length ≤ fuel) :
    readSequence separator item fuel (separated (.mark separator) (l.map tokens) ++ rest) =
      some (l.map value, rest) := by
  induction l generalizing fuel with
  | nil => exact absurd rfl nonempty
  | cons b l ih =>
      obtain ⟨fuel, rfl⟩ := Nat.exists_eq_add_of_le' (Nat.le_trans (Nat.succ_pos l.length) enough)
      rw [List.forall_mem_cons] at reads
      cases l with
      | nil =>
          have first := reads.1 rest last
          simp only [List.map_cons, List.map_nil, separated, readSequence, first, ends, bind,
            Option.bind_some]
      | cons second l =>
          have others := ih reads.2 (List.cons_ne_nil _ _) (Nat.le_of_succ_le_succ enough)
          have first := reads.1 _
            (between (separated (.mark separator) ((second :: l).map tokens) ++ rest))
          have split : separated (.mark separator) ((b :: second :: l).map tokens) ++ rest =
              tokens b ++ .mark separator ::
                (separated (.mark separator) ((second :: l).map tokens) ++ rest) := by
            simp [separated]
          rw [split, readSequence]
          simp only [first, dropPrefix?_mark, others, bind, Option.bind_some]
          rfl

end Emit

end JsonShapes
