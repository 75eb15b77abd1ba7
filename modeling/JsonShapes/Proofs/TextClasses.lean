import JsonShapes.Proofs.FreshNames
import JsonShapes.Proofs.Inferring
import JsonShapes.Proofs.Tokens

/-!
# Classes of texts

What is written is put together from plain texts, string literals and layout. So a class of texts
that holds these, and with two texts the text that they make up, holds whatever is written: JSON
documents, expressions of both languages and the modules that export them. That a text can be
encoded, is ASCII, or lacks some control character are all of this kind.
-/

namespace JsonShapes

namespace Text

/-- A class of texts that holds the plain ones and, with two texts, the text that they make up. -/
structure Closed (Q : Text → Prop) : Prop where
  plain {t : Text} (h : t.IsPlain) : Q t
  append {s t : Text} (hs : Q s) (ht : Q t) : Q (s ++ t)

/-- The texts whose code points are all of a kind are closed, if plain ones are of that kind. -/
theorem closed_forall {P : CodePoint → Prop} (plain : ∀ c : CodePoint, c.IsPlain → P c) :
    Closed fun t => ∀ c ∈ t, P c where
  plain h c hc := plain c (h c hc)
  append hs ht := List.forall_mem_append.2 ⟨hs, ht⟩

/-- The text holds none of the given code points. -/
def Avoids (points : List CodePoint) (t : Text) : Prop := ∀ c ∈ t, c ∉ points

instance (points : List CodePoint) : DecidablePred (Avoids points) :=
  fun t => inferInstanceAs (Decidable (∀ c ∈ t, c ∉ points))

section

variable {points : List CodePoint} (control : ∀ c ∈ points, c.val < 0x20)

include control

theorem avoids_of_printable {t : Text} (h : ∀ c ∈ t, 0x20 ≤ c.val) : t.Avoids points :=
  fun c member listed => Nat.not_lt.2 (h c member) (control c listed)

/-- Control characters are not plain, so the texts that avoid some of them are closed. -/
theorem closed_avoids : Closed (Avoids points) :=
  closed_forall fun c plain listed => Nat.not_lt.2 plain.1 (control c listed)

end

namespace Closed

variable {Q : Text → Prop} (closed : Closed Q)

include closed

theorem nil : Q [] := closed.plain (List.forall_mem_nil _)

theorem flatMap {α : Type} {f : α → Text} {l : List α} (h : ∀ a ∈ l, Q (f a)) :
    Q (l.flatMap f) := by
  induction l with
  | nil => exact closed.nil
  | cons a l ih =>
      rw [List.forall_mem_cons] at h
      exact closed.append h.1 (ih h.2)

theorem join {separator : Text} (between : Q separator) {items : List Text}
    (each : ∀ t ∈ items, Q t) : Q (join separator items) := by
  fun_induction Text.join separator items with
  | case1 => exact closed.nil
  | case2 piece => exact each piece (List.mem_singleton_self piece)
  | case3 piece pieces several ih =>
      rw [List.forall_mem_cons] at each
      exact closed.append (closed.append each.1 between) (ih each.2)

theorem times {t : Text} (h : Q t) (n : Nat) : Q (times n t) := by
  induction n with
  | zero => exact closed.nil
  | succ n ih => exact closed.append h ih

end Closed

end Text

/-- What can stand in an identifier is plain. -/
theorem Naming.IsIdentifier.isPlain {name : Text} (h : IsIdentifier name) : name.IsPlain := by
  intro c hc
  have point := h c hc
  simp only [isIdentifierPoint, CodePoint.isAlphanumeric, CodePoint.isLowerLetter,
    CodePoint.isUpperLetter, CodePoint.isDigit, Bool.or_eq_true, Bool.and_eq_true,
    decide_eq_true_eq, CodePoint.eq_ofChar_iff] at point
  have underscore : '_'.toNat = 0x5F := rfl
  have dollar : '$'.toNat = 0x24 := rfl
  unfold CodePoint.IsPlain
  omega

namespace Emit

/-- The tokens that are the same for all shapes. -/
def Grammar.tokens (g : Grammar) : List Text :=
  [g.literal.opening, g.literal.closing, g.optional.opening, g.optional.closing, g.record.opening,
    g.record.closing, g.emptyRecord, g.memberSeparator, g.array.opening, g.array.closing,
    g.unionClosing, g.alternativeSeparator, g.tightSeparator, g.declaration]

theorem isPlain_tokens (target : Target) : ∀ t ∈ target.grammar.tokens, t.IsPlain := by
  cases target with
  | typescript => decide
  | zod => decide

end Emit

section

open Text (Closed)

variable {Q : Text → Prop} (closed : Closed Q)

include closed

namespace Json

/-- Strings as the layout spells them and what it puts between values are in the class. -/
structure Layout.Keeps (layout : Layout) (Q : Text → Prop) : Prop where
  comma : Q layout.comma
  colon : Q layout.colon
  newline (depth : Nat) : Q (layout.newline depth)
  quoted (t : Text) : Q (Quoted.write layout.style t)

theorem closed_doubleText (x : Binary64) : Q (doubleText x) := by
  apply closed.plain
  cases x with
  | finite x => exact x.isPlain_text
  | infinite negative => cases negative <;> decide
  | nan => decide

variable {layout : Layout} (keeps : layout.Keeps Q)

include keeps

mutual

/-- A value in front of a text of the class is written as a text of the class. -/
theorem closed_printBefore (depth : Nat) {rest : Text} (h : Q rest) :
    ∀ j : Json, Q (printBefore layout depth rest j)
  | .null => closed.append (closed.plain (by decide)) h
  | .bool b => closed.append (closed.plain (by cases b <;> decide)) h
  | .int n => closed.append (closed.plain (Text.isPlain_ofInt n)) h
  | .double x => closed.append (closed_doubleText closed x) h
  | .str s => closed.append (keeps.quoted s) h
  | .arr [] => closed.append (closed.plain (by decide)) h
  | .arr (item :: items) => by
    have closing := closed.append (keeps.newline depth)
      (closed.append (closed.plain (t := "]") (by decide)) h)
    have others := closed_printItems (depth + 1) closing items
    have first := closed_printBefore (depth + 1) others item
    exact closed.append (closed.plain (by decide)) (closed.append (keeps.newline _) first)
  | .obj [] => closed.append (closed.plain (by decide)) h
  | .obj ((key, value) :: members) => by
    have closing := closed.append (keeps.newline depth)
      (closed.append (closed.plain (t := "\x7d") (by decide)) h)
    have others := closed_printMembers (depth + 1) closing members
    have first := closed_printBefore (depth + 1) others value
    exact closed.append (closed.plain (by decide)) (closed.append (keeps.newline _)
      (closed.append (keeps.quoted key) (closed.append keeps.colon first)))

theorem closed_printItems (depth : Nat) {rest : Text} (h : Q rest) :
    ∀ items : List Json, Q (printItems layout depth rest items)
  | [] => h
  | item :: items =>
    closed.append keeps.comma (closed.append (keeps.newline depth)
      (closed_printBefore depth (closed_printItems depth h items) item))

theorem closed_printMembers (depth : Nat) {rest : Text} (h : Q rest) :
    ∀ members : List (Text × Json), Q (printMembers layout depth rest members)
  | [] => h
  | (key, value) :: members =>
    closed.append keeps.comma (closed.append (keeps.newline depth)
      (closed.append (keeps.quoted key) (closed.append keeps.colon
        (closed_printBefore depth (closed_printMembers depth h members) value))))

end

end Json

namespace Emit

/-- Line ends and indentation are in the class. -/
structure Options.Keeps (o : Options) (Q : Text → Prop) : Prop where
  newline : Q o.newline
  pad (depth : Nat) : Q (o.pad depth)

theorem Options.keeps {o : Options} (newline : Q ['\n']) (indent : Q o.indent) : o.Keeps Q where
  newline := by
    unfold Options.newline
    split
    · exact closed.nil
    · exact newline
  pad depth := by
    unfold Options.pad
    split
    · exact closed.nil
    · exact closed.times indent depth

theorem Options.keeps_of_minify {o : Options} (h : o.minify = true) : o.Keeps Q where
  newline := by
    rw [Options.newline, if_pos h]
    exact closed.nil
  pad depth := by
    rw [Options.pad, if_pos h]
    exact closed.nil

theorem closed_unionOpening (quoted : ∀ t : Text, Q t.quote) (target : Target)
    (discriminator : Option Text) :
    Q (target.grammar.unionOpening (discriminator.map Text.quote)) := by
  cases target with
  | typescript => exact closed.plain (t := "(") (by decide)
  | zod =>
      cases discriminator with
      | none => exact closed.plain (t := "z.union([") (by decide)
      | some field =>
          have opening := closed.plain (t := "z.discriminatedUnion(") (by decide)
          have closing := closed.plain (t := ", [") (by decide)
          exact closed.append (closed.append opening (quoted field)) closing

variable {o : Options} (keeps : o.Keeps Q)

include keeps

theorem closed_block (depth : Nat) {b : Brackets} (opening : Q b.opening) (closing : Q b.closing)
    {separator : Text} (between : Q separator) {items : List Text} (each : ∀ t ∈ items, Q t) :
    Q (block o depth b separator items) := by
  have lines : Q (Text.join (separator ++ o.newline)
      (items.map fun item => o.pad (depth + 1) ++ item)) := by
    refine closed.join (closed.append between keeps.newline) (List.forall_mem_map.2 ?_)
    exact fun item listed => closed.append (keeps.pad _) (each item listed)
  have start := closed.append (closed.append opening keeps.newline) lines
  exact closed.append (closed.append (closed.append start keeps.newline) (keeps.pad depth)) closing

/-- A module that exports an expression of the class is a text of the class. -/
theorem closed_moduleText (target : Target) (name : Text) {expression : Text} (h : Q expression) :
    Q (moduleText target.grammar o name expression) := by
  have header : Q ((target.grammar.header.map fun h => h ++ o.newline ++ o.newline).getD []) := by
    cases target with
    | typescript => exact closed.nil
    | zod =>
        have line := closed.plain (t := "import \x7b z \x7d from 'zod';") (by decide)
        exact closed.append (closed.append line keeps.newline) keeps.newline
  have declaration := closed.plain (isPlain_tokens target target.grammar.declaration (by
    simp [Grammar.tokens]))
  have identifier := closed.plain (Naming.isIdentifier_safeIdentifier name).isPlain
  have equals := closed.plain (t := " = ") (by decide)
  have semicolon := closed.plain (t := ";") (by decide)
  have front := closed.append (closed.append header declaration) identifier
  have statement := closed.append (closed.append (closed.append front equals) h) semicolon
  exact closed.append statement keeps.newline

variable (quoted : ∀ t : Text, Q t.quote)

include quoted

theorem closed_write (target : Target) (depth : Nat) (s : Shape) :
    Q (write target.grammar o depth s) := by
  have token : ∀ {t : Text}, t ∈ target.grammar.tokens → Q t :=
    fun ht => closed.plain (isPlain_tokens target _ ht)
  unfold Grammar.tokens at token
  induction s using Shape.treeInduction generalizing depth with
  | scalar kind =>
      rw [write]
      apply closed.plain
      cases target <;> cases kind <;> decide
  | literal value jsonType =>
      exact closed.append (closed.append (token (by simp)) (quoted value)) (token (by simp))
  | optional inner ih =>
      exact closed.append (closed.append (token (by simp)) (ih depth)) (token (by simp))
  | object fields ih =>
      have keySeparator : Q o.keySeparator := by
        unfold Options.keySeparator
        split
        · exact closed.plain (by decide)
        · exact closed.plain (by decide)
      rw [write]
      split
      · exact token (by simp)
      · refine closed_block closed keeps depth (token (by simp)) (token (by simp))
          (token (by simp)) ?_
        rw [writeMembers_eq_map]
        refine List.forall_mem_map.2 fun f hf => ?_
        exact closed.append (closed.append (quoted f.1) keySeparator) (ih f hf (depth + 1))
  | array element ih =>
      exact closed.append (closed.append (token (by simp)) (ih depth)) (token (by simp))
  | union discriminator variants ih =>
      have opening := closed_unionOpening closed quoted target discriminator
      have alternatives (d : Nat) : ∀ t ∈ writeAll target.grammar o d variants, Q t := by
        rw [writeAll_eq_map]
        exact List.forall_mem_map.2 fun s hs => ih s hs d
      rw [write]
      split
      · exact closed_block closed keeps depth opening (token (by simp)) (token (by simp))
          (alternatives (depth + 1))
      · have separator : Q (if o.minify then target.grammar.tightSeparator
            else target.grammar.alternativeSeparator) := by
          split
          · exact token (by simp)
          · exact token (by simp)
        have inside := closed.join separator (alternatives depth)
        exact closed.append (closed.append opening inside) (token (by simp))
  | foreign kind => exact closed.nil

theorem closed_of_emit {target : Target} {text : Text} {s : Shape}
    (h : emit target o s = .ok text) : Q text := by
  unfold emit at h
  split at h
  · cases h
  · cases h
    exact closed_write closed keeps quoted target 0 s

theorem closed_of_emitModule {target : Target} {name text : Text} {s : Shape}
    (h : emitModule target o name s = .ok text) : Q text := by
  unfold emitModule at h
  split at h
  · cases h
  · next emitted =>
      cases h
      exact closed_moduleText closed keeps target name
        (closed_of_emit closed keeps quoted emitted)

end Emit

end

end JsonShapes
