import JsonShapes.Proofs.Discovering
import JsonShapes.Proofs.Fallible
import JsonShapes.Proofs.TextClasses
import Mathlib.Data.List.TakeWhile

/-!
# Texts that can be encoded

Texts may hold lone surrogates, which have no encoding. Everything that is written escapes them, or
replaces them by what can stand in an identifier: names, keys, literals, discriminators, paths and
schemas. So surrogates get into a text that is written by way of the indentation only, and not even
that way into a schema.
-/

namespace JsonShapes

namespace Text

theorem isEncodable_iff {t : Text} : t.isEncodable = true ↔ ∀ c ∈ t, c.isSurrogate = false := by
  simp [isEncodable]

@[simp] theorem isEncodable_append (s t : Text) :
    (s ++ t).isEncodable = (s.isEncodable && t.isEncodable) :=
  List.all_append

theorem IsPlain.isEncodable {t : Text} (h : t.IsPlain) : t.isEncodable = true :=
  isEncodable_iff.2 fun c hc => CodePoint.isSurrogate_eq_false ((h c hc).2.1.trans (by decide))

/-- Texts that can be encoded make up one that can be encoded. -/
theorem closed_isEncodable : Closed fun t => t.isEncodable = true where
  plain := IsPlain.isEncodable
  append hs ht := (isEncodable_append _ _).trans (by rw [hs, ht, Bool.and_self])

/-- Escaped surrogates are gone. -/
@[simp] theorem isEncodable_escapeSurrogates (t : Text) :
    t.escapeSurrogates.isEncodable = true := by
  refine closed_isEncodable.flatMap fun c _ => ?_
  split
  · rw [isEncodable_iff]
    intro d hd
    exact Quoted.isSurrogate_of_mem_unicodeEscape hd
  · next other => simpa [isEncodable] using other

@[simp] theorem isEncodable_quote (t : Text) : t.quote.isEncodable = true :=
  isEncodable_escapeSurrogates _

end Text

theorem Naming.IsIdentifier.isEncodable {name : Text} (h : IsIdentifier name) :
    name.isEncodable = true :=
  h.isPlain.isEncodable

/-- Encoding a text succeeds if and only if it holds no surrogate. -/
theorem Utf8.exists_encode_iff {t : Text} :
    (∃ bytes, encode t = .ok bytes) ↔ t.isEncodable = true := by
  have passed : t.dropWhile (fun c => !c.isSurrogate) = [] ↔ t.isEncodable = true := by
    rw [List.dropWhile_eq_nil_iff, Text.isEncodable, List.all_eq_true]
  rw [← passed, encode, encodeError?]
  cases t.dropWhile (fun c => !c.isSurrogate) with
  | nil => exact iff_of_true ⟨_, rfl⟩ rfl
  | cons c rest => exact iff_of_false nofun (List.cons_ne_nil c rest)

namespace Emit

variable {o : Options}

theorem keeps_isEncodable (indent : o.indent.isEncodable = true) :
    o.Keeps fun t => t.isEncodable = true :=
  Options.keeps Text.closed_isEncodable (by decide) indent

theorem isEncodable_of_emit {target : Target} (indent : o.indent.isEncodable = true) {s : Shape}
    {text : Text} (h : emit target o s = .ok text) : text.isEncodable = true :=
  closed_of_emit Text.closed_isEncodable (keeps_isEncodable indent) Text.isEncodable_quote h

/-- A module can be encoded if its indentation can. -/
theorem isEncodable_of_emitModule {target : Target} (indent : o.indent.isEncodable = true)
    {name text : Text} {s : Shape} (h : emitModule target o name s = .ok text) :
    text.isEncodable = true :=
  closed_of_emitModule Text.closed_isEncodable (keeps_isEncodable indent) Text.isEncodable_quote h

end Emit

/-- A schema can be encoded whatever its indentation. -/
theorem Schema.isEncodable_dump (o : Emit.Options) (schema : Json) :
    (dump o schema).isEncodable = true :=
  Text.isEncodable_escapeSurrogates _

namespace Markdown

open Discovery (Named)

theorem isEncodable_escapeBars {t : Text} (h : t.isEncodable = true) :
    (escapeBars t).isEncodable = true := by
  rw [Text.isEncodable_iff] at h
  refine Text.closed_isEncodable.flatMap fun c hc => ?_
  split
  · decide
  · simpa [Text.isEncodable] using h c hc

theorem isEncodable_rowLine {row : FieldRow} (name : row.name.isEncodable = true)
    (type : row.type.isEncodable = true) : (rowLine row).isEncodable = true := by
  have bars : Text.isEncodable "| `" = true ∧ Text.isEncodable "` |" = true ∧
      Text.isEncodable " `" = true ∧ Text.isEncodable "` | " = true ∧
      Text.isEncodable " |" = true ∧ Text.isEncodable ['\n'] = true := by decide
  have required : (if row.required then Text.ofString "yes" else "no").isEncodable = true := by
    split
    · decide
    · decide
  simp only [rowLine, rowText, Text.isEncodable_append, bars, name, isEncodable_escapeBars type,
    required, Bool.and_self]

/-- Keys have their surrogates escaped, and types are written on one line. -/
theorem isEncodable_of_rows {fields : List (Text × Shape)} {table : List FieldRow}
    (h : rows fields = .ok table) : ∀ row ∈ table, (rowLine row).isEncodable = true := by
  induction fields generalizing table with
  | nil =>
      cases h
      exact nofun
  | cons f fields ih =>
      rw [rows, bind_eq_ok_iff] at h
      obtain ⟨type, written, h⟩ := h
      obtain ⟨others, rest, rfl⟩ := bind_pure_eq_ok_iff.1 h
      refine List.forall_mem_cons.2 ⟨?_, ih rest⟩
      exact isEncodable_rowLine (Text.isEncodable_escapeSurrogates f.1)
        (Emit.isEncodable_of_emit (by decide) written)

theorem isEncodable_table {fields : List FieldRow}
    (h : ∀ row ∈ fields, (rowLine row).isEncodable = true) : (table fields).isEncodable = true := by
  have head : tableHead.isEncodable = true := by decide
  have newline : Text.isEncodable ['\n'] = true := by decide
  unfold table
  split
  · rfl
  · simp only [Text.isEncodable_append, head, Text.closed_isEncodable.flatMap h, newline,
      Bool.and_self]

theorem isEncodable_upper {method : Text} (h : method ∈ Discovery.methods) :
    method.upper.isEncodable = true := by
  have all : ∀ m ∈ Discovery.methods, m.upper.isEncodable = true := by decide +kernel
  exact all method h

theorem isEncodable_of_endpointText {indent : Text} (given : indent.isEncodable = true)
    {e : Endpoint} (named : Named e) {text : Text} (h : endpointText indent e = .ok text) :
    text.isEncodable = true := by
  have marks : Text.isEncodable "## " = true ∧ Text.isEncodable " `" = true ∧
      Text.isEncodable "`\n\n" = true ∧ Text.isEncodable "Response type: `" = true ∧
      Text.isEncodable "```ts\nexport type " = true ∧ Text.isEncodable " = " = true ∧
      Text.isEncodable ";\n```\n\n" = true := by decide
  rw [endpointText, bind_eq_ok_iff] at h
  obtain ⟨declaration, written, h⟩ := h
  obtain ⟨fields, described, rfl⟩ := bind_pure_eq_ok_iff.1 h
  have body := Emit.isEncodable_of_emit given written
  have rows := isEncodable_table (isEncodable_of_rows described)
  simp only [heading, codeBlock, Text.isEncodable_append, marks, isEncodable_upper named.method,
    Text.isEncodable_escapeSurrogates, named.identifier.isEncodable, rows, body, Bool.and_self]

theorem isEncodable_of_sections {indent : Text} (given : indent.isEncodable = true)
    {endpoints : List Endpoint} (named : ∀ e ∈ endpoints, Named e) {text : Text}
    (h : sections indent endpoints = .ok text) : text.isEncodable = true := by
  induction endpoints generalizing text with
  | nil =>
      cases h
      rfl
  | cons e endpoints ih =>
      rw [List.forall_mem_cons] at named
      rw [sections, bind_eq_ok_iff] at h
      obtain ⟨first, written, h⟩ := h
      obtain ⟨others, rest, rfl⟩ := bind_pure_eq_ok_iff.1 h
      rw [Text.isEncodable_append, isEncodable_of_endpointText given named.1 written,
        ih named.2 rest, Bool.and_self]

/-- The page about endpoints can be encoded if its indentation can. -/
theorem isEncodable_of_page {indent : Text} (given : indent.isEncodable = true)
    {endpoints : List Endpoint} (named : ∀ e ∈ endpoints, Named e) {text : Text}
    (h : page defaultTitle indent endpoints = .ok text) : text.isEncodable = true := by
  have marks : Text.isEncodable "# " = true ∧ Text.isEncodable defaultTitle = true ∧
      Text.isEncodable "\n\n" = true := by decide
  obtain ⟨body, written, rfl⟩ := bind_pure_eq_ok_iff.1 h
  simp only [Text.isEncodable_append, marks, isEncodable_of_sections given named written,
    Bool.and_self]

end Markdown

end JsonShapes
