import JsonShapes.Digest.Sha256
import JsonShapes.Json.Printer
import JsonShapes.Shape.Fault
import JsonShapes.Sorting

/-!
# Canonical texts and fingerprints

The canonical form of a shape is a JSON value in which properties are sorted by key and variants by
their own canonical texts, so that shapes that differ only in the order in which things were met
have one form. Its text in ASCII is what shapes are compared by, and the fingerprint is the
SHA-256 digest of that text.
-/

namespace JsonShapes

namespace Shape

/-- A property of the canonical form: a pair of key and form. -/
def formPair (field : Text × Json) : Json := .arr [.str field.1, field.2]

/-- The text of a canonical form. -/
def formText (form : Json) : Text := form.print .spaced

mutual

/-- The canonical form. A foreign leaf has none; `null` holds its place, and `canonicalText?`
refuses trees that have such a leaf. -/
def canonical : Shape → Json
  | .scalar kind => .obj [("kind", .str kind.name)]
  | .literal value jsonType =>
    .obj [("json_type", .str jsonType), ("kind", .str "literal"), ("value", .str value)]
  | .optional inner => .obj [("inner", canonical inner), ("kind", .str "optional")]
  | .object fields =>
    .obj [("kind", .str "object"),
      ("properties", .arr ((Sorting.sortOn Prod.fst (canonicalFields fields)).map formPair))]
  | .array element => .obj [("element", canonical element), ("kind", .str "array")]
  | .union discriminator variants =>
    .obj [("discriminator", (discriminator.map Json.str).getD .null), ("kind", .str "union"),
      ("variants", .arr ((Sorting.sortOn Prod.fst (canonicalVariants variants)).map Prod.snd))]
  | .foreign _ => .null

/-- The properties of a record with their canonical forms. -/
def canonicalFields : List (Text × Shape) → List (Text × Json)
  | [] => []
  | (key, s) :: rest => (key, canonical s) :: canonicalFields rest

/-- The canonical forms of variants, each with its text. -/
def canonicalVariants : List Shape → List (Text × Json)
  | [] => []
  | s :: rest =>
    let form := canonical s
    (formText form, form) :: canonicalVariants rest

end

/-- The text by which shapes are compared. -/
def canonicalText (s : Shape) : Text := formText s.canonical

/-- The canonical text of a tree without foreign leaves. -/
def canonicalText? (s : Shape) : Except Fault Text :=
  match s.check "canonical_form" with
  | .error e => .error e
  | .ok _ => .ok s.canonicalText

/-- The digest of a canonical text, whose code points are all bytes. -/
def textFingerprint (canonical : Text) : Text :=
  Sha256.hexDigest (canonical.map fun c => c.val.toUInt8)

/-- The structural fingerprint as hexadecimal digits. -/
def fingerprint (s : Shape) : Text := textFingerprint s.canonicalText

/-- The shapes whose canonical text is neither in `seen` nor that of an earlier one. -/
def uniqueAfter (seen : List Text) : List Shape → List Shape
  | [] => []
  | s :: rest =>
    let text := s.canonicalText
    if text ∈ seen then uniqueAfter seen rest else s :: uniqueAfter (text :: seen) rest

/-- The structurally distinct shapes, each where it is first met. -/
def unique (ss : List Shape) : List Shape := uniqueAfter [] ss

/-- The structurally distinct ones of trees without foreign leaves. -/
def unique? (ss : List Shape) : Except Fault (List Shape) :=
  match checkAll "canonical_form" ss with
  | .error e => .error e
  | .ok _ => .ok (unique ss)

theorem mem_of_mem_uniqueAfter {s : Shape} {ss : List Shape} {seen : List Text}
    (h : s ∈ uniqueAfter seen ss) : s ∈ ss := by
  induction ss generalizing seen with
  | nil => simp [uniqueAfter] at h
  | cons t ts ih =>
    simp only [uniqueAfter] at h
    split at h
    · exact List.mem_cons_of_mem t (ih h)
    · rcases List.mem_cons.1 h with e | m
      · exact e ▸ List.mem_cons_self
      · exact List.mem_cons_of_mem t (ih m)

theorem mem_of_mem_unique {s : Shape} {ss : List Shape} (h : s ∈ unique ss) : s ∈ ss :=
  mem_of_mem_uniqueAfter h

end Shape

end JsonShapes
