import JsonShapes.Json.Basic
import JsonShapes.Json.Quoted
import JsonShapes.Number.Shortest

/-!
# Writing JSON

A layout says what stands between items and after keys, and whether every item begins a line of its
own, indented by its depth. Empty arrays and objects are always written without anything inside.
-/

namespace JsonShapes

namespace Json

/-- How a document is laid out. -/
structure Layout where
  style : Quoted.Style
  comma : Text
  colon : Text
  /-- The indentation of one level; without one the document is a single line. -/
  indent : Option Text

namespace Layout

/-- One line without any blanks. -/
def compact : Layout := ⟨.plain, ",", ":", none⟩

/-- One line of ASCII with a blank after every comma and colon. -/
def spaced : Layout := ⟨.ascii, ", ", ": ", none⟩

/-- A line for every item. -/
def indented (unit : Text) : Layout := ⟨.plain, ",", ": ", some unit⟩

/-- The start of a new line at a depth, if items begin lines. -/
def newline (layout : Layout) (depth : Nat) : Text :=
  match layout.indent with
  | none => []
  | some unit => '\n' :: Text.times depth unit

end Layout

/-- A double as text, with a word for each of those that are not finite. -/
def doubleText : Binary64 → Text
  | .finite x => x.text
  | .infinite negative => if negative then "-Infinity" else "Infinity"
  | .nan => "NaN"

mutual

/-- A value whose first line is already indented to its depth, in front of what follows it. Since
nothing that is written is copied again, the work is proportional to the length of the text. -/
def printBefore (layout : Layout) (depth : Nat) (rest : Text) : Json → Text
  | .null => "null" ++ rest
  | .bool b => (if b then Text.ofString "true" else "false") ++ rest
  | .int n => Text.ofInt n ++ rest
  | .double x => doubleText x ++ rest
  | .str s => Quoted.write layout.style s ++ rest
  | .arr [] => "[]" ++ rest
  | .arr (item :: items) =>
    "[" ++ (layout.newline (depth + 1) ++ printBefore layout (depth + 1)
      (printItems layout (depth + 1) (layout.newline depth ++ ("]" ++ rest)) items) item)
  | .obj [] => "\x7b\x7d" ++ rest
  | .obj ((key, value) :: members) =>
    "\x7b" ++ (layout.newline (depth + 1) ++ (Quoted.write layout.style key ++ (layout.colon ++
      printBefore layout (depth + 1)
        (printMembers layout (depth + 1) (layout.newline depth ++ ("\x7d" ++ rest)) members)
        value)))

/-- The items after the first one, in front of what follows them. -/
def printItems (layout : Layout) (depth : Nat) (rest : Text) : List Json → Text
  | [] => rest
  | item :: items =>
    layout.comma ++ (layout.newline depth ++
      printBefore layout depth (printItems layout depth rest items) item)

/-- The members after the first one, in front of what follows them. -/
def printMembers (layout : Layout) (depth : Nat) (rest : Text) : List (Text × Json) → Text
  | [] => rest
  | (key, value) :: members =>
    layout.comma ++ (layout.newline depth ++ (Quoted.write layout.style key ++ (layout.colon ++
      printBefore layout depth (printMembers layout depth rest members) value)))

end

mutual

/-- What follows a value does not change how it is written. -/
theorem printBefore_append (layout : Layout) (depth : Nat) (s t : Text) :
    ∀ j : Json, printBefore layout depth (s ++ t) j = printBefore layout depth s j ++ t
  | .null => by simp [printBefore]
  | .bool _ => by simp [printBefore]
  | .int _ => by simp [printBefore]
  | .double _ => by simp [printBefore]
  | .str _ => by simp [printBefore]
  | .arr [] => by simp [printBefore]
  | .arr (item :: items) => by
    simp only [printBefore, ← List.append_assoc]
    rw [printItems_append layout (depth + 1) _ t items,
      printBefore_append layout (depth + 1) _ t item]
    simp only [List.append_assoc]
  | .obj [] => by simp [printBefore]
  | .obj ((key, value) :: members) => by
    simp only [printBefore, ← List.append_assoc]
    rw [printMembers_append layout (depth + 1) _ t members,
      printBefore_append layout (depth + 1) _ t value]
    simp only [List.append_assoc]

theorem printItems_append (layout : Layout) (depth : Nat) (s t : Text) :
    ∀ items : List Json,
      printItems layout depth (s ++ t) items = printItems layout depth s items ++ t
  | [] => rfl
  | item :: items => by
    simp only [printItems]
    rw [printItems_append layout depth s t items, printBefore_append layout depth _ t item]
    simp only [List.append_assoc]

theorem printMembers_append (layout : Layout) (depth : Nat) (s t : Text) :
    ∀ members : List (Text × Json),
      printMembers layout depth (s ++ t) members = printMembers layout depth s members ++ t
  | [] => rfl
  | (key, value) :: members => by
    simp only [printMembers]
    rw [printMembers_append layout depth s t members, printBefore_append layout depth _ t value]
    simp only [List.append_assoc]

end

/-- The document that spells a value. -/
def print (layout : Layout) (j : Json) : Text := printBefore layout 0 [] j

end Json

end JsonShapes
