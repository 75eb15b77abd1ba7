import JsonShapes.Text.Basic

/-!
# Sorting by a text

A stable sort by insertion. It is structural, so closed instances evaluate, and the lists that are
sorted here are the properties or variants of one type and therefore short.
-/

namespace JsonShapes.Sorting

variable {α : Type}

/-- Put an item in front of the first one whose key is not smaller. -/
def insertOn (key : α → Text) (x : α) : List α → List α
  | [] => [x]
  | y :: ys => if key x ≤ key y then x :: y :: ys else y :: insertOn key x ys

/-- The items in the order of their keys; items of equal keys keep their order. -/
def sortOn (key : α → Text) (xs : List α) : List α := xs.foldr (insertOn key) []

theorem insertOn_perm (key : α → Text) (x : α) (ys : List α) :
    (insertOn key x ys).Perm (x :: ys) := by
  induction ys with
  | nil => exact .refl _
  | cons y ys ih =>
    rw [insertOn]
    split
    · exact .refl _
    · exact (ih.cons y).trans (.swap x y ys)

theorem sortOn_perm (key : α → Text) (xs : List α) : (sortOn key xs).Perm xs := by
  induction xs with
  | nil => exact .refl _
  | cons x xs ih => exact (insertOn_perm key x _).trans (ih.cons x)

end JsonShapes.Sorting
