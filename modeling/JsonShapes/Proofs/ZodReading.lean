import JsonShapes.Proofs.Acceptance
import JsonShapes.Proofs.Tokens
import Mathlib.Data.List.Forall2

/-!
# Reading Zod schemas

The Zod schemas that shapes are written as can be read again: a schema is a call on `z`, followed by
any number of calls that make it optional. Reading what was written for a shape gives the schema of
that shape, in whatever layout it was written. How string literals are read is left open. A reader
that is given what a literal stands for finds the texts of the shape, with their split pairs joined.
-/

namespace JsonShapes

/-- A schema, with the members of objects and the variants of unions in order. -/
inductive Zod where
  | scalar (kind : Scalar)
  /-- Exactly one string. -/
  | literal (text : Text)
  | optional (inner : Zod)
  | object (members : List (Text × Zod))
  | array (element : Zod)
  | union (discriminator : Option Text) (variants : List Zod)

namespace Zod

open Emit

/-- What stands at the front of a list of tokens, and the tokens after it. -/
abbrev Reader (α : Type) := List Token → Option (α × List Token)

variable {α : Type}

/-- The call that makes a schema optional. -/
def optionCall : List Token := [.mark '.', .word "optional", .mark '(', .mark ')']

/-- The schema with as many options as follow it. -/
def withOptions (schema : Zod) : List Token → Zod × List Token
  | dot :: name :: opening :: closing :: rest =>
    if [dot, name, opening, closing] = optionCall then withOptions (.optional schema) rest
    else (schema, dot :: name :: opening :: closing :: rest)
  | tokens => (schema, tokens)

/-- Items between brackets. -/
def readList (opening closing : CodePoint) (item : Reader α) : Reader (List α) := fun tokens => do
  let inside ← tokens.dropPrefix? [.mark opening]
  match inside.dropPrefix? [.mark closing] with
  | some rest => some ([], rest)
  | none =>
    let (items, rest) ← readSequence ',' item inside.length inside
    let rest ← rest.dropPrefix? [.mark closing]
    some (items, rest)

section

variable (unquote : Text → Option Text)

def readText : Reader Text
  | .literal spelling :: rest => (unquote spelling).map (·, rest)
  | _ => none

def readMember (schema : Reader Zod) : Reader (Text × Zod) := fun tokens => do
  let (key, rest) ← readText unquote tokens
  let rest ← rest.dropPrefix? [.mark ':']
  let (value, rest) ← schema rest
  some ((key, value), rest)

/-- The scalar of the given name. -/
def scalar? (name : Text) : Option Scalar :=
  [Scalar.null, .string, .number, .boolean, .unknown].find? fun kind => kind.name = name

/-- The schema that a call makes of its arguments, up to the closing parenthesis. -/
def readArguments (schema : Reader Zod) (name : Text) : Reader Zod := fun tokens =>
  if name = "literal" then do
    let (text, rest) ← readText unquote tokens
    some (.literal text, rest)
  else if name = "array" then do
    let (element, rest) ← schema tokens
    some (.array element, rest)
  else if name = "object" then do
    let (members, rest) ← readList '\x7b' '\x7d' (readMember unquote schema) tokens
    some (.object members, rest)
  else if name = "union" then do
    let (variants, rest) ← readList '[' ']' schema tokens
    some (.union none variants, rest)
  else if name = "discriminatedUnion" then do
    let (field, rest) ← readText unquote tokens
    let rest ← rest.dropPrefix? [.mark ',']
    let (variants, rest) ← readList '[' ']' schema rest
    some (.union (some field) variants, rest)
  else do
    let kind ← scalar? name
    some (.scalar kind, tokens)

def readCall (schema : Reader Zod) : Reader Zod
  | .word root :: .mark dot :: .word name :: .mark opening :: tokens =>
    if root = "z" ∧ dot = '.' ∧ opening = '(' then do
      let (result, rest) ← readArguments unquote schema name tokens
      let rest ← rest.dropPrefix? [.mark ')']
      some (withOptions result rest)
    else none
  | _ => none

/-- A schema whose calls are nested no deeper than the given number. -/
def readNested : Nat → Reader Zod
  | 0 => fun _ => none
  | fuel + 1 => readCall unquote (readNested fuel)

end

/-- The string that a literal stands for. -/
def stringOf (spelling : Text) : Option Text :=
  match Json.parse spelling with
  | .ok (.str text) => some text
  | _ => none

/-- The schema that a text is. -/
def read (t : Text) : Option Zod := do
  let tokens ← tokenize t
  match readNested stringOf tokens.length tokens with
  | some (schema, []) => some schema
  | _ => none

/-- The beginning of a call on `z`. -/
def callOpening (name : Text) : List Token := [.word "z", .mark '.', .word name, .mark '(']

def callTokens (name : Text) (arguments : List Token) : List Token :=
  callOpening name ++ arguments ++ [.mark ')']

def listTokens (opening closing : CodePoint) (items : List (List Token)) : List Token :=
  .mark opening :: (separated (.mark ',') items ++ [.mark closing])

mutual

/-- The tokens that a shape is written with. -/
def tokensOf : Shape → List Token
  | .scalar kind => callTokens kind.name []
  | .literal value _ => callTokens "literal" [.literal value.quote]
  | .optional inner => tokensOf inner ++ optionCall
  | .object fields => callTokens "object" (listTokens '\x7b' '\x7d' (tokensOfFields fields))
  | .array element => callTokens "array" (tokensOf element)
  | .union none variants => callTokens "union" (listTokens '[' ']' (tokensOfAll variants))
  | .union (some field) variants =>
    callTokens "discriminatedUnion"
      (.literal field.quote :: .mark ',' :: listTokens '[' ']' (tokensOfAll variants))
  | .foreign _ => []

def tokensOfFields : List (Text × Shape) → List (List Token)
  | [] => []
  | (key, s) :: rest => (.literal key.quote :: .mark ':' :: tokensOf s) :: tokensOfFields rest

def tokensOfAll : List Shape → List (List Token)
  | [] => []
  | s :: rest => tokensOf s :: tokensOfAll rest

end

mutual

/-- The schema of a shape, with its texts as they are read. The JSON types of literals are lost. -/
def ofShape (text : Text → Text) : Shape → Zod
  | .scalar kind => .scalar kind
  | .literal value _ => .literal (text value)
  | .optional inner => .optional (ofShape text inner)
  | .object fields => .object (ofFields text fields)
  | .array element => .array (ofShape text element)
  | .union discriminator variants => .union (discriminator.map text) (ofAll text variants)
  | .foreign _ => .scalar .unknown

def ofFields (text : Text → Text) : List (Text × Shape) → List (Text × Zod)
  | [] => []
  | (key, s) :: rest => (text key, ofShape text s) :: ofFields text rest

def ofAll (text : Text → Text) : List Shape → List Zod
  | [] => []
  | s :: rest => ofShape text s :: ofAll text rest

end

theorem tokensOfFields_eq_map (fields : List (Text × Shape)) :
    tokensOfFields fields =
      fields.map fun f => .literal f.1.quote :: .mark ':' :: tokensOf f.2 := by
  induction fields with
  | nil => rfl
  | cons f fields ih => rw [tokensOfFields, ih, List.map_cons]

theorem tokensOfAll_eq_map (shapes : List Shape) : tokensOfAll shapes = shapes.map tokensOf := by
  induction shapes with
  | nil => rfl
  | cons s shapes ih => rw [tokensOfAll, ih, List.map_cons]

theorem ofFields_eq_map (text : Text → Text) (fields : List (Text × Shape)) :
    ofFields text fields = fields.map fun f => (text f.1, ofShape text f.2) := by
  induction fields with
  | nil => rfl
  | cons f fields ih => rw [ofFields, ih, List.map_cons]

theorem ofAll_eq_map (text : Text → Text) (shapes : List Shape) :
    ofAll text shapes = shapes.map (ofShape text) := by
  induction shapes with
  | nil => rfl
  | cons s shapes ih => rw [ofAll, ih, List.map_cons]

variable {S : Set Text} {o : Options}

theorem forall₂_map_map {β γ δ : Type} {relation : β → γ → Prop} {f : δ → β} {g : δ → γ}
    {l : List δ} (h : ∀ d ∈ l, relation (f d) (g d)) :
    List.Forall₂ relation (l.map f) (l.map g) := by
  rw [List.forall₂_map_left_iff, List.forall₂_map_right_iff, List.forall₂_same]
  exact h

theorem lexes_write_object (blank : o.Blank) {fields : List (Text × Shape)}
    (each : ∀ f ∈ fields, ∀ depth, Lexes (write zod o depth f.2) (tokensOf f.2)) (depth : Nat) :
    Lexes (write zod o depth (.object fields)) (tokensOf (.object fields)) := by
  rw [write]
  split
  · next empty =>
      rw [List.isEmpty_iff.mp empty]
      decide +kernel
  · have opens : Lexes zod.record.opening (callOpening "object" ++ [.mark '\x7b']) := by
      decide +kernel
    have closes : Lexes zod.record.closing [.mark '\x7d', .mark ')'] := by decide +kernel
    have comma : Lexes zod.memberSeparator [.mark ','] := by decide +kernel
    have members : List.Forall₂ (fun t tokens => tokenize t = some tokens)
        (writeMembers zod o (depth + 1) fields)
        (tokensOfFields fields) := by
      rw [writeMembers_eq_map, tokensOfFields_eq_map]
      apply forall₂_map_map
      intro f hf
      exact (((Lexes.quote f.1).append (.keySeparator o)).append (each f hf (depth + 1))).tokenize
    have lexes := Lexes.block blank opens closes (by decide) (by decide) comma (by decide) depth
      members
    rw [tokensOf]
    simpa [callTokens, listTokens] using lexes

theorem lexes_write_union (blank : o.Blank) (discriminator : Option Text) {variants : List Shape}
    {opening : List Token} (opens : Lexes (zod.unionOpening (discriminator.map Text.quote)) opening)
    (each : ∀ s ∈ variants, ∀ depth, Lexes (write zod o depth s) (tokensOf s)) (depth : Nat) :
    Lexes (write zod o depth (.union discriminator variants))
      (opening ++ separated (.mark ',') (tokensOfAll variants) ++ [.mark ']', .mark ')']) := by
  have closes : Lexes zod.unionClosing [.mark ']', .mark ')'] := by decide +kernel
  have closesApart : StartsApart zod.unionClosing := by decide
  have comma : Lexes zod.alternativeSeparator [.mark ','] := by decide +kernel
  have alternatives : List.Forall₂ (fun t tokens => tokenize t = some tokens)
      (writeAll zod o (depth + 1) variants) (tokensOfAll variants) := by
    rw [writeAll_eq_map, tokensOfAll_eq_map]
    apply forall₂_map_map
    intro s hs
    exact (each s hs (depth + 1)).tokenize
  rw [write, if_pos (show zod.unionBlock = true from rfl)]
  exact Lexes.block blank opens closes closesApart (by decide) comma (by decide) depth alternatives

/-- A shape is written with its tokens, whatever the layout. -/
theorem lexes_write (blank : o.Blank) {s : Shape} (h : s.Within S) (depth : Nat) :
    Lexes (write zod o depth s) (tokensOf s) := by
  have parenthesis : Lexes ")" [.mark ')'] := by decide +kernel
  induction h generalizing depth with
  | scalar kind =>
      rw [write]
      cases kind <;> decide +kernel
  | @literal value jsonType word typeWord =>
      have opens : Lexes "z.literal(" (callOpening "literal") := by decide +kernel
      rw [write]
      exact (opens.append (.quote value)).append parenthesis
  | optional within ih =>
      have option : Lexes ".optional()" optionCall := by decide +kernel
      rw [write, tokensOf]
      exact (ih depth).append option
  | object words within ih => exact lexes_write_object blank ih depth
  | array within ih =>
      have opens : Lexes "z.array(" (callOpening "array") := by decide +kernel
      rw [write]
      exact (opens.append (ih depth)).append parenthesis
  | @union discriminator variants word within ih =>
      cases discriminator with
      | none =>
          have opens : Lexes (zod.unionOpening none) (callOpening "union" ++ [.mark '[']) := by
            decide +kernel
          have lexes := lexes_write_union blank none opens ih depth
          rw [tokensOf]
          simpa [callTokens, listTokens] using lexes
      | some field =>
          have opens : Lexes "z.discriminatedUnion(" (callOpening "discriminatedUnion") := by
            decide +kernel
          have comma : Lexes ", [" [.mark ',', .mark '['] := by decide +kernel
          have lexes := lexes_write_union blank (some field)
            ((opens.append (.quote field)).append comma) ih depth
          rw [tokensOf]
          simpa [callTokens, listTokens] using lexes

theorem withOptions_optionCall (schema : Zod) (rest : List Token) :
    withOptions schema (optionCall ++ rest) = withOptions (.optional schema) rest := by
  change (if optionCall = optionCall then _ else _) = _
  exact if_pos rfl

/-- Options start with a dot. -/
theorem withOptions_mark (schema : Zod) {c : CodePoint} (other : c ≠ '.') (rest : List Token) :
    withOptions schema (.mark c :: rest) = (schema, .mark c :: rest) := by
  unfold withOptions
  split
  · next dot name opening closing rest eq =>
      cases eq
      rw [if_neg]
      simp [optionCall, other]
  · rfl

/-- The reader finds an item in its tokens, if a mark other than a dot follows. -/
def Reads (item : Reader α) (value : α) (tokens : List Token) : Prop :=
  ∀ c rest, c ≠ CodePoint.ofChar '.' →
    item (tokens ++ .mark c :: rest) = some (value, .mark c :: rest)

section

variable {β : Type} {item : Reader α} {value : β → α} {tokens : β → List Token} {l : List β}
  {closing : CodePoint}

theorem readSequence_comma (notComma : closing ≠ ',') (notDot : closing ≠ '.')
    (reads : ∀ b ∈ l, Reads item (value b) (tokens b)) (nonempty : l ≠ []) {fuel : Nat}
    (enough : l.length ≤ fuel) (rest : List Token) :
    readSequence ',' item fuel (separated (.mark ',') (l.map tokens) ++ .mark closing :: rest) =
      some (l.map value, .mark closing :: rest) := by
  let follows (after : List Token) : Prop :=
    ∃ c rest, c ≠ CodePoint.ofChar '.' ∧ after = .mark c :: rest
  have between : ∀ after, follows (.mark ',' :: after) := fun after => ⟨',', after, by decide, rfl⟩
  have last : follows (.mark closing :: rest) := ⟨closing, rest, notDot, rfl⟩
  have ends := dropPrefix?_eq_none (fun same => notComma (Token.mark.inj same)) rest
  refine readSequence_separated between last ends ?_ nonempty enough
  rintro b hb _ ⟨c, after, other, rfl⟩
  exact reads b hb c after other

/-- A list is read item by item, if no item starts like its end. -/
theorem readList_listTokens (opening : CodePoint) (notComma : closing ≠ ',')
    (notDot : closing ≠ '.') (reads : ∀ b ∈ l, Reads item (value b) (tokens b))
    (starts : ∀ b ∈ l, ∃ t ts, tokens b = t :: ts ∧ t ≠ .mark closing) (rest : List Token) :
    readList opening closing item (listTokens opening closing (l.map tokens) ++ rest) =
      some (l.map value, rest) := by
  have opened : (listTokens opening closing (l.map tokens) ++ rest).dropPrefix? [.mark opening] =
      some (separated (.mark ',') (l.map tokens) ++ .mark closing :: rest) := by
    rw [listTokens, List.cons_append, dropPrefix?_mark, List.append_assoc, List.singleton_append]
  rw [readList, opened]
  cases l with
  | nil => simp [separated, dropPrefix?_mark]
  | cons b l =>
      have notEmpty : (separated (.mark ',') ((b :: l).map tokens) ++
          .mark closing :: rest).dropPrefix? [.mark closing] = none := by
        obtain ⟨t, ts, eq, other⟩ := starts b List.mem_cons_self
        obtain ⟨others, split⟩ := exists_separated_cons (.mark ',') (tokens b) (l.map tokens)
        rw [List.map_cons, split, eq]
        exact dropPrefix?_eq_none other _
      have enough : (b :: l).length ≤
          (separated (.mark ',') ((b :: l).map tokens) ++ .mark closing :: rest).length := by
        have nonempty : ∀ item ∈ (b :: l).map tokens, item ≠ [] := by
          refine List.forall_mem_map.mpr fun c hc => ?_
          obtain ⟨t, ts, eq, -⟩ := starts c hc
          rw [eq]
          exact List.cons_ne_nil _ _
        have count := length_le_separated (.mark ',') nonempty
        rw [List.length_map] at count
        rw [List.length_append]
        omega
      have items := readSequence_comma notComma notDot reads (List.cons_ne_nil _ _) enough rest
      simp only [notEmpty, items, dropPrefix?_mark, bind, Option.bind_some]

end

theorem exists_tokensOf_eq_cons {s : Shape} (h : s.Within S) :
    ∃ rest, tokensOf s = .word "z" :: rest := by
  induction h with
  | optional within ih =>
      obtain ⟨rest, eq⟩ := ih
      rw [tokensOf, eq]
      exact ⟨rest ++ optionCall, rfl⟩
  | @union discriminator variants word within ih =>
      cases discriminator with
      | none => exact ⟨_, rfl⟩
      | some field => exact ⟨_, rfl⟩
  | _ => exact ⟨_, rfl⟩

variable {unquote : Text → Option Text} {text : Text → Text}

theorem readCall_callTokens {schema : Reader Zod} {name : Text} {arguments : List Token}
    {result : Zod}
    (h : ∀ after, readArguments unquote schema name (arguments ++ .mark ')' :: after) =
      some (result, .mark ')' :: after)) (rest : List Token) :
    readCall unquote schema (callTokens name arguments ++ rest) =
      some (withOptions result rest) := by
  have split : callTokens name arguments ++ rest =
      .word "z" :: .mark '.' :: .word name :: .mark '(' :: (arguments ++ .mark ')' :: rest) := by
    simp [callTokens, callOpening]
  rw [split, readCall, if_pos ⟨rfl, rfl, rfl⟩]
  simp only [h, dropPrefix?_mark, bind, Option.bind_some]

theorem scalar?_name (kind : Scalar) : scalar? kind.name = some kind := by
  cases kind <;> decide

/-- No scalar has the name of another call. -/
theorem readArguments_scalar (schema : Reader Zod) (kind : Scalar) (tokens : List Token) :
    readArguments unquote schema kind.name tokens = some (.scalar kind, tokens) := by
  have other : ∀ name ∈ (["literal", "array", "object", "union", "discriminatedUnion"] : List Text),
      kind.name ≠ name := by
    cases kind <;> decide
  rw [readArguments, if_neg (other _ (by decide)), if_neg (other _ (by decide)),
    if_neg (other _ (by decide)), if_neg (other _ (by decide)), if_neg (other _ (by decide)),
    scalar?_name]
  rfl

theorem Reads.of_withOptions {schema : Reader Zod} {result : Zod} {tokens : List Token}
    (h : ∀ rest, schema (tokens ++ rest) = some (withOptions result rest)) :
    Reads schema result tokens := by
  intro c rest notDot
  rw [h, withOptions_mark result notDot]

section

variable {schema : Reader Zod} (unquoted : ∀ t : Text, unquote t.quote = some (text t))

include unquoted

theorem readText_literal (t : Text) (rest : List Token) :
    readText unquote (.literal t.quote :: rest) = some (text t, rest) := by
  rw [readText, unquoted]
  rfl

theorem Reads.member {key : Text} {value : Zod} {tokens : List Token}
    (h : Reads schema value tokens) :
    Reads (readMember unquote schema) (text key, value)
      (.literal key.quote :: .mark ':' :: tokens) := by
  intro c rest notDot
  simp only [readMember, List.cons_append, readText_literal unquoted, dropPrefix?_mark,
    h c rest notDot, bind, Option.bind_some]

theorem readArguments_object {fields : List (Text × Shape)}
    (reads : ∀ f ∈ fields, Reads schema (ofShape text f.2) (tokensOf f.2)) (rest : List Token) :
    readArguments unquote schema "object"
        (listTokens '\x7b' '\x7d' (tokensOfFields fields) ++ rest) =
      some (.object (ofFields text fields), rest) := by
  have starts : ∀ f ∈ fields, ∃ t ts,
      Token.literal f.1.quote :: .mark ':' :: tokensOf f.2 = t :: ts ∧ t ≠ .mark '\x7d' :=
    fun f _ => ⟨_, _, rfl, by simp⟩
  have list := readList_listTokens '\x7b' (by decide) (by decide)
    (fun f hf => (reads f hf).member unquoted) starts rest
  rw [readArguments, if_neg (by decide), if_neg (by decide), if_pos rfl, tokensOfFields_eq_map,
    list, ofFields_eq_map]
  rfl

omit unquoted in
theorem readList_tokensOfAll {variants : List Shape} (within : ∀ s ∈ variants, s.Within S)
    (reads : ∀ s ∈ variants, Reads schema (ofShape text s) (tokensOf s)) (rest : List Token) :
    readList '[' ']' schema (listTokens '[' ']' (tokensOfAll variants) ++ rest) =
      some (ofAll text variants, rest) := by
  have starts : ∀ s ∈ variants, ∃ t ts, tokensOf s = t :: ts ∧ t ≠ .mark ']' := by
    intro s hs
    obtain ⟨ts, eq⟩ := exists_tokensOf_eq_cons (within s hs)
    exact ⟨_, ts, eq, by simp⟩
  rw [tokensOfAll_eq_map, ofAll_eq_map]
  exact readList_listTokens '[' (by decide) (by decide) reads starts rest

/-- The schema of a shape is read off its tokens, together with the options that follow. -/
theorem readNested_tokensOf {s : Shape} (h : s.Within S) {fuel : Nat} (deep : s.depth ≤ fuel)
    (rest : List Token) :
    readNested unquote fuel (tokensOf s ++ rest) = some (withOptions (ofShape text s) rest) := by
  induction h generalizing fuel rest with
  | optional within ih =>
      rw [tokensOf, List.append_assoc, ih (Nat.le_of_succ_le deep), withOptions_optionCall, ofShape]
  | scalar kind =>
      obtain ⟨fuel, rfl⟩ := Nat.exists_eq_add_of_le' deep
      exact readCall_callTokens (fun after => readArguments_scalar _ kind _) rest
  | literal word typeWord =>
      obtain ⟨fuel, rfl⟩ := Nat.exists_eq_add_of_le' deep
      refine readCall_callTokens (fun after => ?_) rest
      rw [readArguments, if_pos rfl, List.singleton_append, readText_literal unquoted]
      rfl
  | @object fields words within ih =>
      obtain ⟨fuel, rfl⟩ := Nat.exists_eq_add_of_le' (Nat.le_trans (Shape.depth_pos _) deep)
      have below : Shape.depthFields fields ≤ fuel := Nat.le_of_succ_le_succ deep
      refine readCall_callTokens (fun after => readArguments_object unquoted ?_ _) rest
      intro f hf
      exact .of_withOptions (ih f hf (Nat.le_trans (Shape.depth_le_depthFields hf) below))
  | array within ih =>
      obtain ⟨fuel, rfl⟩ := Nat.exists_eq_add_of_le' (Nat.le_trans (Shape.depth_pos _) deep)
      have element := ih (Nat.le_of_succ_le_succ deep)
      refine readCall_callTokens (fun after => ?_) rest
      rw [readArguments, if_neg (by decide), if_pos rfl, element, withOptions_mark _ (by decide)]
      rfl
  | @union discriminator variants word within ih =>
      obtain ⟨fuel, rfl⟩ := Nat.exists_eq_add_of_le' (Nat.le_trans (Shape.depth_pos _) deep)
      have below : Shape.depthAll variants ≤ fuel := Nat.le_of_succ_le_succ deep
      have list := readList_tokensOfAll within fun s hs =>
        .of_withOptions (ih s hs (Nat.le_trans (Shape.depth_le_depthAll hs) below))
      cases discriminator with
      | none =>
          refine readCall_callTokens (fun after => ?_) rest
          rw [readArguments, if_neg (by decide), if_neg (by decide), if_neg (by decide),
            if_pos rfl, list]
          rfl
      | some field =>
          refine readCall_callTokens (fun after => ?_) rest
          rw [readArguments, if_neg (by decide), if_neg (by decide), if_neg (by decide),
            if_neg (by decide), if_pos rfl, List.cons_append, readText_literal unquoted]
          simp only [List.cons_append, dropPrefix?_mark, list, bind, Option.bind_some]
          rfl

end

theorem depthFields_le {fields : List (Text × Shape)} {n : Nat}
    (h : ∀ f ∈ fields, f.2.depth ≤ n) : Shape.depthFields fields ≤ n := by
  induction fields with
  | nil => exact Nat.zero_le n
  | cons f fields ih =>
      rw [List.forall_mem_cons] at h
      exact Nat.max_le.mpr ⟨h.1, ih h.2⟩

theorem length_callTokens (name : Text) (arguments : List Token) :
    (callTokens name arguments).length = arguments.length + 5 := by
  simp [callTokens, callOpening]

theorem length_listTokens (opening closing : CodePoint) (items : List (List Token)) :
    (listTokens opening closing items).length = (separated (.mark ',') items).length + 2 := by
  simp [listTokens]

/-- A shape has more tokens than levels. -/
theorem depth_le_length_tokensOf {s : Shape} (h : s.Within S) : s.depth ≤ (tokensOf s).length := by
  induction h with
  | scalar kind =>
      rw [tokensOf, length_callTokens, Shape.depth]
      omega
  | literal word typeWord =>
      rw [tokensOf, length_callTokens, Shape.depth]
      omega
  | optional within ih =>
      rw [tokensOf, List.length_append, Shape.depth]
      exact Nat.add_le_add ih (by decide)
  | @object fields words within ih =>
      have below : Shape.depthFields fields ≤
          (separated (.mark ',') (tokensOfFields fields)).length := by
        apply depthFields_le
        intro f hf
        have listed : .literal f.1.quote :: .mark ':' :: tokensOf f.2 ∈ tokensOfFields fields := by
          rw [tokensOfFields_eq_map]
          exact List.mem_map.mpr ⟨f, hf, rfl⟩
        have length := length_le_of_mem_separated (.mark ',') listed
        rw [List.length_cons, List.length_cons] at length
        have := ih f hf
        omega
      rw [tokensOf, length_callTokens, length_listTokens, Shape.depth]
      omega
  | array within ih =>
      rw [tokensOf, length_callTokens, Shape.depth]
      omega
  | @union discriminator variants word within ih =>
      have below : Shape.depthAll variants ≤
          (separated (.mark ',') (tokensOfAll variants)).length := by
        rw [Shape.depthAll_le_iff]
        intro s hs
        have listed : tokensOf s ∈ tokensOfAll variants := by
          rw [tokensOfAll_eq_map]
          exact List.mem_map.mpr ⟨s, hs, rfl⟩
        exact Nat.le_trans (ih s hs) (length_le_of_mem_separated (.mark ',') listed)
      cases discriminator with
      | none =>
          rw [tokensOf, length_callTokens, length_listTokens, Shape.depth]
          omega
      | some field =>
          rw [tokensOf, length_callTokens, List.length_cons, List.length_cons, length_listTokens,
            Shape.depth]
          omega

theorem stringOf_quote (t : Text) : stringOf t.quote = some t.joined := by
  rw [stringOf, Json.parse_quote]

/-- A shape that was written is read as its schema, with the split pairs of its texts joined. -/
theorem read_write (blank : o.Blank) {s : Shape} (h : s.Within S) :
    read (write zod o 0 s) = some (ofShape Text.joined s) := by
  have schema := readNested_tokensOf stringOf_quote h (depth_le_length_tokensOf h) []
  rw [List.append_nil] at schema
  rw [read, (lexes_write blank h 0).tokenize]
  simp only [schema, bind, Option.bind_some]
  rfl

end Zod

end JsonShapes
