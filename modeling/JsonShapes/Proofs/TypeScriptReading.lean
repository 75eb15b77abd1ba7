import JsonShapes.Proofs.ZodUnambiguity

/-!
# Reading TypeScript types

The types that shapes are written as can be read again, by the part of the grammar of types that
they use. Bars stand between the alternatives of a type. Brackets after a type make it the type of
arrays and bind tighter than bars, and parentheses group. A member is optional if `undefined` is its
last alternative.

A type says neither which JSON type the text of a literal came from nor which property tells the
variants of a union apart. All else of a shape is read from its type, in whatever layout it was
written, if options stand at properties only and every union has several variants.
-/

namespace JsonShapes

namespace Shape

/-- An option may stand at each property of a record and nowhere else, and a union has at least two
variants. -/
inductive Regular : Shape → Prop
  | scalar (kind : Scalar) : Regular (.scalar kind)
  | literal (value jsonType : Text) : Regular (.literal value jsonType)
  | object {fields : List (Text × Shape)} (regular : ∀ f ∈ fields, Regular f.2.unwrap) :
      Regular (.object fields)
  | array {element : Shape} (regular : Regular element) : Regular (.array element)
  | union (discriminator : Option Text) {variants : List Shape} (several : 2 ≤ variants.length)
      (regular : ∀ s ∈ variants, Regular s) : Regular (.union discriminator variants)

theorem WellFormed.regular {L : Set (Text × Text)} {s : Shape} (h : s.WellFormed L) :
    s.Regular := by
  induction h with
  | scalar kind => exact .scalar kind
  | literal listed => exact .literal _ _
  | object distinct wellFormed ih => exact .object ih
  | array wellFormed ih => exact .array ih
  | untagged several distinct flat wellFormed ih => exact .union none several ih
  | tagged several distinct pinned apart wellFormed ih => exact .union _ several ih

/-- The shape with all literals as strings and without the discriminators of its unions. -/
def bare : Shape → Shape := erase fun _ => none

theorem bare_object (fields : List (Text × Shape)) :
    (object fields).bare = .object (fields.map fun f => (f.1, f.2.bare)) :=
  congrArg object (eraseFields_eq_map _ fields)

theorem bare_union (discriminator : Option Text) (variants : List Shape) :
    (union discriminator variants).bare = .union none (variants.map bare) :=
  congrArg (union none) (eraseAll_eq_map _ variants)

end Shape

namespace TypeScript

open Emit
open Zod (Reader readText scalar? scalar?_name stringOf stringOf_quote forall₂_map_map
  depthFields_le)

/-- One of the alternatives of a type. There is no shape for `undefined`. -/
abbrev Alternative := Option Shape

/-- The type that has the given alternatives. -/
def type? : List Alternative → Option Shape
  | [] => none
  | [only] => only
  | several => (several.mapM id).map (.union none)

/-- The type of a member, which may be missing if its last alternative is `undefined`. -/
def memberType? (alternatives : List Alternative) : Option Shape :=
  match alternatives.getLast? with
  | some none => (type? alternatives.dropLast).map .optional
  | _ => type? alternatives

def brackets : List Token := [.mark '[', .mark ']']

/-- Arrays of arrays of the type, as many as brackets follow. -/
def withBrackets (element : Shape) : List Token → Shape × List Token
  | opening :: closing :: rest =>
    if [opening, closing] = brackets then withBrackets (.array element) rest
    else (element, opening :: closing :: rest)
  | tokens => (element, tokens)

section

variable (type : Reader (List Alternative))

def readMember : Reader (Text × Shape) := fun tokens => do
  let (key, rest) ← readText stringOf tokens
  let rest ← rest.dropPrefix? [.mark ':']
  let (alternatives, rest) ← type rest
  let value ← memberType? alternatives
  some ((key, value), rest)

/-- The members of a record, up to the closing brace. -/
def readMembers : Reader (List (Text × Shape)) := fun tokens =>
  match tokens.dropPrefix? [.mark '\x7d'] with
  | some rest => some ([], rest)
  | none => do
    let (members, rest) ← readSequence ';' (readMember type) tokens.length tokens
    let rest ← rest.dropPrefix? [.mark '\x7d']
    some (members, rest)

/-- A type up to the closing parenthesis. -/
def readGroup : Reader Shape := fun tokens => do
  let (alternatives, rest) ← type tokens
  let rest ← rest.dropPrefix? [.mark ')']
  let shape ← type? alternatives
  some (shape, rest)

def readPrimary : Reader Shape
  | .word name :: rest => do
    let kind ← scalar? name
    some (.scalar kind, rest)
  | .literal spelling :: rest => do
    let text ← stringOf spelling
    some (.literal text "string", rest)
  | .mark c :: rest =>
    if c = '(' then readGroup type rest
    else if c = '\x7b' then do
      let (members, rest) ← readMembers type rest
      some (.object members, rest)
    else none
  | [] => none

def readAlternative : Reader Alternative := fun tokens =>
  match tokens.dropPrefix? [.word "undefined"] with
  | some rest => some (none, rest)
  | none => do
    let (primary, rest) ← readPrimary type tokens
    let (shape, rest) := withBrackets primary rest
    some (some shape, rest)

def readType : Reader (List Alternative) := fun tokens =>
  readSequence '|' (readAlternative type) tokens.length tokens

end

/-- The alternatives of a type that is nested no deeper than the given number. -/
def readNested : Nat → Reader (List Alternative)
  | 0 => fun _ => none
  | fuel + 1 => readType (readNested fuel)

/-- The type that a text is. -/
def read (t : Text) : Option Shape := do
  let tokens ← tokenize t
  match readNested (tokens.length + 1) tokens with
  | some (alternatives, []) => type? alternatives
  | _ => none

mutual

/-- The tokens that a shape is written with. -/
def tokensOf : Shape → List Token
  | .scalar kind => [.word kind.name]
  | .literal value _ => [.literal value.quote]
  | .optional inner => tokensOf inner ++ [.mark '|', .word "undefined"]
  | .object fields =>
    .mark '\x7b' :: (separated (.mark ';') (tokensOfFields fields) ++ [.mark '\x7d'])
  | .array element => tokensOf element ++ brackets
  | .union _ variants => .mark '(' :: (separated (.mark '|') (tokensOfAll variants) ++ [.mark ')'])
  | .foreign _ => []

def tokensOfFields : List (Text × Shape) → List (List Token)
  | [] => []
  | (key, s) :: rest => (.literal key.quote :: .mark ':' :: tokensOf s) :: tokensOfFields rest

def tokensOfAll : List Shape → List (List Token)
  | [] => []
  | s :: rest => tokensOf s :: tokensOfAll rest

end

def memberTokens (f : Text × Shape) : List Token :=
  .literal f.1.quote :: .mark ':' :: tokensOf f.2

theorem tokensOfFields_eq_map (fields : List (Text × Shape)) :
    tokensOfFields fields = fields.map memberTokens := by
  induction fields with
  | nil => rfl
  | cons f fields ih => rw [tokensOfFields, ih, List.map_cons, memberTokens]

theorem tokensOfAll_eq_map (shapes : List Shape) : tokensOfAll shapes = shapes.map tokensOf := by
  induction shapes with
  | nil => rfl
  | cons s shapes ih => rw [tokensOfAll, ih, List.map_cons]

variable {S : Set Text} {o : Options}

theorem tokenize_write_object (blank : o.Blank) {fields : List (Text × Shape)}
    (each : ∀ f ∈ fields, ∀ depth,
      tokenize (write typescript o depth f.2) = some (tokensOf f.2)) (depth : Nat) :
    tokenize (write typescript o depth (.object fields)) = some (tokensOf (.object fields)) := by
  rw [write]
  split
  · next empty =>
      rw [List.isEmpty_iff.mp empty]
      decide +kernel
  · have opens : Lexes typescript.record.opening [.mark '\x7b'] := by decide +kernel
    have closes : Lexes typescript.record.closing [.mark '\x7d'] := by decide +kernel
    have semicolon : Lexes typescript.memberSeparator [.mark ';'] := by decide +kernel
    have members : List.Forall₂ (fun t tokens => tokenize t = some tokens)
        (writeMembers typescript o (depth + 1) fields) (tokensOfFields fields) := by
      rw [writeMembers_eq_map, tokensOfFields_eq_map]
      apply forall₂_map_map
      intro f hf
      have key : Lexes (f.1.quote ++ o.keySeparator) [.literal f.1.quote, .mark ':'] :=
        (Lexes.quote f.1).append (.keySeparator o)
      exact tokenize_append_of_lexes key (each f hf (depth + 1))
    exact (Lexes.block blank opens closes (by decide) (by decide) semicolon (by decide) depth
      members).tokenize

theorem tokenize_write_union (discriminator : Option Text) {variants : List Shape}
    (each : ∀ s ∈ variants, ∀ depth, tokenize (write typescript o depth s) = some (tokensOf s))
    (depth : Nat) :
    tokenize (write typescript o depth (.union discriminator variants)) =
      some (tokensOf (.union discriminator variants)) := by
  have opens : Lexes "(" [.mark '('] := by decide +kernel
  have closes : Lexes ")" [.mark ')'] := by decide +kernel
  have alternatives : List.Forall₂ (fun t tokens => tokenize t = some tokens)
      (writeAll typescript o depth variants) (tokensOfAll variants) := by
    rw [writeAll_eq_map, tokensOfAll_eq_map]
    apply forall₂_map_map
    intro s hs
    exact each s hs depth
  have joined : tokenize (Text.join
      (if o.minify then typescript.tightSeparator else typescript.alternativeSeparator)
      (writeAll typescript o depth variants)) =
      some (separated (.mark '|') (tokensOfAll variants)) := by
    split
    · exact tokenize_join (by decide +kernel) (by decide) alternatives
    · exact tokenize_join (by decide +kernel) (by decide) alternatives
  have inside := tokenize_append joined (by decide) closes.tokenize
  have whole := tokenize_append_of_lexes opens inside
  rw [← List.append_assoc] at whole
  exact whole

/-- A shape is written with its tokens, whatever the layout. -/
theorem tokenize_write (blank : o.Blank) {s : Shape} (h : s.Within S) (depth : Nat) :
    tokenize (write typescript o depth s) = some (tokensOf s) := by
  induction h generalizing depth with
  | scalar kind =>
      rw [write]
      cases kind <;> decide +kernel
  | @literal value jsonType word typeWord =>
      rw [write, Brackets.around]
      exact (Lexes.nil.append (.quote value)).append .nil |>.tokenize
  | optional within ih =>
      have option : tokenize " | undefined" = some [.mark '|', .word "undefined"] := by
        decide +kernel
      rw [write]
      exact tokenize_append (ih depth) (by decide) option
  | object words within ih => exact tokenize_write_object blank ih depth
  | array within ih =>
      have pair : tokenize "[]" = some brackets := by decide +kernel
      rw [write]
      exact tokenize_append (ih depth) (by decide) pair
  | union word within ih => exact tokenize_write_union _ ih depth

theorem mapM_id_map_some {α : Type} (l : List α) : (l.map some).mapM id = some l := by
  induction l with
  | nil => rfl
  | cons a l ih => simp [List.mapM_cons, ih]

theorem type?_of_several {shapes : List Shape} (several : 2 ≤ shapes.length) :
    type? (shapes.map some) = some (.union none shapes) := by
  have union : type? (shapes.map some) = ((shapes.map some).mapM id).map (.union none) := by
    apply type?.eq_3
    · intro empty
      rw [List.map_eq_nil_iff.mp empty] at several
      cases several
    · intro only same
      have length := congrArg List.length same
      rw [List.length_map, List.length_singleton] at length
      omega
  rw [union, mapM_id_map_some]
  rfl

theorem withBrackets_brackets (element : Shape) (rest : List Token) :
    withBrackets element (brackets ++ rest) = withBrackets (.array element) rest := by
  change (if brackets = brackets then _ else _) = _
  exact if_pos rfl

theorem withBrackets_eq_self (element : Shape) {rest : List Token}
    (ends : rest.dropPrefix? [.mark '['] = none) :
    withBrackets element rest = (element, rest) := by
  unfold withBrackets
  split
  · next opening closing rest =>
      rw [if_neg]
      intro same
      cases same
      rw [dropPrefix?_mark] at ends
      cases ends
  · rfl

/-- The alternatives that a shape is written with, where it may be an option. -/
def alternatives : Shape → List Alternative
  | .optional inner => [some inner, none]
  | s => [some s]

def alternativeTokens : Alternative → List Token
  | none => [.word "undefined"]
  | some s => tokensOf s

theorem tokensOf_eq_separated (s : Shape) :
    tokensOf s = separated (.mark '|') ((alternatives s).map alternativeTokens) := by
  cases s with
  | optional inner => rw [tokensOf]; rfl
  | _ => rfl

theorem memberType?_alternatives (s : Shape) :
    memberType? ((alternatives s).map (Option.map Shape.bare)) = some s.bare := by
  cases s with
  | optional inner => rfl
  | _ => rfl

theorem tokensOf_ne_nil {s : Shape} (h : s.Within S) : tokensOf s ≠ [] := by
  cases h with
  | optional within => exact List.append_ne_nil_of_right_ne_nil _ (by decide)
  | array within => exact List.append_ne_nil_of_right_ne_nil _ (by decide)
  | _ => exact List.cons_ne_nil _ _

/-- The tokens do not continue a type. -/
def Ends (rest : List Token) : Prop :=
  rest.dropPrefix? [.mark '['] = none ∧ rest.dropPrefix? [.mark '|'] = none

theorem ends_mark {c : CodePoint} (bracket : c ≠ '[') (bar : c ≠ '|') (rest : List Token) :
    Ends (.mark c :: rest) :=
  ⟨dropPrefix?_eq_none (fun same => bracket (Token.mark.inj same)) rest,
    dropPrefix?_eq_none (fun same => bar (Token.mark.inj same)) rest⟩

section

variable {type : Reader (List Alternative)}

theorem readAlternative_of_readPrimary {tokens rest : List Token} {primary : Shape}
    (start : tokens.dropPrefix? [.word "undefined"] = none)
    (reads : readPrimary type tokens = some (primary, rest)) :
    readAlternative type tokens =
      some (some (withBrackets primary rest).1, (withBrackets primary rest).2) := by
  rw [readAlternative, start]
  simp only [reads, bind, Option.bind_some]

/-- Alternatives are read one by one, up to what does not continue a type. -/
theorem readType_alternatives {l : List Alternative} (nonempty : l ≠ [])
    (filled : ∀ a ∈ l, alternativeTokens a ≠ [])
    (reads : ∀ a ∈ l, ∀ after, after.dropPrefix? [.mark '['] = none →
      readAlternative type (alternativeTokens a ++ after) = some (a.map Shape.bare, after))
    {rest : List Token} (ends : Ends rest) :
    readType type (separated (.mark '|') (l.map alternativeTokens) ++ rest) =
      some (l.map (Option.map Shape.bare), rest) := by
  have between : ∀ after, (Token.mark '|' :: after).dropPrefix? [.mark '['] = none :=
    fun after => dropPrefix?_eq_none (by decide) after
  refine readSequence_separated between ends.1 ends.2 reads nonempty ?_
  have count := length_le_separated (.mark '|') (List.forall_mem_map.mpr filled)
  rw [List.length_map] at count
  rw [List.length_append]
  omega

theorem readMember_memberTokens {f : Text × Shape} (unsplit : f.1.Unsplit) {rest : List Token}
    (reads : type (tokensOf f.2 ++ rest) =
      some ((alternatives f.2).map (Option.map Shape.bare), rest)) :
    readMember type (memberTokens f ++ rest) = some ((f.1, f.2.bare), rest) := by
  have key : readText stringOf (memberTokens f ++ rest) =
      some (f.1, .mark ':' :: (tokensOf f.2 ++ rest)) := by
    rw [memberTokens, List.cons_append, readText, stringOf_quote, Text.joined_of_unsplit unsplit]
    rfl
  simp only [readMember, key, dropPrefix?_mark, reads, memberType?_alternatives, bind,
    Option.bind_some]

theorem readMembers_tokensOfFields {fields : List (Text × Shape)}
    (unsplit : ∀ f ∈ fields, f.1.Unsplit)
    (reads : ∀ f ∈ fields, ∀ after, Ends after →
      type (tokensOf f.2 ++ after) = some ((alternatives f.2).map (Option.map Shape.bare), after))
    (rest : List Token) :
    readMembers type (separated (.mark ';') (tokensOfFields fields) ++ .mark '\x7d' :: rest) =
      some (fields.map fun f => (f.1, f.2.bare), rest) := by
  rw [tokensOfFields_eq_map, readMembers]
  cases fields with
  | nil => simp [separated, dropPrefix?_mark]
  | cons f fields =>
      have notEmpty : (separated (.mark ';') ((f :: fields).map memberTokens) ++
          .mark '\x7d' :: rest).dropPrefix? [.mark '\x7d'] = none := by
        obtain ⟨others, split⟩ :=
          exists_separated_cons (.mark ';') (memberTokens f) (fields.map memberTokens)
        rw [List.map_cons, split]
        exact dropPrefix?_eq_none (by simp) _
      have enough : (f :: fields).length ≤ (separated (.mark ';')
          ((f :: fields).map memberTokens) ++ .mark '\x7d' :: rest).length := by
        have filled : ∀ item ∈ (f :: fields).map memberTokens, item ≠ [] :=
          List.forall_mem_map.mpr fun f _ => List.cons_ne_nil _ _
        have count := length_le_separated (.mark ';') filled
        rw [List.length_map] at count
        rw [List.length_append]
        omega
      have members := readSequence_separated
        (fun after => ends_mark (c := ';') (by decide) (by decide) after)
        (ends_mark (c := '\x7d') (by decide) (by decide) rest)
        (dropPrefix?_eq_none (by decide) rest)
        (fun f hf after ends => readMember_memberTokens (unsplit f hf) (reads f hf after ends))
        (List.cons_ne_nil f fields) enough
      simp only [notEmpty, members, dropPrefix?_mark, bind, Option.bind_some]

theorem readGroup_alternatives {variants : List Shape} (several : 2 ≤ variants.length)
    {tokens rest : List Token}
    (reads : type (tokens ++ .mark ')' :: rest) =
      some ((variants.map some).map (Option.map Shape.bare), .mark ')' :: rest)) :
    readGroup type (tokens ++ .mark ')' :: rest) =
      some (.union none (variants.map Shape.bare), rest) := by
  have union : type? ((variants.map some).map (Option.map Shape.bare)) =
      some (.union none (variants.map Shape.bare)) := by
    have same : (variants.map some).map (Option.map Shape.bare) =
        (variants.map Shape.bare).map some := by
      rw [List.map_map, List.map_map]
      rfl
    rw [same]
    exact type?_of_several (by rwa [List.length_map])
  simp only [readGroup, reads, dropPrefix?_mark, union, bind, Option.bind_some]

end

/-- The type of a shape is read off its tokens, together with the brackets that follow. -/
def Readable (fuel : Nat) (s : Shape) : Prop :=
  ∀ rest, readAlternative (readNested fuel) (tokensOf s ++ rest) =
    some (some (withBrackets s.bare rest).1, (withBrackets s.bare rest).2)

theorem Readable.of_readPrimary {fuel : Nat} {s : Shape}
    (start : ∀ rest, (tokensOf s ++ rest).dropPrefix? [.word "undefined"] = none)
    (reads : ∀ rest, readPrimary (readNested fuel) (tokensOf s ++ rest) = some (s.bare, rest)) :
    Readable fuel s :=
  fun rest => readAlternative_of_readPrimary (start rest) (reads rest)

theorem readNested_alternatives {fuel : Nat} {l : List Alternative} (nonempty : l ≠ [])
    (h : ∀ s, some s ∈ l → s.Within S ∧ Readable fuel s) {rest : List Token} (ends : Ends rest) :
    readNested (fuel + 1) (separated (.mark '|') (l.map alternativeTokens) ++ rest) =
      some (l.map (Option.map Shape.bare), rest) := by
  refine readType_alternatives nonempty ?_ ?_ ends
  · intro a ha
    cases a with
    | none => exact List.cons_ne_nil _ _
    | some s => exact tokensOf_ne_nil (h s ha).1
  · intro a ha after noBracket
    cases a with
    | none => simp [readAlternative, alternativeTokens, List.dropPrefix?]
    | some s =>
        have reads := (h s ha).2 after
        rw [withBrackets_eq_self _ noBracket] at reads
        exact reads

theorem readNested_tokensOf {fuel : Nat} {s : Shape} (within : s.Within S)
    (readable : Readable fuel s.unwrap) {rest : List Token} (ends : Ends rest) :
    readNested (fuel + 1) (tokensOf s ++ rest) =
      some ((alternatives s).map (Option.map Shape.bare), rest) := by
  have only : ∀ t, some t ∈ alternatives s → t.Within S ∧ Readable fuel t := by
    intro t ht
    have same : t = s.unwrap := by
      cases s <;> simp_all [alternatives, Shape.unwrap]
    rw [same]
    exact ⟨within.unwrap, readable⟩
  have nonempty : alternatives s ≠ [] := by
    cases s <;> exact List.cons_ne_nil _ _
  rw [tokensOf_eq_separated]
  exact readNested_alternatives nonempty only ends

theorem Readable.object {fuel : Nat} {fields : List (Text × Shape)}
    (words : ∀ f ∈ fields, f.1.Unsplit) (within : ∀ f ∈ fields, f.2.Within S)
    (readable : ∀ f ∈ fields, Readable fuel f.2.unwrap) :
    Readable (fuel + 1) (.object fields) := by
  refine .of_readPrimary (fun rest => rfl) (fun rest => ?_)
  have members : readMembers (readNested (fuel + 1))
      (separated (.mark ';') (tokensOfFields fields) ++ .mark '\x7d' :: rest) =
      some (fields.map fun f => (f.1, f.2.bare), rest) :=
    readMembers_tokensOfFields words
      (fun f hf _ ends => readNested_tokensOf (within f hf) (readable f hf) ends) rest
  simp [tokensOf, readPrimary, members, Shape.bare_object]

theorem Readable.union {fuel : Nat} (discriminator : Option Text) {variants : List Shape}
    (several : 2 ≤ variants.length) (within : ∀ s ∈ variants, s.Within S)
    (readable : ∀ s ∈ variants, Readable fuel s) :
    Readable (fuel + 1) (.union discriminator variants) := by
  refine .of_readPrimary (fun rest => rfl) (fun rest => ?_)
  have nonempty : variants.map some ≠ [] := by
    intro empty
    rw [List.map_eq_nil_iff.mp empty] at several
    cases several
  have each : ∀ s, some s ∈ variants.map some → s.Within S ∧ Readable fuel s := by
    intro s hs
    obtain ⟨t, ht, same⟩ := List.mem_map.mp hs
    cases same
    exact ⟨within s ht, readable s ht⟩
  have tokens : tokensOfAll variants = (variants.map some).map alternativeTokens := by
    rw [tokensOfAll_eq_map, List.map_map]
    rfl
  have ends : Ends (.mark ')' :: rest) := ends_mark (by decide) (by decide) rest
  have group := readGroup_alternatives several (readNested_alternatives nonempty each ends)
  rw [← tokens] at group
  simp [tokensOf, readPrimary, group, Shape.bare_union]

/-- A type is read if the fuel exceeds its depth. -/
theorem readable_of_regular {s : Shape} (regular : s.Regular) (within : s.Within {t | t.Unsplit})
    {fuel : Nat} (deep : s.depth ≤ fuel) : Readable fuel s := by
  induction regular generalizing fuel with
  | scalar kind =>
      refine .of_readPrimary (fun rest => ?_) (fun rest => ?_)
      · cases kind <;> rfl
      · simp [tokensOf, readPrimary, scalar?_name, Shape.bare, Shape.erase]
  | literal value jsonType =>
      cases within with
      | literal word typeWord =>
          refine .of_readPrimary (fun rest => rfl) (fun rest => ?_)
          simp [tokensOf, readPrimary, stringOf_quote, Text.joined_of_unsplit word, Shape.bare,
            Shape.erase]
  | @object fields regular ih =>
      cases within with
      | object words within =>
          obtain ⟨fuel, rfl⟩ := Nat.exists_eq_add_of_le' (Nat.le_trans (Shape.depth_pos _) deep)
          have below : Shape.depthFields fields ≤ fuel := Nat.le_of_succ_le_succ deep
          refine .object words within fun f hf => ih f hf (within f hf).unwrap ?_
          exact Nat.le_trans (Shape.depth_unwrap_le f.2)
            (Nat.le_trans (Shape.depth_le_depthFields hf) below)
  | array regular ih =>
      cases within with
      | array within =>
          intro rest
          have element := ih within (Nat.le_of_succ_le deep) (brackets ++ rest)
          rw [withBrackets_brackets] at element
          rw [tokensOf, List.append_assoc, element, Shape.bare, Shape.erase]
  | @union discriminator variants several regular ih =>
      cases within with
      | union word within =>
          obtain ⟨fuel, rfl⟩ := Nat.exists_eq_add_of_le' (Nat.le_trans (Shape.depth_pos _) deep)
          have below : Shape.depthAll variants ≤ fuel := Nat.le_of_succ_le_succ deep
          refine .union discriminator several within fun s hs => ih s hs (within s hs) ?_
          exact Nat.le_trans (Shape.depth_le_depthAll hs) below

/-- A shape has no more levels than tokens. -/
theorem depth_le_length_tokensOf {s : Shape} (h : s.Within S) : s.depth ≤ (tokensOf s).length := by
  induction h with
  | scalar kind => exact Nat.le_refl 1
  | literal word typeWord => exact Nat.le_refl 1
  | optional within ih =>
      rw [tokensOf, List.length_append, Shape.depth]
      exact Nat.add_le_add ih (by decide)
  | @object fields words within ih =>
      have below : Shape.depthFields fields ≤
          (separated (.mark ';') (tokensOfFields fields)).length := by
        apply depthFields_le
        intro f hf
        have listed : memberTokens f ∈ tokensOfFields fields := by
          rw [tokensOfFields_eq_map]
          exact List.mem_map.mpr ⟨f, hf, rfl⟩
        have length := length_le_of_mem_separated (.mark ';') listed
        rw [memberTokens, List.length_cons, List.length_cons] at length
        have := ih f hf
        omega
      rw [tokensOf, List.length_cons, List.length_append, Shape.depth]
      omega
  | array within ih =>
      rw [tokensOf, List.length_append, Shape.depth]
      exact Nat.add_le_add ih (by decide)
  | @union discriminator variants word within ih =>
      have below : Shape.depthAll variants ≤
          (separated (.mark '|') (tokensOfAll variants)).length := by
        rw [Shape.depthAll_le_iff]
        intro s hs
        have listed : tokensOf s ∈ tokensOfAll variants := by
          rw [tokensOfAll_eq_map]
          exact List.mem_map.mpr ⟨s, hs, rfl⟩
        exact Nat.le_trans (ih s hs) (length_le_of_mem_separated (.mark '|') listed)
      rw [tokensOf, List.length_cons, List.length_append, Shape.depth]
      omega

theorem alternatives_of_regular {s : Shape} (regular : s.Regular) :
    s.unwrap = s ∧ alternatives s = [some s] := by
  cases regular <;> exact ⟨rfl, rfl⟩

/-- A regular shape that was written is read again. -/
theorem read_write (blank : o.Blank) {s : Shape} (within : s.Within {t | t.Unsplit})
    (regular : s.Regular) : read (write typescript o 0 s) = some s.bare := by
  obtain ⟨unwrap, single⟩ := alternatives_of_regular regular
  have readable : Readable (tokensOf s).length s.unwrap := by
    rw [unwrap]
    exact readable_of_regular regular within (depth_le_length_tokensOf within)
  have ends : Ends [] := ⟨rfl, rfl⟩
  have alternatives := readNested_tokensOf within readable ends
  rw [List.append_nil, single] at alternatives
  rw [read, tokenize_write blank within 0]
  simp only [alternatives, bind, Option.bind_some]
  rfl

end TypeScript

namespace Shape

open Emit

/-- The type that is written for a shape is read as the shape, but for the JSON types of literals
and the discriminators of unions, if the shape is regular. Shapes that are inferred from samples
are. -/
theorem read_typescript_eq_bare (o : Options) (blank : o.Blank) :
    (∀ s : Shape, s.Within {t | t.Unsplit} → s.Regular →
      ∃ text, emit .typescript o s = .ok text ∧ TypeScript.read text = some s.bare) ∧
    ∀ samples : List Json, samples ≠ [] → (∀ v ∈ samples, v.Within .univ .univ) →
      ∃ shape, inferSamples samples = .ok shape ∧ shape.Regular ∧
        (shape.Within {t | t.Unsplit} → ∃ text,
          emit .typescript o shape = .ok text ∧ TypeScript.read text = some shape.bare) := by
  have reads : ∀ s : Shape, s.Within {t | t.Unsplit} → s.Regular →
      ∃ text, emit .typescript o s = .ok text ∧ TypeScript.read text = some s.bare := by
    intro s within regular
    exact ⟨_, emit_eq_ok .typescript o within, TypeScript.read_write blank within regular⟩
  refine ⟨reads, ?_⟩
  intro samples nonempty within
  obtain ⟨shape, eq, wellFormed⟩ := exists_wellFormed_inferSamples nonempty within
  have regular := (wellFormed .univ fun v _ => Set.subset_univ _).regular
  exact ⟨shape, eq, regular, fun unsplit => reads shape unsplit regular⟩

/-- A key that looks like the rest of a type, and a list of lists that needs parentheses. -/
theorem read_typescript_hostileKey :
    let o : Options := { indent := "\t" }
    let key : Text := "\" | undefined\x7d[];"
    (∃ text, emit .typescript o (.object [(key, .optional (.array (.array .null)))]) = .ok text ∧
      TypeScript.read text = some (.object [(key, .optional (.array (.array .null)))])) ∧
    ∃ text, emit .typescript o (.array (.union none [.array .null, .number])) = .ok text ∧
      TypeScript.read text = some (.array (.union none [.array .null, .number])) := by
  intro o key
  have blank : o.Blank := .inr (by decide)
  have word : key ∈ {t : Text | t.Unsplit} := Text.unsplit_of_joined_eq (by decide +kernel)
  constructor
  · apply (read_typescript_eq_bare o blank).1
    · exact .object (List.forall_mem_singleton.mpr word)
        (List.forall_mem_singleton.mpr (.optional (.array (.array (.scalar .null)))))
    · exact .object (List.forall_mem_singleton.mpr (.array (.array (.scalar .null))))
  · have within : (Json.arr [.arr [.null], .int 1]).Within .univ .univ :=
      .arr (List.forall_mem_cons.mpr ⟨.arr (List.forall_mem_singleton.mpr .null),
        List.forall_mem_singleton.mpr (.int 1)⟩)
    have inferred : inferSamples [.arr [.arr [.null], .int 1]] =
        .ok (.array (.union none [.array .null, .number])) := by
      decide +kernel
    obtain ⟨shape, eq, -, reads⟩ := (read_typescript_eq_bare o blank).2 _ (List.cons_ne_nil _ _)
      (List.forall_mem_singleton.mpr within)
    cases inferred.symm.trans eq
    apply reads
    exact .array (.union (by simp) (List.forall_mem_cons.mpr ⟨.array (.scalar .null),
      List.forall_mem_singleton.mpr (.scalar .number)⟩))

end Shape

end JsonShapes
