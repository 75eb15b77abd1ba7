import JsonShapes.Proofs.Decoding
import JsonShapes.Proofs.Quoting

/-!
# Documents read back as they were printed

A document that was printed on one line, or with white space between its parts, is read as the value
that it was made of, except that split pairs in its strings and keys are joined, and that members
whose keys become equal are one. That its surrogates are escaped afterwards in the whole text does
not matter, since they occur inside of strings only. The layout is of no account.
-/

namespace JsonShapes

namespace Text

theorem unsplit_cons {c : CodePoint} {t : Text} (h : t.Unsplit)
    (apart : ∀ d ∈ t.head?, ¬(c.isHighSurrogate = true ∧ d.isLowSurrogate = true)) :
    Unsplit (c :: t) := by
  cases t with
  | nil => trivial
  | cons d t => exact ⟨apart d rfl, h⟩

/-- A joined text starts as the text does, or with a joined pair. -/
theorem head?_joined {c d : CodePoint} {t : Text} (h : d ∈ (joined (c :: t)).head?) :
    d = c ∨ d.isSurrogate = false := by
  cases t with
  | nil =>
      cases h
      exact .inl rfl
  | cons low t =>
      rw [joined] at h
      split at h
      · next pair =>
          rw [List.head?_cons, Option.mem_some_iff] at h
          rw [Bool.and_eq_true] at pair
          exact .inr (h ▸ CodePoint.isSurrogate_of_large (CodePoint.le_val_ofPair pair.1 pair.2))
      · rw [List.head?_cons, Option.mem_some_iff] at h
        exact .inl h.symm

/-- Joining a pair takes both of its halves, so that no new pair comes about. -/
theorem unsplit_joined (t : Text) : t.joined.Unsplit := by
  fun_induction joined t with
  | case1 high low rest pair ih =>
      rw [Bool.and_eq_true] at pair
      have single := CodePoint.isSurrogate_of_large (CodePoint.le_val_ofPair pair.1 pair.2)
      rw [CodePoint.isSurrogate_eq, Bool.or_eq_false_iff] at single
      refine unsplit_cons ih fun d _ both => ?_
      rw [single.1] at both
      exact absurd both.1 (by decide)
  | case2 high low rest apart ih =>
      rw [Bool.and_eq_true] at apart
      refine unsplit_cons ih fun d first both => ?_
      obtain rfl | single := head?_joined first
      · exact apart both
      · rw [CodePoint.isSurrogate_eq, Bool.or_eq_false_iff] at single
        rw [single.2] at both
        exact absurd both.2 (by decide)
  | case3 t short =>
      apply unsplit_of_joined_eq
      rw [joined]
      exact short

end Text

namespace Fields

variable {α : Type}

theorem set_of_notMem {fields : List (Text × α)} {key : Text} (new : key ∉ keys fields)
    (value : α) : set fields key value = fields ++ [(key, value)] := by
  induction fields with
  | nil => rfl
  | cons field fields ih =>
      rw [keys, List.map_cons, List.mem_cons, not_or] at new
      rw [set, if_neg fun same => new.1 same.symm, ih new.2, List.cons_append]

/-- The members that a reader collects, added to those before them. -/
def setAll (before members : List (Text × α)) : List (Text × α) :=
  members.foldl (fun fields m => set fields m.1 m.2) before

theorem setAll_eq_append {before members : List (Text × α)}
    (distinct : (keys (before ++ members)).Nodup) : setAll before members = before ++ members := by
  induction members generalizing before with
  | nil =>
      rw [List.append_nil]
      rfl
  | cons m members ih =>
      have new : m.1 ∉ keys before := by
        intro listed
        rw [keys, List.map_append, List.map_cons] at distinct
        exact (List.nodup_append.1 distinct).2.2 m.1 listed m.1 List.mem_cons_self rfl
      rw [List.append_cons] at distinct
      rw [setAll, List.foldl_cons, set_of_notMem new, ← setAll, ih distinct, ← List.append_cons]

end Fields

namespace Json

mutual

/-- The value that is read for a printed one. -/
def reread : Json → Json
  | .str s => .str s.joined
  | .arr items => .arr (rereadItems items)
  | .obj members => .obj (Fields.setAll [] (rereadMembers members))
  | j => j

def rereadItems : List Json → List Json
  | [] => []
  | item :: items => reread item :: rereadItems items

def rereadMembers : List (Text × Json) → List (Text × Json)
  | [] => []
  | (key, value) :: members => (key.joined, reread value) :: rereadMembers members

end

theorem rereadItems_eq_map (items : List Json) : rereadItems items = items.map reread := by
  induction items with
  | nil => rfl
  | cons item items ih => rw [rereadItems, ih, List.map_cons]

theorem rereadMembers_eq_map (members : List (Text × Json)) :
    rereadMembers members = members.map fun m => (m.1.joined, reread m.2) := by
  induction members with
  | nil => rfl
  | cons m members ih => rw [rereadMembers, ih, List.map_cons]

/-- Over texts without split pairs nothing changes. -/
theorem reread_eq_self {D : Set Binary64} {j : Json} (h : j.Within {t | t.Unsplit} D) :
    j.reread = j := by
  induction h with
  | str word => rw [reread, Text.joined_of_unsplit word]
  | arr within ih =>
      rw [reread, rereadItems_eq_map, List.map_congr_left ih, List.map_id']
  | @obj members distinct words within ih =>
      have same : ∀ m ∈ members, (m.1.joined, reread m.2) = m := fun m hm =>
        Prod.ext (Text.joined_of_unsplit (words m hm)) (ih m hm)
      rw [reread, rereadMembers_eq_map, List.map_congr_left same, List.map_id']
      exact congrArg Json.obj (Fields.setAll_eq_append distinct)
  | _ => rfl

variable {S : Set Text} {D : Set Binary64}

theorem Within.set {members : List (Text × Json)} (h : (Json.obj members).Within S D) {key : Text}
    (word : key ∈ S) {value : Json} (within : value.Within S D) :
    (Json.obj (Fields.set members key value)).Within S D := by
  cases h with
  | obj distinct words others =>
      refine .obj (Fields.nodup_keys_set distinct key value) ?_ ?_
      · intro m hm
        rcases Fields.mem_set hm with rfl | old
        · exact word
        · exact words m old
      · intro m hm
        rcases Fields.mem_set hm with rfl | old
        · exact within
        · exact others m old

theorem Within.setAll {before members : List (Text × Json)} (h : (Json.obj before).Within S D)
    (each : ∀ m ∈ members, m.1 ∈ S ∧ m.2.Within S D) :
    (Json.obj (Fields.setAll before members)).Within S D := by
  induction members generalizing before with
  | nil => exact h
  | cons m members ih =>
      rw [List.forall_mem_cons] at each
      exact ih (h.set each.1.1 each.1.2) each.2

/-- No split pair is left. -/
theorem within_reread {j : Json} (h : j.Decodable) : j.reread.Within {t | t.Unsplit} .univ := by
  induction h with
  | null => exact .null
  | bool b => exact .bool b
  | int short => exact .int _
  | double x => exact .double trivial
  | str s => exact .str (Text.unsplit_joined s)
  | arr decodable ih =>
      rw [reread, rereadItems_eq_map]
      exact .arr (List.forall_mem_map.2 ih)
  | obj distinct decodable ih =>
      rw [reread, rereadMembers_eq_map]
      refine Within.setAll (.obj List.nodup_nil nofun nofun) ?_
      exact List.forall_mem_map.2 fun m hm => ⟨Text.unsplit_joined m.1, ih m hm⟩

/-- A value is read back as itself if and only if none of its texts holds a split pair. -/
theorem reread_eq_self_iff {j : Json} (h : j.Decodable) :
    j.reread = j ↔ j.Within {t | t.Unsplit} .univ :=
  ⟨fun same => same ▸ within_reread h, reread_eq_self⟩

/-- Nothing is added to a document but white space, and only where it has no meaning. -/
structure Layout.Blank (layout : Layout) : Prop where
  style : layout.style = .plain
  comma : layout.comma = [CodePoint.ofChar ',']
  colon : ∃ blanks, layout.colon = CodePoint.ofChar ':' :: blanks ∧ ∀ c ∈ blanks, isSpace c = true
  newline : ∀ depth, ∀ c ∈ layout.newline depth, isSpace c = true

theorem Layout.blank_compact : Layout.compact.Blank :=
  ⟨rfl, rfl, ⟨[], rfl, nofun⟩, fun _ => nofun⟩

theorem Layout.blank_indented {unit : Text} (h : ∀ c ∈ unit, isSpace c = true) :
    (Layout.indented unit).Blank := by
  refine ⟨rfl, rfl, ⟨[CodePoint.ofChar ' '], rfl, by decide⟩, fun depth => ?_⟩
  refine List.forall_mem_cons.2 ⟨by decide, ?_⟩
  induction depth with
  | zero => exact nofun
  | succ depth ih =>
      rw [Text.times_succ]
      exact List.forall_mem_append.2 ⟨h, ih⟩

/-- What holds of the four blanks holds of all white space. -/
theorem forall_isSpace {p : CodePoint → Prop} (h : ∀ c ∈ ([' ', '\t', '\n', '\r'] : Text), p c)
    {c : CodePoint} (space : isSpace c = true) : p c := by
  simp only [isSpace, Bool.or_eq_true, decide_eq_true_eq] at space
  apply h
  simpa only [List.mem_cons, List.not_mem_nil, or_false, or_assoc] using space

theorem escapeSurrogates_blank {s : Text} (blank : ∀ c ∈ s, isSpace c = true) :
    s.escapeSurrogates = s := by
  have blanks : ∀ c ∈ ([' ', '\t', '\n', '\r'] : Text), c.isSurrogate = false := by decide
  exact Text.escapeSurrogates_eq_self fun c hc => forall_isSpace blanks (blank c hc)

/-- Numbers end at white space, commas and closing brackets. -/
theorem endsNumber_blank {s : Text} (blank : ∀ c ∈ s, isSpace c = true) {c : CodePoint}
    (closes : c ∈ ([',', ']', '\x7d'] : Text)) (t : Text) : (s ++ c :: t).EndsNumber := by
  let Ends (d : CodePoint) : Prop := d.isDigit = false ∧ d ≠ '.' ∧ d ≠ 'e' ∧ d ≠ 'E'
  have closers : ∀ d ∈ ([',', ']', '\x7d'] : Text), Ends d := by decide
  have blanks : ∀ d ∈ ([' ', '\t', '\n', '\r'] : Text), Ends d := by decide
  intro d first
  cases s with
  | nil =>
      cases first
      exact closers _ closes
  | cons e s =>
      cases first
      exact forall_isSpace blanks (blank _ List.mem_cons_self)

/-- A value with its surrogates escaped, in front of what follows it. -/
def shown (layout : Layout) (depth : Nat) (rest : Text) (j : Json) : Text :=
  (printBefore layout depth rest j).escapeSurrogates

theorem length_le_append (s rest : Text) :
    rest.escapeSurrogates.length ≤ (s ++ rest).escapeSurrogates.length := by
  rw [Text.escapeSurrogates_append, List.length_append]
  exact Nat.le_add_left _ _

/-- What follows a value is at the end of the text. -/
theorem length_le_shown (layout : Layout) (depth : Nat) (rest : Text) (j : Json) :
    rest.escapeSurrogates.length ≤ (shown layout depth rest j).length := by
  have split := printBefore_append layout depth [] rest j
  rw [List.nil_append] at split
  rw [shown, split]
  exact length_le_append _ rest

theorem length_le_printItems (layout : Layout) (depth : Nat) (rest : Text) (items : List Json) :
    rest.escapeSurrogates.length ≤
      (printItems layout depth rest items).escapeSurrogates.length := by
  have split := printItems_append layout depth [] rest items
  rw [List.nil_append] at split
  rw [split]
  exact length_le_append _ rest

theorem length_le_printMembers (layout : Layout) (depth : Nat) (rest : Text)
    (members : List (Text × Json)) :
    rest.escapeSurrogates.length ≤
      (printMembers layout depth rest members).escapeSurrogates.length := by
  have split := printMembers_append layout depth [] rest members
  rw [List.nil_append] at split
  rw [split]
  exact length_le_append _ rest

/-- However it is indented and whatever follows, the value is read back. Two steps for each code
point are enough. -/
def ReadsBack (layout : Layout) (j : Json) : Prop :=
  ∀ (depth fuel : Nat) (rest : Text), rest.escapeSurrogates.EndsNumber →
    2 * (shown layout depth rest j).length + 1 ≤ fuel + 2 * rest.escapeSurrogates.length →
    readValue fuel (shown layout depth rest j) = .ok (j.reread, rest.escapeSurrogates)

variable {layout : Layout}

theorem ReadsBack.of_readValue {j : Json} (text : Text)
    (eq : ∀ depth rest, shown layout depth rest j = text ++ rest.escapeSurrogates)
    (h : ∀ rest fuel, rest.EndsNumber →
      readValue (fuel + 1) (text ++ rest) = .ok (j.reread, rest)) :
    ReadsBack layout j := by
  intro depth fuel rest ends enough
  rw [eq, List.length_append] at enough
  obtain ⟨fuel, rfl⟩ : ∃ n, fuel = n + 1 := ⟨fuel - 1, by omega⟩
  rw [eq]
  exact h _ fuel ends

theorem escapeSurrogates_of_isPlain {t : Text} (h : t.IsPlain) : t.escapeSurrogates = t := by
  apply Text.escapeSurrogates_eq_self
  intro c hc
  have small := (h c hc).2.1
  exact CodePoint.isSurrogate_eq_false (by omega)

/-- Words and numbers. -/
theorem ReadsBack.of_readScalar {j : Json} (text : Text) (plain : text.IsPlain)
    (eq : ∀ depth rest, printBefore layout depth rest j = text ++ rest)
    (h : ∀ rest, rest.EndsNumber → readScalar (text ++ rest) = .ok (j.reread, rest)) :
    ReadsBack layout j := by
  refine .of_readValue text (fun depth rest => ?_) fun rest fuel ends => ?_
  · rw [shown, eq, Text.escapeSurrogates_append, escapeSurrogates_of_isPlain plain]
  · exact readValue_of_readScalar (h rest ends) fuel

theorem readScalar_signed {negative : Bool} {digits rest : Text} {v : Json}
    (h : ∀ start, readNumber negative start (digits ++ rest) = .ok (v, rest)) :
    readScalar ((if negative then CodePoint.ofChar '-' :: digits else digits) ++ rest) =
      .ok (v, rest) := by
  have read := readScalar_of_readNumber h
  cases negative with
  | true => exact read
  | false => exact read

theorem readsBack_int {n : Int} (short : (Text.ofNat n.natAbs).length ≤ Text.maxDigits) :
    ReadsBack layout (.int n) := by
  refine .of_readScalar (Text.ofInt n) (Text.isPlain_ofInt n) (fun _ _ => rfl) fun rest ends => ?_
  rw [ofInt_eq]
  exact readScalar_signed fun start => readNumber_natAbs short start ends

theorem readsBack_double (x : Binary64) : ReadsBack layout (.double x) := by
  cases x with
  | finite x =>
      refine .of_readScalar x.text x.isPlain_text (fun _ _ => rfl) fun rest ends => ?_
      exact readScalar_signed fun start => readNumber_magnitude x start ends
  | infinite negative =>
      cases negative with
      | true => exact .of_readScalar "-Infinity" (by decide) (fun _ _ => rfl) fun _ _ => rfl
      | false => exact .of_readScalar "Infinity" (by decide) (fun _ _ => rfl) fun _ _ => rfl
  | nan => exact .of_readScalar "NaN" (by decide) (fun _ _ => rfl) fun _ _ => rfl

/-- A string in front of a text, with its surrogates escaped. -/
theorem escapeSurrogates_write_append (s rest : Text) :
    (Quoted.write .plain s ++ rest).escapeSurrogates = CodePoint.ofChar '"' ::
      (s.flatMap Quoted.spellPlain ++ CodePoint.ofChar '"' :: rest.escapeSurrogates) := by
  have quote := Quoted.quote_eq s
  rw [Text.quote] at quote
  rw [Text.escapeSurrogates_append, quote, List.cons_append, List.append_assoc]
  rfl

theorem readsBack_str (blank : layout.Blank) (s : Text) : ReadsBack layout (.str s) := by
  refine .of_readValue s.quote (fun depth rest => ?_) fun rest fuel _ => ?_
  · rw [shown, printBefore, blank.style, Text.escapeSurrogates_append, Text.quote]
  · rw [Quoted.quote_eq, List.cons_append, List.append_assoc]
    exact Quoted.isSpelling_spellPlain.readValue s rest fuel

/-- A text that ends an array or an object, and what follows. -/
structure Closes (bracket : CodePoint) (closing rest : Text) : Prop where
  skip : skipSpace closing.escapeSurrogates = bracket :: rest.escapeSurrogates
  ends : closing.escapeSurrogates.EndsNumber
  shorter : rest.escapeSurrogates.length < closing.escapeSurrogates.length

theorem closes_newline (blank : layout.Blank) (depth : Nat) {bracket : CodePoint}
    (listed : bracket ∈ ([']', '\x7d'] : Text)) (rest : Text) :
    Closes bracket (layout.newline depth ++ (bracket :: rest)) rest := by
  have brackets : ∀ c ∈ ([']', '\x7d'] : Text), c.isSurrogate = false ∧ isSpace c = false ∧
      c ∈ ([',', ']', '\x7d'] : Text) := by decide
  obtain ⟨notSurrogate, notSpace, ends⟩ := brackets bracket listed
  have eq : (layout.newline depth ++ (bracket :: rest)).escapeSurrogates =
      layout.newline depth ++ bracket :: rest.escapeSurrogates := by
    rw [Text.escapeSurrogates_append, escapeSurrogates_blank (blank.newline depth),
      Text.escapeSurrogates, List.flatMap_cons, if_neg (by simp [notSurrogate])]
    rfl
  constructor
  · rw [eq, skipSpace_append (blank.newline depth)]
    exact List.dropWhile_cons_of_neg (by simp [notSpace])
  · rw [eq]
    exact endsNumber_blank (blank.newline depth) ends _
  · rw [eq, List.length_append, List.length_cons]
    omega

theorem shown_arr_cons (blank : layout.Blank) (depth : Nat) (rest : Text) (item : Json)
    (items : List Json) :
    shown layout depth rest (.arr (item :: items)) = CodePoint.ofChar '[' ::
      (layout.newline (depth + 1) ++ shown layout (depth + 1)
        (printItems layout (depth + 1)
          (layout.newline depth ++ (CodePoint.ofChar ']' :: rest)) items) item) := by
  rw [shown, printBefore, Text.escapeSurrogates_append, Text.escapeSurrogates_append,
    escapeSurrogates_blank (blank.newline _)]
  rfl

theorem escapeSurrogates_printItems_cons (blank : layout.Blank) (depth : Nat) (closing : Text)
    (item : Json) (items : List Json) :
    (printItems layout depth closing (item :: items)).escapeSurrogates =
      CodePoint.ofChar ',' :: (layout.newline depth ++
        shown layout depth (printItems layout depth closing items) item) := by
  rw [printItems, blank.comma, Text.escapeSurrogates_append, Text.escapeSurrogates_append,
    escapeSurrogates_blank (blank.newline depth)]
  rfl

/-- A comma ends a number. -/
theorem endsNumber_comma (t : Text) : Text.EndsNumber (CodePoint.ofChar ',' :: t) :=
  endsNumber_blank (s := []) nofun (by decide) t

/-- The items from the first one on. The induction is along those after it. -/
theorem readItems_shown (blank : layout.Blank) {item : Json} {items : List Json}
    (first : ReadsBack layout item) (others : ∀ j ∈ items, ReadsBack layout j) (depth : Nat)
    {closing rest : Text} (closes : Closes ']' closing rest) {fuel : Nat}
    (enough : 2 * (shown layout depth (printItems layout depth closing items) item).length ≤
      fuel + 2 * rest.escapeSurrogates.length) :
    readItems fuel (shown layout depth (printItems layout depth closing items) item) =
      .ok (rereadItems (item :: items), rest.escapeSurrogates) := by
  have shorter := closes.shorter
  induction items generalizing item fuel with
  | nil =>
      rw [printItems] at enough ⊢
      have long := length_le_shown layout depth closing item
      obtain ⟨fuel, rfl⟩ : ∃ n, fuel = n + 1 := ⟨fuel - 1, by omega⟩
      exact readItems_last (first depth fuel closing closes.ends (by omega)) closes.skip
  | cons next items ih =>
      rw [List.forall_mem_cons] at others
      have eq := escapeSurrogates_printItems_cons blank depth closing next items
      have inside := length_le_printItems layout depth closing (next :: items)
      have long :=
        length_le_shown layout depth (printItems layout depth closing (next :: items)) item
      obtain ⟨fuel, rfl⟩ : ∃ n, fuel = n + 1 := ⟨fuel - 1, by omega⟩
      have read := first depth fuel _ (eq ▸ endsNumber_comma _) (by omega)
      have later :
          readItems fuel (shown layout depth (printItems layout depth closing items) next) =
            .ok (rereadItems (next :: items), rest.escapeSurrogates) := by
        rw [eq, List.length_cons, List.length_append] at long
        exact ih others.1 others.2 (by omega)
      rw [eq] at read
      refine readItems_cons read (skipSpace_cons (by decide) _) ?_
      rw [skipSpace_append (blank.newline depth), skipSpace_of_readItems later]
      exact later

theorem readsBack_arr (blank : layout.Blank) {items : List Json}
    (each : ∀ j ∈ items, ReadsBack layout j) : ReadsBack layout (.arr items) := by
  cases items with
  | nil => exact .of_readValue "[]" (fun depth rest => rfl) fun rest fuel ends => rfl
  | cons item items =>
      intro depth fuel rest ends enough
      rw [List.forall_mem_cons] at each
      have long := length_le_shown layout depth rest (.arr (item :: items))
      rw [shown_arr_cons blank] at enough long ⊢
      rw [List.length_cons, List.length_append] at enough long
      obtain ⟨fuel, rfl⟩ : ∃ n, fuel = n + 1 := ⟨fuel - 1, by omega⟩
      have read := readItems_shown blank each.1 each.2 (depth + 1)
        (closes_newline blank depth (by decide : CodePoint.ofChar ']' ∈ _) rest)
        (show _ ≤ fuel + _ by omega)
      apply readValue_arr
      rw [skipSpace_append (blank.newline _), skipSpace_of_readItems read]
      exact read

/-- A member with its surrogates escaped, in front of what follows it. -/
def shownMember (layout : Layout) (depth : Nat) (rest key : Text) (value : Json) : Text :=
  CodePoint.ofChar '"' :: (key.flatMap Quoted.spellPlain ++
    CodePoint.ofChar '"' :: (layout.colon ++ shown layout depth rest value))

theorem escapeSurrogates_member (blank : layout.Blank) (depth : Nat) (rest key : Text)
    (value : Json) :
    (Quoted.write layout.style key ++ (layout.colon ++
      printBefore layout depth rest value)).escapeSurrogates =
        shownMember layout depth rest key value := by
  obtain ⟨blanks, colon, spaces⟩ := blank.colon
  have same : layout.colon.escapeSurrogates = layout.colon := by
    rw [colon]
    exact congrArg (CodePoint.ofChar ':' :: ·) (escapeSurrogates_blank spaces)
  rw [blank.style, escapeSurrogates_write_append, Text.escapeSurrogates_append, same]
  rfl

theorem shown_obj_cons (blank : layout.Blank) (depth : Nat) (rest key : Text) (value : Json)
    (members : List (Text × Json)) :
    shown layout depth rest (.obj ((key, value) :: members)) = CodePoint.ofChar '\x7b' ::
      (layout.newline (depth + 1) ++ shownMember layout (depth + 1)
        (printMembers layout (depth + 1)
          (layout.newline depth ++ (CodePoint.ofChar '\x7d' :: rest)) members) key value) := by
  rw [shown, printBefore, Text.escapeSurrogates_append, Text.escapeSurrogates_append,
    escapeSurrogates_blank (blank.newline _), escapeSurrogates_member blank]
  rfl

theorem escapeSurrogates_printMembers_cons (blank : layout.Blank) (depth : Nat)
    (closing key : Text) (value : Json) (members : List (Text × Json)) :
    (printMembers layout depth closing ((key, value) :: members)).escapeSurrogates =
      CodePoint.ofChar ',' :: (layout.newline depth ++
        shownMember layout depth (printMembers layout depth closing members) key value) := by
  rw [printMembers, blank.comma, Text.escapeSurrogates_append, Text.escapeSurrogates_append,
    escapeSurrogates_blank (blank.newline depth), escapeSurrogates_member blank]
  rfl

theorem length_shown_lt (layout : Layout) (depth : Nat) (rest key : Text) (value : Json) :
    (shown layout depth rest value).length <
      (shownMember layout depth rest key value).length := by
  simp only [shownMember, List.length_cons, List.length_append]
  omega

theorem readsMember_shownMember (blank : layout.Blank) {value : Json}
    (h : ReadsBack layout value) (depth : Nat) (key : Text) {rest : Text}
    (ends : rest.escapeSurrogates.EndsNumber) {fuel : Nat}
    (enough : 2 * (shown layout depth rest value).length + 1 ≤
      fuel + 2 * rest.escapeSurrogates.length) :
    ReadsMember fuel (shownMember layout depth rest key value) key.joined value.reread
      rest.escapeSurrogates := by
  obtain ⟨blanks, colon, spaces⟩ := blank.colon
  have read := h depth fuel rest ends enough
  refine ⟨_, _, blanks ++ shown layout depth rest value, rfl,
    Quoted.isSpelling_spellPlain.readString_inside _ _ key, ?_, ?_⟩
  · rw [colon]
    exact skipSpace_cons (by decide) _
  · rw [skipSpace_append spaces, skipSpace_of_readValue read]
    exact read

/-- The members from the first one on, added to those before them. -/
theorem readMembers_shownMember (blank : layout.Blank) (key : Text) {value : Json}
    {members : List (Text × Json)} (first : ReadsBack layout value)
    (others : ∀ m ∈ members, ReadsBack layout m.2) (depth : Nat) {closing rest : Text}
    (closes : Closes '\x7d' closing rest) (before : List (Text × Json)) {fuel : Nat}
    (enough : 2 * (shownMember layout depth (printMembers layout depth closing members) key
      value).length ≤ fuel + 2 * rest.escapeSurrogates.length) :
    readMembers fuel before
        (shownMember layout depth (printMembers layout depth closing members) key value) =
      .ok (Fields.setAll before (rereadMembers ((key, value) :: members)),
        rest.escapeSurrogates) := by
  have shorter := closes.shorter
  induction members generalizing key value before fuel with
  | nil =>
      rw [printMembers] at enough ⊢
      have long := length_le_shown layout depth closing value
      have longer := length_shown_lt layout depth closing key value
      obtain ⟨fuel, rfl⟩ : ∃ n, fuel = n + 1 := ⟨fuel - 1, by omega⟩
      have member := readsMember_shownMember blank first depth key closes.ends
        (show _ ≤ fuel + _ by omega)
      exact readMembers_last member closes.skip
  | cons next members ih =>
      obtain ⟨nextKey, nextValue⟩ := next
      rw [List.forall_mem_cons] at others
      have nextReads : ReadsBack layout nextValue := others.1
      have eq := escapeSurrogates_printMembers_cons blank depth closing nextKey nextValue members
      have inside := length_le_printMembers layout depth closing ((nextKey, nextValue) :: members)
      have long := length_le_shown layout depth
        (printMembers layout depth closing ((nextKey, nextValue) :: members)) value
      have longer := length_shown_lt layout depth
        (printMembers layout depth closing ((nextKey, nextValue) :: members)) key value
      obtain ⟨fuel, rfl⟩ : ∃ n, fuel = n + 1 := ⟨fuel - 1, by omega⟩
      have member := readsMember_shownMember blank first depth key (eq ▸ endsNumber_comma _)
        (show _ ≤ fuel + _ by omega)
      have later : readMembers fuel (Fields.set before key.joined value.reread)
          (shownMember layout depth (printMembers layout depth closing members) nextKey nextValue) =
            .ok (Fields.setAll (Fields.set before key.joined value.reread)
              (rereadMembers ((nextKey, nextValue) :: members)), rest.escapeSurrogates) := by
        rw [eq, List.length_cons, List.length_append] at long
        exact ih nextKey nextReads others.2 _ (by omega)
      rw [eq] at member
      rw [readMembers_cons member (skipSpace_cons (by decide) _),
        skipSpace_append (blank.newline depth), skipSpace_of_readMembers later]
      exact later

theorem readsBack_obj (blank : layout.Blank) {members : List (Text × Json)}
    (each : ∀ m ∈ members, ReadsBack layout m.2) : ReadsBack layout (.obj members) := by
  cases members with
  | nil => exact .of_readValue "\x7b\x7d" (fun depth rest => rfl) fun rest fuel ends => rfl
  | cons member members =>
      obtain ⟨key, value⟩ := member
      intro depth fuel rest ends enough
      rw [List.forall_mem_cons] at each
      have first : ReadsBack layout value := each.1
      have long := length_le_shown layout depth rest (.obj ((key, value) :: members))
      rw [shown_obj_cons blank] at enough long ⊢
      rw [List.length_cons, List.length_append] at enough long
      obtain ⟨fuel, rfl⟩ : ∃ n, fuel = n + 1 := ⟨fuel - 1, by omega⟩
      have read := readMembers_shownMember blank key first each.2 (depth + 1)
        (closes_newline blank depth (by decide : CodePoint.ofChar '\x7d' ∈ _) rest) []
        (show _ ≤ fuel + _ by omega)
      apply readValue_obj
      rw [skipSpace_append (blank.newline _), skipSpace_of_readMembers read]
      exact read

theorem Decodable.readsBack {j : Json} (h : j.Decodable) (blank : layout.Blank) :
    ReadsBack layout j := by
  induction h with
  | null => exact .of_readScalar "null" (by decide) (fun _ _ => rfl) fun _ _ => rfl
  | bool b =>
      cases b with
      | true => exact .of_readScalar "true" (by decide) (fun _ _ => rfl) fun _ _ => rfl
      | false => exact .of_readScalar "false" (by decide) (fun _ _ => rfl) fun _ _ => rfl
  | int short => exact readsBack_int short
  | double x => exact readsBack_double x
  | str s => exact readsBack_str blank s
  | arr decodable ih => exact readsBack_arr blank ih
  | obj distinct decodable ih => exact readsBack_obj blank ih

/-- A printed document is read, whatever its layout. -/
theorem Decodable.parse_print {j : Json} (h : j.Decodable) (blank : layout.Blank) :
    parse (j.print layout).escapeSurrogates = .ok j.reread :=
  parse_of_readValue (h.readsBack blank 0 _ [] endsNumber_nil (Nat.le_succ _))

end Json

end JsonShapes
