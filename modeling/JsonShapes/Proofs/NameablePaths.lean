import JsonShapes.Naming
import Mathlib.Data.List.TakeWhile

/-!
# The part of a path that names a type

Of a path, the scheme and the host in front are left out, then the groups in braces that are not
empty, from left to right, and then everything from the first question mark on. The rules of these
three removals are stated on their own. They determine what remains, and that is the part of the
path which the type name is made from.
-/

namespace JsonShapes

namespace Text

theorem forall_ne_of_notMem {x : CodePoint} {t : Text} (h : x ∉ t) :
    ∀ c ∈ t, decide (c ≠ x) = true := by
  intro c member
  refine decide_eq_true ?_
  rintro rfl
  exact h member

/-- What is left after the code points before the first of a kind starts with one of that kind. -/
theorem head?_dropWhile_ne (x : CodePoint) (t : Text) :
    ∀ c ∈ (t.dropWhile fun d => d ≠ x).head?, c = x := by
  intro c first
  have stop := List.head?_dropWhile_not (fun d => decide (d ≠ x)) t
  rw [Option.mem_def.1 first] at stop
  simpa using stop

end Text

namespace Naming

/-- The schemes that go with a host. -/
def schemes : List Text := ["http://", "https://"]

/-- A path that starts with a scheme and a host, and what comes after them. -/
def StartsWithHost (path rest : Text) : Prop :=
  ∃ scheme ∈ schemes, ∃ host : Text, host ≠ [] ∧ CodePoint.ofChar '/' ∉ host ∧
    path = scheme ++ (host ++ rest) ∧ ∀ c ∈ rest.head?, c = CodePoint.ofChar '/'

/-- The scheme and the host are removed, if there are any. -/
def HostRemoved (path rest : Text) : Prop :=
  StartsWithHost path rest ∨ (rest = path ∧ ¬∃ after, StartsWithHost path after)

/-- A group in braces that is not empty. -/
def IsGroup (group : Text) : Prop :=
  ∃ content : Text, content ≠ [] ∧ CodePoint.ofChar '\x7d' ∉ content ∧
    group = CodePoint.ofChar '\x7b' :: (content ++ [CodePoint.ofChar '\x7d'])

/-- Every group is removed, from left to right. -/
inductive GroupsRemoved : Text → Text → Prop where
  | nil : GroupsRemoved [] []
  | group {group path rest : Text} (h : IsGroup group) (later : GroupsRemoved path rest) :
      GroupsRemoved (group ++ path) rest
  | other {c : CodePoint} {path rest : Text} (h : ∀ group, IsGroup group → ¬group <+: c :: path)
      (later : GroupsRemoved path rest) : GroupsRemoved (c :: path) (c :: rest)

/-- Everything from the first question mark on is removed. -/
def QueryRemoved (path rest : Text) : Prop :=
  CodePoint.ofChar '?' ∉ rest ∧
    (rest = path ∨ ∃ query, path = rest ++ CodePoint.ofChar '?' :: query)

/-- What remains of a path without its host, its groups in braces and its query. -/
def Remains (path rest : Text) : Prop :=
  ∃ below outside, HostRemoved path below ∧ GroupsRemoved below outside ∧
    QueryRemoved outside rest

section

variable {path rest : Text}

theorem dropHost_of_startsWithHost (h : StartsWithHost path rest) : dropHost path = rest := by
  obtain ⟨scheme, listed, host, nonempty, noSlash, rfl, slash⟩ := h
  have dropped (word : Text) :
      Text.dropStart? word (word ++ (host ++ rest)) = some (host ++ rest) :=
    Text.dropStart?_eq_some_iff.2 rfl
  have after : (Text.dropStart? "http://" (scheme ++ (host ++ rest))).or
      (Text.dropStart? "https://" (scheme ++ (host ++ rest))) = some (host ++ rest) := by
    simp only [schemes, List.mem_cons, List.not_mem_nil, or_false] at listed
    obtain rfl | rfl := listed
    · rw [dropped, Option.some_or]
    · rw [dropped]
      rfl
  have passed := Text.forall_ne_of_notMem noSlash
  have stops : (rest.dropWhile fun d => d ≠ CodePoint.ofChar '/') = rest := by
    cases rest with
    | nil => rfl
    | cons c rest => rw [List.dropWhile_cons_of_neg (by simp [slash c rfl])]
  obtain ⟨c, host, rfl⟩ := List.exists_cons_of_ne_nil nonempty
  rw [dropHost, after]
  change (if c = CodePoint.ofChar '/' then _ else (c :: host ++ rest).dropWhile _) = rest
  rw [if_neg (of_decide_eq_true (passed c List.mem_cons_self)),
    List.dropWhile_append_of_pos passed, stops]

theorem startsWithHost_of_dropStart? {scheme : Text} (listed : scheme ∈ schemes) {c : CodePoint}
    (h : Text.dropStart? scheme path = some (c :: rest)) (other : c ≠ CodePoint.ofChar '/') :
    StartsWithHost path ((c :: rest).dropWhile fun d => d ≠ CodePoint.ofChar '/') := by
  refine ⟨scheme, listed, (c :: rest).takeWhile fun d => d ≠ CodePoint.ofChar '/', ?_, ?_, ?_, ?_⟩
  · simp [other]
  · intro member
    simpa using List.mem_takeWhile_imp member
  · rw [List.takeWhile_append_dropWhile]
    exact Text.dropStart?_eq_some_iff.1 h
  · exact Text.head?_dropWhile_ne _ _

/-- What starts with a scheme and a host loses them, and nothing else is changed. -/
theorem hostRemoved_iff : HostRemoved path rest ↔ rest = dropHost path := by
  by_cases hosted : ∃ after, StartsWithHost path after
  · obtain ⟨after, starts⟩ := hosted
    rw [dropHost_of_startsWithHost starts]
    constructor
    · rintro (same | ⟨-, unhosted⟩)
      · exact (dropHost_of_startsWithHost same).symm.trans (dropHost_of_startsWithHost starts)
      · exact absurd ⟨after, starts⟩ unhosted
    · rintro rfl
      exact .inl starts
  · have kept : dropHost path = path := by
      simp only [dropHost]
      split
      · next c later eq =>
          split
          · rfl
          · next other =>
              obtain ⟨scheme, listed, dropped⟩ : ∃ scheme ∈ schemes,
                  Text.dropStart? scheme path = some (c :: later) := by
                simpa [schemes] using (Option.or_eq_some_iff.1 eq).imp_right And.right
              exact absurd ⟨_, startsWithHost_of_dropStart? listed dropped other⟩ hosted
      · rfl
    rw [kept]
    constructor
    · rintro (starts | ⟨same, -⟩)
      · exact absurd ⟨rest, starts⟩ hosted
      · exact same
    · exact fun same => .inr ⟨same, hosted⟩

section

variable {group t : Text}

theorem dropGroupsFrom_some_of_notMem (h : CodePoint.ofChar '\x7d' ∉ t) :
    dropGroupsFrom (some group) t = CodePoint.ofChar '\x7b' :: (group.reverse ++ t) := by
  induction t generalizing group with
  | nil => simp [dropGroupsFrom]
  | cons c t ih =>
      rw [List.mem_cons, not_or] at h
      rw [dropGroupsFrom, if_neg (Ne.symm h.1), ih h.2]
      simp

theorem dropGroupsFrom_some_append (h : CodePoint.ofChar '\x7d' ∉ t) :
    dropGroupsFrom (some group) (t ++ CodePoint.ofChar '\x7d' :: path) =
      if (group.reverse ++ t).isEmpty then
        CodePoint.ofChar '\x7b' :: CodePoint.ofChar '\x7d' :: dropGroupsFrom none path
      else dropGroupsFrom none path := by
  induction t generalizing group with
  | nil => simp [dropGroupsFrom]
  | cons c t ih =>
      rw [List.mem_cons, not_or] at h
      rw [List.cons_append, dropGroupsFrom, if_neg (Ne.symm h.1), ih h.2]
      simp

theorem dropGroupsFrom_none_of_notMem (h : CodePoint.ofChar '\x7d' ∉ t) :
    dropGroupsFrom none t = t := by
  induction t with
  | nil => rfl
  | cons c t ih =>
      rw [List.mem_cons, not_or] at h
      rw [dropGroupsFrom]
      split
      · next brace =>
          rw [dropGroupsFrom_some_of_notMem h.2, brace, List.reverse_nil, List.nil_append]
      · rw [ih h.2]

theorem dropGroupsFrom_group (h : IsGroup group) :
    dropGroupsFrom none (group ++ path) = dropGroupsFrom none path := by
  obtain ⟨content, nonempty, unclosed, rfl⟩ := h
  rw [List.cons_append, List.append_assoc, dropGroupsFrom, if_pos rfl, List.singleton_append,
    dropGroupsFrom_some_append unclosed]
  simp [nonempty]

theorem dropGroupsFrom_other {c : CodePoint} (h : ∀ group, IsGroup group → ¬group <+: c :: path) :
    dropGroupsFrom none (c :: path) = c :: dropGroupsFrom none path := by
  rw [dropGroupsFrom]
  split
  · next brace =>
      by_cases closes : CodePoint.ofChar '\x7d' ∈ path
      · -- what stands up to the next closing brace is a group, unless nothing stands there
        obtain ⟨content, later, rfl, unclosed⟩ := List.eq_append_cons_of_mem closes
        have empty : content = [] := by
          by_contra nonempty
          refine h _ ⟨content, nonempty, unclosed, rfl⟩ ⟨later, ?_⟩
          simp [brace]
        subst empty
        rw [dropGroupsFrom_some_append unclosed, brace]
        rfl
      · rw [dropGroupsFrom_some_of_notMem closes, dropGroupsFrom_none_of_notMem closes, brace]
        rfl
  · rfl

end

theorem exists_groupsRemoved (path : Text) : ∃ rest, GroupsRemoved path rest := by
  induction length : path.length using Nat.strong_induction_on generalizing path with
  | _ n ih =>
      cases path with
      | nil => exact ⟨[], .nil⟩
      | cons c path =>
          by_cases starts : ∃ group, IsGroup group ∧ group <+: c :: path
          · obtain ⟨group, isGroup, later, eq⟩ := starts
            have shorter : later.length < n := by
              obtain ⟨content, -, -, rfl⟩ := isGroup
              have lengths := congrArg List.length eq
              simp at lengths length
              omega
            obtain ⟨rest, removed⟩ := ih _ shorter later rfl
            exact ⟨rest, eq ▸ .group isGroup removed⟩
          · have shorter : path.length < n := by
              rw [← length, List.length_cons]
              omega
            obtain ⟨rest, removed⟩ := ih _ shorter path rfl
            exact ⟨c :: rest, .other (fun group h first => starts ⟨group, h, first⟩) removed⟩

theorem groupsRemoved_iff : GroupsRemoved path rest ↔ rest = dropGroupsFrom none path := by
  have functional {path rest : Text} (removed : GroupsRemoved path rest) :
      dropGroupsFrom none path = rest := by
    induction removed with
    | nil => rfl
    | group h _ ih => rw [dropGroupsFrom_group h, ih]
    | other h _ ih => rw [dropGroupsFrom_other h, ih]
  constructor
  · exact fun removed => (functional removed).symm
  · rintro rfl
    obtain ⟨rest, removed⟩ := exists_groupsRemoved path
    rwa [functional removed]

theorem queryRemoved_iff :
    QueryRemoved path rest ↔ rest = path.takeWhile fun c => c ≠ CodePoint.ofChar '?' := by
  constructor
  · rintro ⟨unasked, same⟩
    have passed := Text.forall_ne_of_notMem unasked
    obtain rfl | ⟨query, rfl⟩ := same
    · exact (List.takeWhile_eq_self_iff.2 passed).symm
    · rw [List.takeWhile_append_of_pos passed, List.takeWhile_cons_of_neg (by simp),
        List.append_nil]
  · rintro rfl
    refine ⟨fun member => by simpa using List.mem_takeWhile_imp member, ?_⟩
    have eq := path.takeWhile_append_dropWhile (p := fun c => c ≠ CodePoint.ofChar '?')
    have mark := Text.head?_dropWhile_ne (CodePoint.ofChar '?') path
    cases later : path.dropWhile fun c => c ≠ CodePoint.ofChar '?' with
    | nil =>
        rw [later, List.append_nil] at eq
        exact .inl eq
    | cons c query =>
        rw [later] at eq mark
        obtain rfl := mark c rfl
        exact .inr ⟨query, eq.symm⟩

theorem remains_iff : Remains path rest ↔ rest = nameablePath path := by
  simp only [Remains, hostRemoved_iff, groupsRemoved_iff, queryRemoved_iff]
  constructor
  · rintro ⟨_, _, rfl, rfl, rfl⟩
    rfl
  · rintro rfl
    exact ⟨_, _, rfl, rfl, rfl⟩

end

end Naming

end JsonShapes
