import JsonShapes.CommandLine.Program
import JsonShapes.Proofs.Fallible

/-!
# Options in front

An option that is put in front of the words of a command, together with its value, changes nothing
about how these are taken: what was given before is never looked at. So the command gets the option,
and everything else is as it would be without.
-/

namespace JsonShapes

namespace CommandLine

/-- What the words say, with more options in front of those given. -/
def Parsed.after (parsed : Parsed) (front : List (Text × Value)) : Parsed :=
  { parsed with given := front ++ parsed.given }

/-- The last value counts, so those in front count only where nothing else is given. -/
theorem Parsed.last?_after (parsed : Parsed) (name : Text) (value : Value) (key : Text) :
    (parsed.after [(name, value)]).last? key =
      (parsed.last? key).or (if name = key then some value else none) := by
  have general (given : List (Text × Value)) : Fields.get? (given ++ [(name, value)]) key =
      (Fields.get? given key).or (if name = key then some value else none) := by
    induction given with
    | nil => rfl
    | cons first given ih =>
        rw [List.cons_append, Fields.get?_cons, Fields.get?_cons]
        split
        · rfl
        · exact ih
  rw [last?, after, List.reverse_append]
  exact general parsed.given.reverse

namespace Grammar

theorem finish_after (g : Grammar) (front : List (Text × Value)) (parsed : Parsed)
    (words : List (Text × Word)) :
    g.finish (parsed.after front) words = (g.finish parsed words).after front := by
  obtain ⟨given, positional, leftover⟩ := parsed
  cases positional with
  | some taken => rfl
  | none =>
      simp only [finish, Parsed.after, Option.isSome_none, Bool.false_eq_true, if_false]
      cases g.positionalKind.count (words.map Prod.snd) with
      | none => rfl
      | some n => rfl

/-- An option is read with the words that follow it, and taking goes on behind these. -/
theorem consume_option (g : Grammar) (fuel : Nat) (parsed : Parsed) (text : Text) (found : Match)
    (rest : List (Text × Word)) :
    g.consume (fuel + 1) parsed ((text, .option found) :: rest) = (do
      let read ← g.readOption found (rest.map Prod.snd)
      let given ← convertAll read.1
      g.consume fuel { parsed with given := parsed.given ++ given } (rest.drop read.2)) := rfl

/-- Options that were given before do not change how words are taken. -/
theorem consume_after (g : Grammar) (front : List (Text × Value)) (fuel : Nat) (parsed : Parsed)
    (words : List (Text × Word)) :
    g.consume fuel (parsed.after front) words =
      (g.consume fuel parsed words).map (Parsed.after · front) := by
  have finished (parsed : Parsed) (words : List (Text × Word)) :
      (.ok (g.finish (parsed.after front) words) : Except Halt Parsed) =
        (Except.ok (g.finish parsed words)).map (Parsed.after · front) :=
    congrArg Except.ok (finish_after g front parsed words)
  induction fuel generalizing parsed words with
  | zero => exact finished parsed words
  | succ fuel ih =>
      unfold consume
      cases words.any fun w => w.2.isOption with
      | false => exact finished parsed words
      | true =>
          rw [if_pos rfl, if_pos rfl]
          cases words with
          | nil => rfl
          | cons first rest =>
              obtain ⟨text, role⟩ := first
              cases role with
              | unknown word => exact ih { parsed with leftover := parsed.leftover ++ [word] } rest
              | option found =>
                  dsimp only [bind, Except.bind]
                  cases g.readOption found (rest.map Prod.snd) with
                  | error halt => rfl
                  | ok read =>
                      dsimp only
                      cases convertAll read.1 with
                      | error halt => rfl
                      | ok given =>
                          have later := ih { parsed with given := parsed.given ++ given }
                            (rest.drop read.2)
                          rw [Parsed.after, ← List.append_assoc] at later
                          exact later
              | argument _ | separator =>
                  obtain ⟨given, positional, leftover⟩ := parsed
                  cases positional with
                  | some taken => exact ih ⟨given, some taken, leftover ++ [text]⟩ rest
                  | none =>
                      simp only [Parsed.after, Option.isSome_none, Bool.false_eq_true, if_false]
                      cases g.positionalKind.count (List.map Prod.snd _) with
                      | none => exact ih ⟨given, none, leftover ++ [text]⟩ rest
                      | some n => exact ih ⟨given, some _, leftover⟩ _

theorem consume_nil (g : Grammar) (fuel : Nat) (parsed : Parsed) :
    g.consume fuel parsed [] = .ok (g.finish parsed []) := by
  cases fuel with
  | zero => rfl
  | succ fuel => rfl

/-- A command takes all the words, whatever their roles. -/
theorem consume_command {g : Grammar} (kind : g.positionalKind = .command) (fuel : Nat)
    (text word : Text) (rest : List (Text × Word)) :
    g.consume (fuel + 1) ⟨[], none, []⟩ ((text, .argument word) :: rest) =
      .ok ⟨[], some (text :: rest.map Prod.fst), []⟩ := by
  unfold consume
  split
  · simp [kind, PositionalKind.count, consume_nil, finish]
  · simp [kind, PositionalKind.count, finish]

variable {g : Grammar} {words : List Text} {roles : List Word}

theorem classify_cons_iff {word : Text} (notSeparator : word ≠ Text.ofString "--") :
    g.classify (word :: words) = .ok roles ↔
      ∃ role rest, g.classifyWord word = .ok role ∧ g.classify words = .ok rest ∧
        roles = role :: rest := by
  rw [classify, if_neg notSeparator, bind_eq_ok_iff]
  constructor
  · rintro ⟨role, here, h⟩
    obtain ⟨rest, later, eq⟩ := bind_pure_eq_ok_iff.1 h
    exact ⟨role, rest, here, later, eq⟩
  · rintro ⟨role, rest, here, later, eq⟩
    exact ⟨role, here, bind_pure_eq_ok_iff.2 ⟨rest, later, eq⟩⟩

theorem length_classify (h : g.classify words = .ok roles) : roles.length = words.length := by
  induction words generalizing roles with
  | nil =>
      cases h
      rfl
  | cons word words ih =>
      by_cases separator : word = Text.ofString "--"
      · rw [classify, if_pos separator] at h
        cases h
        simp
      · obtain ⟨role, rest, -, later, rfl⟩ := (classify_cons_iff separator).1 h
        rw [List.length_cons, List.length_cons, ih later]

theorem classifyWord_of_ne {c : CodePoint} (h : c ≠ CodePoint.ofChar '-') (rest : Text) :
    g.classifyWord (c :: rest) = .ok (.argument (c :: rest)) := by
  rw [classifyWord, if_pos h]

end Grammar

/-- The word that gives an output file. -/
def outWord (path : Text) : Text := "--out=" ++ path

def outOption : OptionSpec := ⟨["--out"], .text⟩

theorem splitEquals_outWord (path : Text) :
    splitEquals (outWord path) = (Text.ofString "--out", some path) := rfl

theorem get?_outWord_eq_none {spellings : List (Text × OptionSpec)}
    (h : ∀ s ∈ spellings, CodePoint.ofChar '=' ∉ s.1) (path : Text) :
    Fields.get? spellings (outWord path) = none := by
  induction spellings with
  | nil => rfl
  | cons first rest ih =>
      rw [List.forall_mem_cons] at h
      have other : first.1 ≠ outWord path := by
        intro same
        refine h.1 (same ▸ List.mem_append_left path ?_)
        decide
      exact (if_neg other).trans (ih h.2)

/-- A word that gives a value to an option, where no option is spelled like the whole word. -/
theorem Grammar.classifyWord_of_splitEquals {g : Grammar} {rest name value : Text}
    (long : rest ≠ []) (fresh : Fields.get? g.spellings (CodePoint.ofChar '-' :: rest) = none)
    (split : splitEquals (CodePoint.ofChar '-' :: rest) = (name, some value)) {spec : OptionSpec}
    (known : Fields.get? g.spellings name = some spec) :
    g.classifyWord (CodePoint.ofChar '-' :: rest) =
      .ok (.option ⟨spec, isShort name, some value⟩) := by
  have nonempty : rest.isEmpty = false := List.isEmpty_eq_false_iff.2 long
  simp [classifyWord, fresh, nonempty, split, known]

theorem classifyWord_outWord {g : Grammar} (h : g.options = convertOptions) (path : Text) :
    g.classifyWord (outWord path) = .ok (.option ⟨outOption, false, some path⟩) := by
  have spellings : g.spellings =
      convertOptions.flatMap fun spec => spec.spellings.map (·, spec) := by
    rw [Grammar.spellings, h]
  have fresh : Fields.get? g.spellings (outWord path) = none := by
    rw [spellings]
    exact get?_outWord_eq_none (by decide) path
  have known : Fields.get? g.spellings (Text.ofString "--out") = some outOption := by
    rw [spellings]
    decide
  exact Grammar.classifyWord_of_splitEquals (List.cons_ne_nil _ _) fresh
    (splitEquals_outWord path) known

theorem Grammar.exists_classifyWord_of_readings {g : Grammar} {rest name : Text}
    {value : Option Text} (long : rest ≠ [])
    (fresh : Fields.get? g.spellings (CodePoint.ofChar '-' :: rest) = none)
    (split : splitEquals (CodePoint.ofChar '-' :: rest) = (name, value))
    (unknown : Fields.get? g.spellings name = none)
    (unread : g.readings (CodePoint.ofChar '-' :: rest) = []) :
    ∃ role, g.classifyWord (CodePoint.ofChar '-' :: rest) = .ok role := by
  have nonempty : rest.isEmpty = false := List.isEmpty_eq_false_iff.2 long
  simp only [classifyWord, fresh, nonempty, split, unknown, unread, ne_eq, not_true_eq_false,
    if_false, Bool.false_eq_true]
  split
  · exact ⟨_, rfl⟩
  · exact ⟨_, rfl⟩

theorem exists_classifyWord_outWord (path : Text) :
    ∃ role, mainGrammar.classifyWord (outWord path) = .ok role := by
  have fresh : Fields.get? mainGrammar.spellings (outWord path) = none :=
    get?_outWord_eq_none (by decide) path
  have unknown : Fields.get? mainGrammar.spellings (Text.ofString "--out") = none := by decide
  have unread : mainGrammar.readings (outWord path) = [] := by
    have long : Text.startsWith (outWord path) "--" = true := rfl
    rw [Grammar.readings, if_pos long, splitEquals_outWord]
    rfl
  exact Grammar.exists_classifyWord_of_readings (List.cons_ne_nil _ _) fresh
    (splitEquals_outWord path) unknown unread

theorem outWord_ne (path : Text) : outWord path ≠ Text.ofString "--" := by
  intro same
  have lengths := congrArg List.length same
  rw [outWord, List.length_append] at lengths
  change 6 + path.length = 2 at lengths
  omega

/-- The option in front is given, and the words after it are parsed as before. -/
theorem parse_outWord {g : Grammar} (options : g.options = convertOptions)
    (kind : g.positionalKind ≠ .one) {words : List Text} {parsed : Parsed}
    (h : g.parse words = .ok parsed) {path : Text} (notSeparator : path ≠ Text.ofString "--") :
    g.parse (outWord path :: words) = .ok (parsed.after [("--out", .text path)]) := by
  obtain ⟨roles, classified, h⟩ := bind_eq_ok_iff.1 h
  obtain ⟨taken, consumed, h⟩ := bind_eq_ok_iff.1 h
  have optional (taken : Parsed) :
      ¬(taken.positional.isNone && decide (g.positionalKind = .one)) := by
    simp [kind]
  rw [if_neg (optional taken)] at h
  cases h
  have found := (Grammar.classify_cons_iff (outWord_ne path)).2
    ⟨_, roles, classifyWord_outWord options path, classified, rfl⟩
  have given : Grammar.convertAll [(outOption, [path])] = .ok [("--out", .text path)] := by
    have kept : dropSeparator [path] = [path] :=
      List.erase_of_not_mem (by simpa using notSeparator.symm)
    simp only [Grammar.convertAll, OptionSpec.convert, outOption, kept]
    rfl
  have first : g.consume (words.length + 1) ⟨[], none, []⟩
      ((outWord path, .option ⟨outOption, false, some path⟩) :: words.zip roles) =
        .ok (parsed.after [("--out", .text path)]) := by
    rw [Grammar.consume_option]
    refine bind_eq_ok_iff.2 ⟨([(outOption, [path])], 0), rfl, bind_eq_ok_iff.2 ⟨_, given, ?_⟩⟩
    have later := Grammar.consume_after g [("--out", .text path)] words.length ⟨[], none, []⟩
      (words.zip roles)
    rw [consumed] at later
    exact later
  exact bind_eq_ok_iff.2 ⟨_, found, bind_eq_ok_iff.2 ⟨_, first, if_neg (optional _)⟩⟩

section

variable {name : Text} {words : List Text}

theorem parse_mainGrammar (named : mainGrammar.classifyWord name = .ok (.argument name))
    (notSeparator : name ≠ Text.ofString "--") {roles : List Word}
    (h : mainGrammar.classify words = .ok roles) :
    mainGrammar.parse (name :: words) = .ok ⟨[], some (name :: words), []⟩ := by
  have classified : mainGrammar.classify (name :: words) = .ok (.argument name :: roles) :=
    (Grammar.classify_cons_iff notSeparator).2 ⟨_, roles, named, h, rfl⟩
  have taken := Grammar.consume_command (g := mainGrammar) rfl words.length name name
    (words.zip roles)
  rw [List.map_fst_zip (Nat.le_of_eq (Grammar.length_classify h).symm)] at taken
  exact bind_eq_ok_iff.2 ⟨_, classified, bind_eq_ok_iff.2 ⟨_, taken, rfl⟩⟩

namespace Request

theorem ofHalt_ne_perform (g : Grammar) (halt : Halt) (command : Command) (parsed : Parsed)
    (verbose : Bool) : ofHalt g halt ≠ .perform command parsed verbose := by
  cases halt with
  | help => exact nofun
  | wrong message => exact nofun

theorem ofWords_eq_perform {top : Parsed} {leftover : List Text}
    {chosen : Option (Command × Parsed)} {command : Command} {parsed : Parsed} {verbose : Bool}
    (h : ofWords top leftover chosen = .perform command parsed verbose) :
    leftover = [] ∧ chosen = some (command, parsed) ∧ verbose = top.isOn "--verbose" := by
  unfold ofWords at h
  split at h
  · exact absurd h (ofHalt_ne_perform _ _ _ _ _)
  · next none =>
      split at h
      · cases h
      split at h
      · cases h
      · cases h
        exact ⟨by simpa using none, rfl, rfl⟩

/-- A command is performed if all words after its name are its own and mean something. -/
theorem ofArguments_cons_iff (named : mainGrammar.classifyWord name = .ok (.argument name))
    (notSeparator : name ≠ Text.ofString "--") {command : Command} {parsed : Parsed}
    {verbose : Bool} :
    ofArguments (name :: words) = .perform command parsed verbose ↔
      (∃ roles, mainGrammar.classify words = .ok roles) ∧
        commands.find? (fun command => command.name = name) = some command ∧
        command.grammar.parse words = .ok parsed ∧ parsed.leftover = [] ∧ verbose = false := by
  cases classified : mainGrammar.classify words with
  | error halt =>
      have stopped : mainGrammar.parse (name :: words) = .error halt := by
        simp only [Grammar.parse, Grammar.classify, if_neg notSeparator, named, classified]
        rfl
      rw [ofArguments, stopped]
      exact iff_of_false (ofHalt_ne_perform _ _ _ _ _) fun h => nomatch h.1
  | ok roles =>
      rw [ofArguments, parse_mainGrammar named notSeparator classified, and_iff_right ⟨roles, rfl⟩]
      dsimp only
      -- The name is still taken from the words there, and equal to the one given.
      change _ ↔ commands.find? (fun command => command.name = (name :: words).headD []) = _ ∧ _
      cases commands.find? (fun command => decide (command.name = (name :: words).headD [])) with
      | none => exact iff_of_false (ofHalt_ne_perform _ _ _ _ _) fun h => nomatch h.1
      | some other =>
          rw [Option.some.injEq]
          dsimp only
          constructor
          · intro h
            cases result : other.grammar.parse ((name :: words).drop 1) with
            | error halt =>
                rw [result] at h
                exact absurd h (ofHalt_ne_perform _ _ _ _ _)
            | ok taken =>
                rw [result] at h
                obtain ⟨empty, same, rfl⟩ := ofWords_eq_perform h
                cases same
                exact ⟨rfl, result, empty, rfl⟩
          · rintro ⟨rfl, result, empty, rfl⟩
            rw [show other.grammar.parse ((name :: words).drop 1) = .ok parsed from result]
            dsimp only
            rw [empty]
            rfl

/-- What is performed is one of the commands. -/
theorem mem_commands_of_perform {arguments : List Text} {command : Command} {parsed : Parsed}
    {verbose : Bool} (h : ofArguments arguments = .perform command parsed verbose) :
    command ∈ commands := by
  unfold ofArguments at h
  split at h
  · exact absurd h (ofHalt_ne_perform _ _ _ _ _)
  split at h
  · obtain ⟨-, chosen, -⟩ := ofWords_eq_perform h
    cases chosen
  dsimp only at h
  split at h
  · exact absurd h (ofHalt_ne_perform _ _ _ _ _)
  · next other found =>
      split at h
      · exact absurd h (ofHalt_ne_perform _ _ _ _ _)
      · obtain ⟨-, chosen, -⟩ := ofWords_eq_perform h
        cases chosen
        exact List.mem_of_find?_eq_some found

end Request

/-- The commands that convert are alike in their options and in the words they take. -/
theorem convert_of_mem_commands {command : Command} {format : Conversion.Format}
    (listed : command ∈ commands) (converts : command.action = .convert format) :
    command.grammar.options = convertOptions ∧ command.grammar.positionalKind = .many ∧
      ∃ rest, command.name = CodePoint.ofChar 'j' :: rest := by
  simp only [commands, List.mem_cons, List.not_mem_nil, or_false] at listed
  obtain rfl | rfl | rfl | rfl := listed
  · exact ⟨rfl, rfl, _, rfl⟩
  · exact ⟨rfl, rfl, _, rfl⟩
  · exact ⟨rfl, rfl, _, rfl⟩
  · cases converts

/-- A conversion can be given an output file by one more word behind its name. -/
theorem Request.ofArguments_outWord {command : Command} {format : Conversion.Format}
    {parsed : Parsed} {verbose : Bool} (converts : command.action = .convert format)
    (h : ofArguments (command.name :: words) = .perform command parsed verbose) {path : Text}
    (notSeparator : path ≠ Text.ofString "--") :
    ofArguments (command.name :: outWord path :: words) =
      .perform command (parsed.after [("--out", .text path)]) verbose := by
  obtain ⟨options, kind, rest, name⟩ :=
    convert_of_mem_commands (mem_commands_of_perform h) converts
  have notDash : CodePoint.ofChar 'j' ≠ CodePoint.ofChar '-' := by decide
  have named : mainGrammar.classifyWord command.name = .ok (.argument command.name) := by
    rw [name]
    exact Grammar.classifyWord_of_ne notDash rest
  have word : command.name ≠ Text.ofString "--" := by
    rw [name]
    exact fun same => notDash (List.cons.inj same).1
  obtain ⟨⟨roles, classified⟩, found, result, empty, plain⟩ :=
    (ofArguments_cons_iff named word).1 h
  obtain ⟨role, here⟩ := exists_classifyWord_outWord path
  refine (ofArguments_cons_iff named word).2 ⟨⟨role :: roles, ?_⟩, found, ?_, empty, plain⟩
  · exact (Grammar.classify_cons_iff (outWord_ne path)).2 ⟨role, roles, here, classified, rfl⟩
  · exact parse_outWord options (kind ▸ nofun) result notSeparator

end

end CommandLine

end JsonShapes
