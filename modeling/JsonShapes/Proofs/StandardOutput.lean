import JsonShapes.Proofs.Arguments
import JsonShapes.Proofs.Loading
import JsonShapes.Proofs.OutputLayout
import JsonShapes.Proofs.Outputs

/-!
# Standard output and output files

What a conversion prints goes through a file that is read back as text, so that its line ends are
made equal. Neither modules nor schemas ever hold a carriage return unless the indentation does:
returns in keys, literals, discriminators and titles are escaped, and names have none. So reading
back changes nothing. The files are not touched before something is written, and how they are
written does not depend on what was logged; so the output is what a file holds that the same
conversion is sent to.
-/

namespace JsonShapes

namespace Text

/-- The text holds no carriage return. -/
abbrev NoReturn (t : Text) : Prop := t.Avoids ['\r']

theorem closed_noReturn : Closed NoReturn := closed_avoids (by decide)

theorem NoReturn.normalizeLines_eq {t : Text} (h : t.NoReturn) : t.normalizeLines = t := by
  have same := normalizeLines_append (fun member => h _ member (List.mem_singleton_self _)) []
  rwa [List.append_nil, normalizeLines, List.append_nil] at same

end Text

open Text (closed_noReturn)

theorem Json.Layout.keeps_noReturn {layout : Layout} (comma : layout.comma.IsPlain)
    (colon : layout.colon.IsPlain) (indent : ∀ unit ∈ layout.indent, Text.NoReturn unit) :
    layout.Keeps Text.NoReturn where
  comma := closed_noReturn.plain comma
  colon := closed_noReturn.plain colon
  newline depth := by
    unfold newline
    split
    · exact closed_noReturn.nil
    · next unit given =>
        exact List.forall_mem_cons.2 ⟨by decide, closed_noReturn.times (indent unit given) depth⟩
  quoted t := Text.avoids_of_printable (by decide) (Quoted.printable_write layout.style t)

theorem Schema.noReturn_dump {o : Emit.Options} (indent : o.indent.NoReturn) (schema : Json) :
    (dump o schema).NoReturn := by
  have indented : (Json.Layout.indented o.indent).Keeps Text.NoReturn := by
    refine Json.Layout.keeps_noReturn ?_ ?_ ?_
    · exact (by decide : Text.IsPlain ",")
    · exact (by decide : Text.IsPlain ": ")
    · rintro unit ⟨⟩
      exact indent
  have keeps : (if o.minify then Json.Layout.compact else .indented o.indent).Keeps
      Text.NoReturn := by
    split
    · exact Json.Layout.keeps_noReturn (by decide) (by decide) nofun
    · exact indented
  have printed := Json.closed_printBefore closed_noReturn keeps 0 closed_noReturn.nil schema
  exact (Text.avoids_escapeSurrogates_iff (by decide)).2 printed

/-- A check may end a run and changes nothing. -/
theorem sameTree_check {α : Type} {failed : Bool} {e : Error} {rest : PUnit → Run α}
    (h : ∀ u, Preserves SameTree (rest u)) :
    Preserves SameTree (if failed = true then throw e >>= rest else rest ()) := by
  split
  · exact .bind sameTree_trans (.throw sameTree_refl e) h
  · exact h ()

namespace Samples

theorem sameTree_read (input : Input) : Preserves SameTree input.read := by
  cases input with
  | given name content => exact .pure sameTree_refl _
  | file path =>
      refine .bind sameTree_trans (.get sameTree_refl) fun w => ?_
      split
      · exact .throw sameTree_refl _
      split
      · exact .throw sameTree_refl _
      · exact .pure sameTree_refl _

theorem sameTree_loadFrom (limit : Int) (count : Nat) (inputs : List Input) :
    Preserves SameTree (loadFrom limit count inputs) := by
  induction inputs generalizing count with
  | nil => exact .pure sameTree_refl []
  | cons input inputs ih =>
      rw [loadFrom]
      split
      · exact .pure sameTree_refl []
      refine .bind sameTree_trans (sameTree_read input) fun text => ?_
      refine .bind sameTree_trans (Run.sameTree_ofLogged _) fun _ => ?_
      split
      · exact .throw sameTree_refl _
      · exact .bind sameTree_trans (ih _) fun _ => .pure sameTree_refl _

theorem sameTree_inferInputs (limit : Option Int) (inputs : List Input) :
    Preserves SameTree (inferInputs limit inputs) := by
  have inferred (values : List Json) : Preserves SameTree (do
      if values.isEmpty then throw .noValues
      Run.ofLogged (Logged.inferSamples values)) :=
    sameTree_check fun _ => Run.sameTree_ofLogged _
  refine sameTree_check fun _ => ?_
  cases limit with
  | none => exact .bind sameTree_trans (.throw sameTree_refl _) inferred
  | some limit => exact .bind sameTree_trans (sameTree_loadFrom limit 0 inputs) inferred

end Samples

namespace Run

/-- What a run gives, and the files it leaves, depend on nothing but the files. -/
def IgnoresLog {α : Type} (x : Run α) : Prop :=
  ∀ v w : World, v.files = w.files →
    (x.run.run v).1 = (x.run.run w).1 ∧ (x.run.run v).2.files = (x.run.run w).2.files

variable {α β : Type}

theorem IgnoresLog.pure (a : α) : IgnoresLog (pure a : Run α) := fun _ _ same => ⟨rfl, same⟩

theorem IgnoresLog.throw (e : Error) : IgnoresLog (throw e : Run α) := fun _ _ same => ⟨rfl, same⟩

theorem IgnoresLog.set (files : FileTree) :
    IgnoresLog (modify fun world => { world with files } : Run Unit) := fun _ _ _ => ⟨rfl, rfl⟩

theorem IgnoresLog.get_bind {f : World → Run α}
    (reads : ∀ v w : World, v.files = w.files → f v = f w) (h : ∀ w, IgnoresLog (f w)) :
    IgnoresLog (get >>= f) := by
  intro v w same
  rw [run_get_bind, run_get_bind, reads v w same]
  exact h w v w same

theorem IgnoresLog.run_eq {x : Run α} (h : IgnoresLog x) {v v' w : World}
    {outcome : Except Error α} (same : v.files = w.files) (given : x.run.run v = (outcome, v')) :
    ∃ w', x.run.run w = (outcome, w') ∧ v'.files = w'.files := by
  obtain ⟨outcomes, files⟩ := h v w same
  rw [given] at outcomes files
  exact ⟨(x.run.run w).2, Prod.ext outcomes.symm rfl, files⟩

theorem IgnoresLog.bind {x : Run α} {f : α → Run β} (hx : IgnoresLog x)
    (hf : ∀ a, IgnoresLog (f a)) : IgnoresLog (x >>= f) := by
  intro v w same
  obtain ⟨a, v', given⟩ | ⟨e, v', given⟩ := returns_or_fails x v
  · obtain ⟨w', here, later⟩ := hx.run_eq same given
    rw [run_bind_ok given, run_bind_ok here]
    exact hf a v' w' later
  · obtain ⟨w', here, later⟩ := hx.run_eq same given
    rw [run_bind_error given, run_bind_error here]
    exact ⟨rfl, later⟩

theorem IgnoresLog.tryCatch {x : Run α} {f : Error → Run α} (hx : IgnoresLog x)
    (hf : ∀ e, IgnoresLog (f e)) : IgnoresLog (tryCatch x f) := by
  intro v w same
  obtain ⟨a, v', given⟩ | ⟨e, v', given⟩ := returns_or_fails x v
  · obtain ⟨w', here, later⟩ := hx.run_eq same given
    rw [run_tryCatch_ok given, run_tryCatch_ok here]
    exact ⟨rfl, later⟩
  · obtain ⟨w', here, later⟩ := hx.run_eq same given
    rw [run_tryCatch_error given, run_tryCatch_error here]
    exact hf e v' w' later

theorem ignoresLog_makeDirectory (path : Text) : IgnoresLog (makeDirectory path) := by
  refine .get_bind (fun v w same => by rw [same]) fun w => ?_
  split
  · exact .throw _
  · exact .set _

theorem ignoresLog_ensureDirectory (lenient : Bool) (path : Text) :
    IgnoresLog (ensureDirectory lenient path) := by
  refine .tryCatch (ignoresLog_makeDirectory path) fun e => ?_
  refine .get_bind (fun v w same => by rw [same]) fun w => ?_
  split
  · exact .pure ()
  · exact .throw e

theorem ignoresLog_makeDirectories (lenient : Bool) (fuel : Nat) (path : Text) :
    IgnoresLog (makeDirectories lenient fuel path) := by
  induction fuel generalizing path with
  | zero => exact ignoresLog_makeDirectory path
  | succ fuel ih =>
      refine .get_bind (fun v w same => by rw [same]) fun w => ?_
      split
      · exact ignoresLog_ensureDirectory lenient path
      refine .bind (.tryCatch (ih _) fun e => ?_) fun _ => ?_
      · split
        · exact .pure ()
        · exact .throw _
      · split
        · exact .pure ()
        · exact ignoresLog_ensureDirectory lenient path

end Run

/-- Whether a file can be written does not depend on its bytes. -/
theorem FileTree.exists_write {t t' : FileTree} {path : Text} {content : List UInt8}
    (h : t.write path content = .ok t') (bytes : List UInt8) :
    ∃ t'', t.write path bytes = .ok t'' := by
  obtain ⟨located, notDirectory, notSlash, -⟩ := write_eq_ok h
  refine ⟨t.put (Place.ofPath path) (.file bytes), ?_⟩
  simp [write, located, notDirectory, notSlash]

theorem Run.returns_writeText_of_write {path text : Text} {bytes : List UInt8} {w : World}
    {files : FileTree} (encoded : Utf8.encode text = .ok bytes)
    (written : w.files.write path bytes = .ok files) :
    Returns (writeText path text) w () { w with files } := by
  simp only [writeText, encoded]
  rw [Returns, writeBytes, run_get_bind, written]
  rfl

namespace Conversion

variable {format : Format} {settings : Settings}

theorem noReturn_of_render {s : Shape} {text : Text} (h : render format settings s = .ok text)
    (indent : ∀ unit ∈ settings.preferences.indent, Text.NoReturn unit) : text.NoReturn := by
  have unit : settings.preferences.options.indent.NoReturn := by
    change (settings.preferences.indent.getD []).NoReturn
    cases given : settings.preferences.indent with
    | none => exact closed_noReturn.nil
    | some unit => exact indent unit given
  unfold render at h
  split at h
  · next target =>
      have newline : Text.NoReturn ['\n'] := by decide
      have keeps := Emit.Options.keeps closed_noReturn newline unit
      have quoted (t : Text) : t.quote.NoReturn :=
        Text.avoids_of_printable (by decide) (Quoted.printable_quote t)
      unfold Preferences.moduleText at h
      split at h
      · cases h
      split at h
      · cases h
      · exact Emit.closed_of_emitModule closed_noReturn keeps quoted (Discovery.ofFault_eq_ok h)
  · split at h
    · cases h
    unfold Preferences.schemaText at h
    split at h
    · cases h
    split at h
    · cases h
      exact Schema.noReturn_dump unit _
    · cases h

/-- Until it writes, a conversion leaves the files alone. -/
theorem sameTree_textOf (format : Format) (settings : Settings) (inputs : List Samples.Input) :
    Preserves SameTree (textOf format settings inputs) :=
  .bind sameTree_trans (Samples.sameTree_inferInputs _ _) fun _ => Run.sameTree_ofOutcome _

theorem ignoresLog_makeFolder (path : Text) : Run.IgnoresLog (makeFolder path) := by
  refine .get_bind (fun v w same => by rw [same]) fun w => ?_
  split
  · exact Run.ignoresLog_makeDirectories _ _ _
  · exact .pure ()

/-- An empty file can be put at the path. -/
def Writable (files : FileTree) (path : Text) : Prop :=
  ∃ w, Returns (writeOutput path []) ⟨files, []⟩ () w

/-- Where an empty file can be put, any text that can be encoded can be written. -/
theorem Writable.returns {files : FileTree} {path text : Text} {bytes : List UInt8}
    (h : Writable files path) (encoded : Utf8.encode text = .ok bytes) (log : List LogEntry) :
    ∃ w, Returns (writeOutput path text) ⟨files, log⟩ () w ∧ w.files.read path = .ok bytes := by
  obtain ⟨w, empty⟩ := h
  obtain ⟨_, _, first, empty⟩ := returns_bind_iff.1 empty
  obtain ⟨_, _, nothing, -⟩ := returns_bind_iff.1 empty
  obtain ⟨_, -, opened⟩ := Run.returns_writeText nothing
  -- The directories are made alike with another log, and any bytes can be put into them.
  have alike : World.files ⟨files, []⟩ = World.files ⟨files, log⟩ := rfl
  obtain ⟨made, folder, same⟩ := (ignoresLog_makeFolder path).run_eq alike first
  rw [same] at opened
  obtain ⟨tree, written⟩ := FileTree.exists_write opened bytes
  have wrote := Run.returns_writeText_of_write (w := made) encoded written
  have logged : Returns (Run.log .info .conversion ("Wrote " ++ path))
      { made with files := tree } ()
      ⟨tree, made.log ++ [⟨.info, .conversion, "Wrote " ++ path⟩]⟩ := rfl
  refine ⟨_, returns_bind_iff.2 ⟨(), made, folder, returns_bind_iff.2 ⟨(), _, wrote, logged⟩⟩, ?_⟩
  exact FileTree.read_of_write written

end Conversion

namespace CommandLine

open Conversion (Writable textOf)

variable {command : Command} {format : Conversion.Format} {parsed : Parsed} {stdin : Text}
  {files : FileTree} {verbose : Bool}

theorem prepare_of_none (stdin : Text) (converts : command.action = .convert format)
    (unnamed : outputFile? parsed = none) :
    prepare command parsed stdin = (conversionInputs parsed stdin).map fun inputs =>
      ([], convertToOutput format (conversionSettings parsed) inputs) := by
  simp only [prepare, converts, unnamed]
  cases conversionInputs parsed stdin with
  | ok inputs => rfl
  | error e => rfl

theorem prepare_of_some (stdin : Text) (converts : command.action = .convert format) {path : Text}
    (nonempty : path ≠ []) (named : outputFile? parsed = some path) :
    prepare command parsed stdin = (conversionInputs parsed stdin).map fun inputs =>
      (announcement command inputs path,
        convertToFile format (conversionSettings parsed) inputs path) := by
  obtain ⟨c, path, rfl⟩ := List.exists_cons_of_ne_nil nonempty
  simp only [prepare, converts, named]
  cases conversionInputs parsed stdin with
  | ok inputs => rfl
  | error e => rfl

/-- A command succeeds if its run returns, and prints what that gives. -/
theorem execute_of_returns (verbose : Bool) {announced printed : Text} {x : Run Text} {w : World}
    (prepared : prepare command parsed stdin = .ok (announced, x))
    (returns : Returns x ⟨files, []⟩ printed w) :
    (execute command parsed verbose stdin files).exitCode = 0 ∧
      (execute command parsed verbose stdin files).output = announced ++ printed ∧
        (execute command parsed verbose stdin files).files = w.files := by
  unfold execute
  simp only [prepared, show x.run.run ⟨files, []⟩ = _ from returns, and_self]

theorem exists_returns_of_exitCode_eq
    (h : (execute command parsed verbose stdin files).exitCode = 0) :
    ∃ announced printed x w, prepare command parsed stdin = .ok (announced, x) ∧
      Returns x ⟨files, []⟩ printed w := by
  unfold execute at h
  split at h
  · cases h
  · next announced x prepared =>
      obtain ⟨printed, w, returns⟩ | ⟨e, w, fails⟩ := returns_or_fails x ⟨files, []⟩
      · exact ⟨announced, printed, x, w, prepared, returns⟩
      · rw [show x.run.run ⟨files, []⟩ = _ from fails] at h
        cases h

theorem throughTemporary_eq_ok {text written : Text} (h : throughTemporary text = .ok written) :
    written = text ∧ ∃ bytes, Utf8.encode text = .ok bytes := by
  unfold throughTemporary at h
  split at h
  · cases h
  · next fits =>
      cases h
      exact ⟨rfl, _, by rw [Utf8.encode, fits]⟩

/-- What is printed can be encoded, and it is the text of the conversion as it is. -/
theorem printed_of_returns {settings : Conversion.Settings} {inputs : List Samples.Input}
    (indent : ∀ unit ∈ settings.preferences.indent, Text.NoReturn unit) {printed : Text}
    {w w' : World} (h : Returns (convertToOutput format settings inputs) w printed w') :
    ∃ bytes middle, Utf8.encode printed = .ok bytes ∧
      Returns (textOf format settings inputs) w printed middle := by
  obtain ⟨text, middle, converted, h⟩ := returns_bind_iff.1 h
  obtain ⟨written, _, through, h⟩ := returns_bind_iff.1 h
  obtain ⟨_, _, -, h⟩ := returns_bind_iff.1 h
  obtain ⟨rfl, -⟩ := returns_pure_iff.1 h
  obtain ⟨rfl, bytes, encoded⟩ := throughTemporary_eq_ok (Run.returns_ofOutcome_iff.1 through).1
  obtain ⟨s, _, -, rendered⟩ := returns_bind_iff.1 converted
  have noReturn := Conversion.noReturn_of_render (Run.returns_ofOutcome_iff.1 rendered).1 indent
  rw [noReturn.normalizeLines_eq]
  exact ⟨bytes, middle, encoded, converted⟩

theorem returns_convertToFile {settings : Conversion.Settings} {inputs : List Samples.Input}
    {text path : Text} {bytes : List UInt8} {middle : World}
    (converted : Returns (textOf format settings inputs) ⟨files, []⟩ text middle)
    (encoded : Utf8.encode text = .ok bytes) (writable : Writable files path) :
    ∃ w, Returns (convertToFile format settings inputs path) ⟨files, []⟩ [] w ∧
      w.files.read path = .ok bytes := by
  have same : middle.files = files :=
    converted.of_preserves (Conversion.sameTree_textOf format settings inputs)
  obtain ⟨w, written, held⟩ := writable.returns encoded middle.log
  rw [← same] at written
  refine ⟨w, ?_, held⟩
  exact returns_bind_iff.2 ⟨(), w, returns_bind_iff.2 ⟨text, middle, converted, written⟩, rfl⟩

/-- Two command lines that ask for the same conversion, the first one without an output file and the
second one with the given one. -/
structure Redirects (plain named : Parsed) (path : Text) : Prop where
  words : positionalWords named = positionalWords plain
  settings : conversionSettings named = conversionSettings plain
  unnamed : outputFile? plain = none
  named : outputFile? named = some path

/-- The outcome is a success, and the file at the path holds the encoded text. -/
def Outcome.Holds (outcome : Outcome) (path text : Text) : Prop :=
  outcome.exitCode = 0 ∧
    ∃ bytes, Utf8.encode text = .ok bytes ∧ outcome.files.read path = .ok bytes

theorem Redirects.holds {plain named : Parsed} {path : Text} (h : Redirects plain named path)
    (converts : command.action = .convert format)
    (indent : ∀ unit ∈ (preferences plain).indent, Text.NoReturn unit) (nonempty : path ≠ [])
    (writable : Writable files path)
    (succeeds : (execute command plain verbose stdin files).exitCode = 0) (verbose' : Bool) :
    (execute command named verbose' stdin files).Holds path
      (execute command plain verbose stdin files).output := by
  have sameInputs : conversionInputs named stdin = conversionInputs plain stdin := by
    rw [conversionInputs, conversionInputs, h.words]
  have redirected := prepare_of_some stdin converts nonempty h.named
  rw [sameInputs, h.settings] at redirected
  obtain ⟨announced, printed, x, w, prepared, returns⟩ := exists_returns_of_exitCode_eq succeeds
  obtain ⟨-, output, -⟩ := execute_of_returns verbose prepared returns
  rw [prepare_of_none stdin converts h.unnamed] at prepared
  cases found : conversionInputs plain stdin with
  | error e =>
      rw [found] at prepared
      cases prepared
  | ok inputs =>
      rw [found] at prepared redirected
      cases prepared
      obtain ⟨bytes, middle, encoded, converted⟩ := printed_of_returns indent returns
      obtain ⟨w', written, held⟩ := returns_convertToFile converted encoded writable
      obtain ⟨exits, -, left⟩ := execute_of_returns verbose' redirected written
      rw [output, List.nil_append, Outcome.Holds, left]
      exact ⟨exits, bytes, encoded, held⟩

/-- The word that gives an output file makes a conversion write to that file. -/
theorem redirects_after (unnamed : outputFile? parsed = none) (path : Text) :
    Redirects parsed (parsed.after [("--out", .text path)]) path := by
  have absent : parsed.last? "--out" = none := by
    unfold outputFile? at unnamed
    split at unnamed
    · assumption
    · cases unnamed
    · cases unnamed
  have other (key : Text) (h : Text.ofString "--out" ≠ key) :
      (parsed.after [("--out", .text path)]).last? key = parsed.last? key := by
    rw [Parsed.last?_after, if_neg h, Option.or_none]
  have given : (parsed.after [("--out", .text path)]).last? "--out" = some (.text path) := by
    rw [Parsed.last?_after, absent, if_pos rfl, Option.none_or]
  refine ⟨rfl, ?_, unnamed, ?_⟩
  · simp only [conversionSettings, preferences, Parsed.text?, Parsed.integer?, Parsed.isOn,
      other "--type-name" (by decide), other "--indent" (by decide),
      other "--minify" (by decide), other "--sample-size" (by decide)]
  · simp only [outputFile?, given]

/-- Where a conversion succeeds that prints what it makes, it succeeds also if it is sent to a file
that can be written, and the file holds what would be printed. Whatever was given on the command
line, one more word sends it there. -/
theorem output_eq_content_of_file {arguments : List Text}
    (request : Request.ofArguments arguments = .perform command parsed verbose)
    (converts : command.action = .convert format) (unnamed : outputFile? parsed = none)
    (indent : ∀ unit ∈ (preferences parsed).indent, Text.NoReturn unit)
    (succeeds : (run arguments stdin files).exitCode = 0) {path : Text} (nonempty : path ≠ [])
    (writable : Writable files path) :
    (∀ arguments' parsed' verbose',
      Request.ofArguments arguments' = .perform command parsed' verbose' →
        Redirects parsed parsed' path →
          (run arguments' stdin files).Holds path (run arguments stdin files).output) ∧
    ∀ words, arguments = command.name :: words → path ≠ Text.ofString "--" →
      ∃ parsed', Request.ofArguments (command.name :: outWord path :: words) =
          .perform command parsed' verbose ∧ Redirects parsed parsed' path := by
  have executed : run arguments stdin files = execute command parsed verbose stdin files := by
    rw [run, request]
    rfl
  rw [executed] at succeeds ⊢
  constructor
  · intro arguments' parsed' verbose' request' redirects
    rw [run, request']
    exact redirects.holds converts indent nonempty writable succeeds verbose'
  · rintro words rfl notSeparator
    have sent := Request.ofArguments_outWord converts request notSeparator
    exact ⟨_, sent, redirects_after unnamed path⟩

/-- A single sample, whose key is an escaped return. -/
def returnSample : FileTree :=
  FileTree.empty.put (.ofPath "a.json") (.file [0x7b, 0x22, 0x5c, 0x72, 0x22, 0x3a, 0x31, 0x7d])

theorem output_of_returnSample :
    (run ["j2ts", "a.json"] [] returnSample).exitCode = 0 ∧
      (run ["j2ts", "--out=made/a.ts", "a.json"] [] returnSample).Holds "made/a.ts"
        (run ["j2ts", "a.json"] [] returnSample).output := by
  have request : Request.ofArguments ["j2ts", "a.json"] =
      .perform typescriptCommand ⟨[], some ["a.json"], []⟩ false := rfl
  have succeeds : (run ["j2ts", "a.json"] [] returnSample).exitCode = 0 := by decide +kernel
  have writable : Writable returnSample "made/a.ts" :=
    ⟨_, returns_of_toOption_eq_some (by decide +kernel)⟩
  obtain ⟨agrees, sent⟩ := output_eq_content_of_file request rfl rfl
    (fun unit given => by cases given; decide) succeeds (by decide) writable
  obtain ⟨parsed, request', redirects⟩ := sent ["a.json"] rfl (by decide)
  exact ⟨succeeds, agrees _ parsed false request' redirects⟩

end CommandLine

end JsonShapes
