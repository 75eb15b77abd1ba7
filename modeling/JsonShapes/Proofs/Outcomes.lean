import JsonShapes.Proofs.Outputs

/-!
# How discoveries end

A discovery that is not accepted leaves every file as it was, however late in the document the
reason comes. One that is accepted ends well or is stopped by the file system. Whatever it writes
can be encoded, since no text that it is given reaches a file with its surrogates as they are.
-/

namespace JsonShapes

namespace Discovery

open Run (SameFiles Adds)

theorem Settings.Obstacle.isArgument_eq_false {settings : Settings} {e : Error}
    (h : settings.Obstacle e) : e.isArgument = false := by
  cases h <;> rfl

/-- With a directory and an indentation that can be encoded, only files are an obstacle. -/
theorem Settings.Obstacle.exists_failure {settings : Settings} {directory indent : Text}
    (set : settings.directory = some directory) (given : settings.preferences.indent = some indent)
    (encodable : indent.isEncodable = true) {e : Error} (h : settings.Obstacle e) :
    ∃ failure, e = .file failure ∧
      (Path.Clean directory → failure.cause.isFromSystem = true) := by
  cases h with
  | noDirectory missing => cases set.symm.trans missing
  | noIndent line missing => cases given.symm.trans missing
  | noSchemaIndent missing => cases given.symm.trans missing
  | file system =>
      refine ⟨_, rfl, fun clean => system fun other same => ?_⟩
      cases set.symm.trans same
      exact clean
  | unencodable cause lone =>
      rw [Preferences.options, given] at lone
      cases lone.symm.trans encodable

/-- No file is written to a directory whose path is not clean. -/
theorem sameFiles_complete {settings : Settings} {directory : Text}
    (set : settings.directory = some directory) (unclean : ¬Path.Clean directory)
    {found : List Flavor × List Endpoint} (renderable : ∀ e ∈ found.2, Renderable e) :
    Preserves SameFiles (complete settings found) := by
  refine preserves_complete Run.sameFiles_trans (fun _ _ _ _ => Iff.rfl) fun output listed => ?_
  refine Output.preserves_write Run.sameFiles_refl fun other text same _ => ?_
  cases set.symm.trans same
  refine sameFiles_writeFile fun clean => unclean ?_
  exact (isRenderable_of_mem renderable listed).clean_path_iff.1 clean

/-- A discovery over a document fails because of what it is given exactly if it is not accepted, and
then all files are as before. If it is accepted, and the directory and the indentation are texts of
which the latter can be encoded, it returns or is stopped by the file system; a directory that no
path can lead to stops it before the first file is written. -/
theorem discover_rejects_without_writing (settings : Settings) {document : Text} {probe : Json}
    (parsed : Json.parse document = .ok probe) (w : World) :
    (settings.accepts probe = false → ∃ e w', Fails (discover settings probe) w e w' ∧
      e.isArgument = true) ∧
    (∀ e w', Fails (discover settings probe) w e w' → e.isArgument = true →
      settings.accepts probe = false ∧ w'.files = w.files) ∧
    (settings.accepts probe = true → ∀ directory indent, settings.directory = some directory →
      settings.preferences.indent = some indent → indent.isEncodable = true →
        (∃ endpoints w', Returns (discover settings probe) w endpoints w') ∨
        ∃ failure w', Fails (discover settings probe) w (.file failure) w' ∧
          (failure.cause.isFromSystem = true ∨ ¬Path.Clean directory ∧ SameFiles w w')) := by
  have decodable := Json.decodable_of_parse parsed
  obtain ⟨rejects, e, w', fails, argument, files⟩ |
    ⟨accepts, found, middle, -, files, renderable, run⟩ := run_discover settings decodable w
  · refine ⟨fun _ => ⟨e, w', fails, argument⟩, fun e₂ w₂ fails₂ _ => ⟨rejects, ?_⟩, ?_⟩
    · rw [(fails.unique fails₂).2]
      exact files
    · rw [rejects]
      exact nofun
  · have later : ∀ {e w'}, Fails (discover settings probe) w e w' →
        Fails (complete settings found) middle e w' := fun fails => run.symm.trans fails
    -- what stops the second part is never what was asked or the form of the document
    have obstacle : ∀ e w', Fails (discover settings probe) w e w' → settings.Obstacle e :=
      fun e w' fails => failsOnly_complete renderable middle e w' (later fails)
    refine ⟨fun rejects => ?_, fun e w' fails argument => ?_, ?_⟩
    · rw [accepts] at rejects
      cases rejects
    · rw [(obstacle e w' fails).isArgument_eq_false] at argument
      cases argument
    · intro _ directory indent set given encodable
      obtain returns | ⟨e, w', fails⟩ := returns_or_fails (discover settings probe) w
      · exact .inl returns
      · obtain ⟨failure, rfl, system⟩ := (obstacle e w' fails).exists_failure set given encodable
        refine .inr ⟨failure, w', fails, ?_⟩
        -- an unclean directory makes the path of every output unclean
        by_cases clean : Path.Clean directory
        · exact .inl (system clean)
        · have same := (later fails).of_preserves (sameFiles_complete set clean renderable)
          rw [SameFiles, files] at same
          exact .inr ⟨clean, same⟩

/-- A document whose last endpoint has no list of samples. -/
def lateOffence : Json :=
  .obj [("get", .obj [("/a", .arr [.int 1])]), ("put", .obj [("/b", .arr [.null]), ("/c", .int 2)])]

/-- The same document without that endpoint. -/
def noOffence : Json :=
  .obj [("get", .obj [("/a", .arr [.int 1])]), ("put", .obj [("/b", .arr [.null])])]

theorem rejects_lateOffence :
    (∃ e w', Fails (discover {} lateOffence) ⟨.empty, []⟩ e w' ∧ e.isArgument = true ∧
      w'.files = .empty) ∧
    ((∃ endpoints w', Returns (discover {} noOffence) ⟨.empty, []⟩ endpoints w') ∨
      ∃ failure w', Fails (discover {} noOffence) ⟨.empty, []⟩ (.file failure) w') := by
  have late : Json.parse
      "\x7b\"get\":\x7b\"/a\":[1]\x7d,\"put\":\x7b\"/b\":[null],\"/c\":2\x7d\x7d" =
        .ok lateOffence := by decide +kernel
  have none : Json.parse "\x7b\"get\":\x7b\"/a\":[1]\x7d,\"put\":\x7b\"/b\":[null]\x7d\x7d" =
      .ok noOffence := by decide +kernel
  obtain ⟨rejected, unchanged, -⟩ := discover_rejects_without_writing {} late ⟨.empty, []⟩
  obtain ⟨e, w', fails, argument⟩ := rejected (by decide +kernel)
  obtain ⟨-, files⟩ := unchanged e w' fails argument
  obtain ⟨-, -, accepted⟩ := discover_rejects_without_writing {} none ⟨.empty, []⟩
  refine ⟨⟨e, w', fails, argument, files⟩, ?_⟩
  obtain returns | ⟨failure, w₂, fails₂, -⟩ :=
    accepted (by decide +kernel) "autodisco" "  " rfl rfl (by decide)
  · exact .inl returns
  · exact .inr ⟨failure, w₂, fails₂⟩

/-- A schema and a page are asked for, with an indentation that cannot be encoded. -/
def surrogateIndent : Settings where
  generate := ["json", "markdown"]
  preferences := { indent := some [CodePoint.ofNat 0xD800] }

/-- Such an indentation does no harm to the schema, but it stops the page that is written after
it. -/
theorem discover_fails_surrogateIndent :
    let probe : Json := .obj [("get", .obj [("/a", .arr [.obj [("x", .int 1)]])])]
    (∃ document, Json.parse document = .ok probe) ∧ surrogateIndent.accepts probe = true ∧
      ∃ cause w' content,
        Fails (discover surrogateIndent probe) ⟨.empty, []⟩ (.unencodable cause) w' ∧
          w'.files.read "autodisco/json/get/A.json" = .ok content := by
  intro probe
  have read : Json.parse "\x7b\"get\":\x7b\"/a\":[\x7b\"x\":1\x7d]\x7d\x7d" = .ok probe := by
    decide +kernel
  have outcome : ((discover surrogateIndent probe).run.run ⟨.empty, []⟩).1 =
      .error (.unencodable ⟨146, CodePoint.ofNat 0xD800, 1⟩) := by decide +kernel
  have written : (((discover surrogateIndent probe).run.run ⟨.empty, []⟩).2.files.read
      "autodisco/json/get/A.json").toOption.isSome = true := by decide +kernel
  obtain ⟨content, held⟩ := Option.isSome_iff_exists.1 written
  exact ⟨⟨_, read⟩, by decide +kernel, _, _, content, Prod.ext outcome rfl,
    toOption_eq_some_iff.1 held⟩

/-- The texts that a discovery is to write. -/
def Settings.texts (settings : Settings) (probe : Json) : Set Text :=
  {text | ∃ w found w', Returns (prepare settings probe) w found w' ∧
    ∃ output ∈ outputs found.1 found.2, output.text settings.preferences = .ok text}

theorem isEncodable_options_indent {p : Preferences}
    (h : ∀ indent, p.indent = some indent → indent.isEncodable = true) :
    p.options.indent.isEncodable = true := by
  unfold Preferences.options
  cases eq : p.indent with
  | none => rfl
  | some indent => exact h indent eq

theorem isEncodable_of_mem_texts {settings : Settings} {probe : Json}
    (decodable : probe.Decodable)
    (indent : settings.preferences.options.indent.isEncodable = true) {text : Text}
    (h : text ∈ settings.texts probe) : text.isEncodable = true := by
  obtain ⟨w, found, w', returns, output, listed, eq⟩ := h
  have renderable := (checks_prepare settings decodable).of_returns returns
  exact (isRenderable_of_mem renderable listed).isEncodable indent eq

/-- Whatever becomes of a discovery, the files that it adds hold texts that it is to write. -/
theorem adds_discover {settings : Settings} {probe : Json} (decodable : probe.Decodable)
    (indent : settings.preferences.options.indent.isEncodable = true) :
    Preserves (Adds (settings.texts probe)) (discover settings probe) := by
  intro w
  obtain ⟨-, e, w', fails, -, files⟩ | ⟨-, found, middle, returns, files, renderable, run⟩ :=
    run_discover settings decodable w
  · rw [show (discover settings probe).run.run w = _ from fails]
    intro place content here
    rw [files] at here
    exact .inl here
  · have added : Preserves (Adds (settings.texts probe)) (complete settings found) := by
      refine preserves_complete Run.adds_trans (fun _ _ _ _ => .inl) fun output listed => ?_
      refine Output.preserves_write (fun _ _ _ => .inl) fun directory text _ eq => ?_
      have asked : text ∈ settings.texts probe := ⟨w, found, middle, returns, output, listed, eq⟩
      exact adds_writeFile asked (isEncodable_of_mem_texts decodable indent asked)
    rw [run, Adds, ← files]
    exact added middle

/-- Whatever the shape, the name and the title are, modules and schemas can be encoded if the
indentation can. So can all that a discovery over a document has to write: it leaves no file that
holds anything else, and encoding never stops it. -/
theorem isEncodable_of_discover :
    (∀ target o name s, o.indent.isEncodable = true → s.foreign? = none →
      ∃ text, Emit.emitModule target o name s = .ok text ∧ text.isEncodable = true) ∧
    (∀ o title s schema, Schema.ofShape title s = .ok schema →
      (Schema.dump o schema).isEncodable = true) ∧
    ∀ settings document probe w, Json.parse document = .ok probe →
      (∀ indent, settings.preferences.indent = some indent → indent.isEncodable = true) →
        (∀ text ∈ settings.texts probe, text.isEncodable = true) ∧
        Adds (settings.texts probe) w ((discover settings probe).run.run w).2 ∧
        ∀ cause w', ¬Fails (discover settings probe) w (.unencodable cause) w' := by
  refine ⟨?_, fun o _ _ schema _ => Schema.isEncodable_dump o schema, ?_⟩
  · intro target o name s indent known
    obtain ⟨text, written⟩ := Shape.exists_emitModule (Shape.within_univ known) target o name
    exact ⟨text, written, Emit.isEncodable_of_emitModule indent written⟩
  · intro settings document probe w parsed given
    have decodable := Json.decodable_of_parse parsed
    have indent := isEncodable_options_indent given
    refine ⟨fun text => isEncodable_of_mem_texts decodable indent, adds_discover decodable indent w,
      fun cause w' fails => ?_⟩
    obtain ⟨-, e, _, rejected, argument, -⟩ | ⟨-, found, middle, -, -, renderable, run⟩ :=
      run_discover settings decodable w
    · rw [← (rejected.unique fails).1] at argument
      cases argument
    · cases failsOnly_complete renderable middle _ w' (run.symm.trans fails) with
      | unencodable cause lone => cases lone.symm.trans indent

/-- A document with lone surrogates in a path, in keys and in the values that tell two objects
apart. -/
def loneSurrogates : Json :=
  .obj [("get", .obj [("/" ++ [CodePoint.ofNat 0xD800],
    .arr [.arr [.obj [([CodePoint.ofNat 0xDC00], .str [CodePoint.ofNat 0xD801])],
      .obj [([CodePoint.ofNat 0xDC00], .str [CodePoint.ofNat 0xD802]),
        ([CodePoint.ofNat 0xD803], .null)]]])])]

theorem isEncodable_loneSurrogates :
    let settings : Settings := { generate := ["zod", "typescript", "json", "markdown"] }
    let lone : Text := [CodePoint.ofNat 0xD800]
    (∃ text, Emit.emitModule .zod {} lone (.object [(lone, .string)]) = .ok text ∧
      text.isEncodable = true) ∧
    (∃ schema, Schema.ofShape lone (.literal lone "string") = .ok schema ∧
      (Schema.dump {} schema).isEncodable = true) ∧
    (∃ endpoints w', Returns (discover settings loneSurrogates) ⟨.empty, []⟩ endpoints w' ∧
      Adds (settings.texts loneSurrogates) ⟨.empty, []⟩ w') ∧
    ∀ text ∈ settings.texts loneSurrogates, text.isEncodable = true := by
  intro settings lone
  have parsed : Json.parse ("\x7b\"get\":\x7b\"/\\ud800\":[[\x7b\"\\udc00\":\"\\ud801\"\x7d," ++
      "\x7b\"\\udc00\":\"\\ud802\",\"\\ud803\":null\x7d]]\x7d\x7d") = .ok loneSurrogates := by
    decide +kernel
  obtain ⟨modules, schemas, runs⟩ := isEncodable_of_discover
  obtain ⟨texts, added, -⟩ := runs settings _ loneSurrogates ⟨.empty, []⟩ parsed (by decide)
  have ends : ((discover settings loneSurrogates).run.run
      ⟨.empty, []⟩).1.toOption.isSome = true := by decide +kernel
  obtain ⟨endpoints, ended⟩ := Option.isSome_iff_exists.1 ends
  exact ⟨modules .zod {} lone _ rfl rfl, ⟨_, rfl, schemas {} lone (.literal lone "string") _ rfl⟩,
    ⟨endpoints, _, returns_of_toOption_eq_some ended, added⟩, texts⟩

end Discovery

end JsonShapes
