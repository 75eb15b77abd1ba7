import JsonShapes.Proofs.FailedWrites
import JsonShapes.Proofs.Totality

/-!
# What a discovery checks and what it writes

A discovery has two parts. The first one checks all that it is given and finds a type for each
endpoint; it writes nothing, and it fails exactly if something is not accepted. The second one
writes the outputs one after the other. Each output can be rendered, so what makes the second part
fail is the file system, or a setting that has no value or cannot be encoded.
-/

namespace JsonShapes

namespace Discovery

/-- One thing that is written. -/
inductive Output where
  | file (e : Endpoint) (format : Format)
  | page (endpoints : List Endpoint)

namespace Output

def path (directory : Text) : Output → Text
  | .file e format => format.path directory e
  | .page _ => Path.join directory "API.md"

def text (preferences : Preferences) : Output → Except Error Text
  | .file e format => format.text preferences e
  | .page endpoints => preferences.pageText endpoints

/-- Renders the output and writes it to its file. -/
def write (settings : Settings) (output : Output) : Run Unit := do
  let directory ← settings.outputDirectory
  let text ← Run.ofOutcome (output.text settings.preferences)
  writeFile (output.path directory) text

end Output

/-- The outputs about one endpoint. -/
def endpointOutputs (flavors : List Flavor) (e : Endpoint) : List Output :=
  (Format.all.filter fun format => decide (format.flavor ∈ flavors)).map (.file e)

/-- The outputs about all endpoints, in the order in which they are written. -/
def outputs (flavors : List Flavor) (endpoints : List Endpoint) : List Output :=
  endpoints.flatMap (endpointOutputs flavors) ++
    if Flavor.markdown ∈ flavors then [.page endpoints] else []

theorem mem_outputs {flavors : List Flavor} {endpoints : List Endpoint} {output : Output}
    (h : output ∈ outputs flavors endpoints) :
    (∃ e ∈ endpoints, ∃ format : Format, format.flavor ∈ flavors ∧ output = .file e format) ∨
      (Flavor.markdown ∈ flavors ∧ output = .page endpoints) := by
  obtain file | page := List.mem_append.1 h
  · obtain ⟨e, he, listed⟩ := List.mem_flatMap.1 file
    obtain ⟨format, requested, rfl⟩ := List.mem_map.1 listed
    exact .inl ⟨e, he, format, of_decide_eq_true (List.mem_filter.1 requested).2, rfl⟩
  · split at page
    · next requested => exact .inr ⟨requested, List.mem_singleton.1 page⟩
    · cases page

theorem writeEndpoint_eq_forM (settings : Settings) (flavors : List Flavor) :
    writeEndpoint settings flavors =
      fun e => (endpointOutputs flavors e).forM (Output.write settings) := by
  funext e
  rw [writeEndpoint_eq, endpointOutputs, List.forM_eq_forM, List.forM_eq_forM, List.forM_map]
  rfl

theorem forM_outputs (settings : Settings) (flavors : List Flavor) (endpoints : List Endpoint) :
    (outputs flavors endpoints).forM (Output.write settings) = (do
      endpoints.forM (writeEndpoint settings flavors)
      writePage settings flavors endpoints) := by
  have page : (if Flavor.markdown ∈ flavors then [Output.page endpoints] else []).forM
      (Output.write settings) = writePage settings flavors endpoints := by
    unfold writePage
    split
    · simp [Output.write, Output.text, Output.path]
    · rfl
  rw [outputs, List.forM_eq_forM, List.forM_append, ← List.forM_eq_forM, page,
    writeEndpoint_eq_forM]
  congr 1
  clear page
  induction endpoints with
  | nil => rfl
  | cons e endpoints ih =>
      simp only [List.forM_eq_forM] at ih ⊢
      rw [List.flatMap_cons, List.forM_append, List.forM_cons, ih]

/-- The first part of a discovery. -/
def prepare (settings : Settings) (probe : Json) : Run (List Flavor × List Endpoint) := do
  let flavors ← Run.ofOutcome settings.flavors
  let endpoints ← Run.ofLogged (inferEndpoints probe)
  return (flavors, endpoints)

/-- The second part of a discovery. -/
def complete (settings : Settings) (found : List Flavor × List Endpoint) : Run (List Endpoint) := do
  (outputs found.1 found.2).forM (Output.write settings)
  Run.log .info .discovery
    ("Discovery completed for " ++ Text.ofNat found.2.length ++ " endpoints")
  return found.2

theorem discover_eq (settings : Settings) (probe : Json) :
    discover settings probe = prepare settings probe >>= complete settings := by
  simp only [discover, prepare, complete, forM_outputs, bind_assoc, pure_bind]

end Discovery

/-- The error is about what was asked or about the form of a document. -/
def Error.isArgument : Error → Bool
  | .unknownGenerator _ | .probeNotObject | .unsupportedMethod _ | .endpointsNotObject _
  | .samplesNotList _ _ => true
  | _ => false

/-- The computation returns something of a kind if the condition holds, and otherwise it fails
because of what it was given. -/
structure Checks {σ α : Type} (accepted : Bool) (P : α → Prop) (x : ExceptT Error (StateM σ) α) :
    Prop where
  returns : accepted = true → ∀ s, ∃ a s', Returns x s a s' ∧ P a
  fails : accepted = false → ∀ s, ∃ e s', Fails x s e s' ∧ e.isArgument = true

namespace Checks

variable {σ α β : Type} {P : α → Prop} {Q : β → Prop}

theorem pure {a : α} (h : P a) : Checks true P (pure a : ExceptT Error (StateM σ) α) where
  returns _ s := ⟨a, s, rfl, h⟩
  fails no := nomatch no

theorem throw {e : Error} (h : e.isArgument = true) :
    Checks false P (throw e : ExceptT Error (StateM σ) α) where
  returns no := nomatch no
  fails _ s := ⟨e, s, rfl, h⟩

/-- Of two computations, one after the other, both have to accept. -/
theorem bind {accepted accepted' : Bool} {x : ExceptT Error (StateM σ) α}
    {f : α → ExceptT Error (StateM σ) β} (first : Checks accepted P x)
    (second : ∀ a, P a → Checks accepted' Q (f a)) :
    Checks (accepted && accepted') Q (x >>= f) := by
  cases accepted with
  | false =>
      refine ⟨nofun, fun _ s => ?_⟩
      obtain ⟨e, s', fails, argument⟩ := first.fails rfl s
      exact ⟨e, s', fails_bind_iff.2 (.inl fails), argument⟩
  | true =>
      rw [Bool.true_and]
      constructor
      · intro accepts s
        obtain ⟨a, middle, returns, h⟩ := first.returns rfl s
        obtain ⟨b, s', returns', h'⟩ := (second a h).returns accepts middle
        exact ⟨b, s', returns_bind_iff.2 ⟨a, middle, returns, returns'⟩, h'⟩
      · intro rejects s
        obtain ⟨a, middle, returns, h⟩ := first.returns rfl s
        obtain ⟨e, s', fails, argument⟩ := (second a h).fails rejects middle
        exact ⟨e, s', fails_bind_iff.2 (.inr ⟨a, middle, returns, fails⟩), argument⟩

/-- A computation that accepts everything leaves the decision to the one after it. -/
theorem bind_of_true {accepted : Bool} {x : ExceptT Error (StateM σ) α}
    {f : α → ExceptT Error (StateM σ) β} (first : Checks true P x)
    (second : ∀ a, P a → Checks accepted Q (f a)) : Checks accepted Q (x >>= f) := by
  rw [← Bool.true_and accepted]
  exact first.bind second

theorem bind_pure {accepted : Bool} {x : ExceptT Error (StateM σ) α} {g : α → β}
    (first : Checks accepted P x) (second : ∀ a, P a → Q (g a)) :
    Checks accepted Q (x >>= fun a => Pure.pure (g a)) := by
  rw [← Bool.and_true accepted]
  exact first.bind fun a h => .pure (second a h)

theorem of_returns {accepted : Bool} {x : ExceptT Error (StateM σ) α} {s s' : σ} {a : α}
    (h : Checks accepted P x) (returns : Returns x s a s') : P a := by
  cases accepted with
  | false =>
      obtain ⟨e, _, fails, -⟩ := h.fails rfl s
      exact absurd fails returns.not_fails
  | true =>
      obtain ⟨b, _, again, hb⟩ := h.returns rfl s
      rwa [← (returns.unique again).1]

theorem ofLogged {accepted : Bool} {x : Logged α} (h : Checks accepted P x) :
    Checks accepted P (Run.ofLogged x) := by
  constructor
  · intro accepts w
    obtain ⟨a, log, returns, ha⟩ := h.returns accepts w.log
    refine ⟨a, { w with log }, ?_, ha⟩
    exact congrArg (fun r => (r.1, { w with log := r.2 })) returns
  · intro rejects w
    obtain ⟨e, log, fails, argument⟩ := h.fails rejects w.log
    refine ⟨e, { w with log }, ?_, argument⟩
    exact congrArg (fun r => (r.1, { w with log := r.2 })) fails

end Checks

theorem Run.ofOutcome_bind {α β : Type} (outcome : Except Error α) (f : α → Except Error β) :
    ofOutcome (outcome >>= f) = ofOutcome outcome >>= fun a => ofOutcome (f a) := by
  cases outcome <;> rfl

namespace Discovery

/-- All names are those of flavors. -/
def areFlavors (names : List Text) : Bool := names.all fun name => (Flavor.ofName? name).isSome

theorem checks_flavors (names : List Text) :
    Checks (areFlavors names) (fun _ => True) (Run.ofOutcome (flavors names)) := by
  induction names with
  | nil => exact .pure trivial
  | cons name names ih =>
      rw [areFlavors, flavors, List.all_cons]
      cases Flavor.ofName? name with
      | none => exact .throw rfl
      | some flavor =>
          rw [Run.ofOutcome_bind]
          exact ih.bind_pure fun _ _ => trivial

theorem checks_settings_flavors (settings : Settings) :
    Checks (areFlavors settings.generate) (fun _ => True) (Run.ofOutcome settings.flavors) := by
  rw [Settings.flavors]
  split
  · next none =>
      rw [List.isEmpty_iff.1 none]
      exact .pure trivial
  · exact checks_flavors settings.generate

/-- The samples of an endpoint, as a probe document gives them. -/
def isSampleList : Json → Bool
  | .arr _ => true
  | _ => false

/-- The method is supported and all its endpoints have lists of samples. -/
def isMethodEntry (key : Text) : Json → Bool
  | .obj paths => decide (key.lower ∈ methods) && paths.all fun path => isSampleList path.2
  | _ => false

/-- The document maps methods to endpoints and these to lists of samples. -/
def isProbe : Json → Bool
  | .obj entries => entries.all fun entry => isMethodEntry entry.1 entry.2
  | _ => false

/-- Everything about the endpoint can be written. -/
structure Renderable (e : Endpoint) : Prop extends Named e where
  shape : e.shape.WellFormed (Json.literalsOver Json.numerals)

theorem checks_inferSamples {samples : List Json} (nonempty : samples ≠ [])
    (decodable : ∀ v ∈ samples, v.Decodable) :
    Checks true (fun shape : Shape => shape.WellFormed (Json.literalsOver Json.numerals))
      (Logged.inferSamples samples) := by
  obtain ⟨shape, inferred, wellFormed⟩ :=
    Shape.exists_wellFormed_inferSamples nonempty fun v hv => (decodable v hv).within
  obtain ⟨decisions, explained⟩ := Shape.exists_explainSamples inferred
  refine ⟨fun _ log => ?_, nofun⟩
  refine ⟨shape, log ++ decisions.map fun d => ⟨.debug, .inference, d.message⟩, ?_,
    wellFormed _ fun v hv => (decodable v hv).literals_subset⟩
  rw [Logged.inferSamples, explained]
  rfl

theorem checks_log (level : Level) (source : Source) (message : Text) :
    Checks true (fun _ => True) (Logged.log level source message) :=
  ⟨fun _ _ => ⟨(), _, rfl, trivial⟩, nofun⟩

theorem checks_methodEndpoints {method : Text} (supported : method ∈ methods) (used : List Text)
    {paths : List (Text × Json)} (decodable : ∀ path ∈ paths, path.2.Decodable) :
    Checks (paths.all fun path => isSampleList path.2)
      (fun endpoints => ∀ e ∈ endpoints, Renderable e) (methodEndpoints method used paths) := by
  -- every endpoint adds its name to those in use, which decide nothing but later names
  induction paths generalizing used with
  | nil => exact .pure (by simp)
  | cons entry paths ih =>
      obtain ⟨path, value⟩ := entry
      rw [List.forall_mem_cons] at decodable
      cases decodable.1 with
      | @arr samples decodableSamples =>
          rw [List.all_cons, isSampleList, Bool.true_and]
          cases samples with
          | nil => exact (checks_log ..).bind_of_true fun _ _ => ih used decodable.2
          | cons sample samples =>
              have inferred := checks_inferSamples (List.cons_ne_nil _ _) decodableSamples
              simp only [methodEndpoints]
              refine inferred.bind_of_true fun shape wellFormed => ?_
              refine (checks_log ..).bind_of_true fun _ _ => ?_
              refine (ih _ decodable.2).bind_pure fun others renderable => ?_
              refine List.forall_mem_cons.2 ⟨⟨⟨supported, ?_⟩, wellFormed⟩, renderable⟩
              exact Naming.isIdentifier_fresh used (Naming.isIdentifier_baseName path)
      | _ =>
          simp only [methodEndpoints]
          exact .throw rfl

theorem checks_entryEndpoints {entries : List (Text × Json)}
    (decodable : ∀ entry ∈ entries, entry.2.Decodable) :
    Checks (entries.all fun entry => isMethodEntry entry.1 entry.2)
      (fun endpoints => ∀ e ∈ endpoints, Renderable e) (entryEndpoints entries) := by
  induction entries with
  | nil => exact .pure (by simp)
  | cons entry entries ih =>
      obtain ⟨key, value⟩ := entry
      rw [List.forall_mem_cons] at decodable
      simp only [entryEndpoints, List.all_cons]
      -- the method is looked at before the entry is, and either of them is enough to reject both
      split
      · next unsupported =>
          have rejected : isMethodEntry key value = false := by
            cases value <;> simp [isMethodEntry, unsupported]
          rw [rejected]
          exact .throw rfl
      · next supported =>
          rw [not_not] at supported
          cases decodable.1 with
          | obj distinct decodablePaths =>
              rw [isMethodEntry, decide_eq_true supported, Bool.true_and]
              have here := checks_methodEndpoints supported [] decodablePaths
              refine here.bind fun endpoints renderable => ?_
              refine (ih decodable.2).bind_pure fun others renderableOthers => ?_
              exact List.forall_mem_append.2 ⟨renderable, renderableOthers⟩
          | _ => exact .throw rfl

theorem checks_inferEndpoints {probe : Json} (decodable : probe.Decodable) :
    Checks (isProbe probe) (fun endpoints => ∀ e ∈ endpoints, Renderable e)
      (inferEndpoints probe) := by
  cases decodable with
  | obj distinct decodableEntries => exact checks_entryEndpoints decodableEntries
  | _ => exact .throw rfl

/-- The settings and the document are as a discovery demands. -/
def Settings.accepts (settings : Settings) (probe : Json) : Bool :=
  areFlavors settings.generate && isProbe probe

/-- The first part of a discovery fails exactly if something is not accepted. -/
theorem checks_prepare (settings : Settings) {probe : Json} (decodable : probe.Decodable) :
    Checks (settings.accepts probe) (fun found => ∀ e ∈ found.2, Renderable e)
      (prepare settings probe) := by
  refine (checks_settings_flavors settings).bind fun flavors _ => ?_
  exact (checks_inferEndpoints decodable).ofLogged.bind_pure fun _ renderable => renderable

/-- The first part of a discovery leaves the files alone. -/
theorem sameTree_prepare (settings : Settings) (probe : Json) :
    Preserves SameTree (prepare settings probe) := by
  refine .bind sameTree_trans ?_ fun flavors => ?_
  · exact Run.sameTree_ofOutcome settings.flavors
  · exact .bind sameTree_trans (Run.sameTree_ofLogged _) fun _ => .pure sameTree_refl _

theorem indent_eq_none_of_lines {p : Preferences} (h : ¬(p.minify || p.indent.isSome) = true) :
    p.indent = none := by
  rw [Bool.or_eq_true, not_or, Option.isSome_iff_ne_none, not_not] at h
  exact h.2

theorem indent_eq_none_of_lacking? {p : Preferences} {g : Emit.Grammar} {s : Shape}
    {line : Emit.IndentedLine} (h : p.lacking? g s = some line) : p.indent = none := by
  unfold Preferences.lacking? at h
  split at h
  · cases h
  · next lines => exact indent_eq_none_of_lines lines

theorem ofFault_eq_ok {α : Type} {outcome : Except Fault α} {a : α}
    (h : Error.ofFault outcome = .ok a) : outcome = .ok a := by
  cases outcome with
  | ok b =>
      cases h
      rfl
  | error fault => cases h

theorem exists_page (indent : Text) {endpoints : List Endpoint}
    (renderable : ∀ e ∈ endpoints, Renderable e) :
    ∃ text, Markdown.page Markdown.defaultTitle indent endpoints = .ok text := by
  have written := Markdown.sections_eq_ok indent fun e listed => (renderable e listed).shape.within
  rw [Markdown.page, written]
  exact ⟨_, rfl⟩

namespace Output

/-- Everything that the output is about can be written. -/
def IsRenderable : Output → Prop
  | .file e _ => Renderable e
  | .page endpoints => ∀ e ∈ endpoints, Renderable e

variable {output : Output} {p : Preferences}

/-- A text can be encoded if the indentation can. -/
theorem IsRenderable.isEncodable (h : output.IsRenderable)
    (indent : p.options.indent.isEncodable = true) {text : Text} (eq : output.text p = .ok text) :
    text.isEncodable = true := by
  cases output with
  | file e format =>
      cases format with
      | module target =>
          simp only [Output.text, Format.text, Preferences.moduleText] at eq
          split at eq
          · cases eq
          · exact Emit.isEncodable_of_emitModule indent (ofFault_eq_ok eq)
      | schema =>
          simp only [Output.text, Format.text, Preferences.schemaText] at eq
          split at eq
          · cases eq
          · split at eq
            · cases eq
              exact Schema.isEncodable_dump _ _
            · cases eq
  | page endpoints =>
      simp only [Output.text, Preferences.pageText] at eq
      split at eq
      · cases eq
      · have named : ∀ e ∈ endpoints, Named e := fun e he => (h e he).toNamed
        exact Markdown.isEncodable_of_page indent named (ofFault_eq_ok eq)

/-- Only an indentation that is missing keeps an output from being rendered. -/
theorem IsRenderable.indent_eq_none (h : output.IsRenderable) {e : Error}
    (eq : output.text p = .error e) :
    p.indent = none ∧ (e = .noSchemaIndent ∨ ∃ line, e = .noIndent line) := by
  cases output with
  | file endpoint format =>
      cases format with
      | module target =>
          simp only [Output.text, Format.text, Preferences.moduleText] at eq
          split at eq
          · next line lacking =>
              cases eq
              exact ⟨indent_eq_none_of_lacking? lacking, .inr ⟨line, rfl⟩⟩
          · obtain ⟨text, written⟩ :=
              Shape.exists_emitModule h.shape.within target p.options endpoint.typeName
            rw [written] at eq
            cases eq
      | schema =>
          obtain ⟨schema, made, -⟩ := Shape.exists_ofShape h.shape endpoint.typeName
          simp only [Output.text, Format.text, Preferences.schemaText, made] at eq
          split at eq
          · cases eq
          · next lines =>
              cases eq
              exact ⟨indent_eq_none_of_lines lines, .inl rfl⟩
  | page endpoints =>
      simp only [Output.text, Preferences.pageText] at eq
      split at eq
      · next line found =>
          cases eq
          obtain ⟨endpoint, -, lacking⟩ := List.exists_of_findSome?_eq_some found
          have missing := indent_eq_none_of_lacking? lacking
          exact ⟨missing, .inr ⟨line, rfl⟩⟩
      · obtain ⟨text, written⟩ := exists_page p.options.indent h
        cases eq.symm.trans (congrArg Error.ofFault written)

end Output

theorem isRenderable_of_mem {flavors : List Flavor} {endpoints : List Endpoint}
    (renderable : ∀ e ∈ endpoints, Renderable e) {output : Output}
    (h : output ∈ outputs flavors endpoints) : output.IsRenderable := by
  obtain ⟨e, he, format, -, rfl⟩ | ⟨-, rfl⟩ := mem_outputs h
  · exact renderable e he
  · exact renderable

/-- What can make the second part of a discovery fail. -/
inductive Settings.Obstacle (settings : Settings) : Error → Prop where
  | noDirectory : settings.directory = none → settings.Obstacle .noDirectory
  | noIndent (line : Emit.IndentedLine) : settings.preferences.indent = none →
      settings.Obstacle (.noIndent line)
  | noSchemaIndent : settings.preferences.indent = none → settings.Obstacle .noSchemaIndent
  | file {failure : FileTree.Failure} :
      ((∀ directory, settings.directory = some directory → Path.Clean directory) →
        failure.cause.isFromSystem = true) → settings.Obstacle (.file failure)
  | unencodable (cause : Utf8.EncodeError) :
      settings.preferences.options.indent.isEncodable = false →
        settings.Obstacle (.unencodable cause)

section

variable {settings : Settings} {output : Output}

/-- What is added to the output directory never makes a path unclean. -/
theorem Output.IsRenderable.clean_path_iff (h : output.IsRenderable) {directory : Text} :
    Path.Clean (output.path directory) ↔ Path.Clean directory := by
  have cleanMethods : ∀ method ∈ methods, Path.Clean method := by decide
  have cleanFormats : ∀ format ∈ Format.all,
      Path.Clean format.folder ∧ Path.Clean format.extension := by decide
  have cleanPage : Path.Clean "API.md" := by decide
  cases output with
  | file e format =>
      have formats := cleanFormats format format.mem_all
      simp only [Output.path, Format.path, endpointFile, Path.clean_join, Path.clean_append,
        formats, cleanMethods _ h.method, Path.clean_of_isIdentifier h.identifier, and_true]
  | page endpoints => exact Path.clean_join.trans (and_iff_left cleanPage)

/-- An output that lacks a directory or a text is not written at all. -/
theorem Output.write_cases (settings : Settings) (output : Output) :
    (settings.directory = none ∧ output.write settings = throw .noDirectory) ∨
      (∃ e, output.text settings.preferences = .error e ∧ output.write settings = throw e) ∨
        ∃ directory text, settings.directory = some directory ∧
          output.text settings.preferences = .ok text ∧
            output.write settings = writeFile (output.path directory) text := by
  unfold Output.write Settings.outputDirectory
  cases settings.directory with
  | none => exact .inl ⟨rfl, rfl⟩
  | some directory =>
      cases output.text settings.preferences with
      | error e => exact .inr (.inl ⟨e, rfl, rfl⟩)
      | ok text => exact .inr (.inr ⟨directory, text, rfl, rfl, rfl⟩)

theorem Output.IsRenderable.failsOnly_write (h : output.IsRenderable) :
    FailsOnly settings.Obstacle (output.write settings) := by
  obtain ⟨missing, eq⟩ | ⟨e, unrendered, eq⟩ | ⟨directory, text, set, rendered, eq⟩ :=
    output.write_cases settings
  · rw [eq]
    exact .throw (.noDirectory missing)
  · rw [eq]
    obtain ⟨missing, rfl | ⟨line, rfl⟩⟩ := h.indent_eq_none unrendered
    · exact .throw (.noSchemaIndent missing)
    · exact .throw (.noIndent line missing)
  · rw [eq]
    intro w e w' fails
    have clean : (∀ directory, settings.directory = some directory → Path.Clean directory) →
        Path.Clean (output.path directory) := fun clean => h.clean_path_iff.2 (clean directory set)
    obtain ⟨failure, rfl, system⟩ | ⟨unencodable, cause, rfl⟩ :=
      failsOnly_writeFile clean w e w' fails
    · exact .file system
    · refine .unencodable cause (Bool.eq_false_iff.2 fun indent => ?_)
      rw [h.isEncodable indent rendered] at unencodable
      cases unencodable

theorem Output.preserves_write {R : World → World → Prop} (refl : ∀ w, R w w)
    (step : ∀ directory text, settings.directory = some directory →
      output.text settings.preferences = .ok text →
        Preserves R (writeFile (output.path directory) text)) :
    Preserves R (output.write settings) := by
  obtain ⟨-, eq⟩ | ⟨e, -, eq⟩ | ⟨directory, text, set, rendered, eq⟩ := output.write_cases settings
  · rw [eq]
    exact .throw refl _
  · rw [eq]
    exact .throw refl _
  · rw [eq]
    exact step directory text set rendered

end

section

variable {settings : Settings} {found : List Flavor × List Endpoint}

theorem failsOnly_complete (renderable : ∀ e ∈ found.2, Renderable e) :
    FailsOnly settings.Obstacle (complete settings found) := by
  refine .bind (.forM fun output listed => ?_) fun _ => .bind ?_ fun _ => .pure _
  · exact (isRenderable_of_mem renderable listed).failsOnly_write
  · exact Run.failsOnly_log _ _ _

theorem preserves_complete {R : World → World → Prop} (trans : ∀ u v w, R u v → R v w → R u w)
    (logged : ∀ w log, R w { w with log })
    (step : ∀ output ∈ outputs found.1 found.2, Preserves R (output.write settings)) :
    Preserves R (complete settings found) := by
  have refl : ∀ w, R w w := fun w => logged w w.log
  refine .bind trans (.forM refl trans step) fun _ => .bind trans ?_ fun _ => .pure refl _
  exact Run.preserves_log logged _ _ _

end

/-- A discovery ends with its first part, in which no file changes, or goes on with the second. -/
theorem run_discover (settings : Settings) {probe : Json} (decodable : probe.Decodable)
    (w : World) :
    (settings.accepts probe = false ∧ ∃ e w', Fails (discover settings probe) w e w' ∧
      e.isArgument = true ∧ w'.files = w.files) ∨
    (settings.accepts probe = true ∧ ∃ found middle,
      Returns (prepare settings probe) w found middle ∧ middle.files = w.files ∧
        (∀ e ∈ found.2, Renderable e) ∧
          (discover settings probe).run.run w = (complete settings found).run.run middle) := by
  have checks := checks_prepare settings decodable
  rw [discover_eq]
  cases accepts : settings.accepts probe with
  | false =>
      obtain ⟨e, w', fails, argument⟩ := checks.fails accepts w
      have files := fails.of_preserves (sameTree_prepare settings probe)
      exact .inl ⟨rfl, e, w', fails_bind_iff.2 (.inl fails), argument, files⟩
  | true =>
      obtain ⟨found, middle, returns, renderable⟩ := checks.returns accepts w
      have files := returns.of_preserves (sameTree_prepare settings probe)
      exact .inr ⟨rfl, found, middle, returns, files, renderable, run_bind_ok returns _⟩

end Discovery

end JsonShapes
