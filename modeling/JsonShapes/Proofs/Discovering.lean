import JsonShapes.Proofs.FileWrites
import JsonShapes.Proofs.FreshNames

/-!
# What a discovery leaves behind

An endpoint has its files to itself unless another one has the same method and the same name; then
the later one takes the place of the earlier one. Within one method entry names are fresh, so only
entries whose keys are equal in lower case can get in each other's way.
-/

namespace JsonShapes

deriving instance DecidableEq for Endpoint

/-- What the files of an endpoint are called after. -/
def Endpoint.label (e : Endpoint) : Text × Text := (e.method, e.typeName)

namespace Discovery

open Naming (IsIdentifier fresh)

section

variable {log log' : List LogEntry} {endpoints : List Endpoint}

/-- The endpoints of one method entry have names that differ from each other and from those in
use. -/
theorem names_of_methodEndpoints {method : Text} {used : List Text} {paths : List (Text × Json)}
    (h : Returns (methodEndpoints method used paths) log endpoints log') :
    (∀ e ∈ endpoints, e.method = method ∧ IsIdentifier e.typeName ∧ e.typeName ∉ used) ∧
      (endpoints.map Endpoint.typeName).Nodup := by
  induction paths generalizing used log endpoints log' with
  | nil =>
      obtain ⟨rfl, -⟩ := returns_pure_iff.mp h
      simp
  | cons entry paths ih =>
      obtain ⟨path, samples⟩ := entry
      cases samples with
      | arr samples =>
          cases samples with
          | nil =>
              simp only [methodEndpoints] at h
              obtain ⟨_, _, -, rest⟩ := returns_bind_iff.mp h
              exact ih rest
          | cons first samples =>
              simp only [methodEndpoints] at h
              obtain ⟨shape, _, -, h⟩ := returns_bind_iff.mp h
              obtain ⟨_, _, -, h⟩ := returns_bind_iff.mp h
              obtain ⟨others, _, rest, last⟩ := returns_bind_iff.mp h
              obtain ⟨rfl, -⟩ := returns_pure_iff.mp last
              obtain ⟨each, distinct⟩ := ih rest
              constructor
              · intro e member
                rcases List.mem_cons.mp member with rfl | later
                · exact ⟨rfl, Naming.isIdentifier_fresh used (Naming.isIdentifier_baseName path),
                    Naming.fresh_notMem used _⟩
                · obtain ⟨same, identifier, unused⟩ := each e later
                  exact ⟨same, identifier, fun h => unused (List.mem_cons_of_mem _ h)⟩
              · -- the name of the first endpoint is in use for the ones after it
                rw [List.map_cons, List.nodup_cons]
                refine ⟨fun listed => ?_, distinct⟩
                obtain ⟨e, later, same⟩ := List.mem_map.mp listed
                exact (each e later).2.2 (same ▸ List.mem_cons_self)
      | _ =>
          simp only [methodEndpoints] at h
          exact absurd h not_returns_throw

/-- An entry that returns has a supported method, and its endpoints come before those of the
entries after it. -/
theorem returns_entryEndpoints_cons {key : Text} {value : Json} {entries : List (Text × Json)}
    (h : Returns (entryEndpoints ((key, value) :: entries)) log endpoints log') :
    key.lower ∈ methods ∧ ∃ paths here others middle,
      Returns (methodEndpoints key.lower [] paths) log here middle ∧
        Returns (entryEndpoints entries) middle others log' ∧ endpoints = here ++ others := by
  simp only [entryEndpoints] at h
  split at h
  · obtain ⟨_, _, thrown, -⟩ := returns_bind_iff.mp h
    exact absurd thrown not_returns_throw
  · next supported =>
      refine ⟨not_not.mp supported, ?_⟩
      split at h
      · next paths =>
          obtain ⟨here, middle, first, h⟩ := returns_bind_iff.mp h
          obtain ⟨others, _, rest, last⟩ := returns_bind_iff.mp h
          obtain ⟨rfl, rfl⟩ := returns_pure_iff.mp last
          exact ⟨paths, here, others, middle, first, rest, rfl⟩
      · exact absurd h not_returns_throw

/-- An endpoint whose files are at places of their own. -/
structure Named (e : Endpoint) : Prop where
  method : e.method ∈ methods
  identifier : IsIdentifier e.typeName

/-- The methods of the endpoints are the keys of the document in lower case. If these differ, so do
the labels. -/
theorem labels_of_entryEndpoints {entries : List (Text × Json)}
    (h : Returns (entryEndpoints entries) log endpoints log') :
    (∀ e ∈ endpoints, Named e ∧ e.method ∈ (Fields.keys entries).map Text.lower) ∧
      (((Fields.keys entries).map Text.lower).Nodup → (endpoints.map Endpoint.label).Nodup) := by
  induction entries generalizing log endpoints log' with
  | nil =>
      obtain ⟨rfl, -⟩ := returns_pure_iff.mp h
      simp
  | cons entry entries ih =>
      obtain ⟨supported, paths, here, others, middle, first, rest, rfl⟩ :=
        returns_entryEndpoints_cons h
      obtain ⟨each, distinct⟩ := names_of_methodEndpoints first
      obtain ⟨eachOther, distinctOthers⟩ := ih rest
      constructor
      · intro e member
        rcases List.mem_append.mp member with left | right
        · obtain ⟨same, identifier, -⟩ := each e left
          exact ⟨⟨same ▸ supported, identifier⟩, same ▸ List.mem_cons_self⟩
        · obtain ⟨named, listed⟩ := eachOther e right
          exact ⟨named, List.mem_cons_of_mem _ listed⟩
      · intro lower
        obtain ⟨apart, lowerOthers⟩ := List.nodup_cons.mp lower
        rw [List.map_append, List.nodup_append]
        refine ⟨?_, distinctOthers lowerOthers, ?_⟩
        · -- labels with different names are different
          refine List.Nodup.of_map Prod.snd ?_
          rw [List.map_map]
          exact distinct
        · intro label left label' right same
          obtain ⟨e, member, rfl⟩ := List.mem_map.mp left
          obtain ⟨e', member', rfl⟩ := List.mem_map.mp right
          have methods : e.method = e'.method := congrArg Prod.fst same
          rw [(each e member).1] at methods
          exact apart (methods ▸ (eachOther e' member').2)

end

/-- The keys of the method entries of a document, in lower case. -/
def methodKeys : Json → List Text
  | .obj entries => (Fields.keys entries).map Text.lower
  | _ => []

theorem labels_of_inferEndpoints {probe : Json} {log log' : List LogEntry}
    {endpoints : List Endpoint} (h : Returns (inferEndpoints probe) log endpoints log') :
    (∀ e ∈ endpoints, Named e) ∧
      ((methodKeys probe).Nodup → (endpoints.map Endpoint.label).Nodup) := by
  unfold inferEndpoints at h
  split at h
  · obtain ⟨each, distinct⟩ := labels_of_entryEndpoints h
    exact ⟨fun e member => (each e member).1, distinct⟩
  · exact absurd h not_returns_throw

/-- What is written about a single endpoint. -/
inductive Format where
  | module (target : Emit.Target)
  | schema
deriving DecidableEq

namespace Format

def flavor : Format → Flavor
  | .module .zod => .zod
  | .module .typescript => .typescript
  | .schema => .json

def folder : Format → Text
  | .module target => target.grammar.name
  | .schema => "json"

def extension : Format → Text
  | .module target => target.grammar.fileExtension
  | .schema => ".json"

/-- What the file of an endpoint is to hold. -/
def text (preferences : Preferences) (e : Endpoint) : Format → Except Error Text
  | .module target => preferences.moduleText target (some e.typeName) e.shape
  | .schema => preferences.schemaText e.typeName e.shape

/-- The file of an endpoint. -/
def path (directory : Text) (e : Endpoint) (format : Format) : Text :=
  endpointFile directory format.folder e format.extension

/-- The formats in the order in which they are written. -/
def all : List Format := [.module .zod, .module .typescript, .schema]

theorem mem_all (format : Format) : format ∈ all := by
  cases format with
  | module target => cases target <;> decide
  | schema => decide

theorem isName_folder (format : Format) : Path.IsName format.folder := by
  have names : ∀ f ∈ all, Path.IsName f.folder := by decide
  exact names format (mem_all format)

theorem folder_injective : Function.Injective folder := by
  intro format format' same
  have apart : ∀ f ∈ all, ∀ f' ∈ all, f.folder = f'.folder → f = f' := by decide
  exact apart format (mem_all format) format' (mem_all format') same

/-- An extension makes a name out of an identifier. -/
theorem isName_append_extension (format : Format) {name : Text} (h : IsIdentifier name) :
    Path.IsName (name ++ format.extension) := by
  have extensions : ∀ f ∈ all, Path.slash ∉ f.extension ∧ 2 < f.extension.length := by decide
  obtain ⟨noSlash, long⟩ := extensions format (mem_all format)
  have longer : 2 < (name ++ format.extension).length := by
    rw [List.length_append]
    omega
  have slash : Naming.isIdentifierPoint Path.slash = false := by decide
  refine ⟨?_, ?_, ?_, ?_⟩
  · intro member
    rcases List.mem_append.mp member with left | right
    · rw [h _ left] at slash
      cases slash
    · exact noSlash right
  all_goals
    intro same
    rw [same] at longer
    exact absurd longer (by decide)

end Format

theorem isName_of_mem_methods {method : Text} (h : method ∈ methods) : Path.IsName method := by
  have names : ∀ m ∈ methods, Path.IsName m := by decide
  exact names method h

section

variable {directory : Text} {e e' : Endpoint} {format format' : Format}

theorem ofPath_path (named : Named e) : Place.ofPath (format.path directory e) =
    (((Place.ofPath directory).child format.folder).child e.method).child
      (e.typeName ++ format.extension) := by
  rw [Format.path, endpointFile,
    Place.ofPath_join _ (format.isName_append_extension named.identifier),
    Place.ofPath_join _ (isName_of_mem_methods named.method),
    Place.ofPath_join _ format.isName_folder]

/-- The place of a file tells its format and the label of its endpoint. -/
theorem eq_of_ofPath_path (named : Named e) (named' : Named e')
    (same : Place.ofPath (format.path directory e) = Place.ofPath (format'.path directory e')) :
    format = format' ∧ e.label = e'.label := by
  rw [ofPath_path named, ofPath_path named', Place.child_inj, Place.child_inj,
    Place.child_inj] at same
  obtain ⟨⟨⟨-, folders⟩, methods⟩, files⟩ := same
  obtain rfl := Format.folder_injective folders
  exact ⟨rfl, Prod.ext methods (List.append_cancel_right files)⟩

/-- The page is not in the place of an endpoint's file. -/
theorem ofPath_path_ne_page (named : Named e) :
    Place.ofPath (format.path directory e) ≠ Place.ofPath (Path.join directory "API.md") := by
  have page : Path.IsName "API.md" := by decide
  intro same
  rw [ofPath_path named, Place.ofPath_join _ page] at same
  have lengths := congrArg (fun place => place.names.length) same
  simp only [Place.child, List.length_append, List.length_singleton] at lengths
  omega

end

/-- The file of an endpoint in one format holds what is to be written there. -/
def Settings.Holds (settings : Settings) (files : FileTree) (format : Format) (e : Endpoint) :
    Prop :=
  ∃ directory text bytes, settings.directory = some directory ∧
    format.text settings.preferences e = .ok text ∧ Utf8.encode text = .ok bytes ∧
      files.read (format.path directory e) = .ok bytes

/-- The bytes that the file of an endpoint is to hold, after its path. -/
def Settings.file? (settings : Settings) (format : Format) (e : Endpoint) :
    Option (Text × List UInt8) := do
  let directory ← settings.directory
  let text ← (format.text settings.preferences e).toOption
  let bytes ← (Utf8.encode text).toOption
  return (format.path directory e, bytes)

theorem Settings.holds_iff {settings : Settings} {files : FileTree} {format : Format}
    {e : Endpoint} : settings.Holds files format e ↔
      ∃ file ∈ settings.file? format e, (files.read file.1).toOption = some file.2 := by
  constructor
  · rintro ⟨directory, text, bytes, set, rendered, encoded, read⟩
    refine ⟨(format.path directory e, bytes), ?_, toOption_eq_some_iff.mpr read⟩
    simp [file?, set, rendered, encoded, Except.toOption]
  · rintro ⟨file, found, read⟩
    simp only [file?, Option.mem_def, Option.bind_eq_bind, Option.bind_eq_some_iff,
      Option.pure_def, toOption_eq_some_iff] at found
    obtain ⟨directory, set, text, rendered, bytes, encoded, eq⟩ := found
    cases eq
    exact ⟨directory, text, bytes, set, rendered, encoded, toOption_eq_some_iff.mp read⟩

instance (settings : Settings) (files : FileTree) (format : Format) (e : Endpoint) :
    Decidable (settings.Holds files format e) :=
  decidable_of_iff _ Settings.holds_iff.symm

/-- Writes the file of an endpoint in one format. -/
def writeFormat (settings : Settings) (e : Endpoint) (format : Format) : Run Unit := do
  let directory ← settings.outputDirectory
  let text ← Run.ofOutcome (format.text settings.preferences e)
  writeFile (format.path directory e) text

/-- The requested formats are written one after the other. -/
theorem writeEndpoint_eq (settings : Settings) (flavors : List Flavor) (e : Endpoint) :
    writeEndpoint settings flavors e =
      (Format.all.filter fun format => decide (format.flavor ∈ flavors)).forM
        (writeFormat settings e) := by
  have zod : writeModule settings .zod e = writeFormat settings e (.module .zod) := rfl
  have typescript :
      writeModule settings .typescript e = writeFormat settings e (.module .typescript) := rfl
  have schema : writeSchema settings e = writeFormat settings e .schema := rfl
  rw [writeEndpoint, zod, typescript, schema, List.forM_eq_forM]
  by_cases hz : Flavor.zod ∈ flavors <;> by_cases ht : Flavor.typescript ∈ flavors <;>
    by_cases hj : Flavor.json ∈ flavors <;>
    simp [Format.all, Format.flavor, hz, ht, hj]

section

variable {settings : Settings} {e e' : Endpoint} {format : Format} {w w' : World}

theorem returns_outputDirectory {directory : Text}
    (h : Returns settings.outputDirectory w directory w') :
    settings.directory = some directory ∧ w = w' := by
  unfold Settings.outputDirectory at h
  split at h
  · exact absurd h not_returns_throw
  · next set =>
      obtain ⟨rfl, same⟩ := returns_pure_iff.mp h
      exact ⟨set, same⟩

/-- A file of an endpoint is written with the text of its format. -/
theorem returns_writeFormat (h : Returns (writeFormat settings e format) w () w') :
    ∃ directory text, settings.directory = some directory ∧
      format.text settings.preferences e = .ok text ∧
        Returns (writeFile (format.path directory e) text) w () w' := by
  obtain ⟨directory, _, found, h⟩ := returns_bind_iff.mp h
  obtain ⟨set, rfl⟩ := returns_outputDirectory found
  obtain ⟨text, _, render, written⟩ := returns_bind_iff.mp h
  obtain ⟨rendered, rfl⟩ := Run.returns_ofOutcome_iff.mp render
  exact ⟨directory, text, set, rendered, written⟩

theorem holds_of_writeFormat (h : Returns (writeFormat settings e format) w () w') :
    settings.Holds w'.files format e := by
  obtain ⟨directory, text, set, rendered, written⟩ := returns_writeFormat h
  obtain ⟨⟨bytes, encoded, held⟩, -⟩ := returns_writeFile written
  exact ⟨directory, text, bytes, set, rendered, encoded, held⟩

/-- A file that is written at another place takes nothing away. -/
theorem Settings.Holds.of_writeFile {path text : Text} (held : settings.Holds w.files format e)
    (apart : ∀ directory, settings.directory = some directory →
      Place.ofPath (format.path directory e) ≠ Place.ofPath path)
    (h : Returns (writeFile path text) w () w') : settings.Holds w'.files format e := by
  obtain ⟨directory, text, bytes, set, rendered, encoded, read⟩ := held
  have kept := (returns_writeFile h).2 _ bytes (apart directory set) read
  exact ⟨directory, text, bytes, set, rendered, encoded, kept⟩

/-- The files of an endpoint are kept by those of endpoints with other labels, and by each other. -/
theorem Settings.Holds.of_writeFormat {format' : Format} (named : Named e) (named' : Named e')
    (apart : e' = e ∨ e'.label ≠ e.label) (held : settings.Holds w.files format e)
    (h : Returns (writeFormat settings e' format') w () w') :
    settings.Holds w'.files format e := by
  by_cases again : e' = e ∧ format' = format
  · obtain ⟨rfl, rfl⟩ := again
    exact holds_of_writeFormat h
  · obtain ⟨directory, text, set, -, written⟩ := returns_writeFormat h
    refine held.of_writeFile (fun other set' same => ?_) written
    obtain rfl : directory = other := Option.some.inj (set.symm.trans set')
    obtain ⟨formats, labels⟩ := eq_of_ofPath_path named named' same
    rcases apart with endpoint | label
    · exact again ⟨endpoint, formats.symm⟩
    · exact label labels.symm

variable {flavors : List Flavor}

theorem Settings.Holds.of_writeEndpoint (named : Named e) (named' : Named e')
    (apart : e'.label ≠ e.label) (held : settings.Holds w.files format e)
    (h : Returns (writeEndpoint settings flavors e') w () w') :
    settings.Holds w'.files format e := by
  rw [writeEndpoint_eq] at h
  refine h.of_forM (P := fun t : World => settings.Holds t.files format e) ?_ held
  intro format' _ t t' written held
  exact held.of_writeFormat named named' (.inr apart) written

/-- All requested files of an endpoint are there when it has been written. -/
theorem holds_of_writeEndpoint (named : Named e) (requested : format.flavor ∈ flavors)
    (h : Returns (writeEndpoint settings flavors e) w () w') :
    settings.Holds w'.files format e := by
  have member : format ∈ Format.all.filter fun f => decide (f.flavor ∈ flavors) := by
    rw [List.mem_filter]
    exact ⟨format.mem_all, decide_eq_true requested⟩
  obtain ⟨before, after, eq⟩ := List.append_of_mem member
  rw [writeEndpoint_eq, eq, returns_forM_append_iff] at h
  obtain ⟨_, -, h⟩ := h
  obtain ⟨_, written, rest⟩ := returns_forM_cons_iff.mp h
  refine rest.of_forM (P := fun t : World => settings.Holds t.files format e) ?_
    (holds_of_writeFormat written)
  intro format' _ t t' step held
  exact held.of_writeFormat named named (.inl rfl) step

theorem Settings.Holds.of_writePage {endpoints : List Endpoint} (named : Named e)
    (held : settings.Holds w.files format e)
    (h : Returns (writePage settings flavors endpoints) w () w') :
    settings.Holds w'.files format e := by
  unfold writePage at h
  split at h
  · obtain ⟨directory, _, found, h⟩ := returns_bind_iff.mp h
    obtain ⟨set, rfl⟩ := returns_outputDirectory found
    obtain ⟨page, _, rendered, written⟩ := returns_bind_iff.mp h
    obtain ⟨-, rfl⟩ := Run.returns_ofOutcome_iff.mp rendered
    refine held.of_writeFile (fun other set' => ?_) written
    obtain rfl : directory = other := Option.some.inj (set.symm.trans set')
    exact ofPath_path_ne_page named
  · obtain ⟨-, rfl⟩ := returns_pure_iff.mp h
    exact held

end

/-- The parts of a discovery that returns. -/
theorem returns_discover {settings : Settings} {probe : Json} {endpoints : List Endpoint}
    {w w' : World} (h : Returns (discover settings probe) w endpoints w') :
    ∃ flavors log log' inferred written paged, settings.flavors = .ok flavors ∧
      Returns (inferEndpoints probe) log endpoints log' ∧
        Returns (endpoints.forM (writeEndpoint settings flavors)) inferred () written ∧
          Returns (writePage settings flavors endpoints) written () paged ∧
            w'.files = paged.files := by
  obtain ⟨flavors, _, look, h⟩ := returns_bind_iff.mp h
  obtain ⟨known, rfl⟩ := Run.returns_ofOutcome_iff.mp look
  obtain ⟨found, inferred, infer, h⟩ := returns_bind_iff.mp h
  obtain ⟨_, written, write, h⟩ := returns_bind_iff.mp h
  obtain ⟨_, paged, page, h⟩ := returns_bind_iff.mp h
  obtain ⟨_, _, log, last⟩ := returns_bind_iff.mp h
  obtain ⟨rfl, rfl⟩ := returns_pure_iff.mp last
  exact ⟨flavors, _, _, inferred, written, paged, known, (Run.returns_ofLogged infer).1, write,
    page, Run.files_of_returns_log log⟩

/-- Of the endpoints with one label, the last one has its files at the end. -/
theorem holds_of_last {settings : Settings} {flavors : List Flavor} {e : Endpoint}
    {before after : List Endpoint} {w w' : World}
    (each : ∀ e' ∈ before ++ e :: after, Named e') (last : ∀ later ∈ after, later.label ≠ e.label)
    (h : Returns ((before ++ e :: after).forM (writeEndpoint settings flavors)) w () w')
    {format : Format} (requested : format.flavor ∈ flavors) :
    settings.Holds w'.files format e := by
  have here : ∀ e' ∈ e :: after, Named e' := fun e' member =>
    each e' (List.mem_append_right before member)
  have named : Named e := here e List.mem_cons_self
  obtain ⟨_, -, following⟩ := returns_forM_append_iff.mp h
  obtain ⟨_, written, rest⟩ := returns_forM_cons_iff.mp following
  refine rest.of_forM (P := fun t : World => settings.Holds t.files format e) ?_
    (holds_of_writeEndpoint named requested written)
  intro later member t t' step held
  have named' : Named later := here later (List.mem_cons_of_mem e member)
  exact held.of_writeEndpoint named named' (last later member) step

/-- In every discovery that returns, each requested file holds the text of the last endpoint with
its label. So all endpoints have their files where the keys of the method entries differ in lower
case: then no two endpoints share a label. -/
theorem holds_of_discover {settings : Settings} {probe : Json} {endpoints : List Endpoint}
    {w w' : World} (h : Returns (discover settings probe) w endpoints w') :
    ∃ flavors, settings.flavors = .ok flavors ∧
      (∀ before e after, endpoints = before ++ e :: after →
        (∀ later ∈ after, later.label ≠ e.label) →
          ∀ format : Format, format.flavor ∈ flavors → settings.Holds w'.files format e) ∧
      ((methodKeys probe).Nodup → (endpoints.map Endpoint.label).Nodup ∧
        ∀ e ∈ endpoints, ∀ format : Format, format.flavor ∈ flavors →
          settings.Holds w'.files format e) := by
  obtain ⟨flavors, _, _, _, _, _, known, infer, write, page, files⟩ := returns_discover h
  obtain ⟨named, distinct⟩ := labels_of_inferEndpoints infer
  have lastHolds : ∀ before e after, endpoints = before ++ e :: after →
      (∀ later ∈ after, later.label ≠ e.label) →
        ∀ format : Format, format.flavor ∈ flavors → settings.Holds w'.files format e := by
    rintro before e after rfl last format requested
    have held := holds_of_last named last write requested
    rw [files]
    exact held.of_writePage (named e (by simp)) page
  refine ⟨flavors, known, lastHolds, fun keys => ⟨distinct keys, ?_⟩⟩
  intro e member
  obtain ⟨before, after, eq⟩ := List.append_of_mem member
  refine lastHolds before e after eq ?_
  -- an endpoint after this one has another label, since labels do not repeat
  have labels := distinct keys
  rw [eq, List.map_append, List.map_cons] at labels
  have only := (List.nodup_cons.mp labels.of_append_right).1
  intro later member' same
  exact only (same ▸ List.mem_map_of_mem member')

/-- Paths that ask for the same name, and one that asks for a name which was given already. -/
def collidingPaths : Json :=
  .obj [("GET", .obj [("/a", .arr [.int 1]), ("/a/\x7bid\x7d", .arr [.str "x"]),
      ("/a2", .arr [.null])]),
    ("put", .obj [("/a", .arr [.bool true])])]

theorem holds_collidingPaths :
    ∃ w', Returns (discover { generate := ["zod", "json", "markdown"] } collidingPaths)
        ⟨.empty, []⟩ [⟨"get", "/a", "A", .number⟩, ⟨"get", "/a/\x7bid\x7d", "A2", .string⟩,
          ⟨"get", "/a2", "A22", .null⟩, ⟨"put", "/a", "A", .boolean⟩] w' ∧
      (methodKeys collidingPaths).Nodup ∧
      Settings.Holds { generate := ["zod", "json", "markdown"] } w'.files .schema
        ⟨"get", "/a/\x7bid\x7d", "A2", .string⟩ := by
  have returns := returns_of_toOption_eq_some (x := discover
    { generate := ["zod", "json", "markdown"] } collidingPaths) (s := ⟨.empty, []⟩)
    (a := [⟨"get", "/a", "A", .number⟩, ⟨"get", "/a/\x7bid\x7d", "A2", .string⟩,
      ⟨"get", "/a2", "A22", .null⟩, ⟨"put", "/a", "A", .boolean⟩]) (by decide +kernel)
  have keys : (methodKeys collidingPaths).Nodup := by decide +kernel
  obtain ⟨flavors, known, -, apart⟩ := holds_of_discover returns
  obtain rfl : [.zod, .json, .markdown] = flavors := Except.ok.inj known
  exact ⟨_, returns, keys, (apart keys).2 _ (by decide) .schema (by decide)⟩

/-- Two method entries whose keys are equal in lower case. -/
def repeatedMethod : Json :=
  .obj [("get", .obj [("/a", .arr [.int 1])]), ("GET", .obj [("/a", .arr [.str "x"])])]

/-- The second entry takes the place of the first. -/
theorem not_holds_repeatedMethod :
    ∃ first second w', Returns (discover {} repeatedMethod) ⟨.empty, []⟩ [first, second] w' ∧
      first.label = second.label ∧ ¬Settings.Holds {} w'.files (.module .zod) first := by
  have returns := returns_of_toOption_eq_some (x := discover {} repeatedMethod) (s := ⟨.empty, []⟩)
    (a := [⟨"get", "/a", "A", .number⟩, ⟨"get", "/a", "A", .string⟩]) (by decide +kernel)
  exact ⟨_, _, _, returns, rfl, by decide +kernel⟩

end Discovery

end JsonShapes
