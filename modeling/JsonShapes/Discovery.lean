import JsonShapes.Rendering
import JsonShapes.Run

/-!
# Discovery

A probe document groups samples of responses by HTTP method and endpoint path. A discovery infers
one type for each endpoint, gives it a name that is unique within its method entry, and writes the
requested flavors below an output directory. The whole document is checked before anything is
written.
-/

namespace JsonShapes

namespace Discovery

/-- The HTTP methods that a probe document may have. -/
def methods : List Text := ["get", "put", "post", "patch", "delete"]

/-- The endpoints of one method entry, given the names that its earlier endpoints have. Endpoints
without samples are skipped. -/
def methodEndpoints (method : Text) (used : List Text) :
    List (Text × Json) → Logged (List Endpoint)
  | [] => return []
  | (path, .arr []) :: rest => do
    Logged.log .warning .discovery
      ("No samples for " ++ method.upper ++ " " ++ path ++ ", skipping")
    methodEndpoints method used rest
  | (path, .arr samples) :: rest => do
    let name := Naming.fresh used (Naming.baseName path)
    let shape ← Logged.inferSamples samples
    Logged.log .debug .discovery
      ("Inferred " ++ name ++ " for " ++ method.upper ++ " " ++ path)
    return ⟨method, path, name, shape⟩ :: (← methodEndpoints method (name :: used) rest)
  | (path, _) :: _ => throw (.samplesNotList method.upper path)

/-- The endpoints of the method entries of a probe document. -/
def entryEndpoints : List (Text × Json) → Logged (List Endpoint)
  | [] => return []
  | (key, entry) :: rest => do
    let method := key.lower
    if method ∉ methods then throw (.unsupportedMethod method)
    match entry with
    | .obj paths =>
      let endpoints ← methodEndpoints method [] paths
      return endpoints ++ (← entryEndpoints rest)
    | _ => throw (.endpointsNotObject method)

/-- One type for each endpoint of a probe document, in document order. -/
def inferEndpoints : Json → Logged (List Endpoint)
  | .obj entries => entryEndpoints entries
  | _ => throw .probeNotObject

/-- What is asked of a discovery; a setting may be left without a value. -/
structure Settings where
  directory : Option Text := some "autodisco"
  /-- The names of the flavors to write; none at all means Zod modules. -/
  generate : List Text := []
  preferences : Preferences := {}

/-- The flavors of the given names. -/
def flavors : List Text → Except Error (List Flavor)
  | [] => .ok []
  | name :: rest =>
    match Flavor.ofName? name with
    | none => .error (.unknownGenerator name)
    | some flavor => do return flavor :: (← flavors rest)

/-- The flavors that the settings ask for. -/
def Settings.flavors (settings : Settings) : Except Error (List Flavor) :=
  if settings.generate.isEmpty then .ok [.zod] else Discovery.flavors settings.generate

/-- Writes a text to a file, making the directories that it needs. -/
def writeFile (path text : Text) : Run Unit := do
  let directory := Path.directory path
  if !directory.isEmpty then Run.makeDirectories true directory.length directory
  Run.writeText path text
  Run.log .info .discovery ("Wrote " ++ path)

/-- The output directory. -/
def Settings.outputDirectory (settings : Settings) : Run Text :=
  match settings.directory with
  | none => throw .noDirectory
  | some directory => return directory

/-- The file of one flavor for an endpoint. -/
def endpointFile (directory flavor : Text) (endpoint : Endpoint) (extension : Text) : Text :=
  Path.join (Path.join (Path.join directory flavor) endpoint.method)
    (endpoint.typeName ++ extension)

/-- Writes the module of an endpoint. -/
def writeModule (settings : Settings) (target : Emit.Target) (endpoint : Endpoint) : Run Unit := do
  let directory ← settings.outputDirectory
  let text ← Run.ofOutcome
    (settings.preferences.moduleText target (some endpoint.typeName) endpoint.shape)
  let grammar := target.grammar
  writeFile (endpointFile directory grammar.name endpoint grammar.fileExtension) text

/-- Writes the schema of an endpoint. -/
def writeSchema (settings : Settings) (endpoint : Endpoint) : Run Unit := do
  let directory ← settings.outputDirectory
  let text ← Run.ofOutcome (settings.preferences.schemaText endpoint.typeName endpoint.shape)
  writeFile (endpointFile directory "json" endpoint ".json") text

/-- Writes the requested flavors of one endpoint, always in the same order. -/
def writeEndpoint (settings : Settings) (flavors : List Flavor) (endpoint : Endpoint) :
    Run Unit := do
  if Flavor.zod ∈ flavors then writeModule settings .zod endpoint
  if Flavor.typescript ∈ flavors then writeModule settings .typescript endpoint
  if Flavor.json ∈ flavors then writeSchema settings endpoint

/-- Writes the page about all endpoints, if it is requested. -/
def writePage (settings : Settings) (flavors : List Flavor) (endpoints : List Endpoint) :
    Run Unit := do
  if Flavor.markdown ∈ flavors then
    let directory ← settings.outputDirectory
    let page ← Run.ofOutcome (settings.preferences.pageText endpoints)
    writeFile (Path.join directory "API.md") page

/-- Infers the endpoints of a probe document and writes the requested flavors. -/
def discover (settings : Settings) (probe : Json) : Run (List Endpoint) := do
  let flavors ← Run.ofOutcome settings.flavors
  let endpoints ← Run.ofLogged (inferEndpoints probe)
  endpoints.forM (writeEndpoint settings flavors)
  writePage settings flavors endpoints
  Run.log .info .discovery
    ("Discovery completed for " ++ Text.ofNat endpoints.length ++ " endpoints")
  return endpoints

/-- A discovery over a probe document in a file. -/
def discoverFile (settings : Settings) (path : Text) : Run (List Endpoint) := do
  let text ← Run.readText path
  let probe ← Run.ofOutcome (Error.ofReadError (Json.parse text))
  discover settings probe

end Discovery

end JsonShapes
