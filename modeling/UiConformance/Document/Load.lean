import UiConformance.Files
import UiConformance.Json.Reader
import UiConformance.Yaml.Reader

/-!
# Loading documents

A document is loaded from a file in the format that the extension of its path names. A file that
cannot be read is a failure whatever its extension; then comes an unknown format, then a text that
does not have the wanted shape.
-/

namespace UiConformance

inductive DocumentKind
  | yaml
  | json
  deriving DecidableEq, Repr

def DocumentKind.ofExtension? : String → Option DocumentKind
  | "yaml" | "yml" => some yaml
  | "json" => some json
  | _ => none

/-- Why a document is no good; `ε` are the faults of what it says. -/
inductive LoadError (ε : Type)
  | file (e : FileError)
  | yaml
  | json (e : Json.Error)
  | invalid (e : ε)
  deriving Repr

namespace LoadError

variable {ε : Type}

def message (complaint : ε → String) : LoadError ε → String
  | file e => "IO error: " ++ e.message
  | yaml => "YAML parse error"
  | json .malformed => "JSON parse error"
  | json (.mismatch m) => "JSON parse error: " ++ m.message
  | invalid e => complaint e

/-- The message with its cause, where the error has one of its own. -/
def messageWithCause (complaint : ε → String) : LoadError ε → String
  | file e => "IO error: " ++ e.message ++ ": " ++ e.message
  | e => e.message complaint

end LoadError

def DocumentKind.read {α ε : Type} (yamlReader : Yaml.Reader α) (jsonReader : Json.Reader α)
    (content : String) : DocumentKind → Except (LoadError ε) α
  | .yaml =>
    match Yaml.read yamlReader content with
    | some a => .ok a
    | none => .error .yaml
  | .json => (Json.read jsonReader content).mapError .json

/-- Loads a document, given how its text is read in each format and the fault of an unknown one. -/
def loadDocument {m : Type → Type} [Monad m] {α ε : Type} (files : Files m) (path : String)
    (unknownFormat : String → ε)
    (read : DocumentKind → String → Except (LoadError ε) α) : m (Except (LoadError ε) α) := do
  match ← files.read path with
  | .error e => return .error (.file e)
  | .ok content =>
    let extension := Path.extension path
    match DocumentKind.ofExtension? extension with
    | none => return .error (.invalid (unknownFormat extension))
    | some kind => return read kind content

end UiConformance
