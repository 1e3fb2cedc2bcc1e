import UiConformance.Document.Load
import UiConformance.Settings.Document

/-!
# Loading settings

Settings from a file that is named, or from the first of the default files that exists: those of the
working folder before those of the user.
-/

namespace UiConformance

abbrev SettingsError := LoadError SettingsFault

def SettingsError.message (e : SettingsError) : String :=
  LoadError.message SettingsFault.message e

namespace Settings

variable {m : Type → Type} [Monad m]

/-- How the text of settings is read in each format. -/
abbrev Parser := DocumentKind → String → Except SettingsError Settings

def parse : Parser := fun kind content => kind.read Settings.reader Settings.reader content

def ofText (kind : DocumentKind) (content : String) (parse : Parser := parse) :
    Except SettingsError Settings := do
  let s ← parse kind content
  (s.check).mapError .invalid
  return s

def load (files : Files m) (path : String) (parse : Parser := parse) :
    m (Except SettingsError Settings) :=
  loadDocument files path .unknownFormat fun kind content => ofText kind content parse

def defaultNames : List String := [".a11yscanrc.yaml", ".a11yscanrc.yml", ".a11yscanrc.json"]

/-- The default files in the order in which they are looked for. -/
def defaultPaths (home : Option String) : List String :=
  defaultNames ++ (home.map fun h => defaultNames.map (Path.join h)).getD []

/-- The first path that leads to something. -/
def firstExisting (files : Files m) : List String → m (Option String)
  | [] => return none
  | path :: paths => do
    if ← files.contains path then return some path else firstExisting files paths

def loadDefault (files : Files m) (parse : Parser := parse) :
    m (Except SettingsError Settings) := do
  match ← firstExisting files (defaultPaths files.home) with
  | some path => load files path parse
  | none => return .ok {}

end Settings

end UiConformance
