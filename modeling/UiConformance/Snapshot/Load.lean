import UiConformance.Document.Load
import UiConformance.Snapshot.Reader

/-!
# Loading snapshots

A snapshot tree from a document that describes it.
-/

namespace UiConformance

/-- What is wrong with what a snapshot says. -/
inductive SnapshotFault
  | unknownFormat (extension : String)
  | unknownIdentifier (e : UnknownIdentifier)
  deriving DecidableEq, Repr

def SnapshotFault.message : SnapshotFault → String
  | unknownFormat extension => "Invalid snapshot: Unknown snapshot file format: " ++ extension
  | unknownIdentifier e => "Invalid snapshot: " ++ e.message

abbrev SnapshotError := LoadError SnapshotFault

def SnapshotError.message (e : SnapshotError) : String :=
  LoadError.message SnapshotFault.message e

namespace SnapshotTree

/-- How the text of a description is read in each format. -/
abbrev Parser := DocumentKind → String → Except SnapshotError (Rose NodeDescription)

def parse : Parser := fun kind content =>
  kind.read NodeDescription.tree NodeDescription.tree content

def ofText (kind : DocumentKind) (content : String) (parse : Parser := parse) :
    Except SnapshotError SnapshotTree := do
  let description ← parse kind content
  (ofDescription description).mapError fun e => .invalid (.unknownIdentifier e)

def load {m : Type → Type} [Monad m] (files : Files m) (path : String) (parse : Parser := parse) :
    m (Except SnapshotError SnapshotTree) :=
  loadDocument files path .unknownFormat fun kind content => ofText kind content parse

end SnapshotTree

end UiConformance
