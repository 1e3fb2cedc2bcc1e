import UiConformance.Json.Document
import UiConformance.Report.Basic

/-!
# Reports as SARIF

The interchange format of analysis tools: the rules that have issues, in ascending order of their
identifiers, and a result for each issue. Elements have no place in a file, so a result names its
element instead.
-/

namespace UiConformance.Sarif

open Json (Document)

/-- The program that made the report. -/
structure Tool where
  name : String
  version : String
  deriving DecidableEq, Repr

def rules (issues : List Finding) : OrderedMap String Finding :=
  issues.foldl (fun m f => if (m.get? f.ruleId).isSome then m else m.insert f.ruleId f) .empty

def message (text : String) : Document := .object [("text", .text text)]

def ruleDocument (f : Finding) : Document :=
  .object
    [("id", .text f.ruleId), ("shortDescription", message f.description),
     ("help", message f.howToFix),
     ("properties", .object [("tags", .list [.text f.standard])])]

def resultText (f : Finding) : String :=
  ": ".intercalate (f.description :: f.messages)

def resultDocument (source : String) (f : Finding) : Document :=
  .object
    [("ruleId", .text f.ruleId), ("level", .text f.status.level.text),
     ("message", message (resultText f)),
     ("locations", .list
       [.object
         [("logicalLocations", .list
           [.object
             [("name", .text f.label),
              ("fullyQualifiedName", .text s!"{source}#{f.elementId}"),
              ("kind", .text "element")]])]])]

def schema : String :=
  "https://raw.githubusercontent.com/oasis-tcs/sarif-spec/master/Schemata/sarif-schema-2.1.0.json"

def document (tool : Tool) (r : Report) : Document :=
  .object
    [("$schema", .text schema), ("version", .text "2.1.0"),
     ("runs", .list
       [.object
         [("tool", .object
            [("driver", .object
               [("name", .text tool.name), ("version", .text tool.version),
                ("rules", .list ((rules r.issues).values.map ruleDocument))])]),
          ("results", .list (r.issues.map (resultDocument r.source)))]])]

end UiConformance.Sarif
