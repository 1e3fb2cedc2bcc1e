import UiConformance.Json.Document
import UiConformance.Result

/-!
# Results in documents

How rules, their runs and the results of scans are written.
-/

namespace UiConformance

open Json (Document)

def Identifier.document {kind : IdentifierKind} (i : Identifier kind) : Document :=
  .int i.code.toInt

def RuleInfo.document (i : RuleInfo) : Document :=
  .object
    [("id", .text i.id), ("description", .text i.description), ("how_to_fix", .text i.howToFix),
     ("standard", .text i.standard), ("property_id", i.property.document),
     ("condition", .text i.condition)]

/-- The error message is left out where there is none. -/
def RunResult.document (r : RunResult) : Document :=
  .object <|
    [("rule_id", .text r.ruleId),
     ("rule_info", match r.info with | some i => i.document | none => .null),
     ("element_id", .int r.elementId), ("evaluation_code", .text r.code.text)] ++
    (r.errorMessage.map fun m => ("error_message", Document.text m)).toList

def RuleResult.document (r : RuleResult) : Document :=
  .object
    [("rule_id", .text r.ruleId), ("description", .text r.description),
     ("how_to_fix", .text r.howToFix), ("standard", .text r.standard),
     ("status", .text r.status.name), ("messages", .list (r.messages.map .text))]

def ScanMeta.document (m : ScanMeta) : Document :=
  .object
    [("element_id", .int m.elementId), ("control_type", m.controlType.document),
     ("property_id", m.property.document)]

def ScanResult.document (r : ScanResult) : Document :=
  .object
    [("description", .text r.description), ("meta", r.about.document),
     ("items", .list (r.items.map RuleResult.document))]

def ScanResults.document (r : ScanResults) : Document :=
  .list (r.items.map ScanResult.document)

end UiConformance
