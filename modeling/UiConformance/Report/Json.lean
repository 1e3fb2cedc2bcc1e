import UiConformance.Report.Basic
import UiConformance.Result.Document

/-!
# Reports as JSON

A report for other programs, with everything the scan found.
-/

namespace UiConformance

open Json (Document)

def Finding.document (f : Finding) : Document :=
  .object <|
    [("rule_id", .text f.ruleId), ("status", .text f.status.name),
     ("description", .text f.description), ("how_to_fix", .text f.howToFix),
     ("standard", .text f.standard), ("messages", .list (f.messages.map .text)),
     ("element_id", .int f.elementId), ("control_type", f.controlType.document)] ++
    (f.elementName.map fun name => ("element_name", Document.text name)).toList ++
    [("property_id", f.property.document)]

def Report.document (r : Report) : Document :=
  .object
    [("source", .text r.source), ("mode", .text r.mode.text), ("elements", .int r.elements),
     ("truncated", .bool r.truncated), ("unpopulated", .int r.unpopulated),
     ("duration_ms", .int r.duration.milliseconds), ("status", .text r.status.name),
     ("findings", .list (r.findings.map Finding.document))]

end UiConformance
