import UiConformance.Document.Format
import UiConformance.Json.Document
import UiConformance.Settings.Basic

/-!
# Settings in documents

How settings are read from a document and written into one. Everything may be left out; what is not
given has its default.
-/

namespace UiConformance

open DocumentFormat RecordField
open Json (Document)

variable {R : Type → Type} [DocumentFormat R]

/-! ## Reading -/

def EngineSettings.reader : R EngineSettings :=
  record "EngineConfig"
    [optional "parallel" bool fun s parallel => { s with parallel },
     optional "jobs" word64 fun s jobs => { s with jobs }]
    {}

def ScanSettings.reader : R ScanSettings :=
  record "ScanConfig"
    [optional "max_elements" int32 fun s maxElements => { s with maxElements },
     optional "sibling_context" bool fun s siblingContext => { s with siblingContext },
     optional "mode" (variant WalkMode.choices) fun s mode => { s with mode }]
    {}

def OutputSettings.reader : R OutputSettings :=
  record "OutputConfig"
    [optional "format" (variant OutputFormat.choices) fun s format => { s with format },
     optional "color" (variant ColorChoice.choices) fun s color => { s with color }]
    {}

def RuleSettings.reader : R RuleSettings :=
  record "RulesConfig"
    [optional "disabled" (list text) fun s disabled => { s with disabled },
     optional "enabled" (list text) fun s enabled => { s with enabled }]
    {}

def Settings.reader : R Settings :=
  record "Config"
    [optional "engine" EngineSettings.reader fun s engine => { s with engine },
     optional "scan" ScanSettings.reader fun s scan => { s with scan },
     optional "output" OutputSettings.reader fun s output => { s with output },
     optional "rules" RuleSettings.reader fun s rules => { s with rules }]
    {}

/-! ## Writing -/

def Settings.document (s : Settings) : Document :=
  .object
    [("engine", .object [("parallel", .bool s.engine.parallel), ("jobs", .int s.engine.jobs)]),
     ("scan", .object
       [("max_elements", .int s.scan.maxElements), ("sibling_context", .bool s.scan.siblingContext),
        ("mode", .text s.scan.mode.text)]),
     ("output", .object
       [("format", .text s.output.format.name), ("color", .text s.output.color.name)]),
     ("rules", .object
       [("disabled", .list (s.rules.disabled.map .text)),
        ("enabled", .list (s.rules.enabled.map .text))])]

end UiConformance
