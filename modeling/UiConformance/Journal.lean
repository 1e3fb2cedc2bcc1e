import UiConformance.Platform
import UiConformance.Rule.Run
import UiConformance.Walk.State

/-!
# Journal

What a walk tells besides its result: notices of graded importance in the order in which they
arise, and the failures of rules.
-/

namespace UiConformance

inductive NoticeLevel
  | debug
  | warn
  | error
  deriving DecidableEq, Repr

def NoticeLevel.text : NoticeLevel → String
  | debug => "DEBUG"
  | warn => "WARN"
  | error => "ERROR"

inductive Notice
  | callFailed (operation : Navigation) (cause : PlatformError)
  | ancestryCycle (depth : Nat)
  | ancestorsOverLimit (count : Nat)
  | transition (before after : WalkState)
  | propertiesUnavailable (element : Int) (cause : PlatformError)
  | constructing (rule : String)
  | materialized (rules : Nat)
  | ruleFailed (failure : RuleFailure)
  | truncated (admitted asked : Nat)
  deriving DecidableEq, Repr

namespace Notice

def level : Notice → NoticeLevel
  | callFailed _ _ | propertiesUnavailable _ _ => .warn
  | ruleFailed _ => .error
  | _ => .debug

def text : Notice → String
  | callFailed operation cause => s!"Platform {operation.text} call failed: {cause.message}"
  | ancestryCycle depth => s!"Ancestry cycle at depth {depth}"
  | ancestorsOverLimit count => s!"Element limit reached before counting {count} ancestors"
  | transition before after => s!"Walk state {before.text} -> {after.text}"
  | propertiesUnavailable element cause =>
    s!"Properties unavailable for element {element}: {cause.message}"
  | constructing rule => s!"Constructing rule '{rule}'"
  | materialized rules => s!"Materialized {rules} rules"
  | ruleFailed failure => failure.text
  | truncated admitted asked =>
    s!"Walk truncated: {admitted} of {asked} element attempts admitted"

end Notice

end UiConformance
