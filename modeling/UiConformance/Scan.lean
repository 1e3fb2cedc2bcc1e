import UiConformance.Rule.Builtin
import UiConformance.Settings.Basic
import UiConformance.Walk.Walker

/-!
# Scans

Settings and validated rules together, from which walkers over a platform are made. All walkers of a
scan share its rules.
-/

namespace UiConformance

/-- Everything a walk needs besides the platform. -/
structure Scan where
  settings : Settings
  runner : Runner

namespace Scan

def ofRegistrations (settings : Settings) (rs : List Registration) (reporter : Reporter) :
    Except RegistryError Scan := do
  let registry ← Registry.ofList rs
  return { settings, runner := { provider := .ofRegistry registry, reporter } }

def walker {H : Type} (s : Scan) (P : Platform H) : Except CounterError (Walker H) := do
  let counter ← Counter.ofBound s.settings.scan.maxElements
  return { platform := P, options := s.settings.walkOptions, counter, runner := some s.runner }

def rules (s : Scan) : List Rule := s.runner.provider.allRules.1

end Scan

end UiConformance
