import PosterOverlay.Files.Path
import PosterOverlay.Settings.Limits
import PosterOverlay.Text.Blank

/-!
# Settings

Where the libraries are found, and the bounds of expansions. The directory of the libraries is
given outright or lies at a fixed place below the root of an installation; both may come from the
environment.
-/

namespace PosterOverlay

/-- The settings of a run. -/
structure Settings where
  /-- The directory of the libraries. -/
  directory : String
  /-- The bounds of every expansion. -/
  limits : Limits

namespace Settings

/-- The settings of an installation with the given root. -/
def ofRoot (root : String) : Settings :=
  ⟨Path.join (Path.join root "defaults") "overlays", .standard⟩

/-- The variable of the environment that holds the root. -/
def rootVariable : String := "OVERLAY_ENGINE_ROOT"

/-- The variable of the environment that holds the directory of the libraries. -/
def directoryVariable : String := "OVERLAY_ENGINE_DEFAULTS_DIR"

/-- The settings with another directory. -/
def withDirectory (settings : Settings) (directory : String) : Settings :=
  { settings with directory }

/-- The settings with other bounds. -/
def withLimits (settings : Settings) (limits : Limits) : Settings :=
  { settings with limits }

/-- The settings that the environment asks for. Blank variables do not count, and without a root
the current directory is taken. -/
def ofEnvironment (lookup : String → Option String) : Settings :=
  let given (name : String) := (lookup name).filter fun text => !Text.isAllBlank text
  let settings := ofRoot ((given rootVariable).getD ".")
  match given directoryVariable with
  | some directory => settings.withDirectory directory
  | none => settings

end Settings

end PosterOverlay
