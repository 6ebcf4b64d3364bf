import Markbook.Config.Source
import Markbook.Failure

/-!
# Loading Settings

The settings of a workspace come from four layers: the defaults, the settings of the user, the file
in the workspace, and the environment.  A file that is asked for by name takes the place of the two
files; it must exist.
-/

namespace Markbook.Config

/-- What is around a workspace: the variables of the environment, and the text of the user's
settings. -/
structure Surroundings where
  environment : List (Text × Text)
  userSettings : Option Text

/-- Result of loading, with the events on the way. -/
structure Loading where
  events : List Log.Event
  result : Except Failure Config

/-- The settings file of a workspace. -/
def workspaceFile (root : Path) : Path := (root.join ".docket").join "config.toml"

/-- Reads the layers, laid over each other. -/
def ofLayers (files : List (List (Text × Setting))) (e : Surroundings) : Except Failure Config :=
  let sources := files ++ [Setting.ofEnvironment e.environment]
  match (sources.foldl (fun t s ↦ Setting.withSource s t) Setting.base).config? with
  | some c => .ok c
  | none => .error .badSettings

/-- The entries of a settings file in TOML. -/
def tomlFile (s : Text) : Except Failure (List (Text × Setting)) :=
  match Setting.ofFile? .toml s with
  | some l => .ok l
  | none => .error .badSettings

def userEvent (e : Surroundings) : Log.Event :=
  ⟨.debug, "docket::config::sources::global_file",
    if e.userSettings.isSome then "Using global configuration"
    else "No global configuration file"⟩

/-- The text of the workspace's settings file.  A file that cannot be read counts as empty. -/
def workspaceText (d : Disk) (root : Path) : Text :=
  match d.read (workspaceFile root) with
  | .ok s => s
  | .error _ => []

def loaded (message : Text) : Log.Event := ⟨.debug, "docket::config::facade", message⟩

/-- Adds an event to those on the way if loading succeeds. -/
def Loading.finish (events : List Log.Event) (message : Text) (result : Except Failure Config) :
    Loading :=
  match result with
  | .ok c => ⟨events ++ [loaded message], .ok c⟩
  | .error e => ⟨events, .error e⟩

/-- Loads the settings of the workspace at a folder. -/
def load (d : Disk) (e : Surroundings) (root : Path) : Loading :=
  let here := d.has (workspaceFile root)
  let events := userEvent e ::
    if here then
      [⟨.debug, "docket::config::sources::workspace_file", "Using workspace configuration"⟩]
    else []
  let texts := e.userSettings.toList ++ if here then [workspaceText d root] else []
  .finish events "Configuration loaded" do
    let files ← texts.mapM tomlFile
    ofLayers files e

/-- Loads the settings in a file of any format. -/
def loadFile (d : Disk) (e : Surroundings) (p : Path) : Loading :=
  if !d.isFile p then ⟨[], .error (.noSettings p)⟩
  else
    let source? : Option (List (Text × Setting)) := do
      let format ← Setting.Format.ofPath? p
      Setting.ofFile? format (← (d.read p).toOption)
    .finish [] "Configuration loaded from file" <|
      match source? with
      | some l => ofLayers [l] e
      | none => .error .badSettings

/-- Refuses settings that do not make sense. -/
def validated (c : Config) : Except Failure Config :=
  if c.issues.isEmpty then .ok c else .error (.invalidSettings c.issues)

/-- Loads the settings of a workspace and refuses those that do not make sense. -/
def loadValidated (d : Disk) (e : Surroundings) (root : Path) : Except Failure Config :=
  (load d e root).result.bind validated

end Markbook.Config
