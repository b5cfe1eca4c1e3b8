import Playbooks.Command.Error

/-!
# Settings files

Settings are read from the file that the command line names, else from the working directory, else
from the user's directory for settings. How a file is written and where that directory lies is left
open: both are parameters.
-/
namespace Playbooks

/-- The settings that a text stands for, or what is wrong with it. -/
abbrev SettingsReader := (text : String) → Except String Settings

namespace Settings

/-- Where settings lie in the working directory. -/
def localPath : String := "bosun/config.toml"

/-- Where settings lie in a directory for them. -/
def pathIn (dir : String) : String :=
  if dir.toList.getLast?.all (· = '/') then dir ++ "config.toml" else dir ++ "/config.toml"

/-- The settings in a file. -/
def readFile (reader : SettingsReader) (files : Files) (path : String) :
    Except CommandError Settings :=
  if !files.contains path then .error (.settings (.missing path))
  else match files.read path with
    | .error cause => .error (.io cause)
    | .ok text =>
      match reader text with
      | .error message => .error (.settings (.invalid path message))
      | .ok settings => .ok settings

/-- The settings that a command works with: those of the file it names, else those of the first file
there is, else the defaults. -/
def load (reader : SettingsReader) (configDir : Option String) (files : Files)
    (explicit : Option String) : Except CommandError Settings :=
  match explicit with
  | some path => readFile reader files path
  | none =>
    match (localPath :: (configDir.map pathIn).toList).find? files.contains with
    | some path => readFile reader files path
    | none => .ok {}

end Settings

end Playbooks
