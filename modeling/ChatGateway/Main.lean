import ChatGateway.CommandLine
import ChatGateway.Settings

/-!
# The program

Reads the variables and the command line, and says where the gateway listens and
which model names it knows.  Settings that cannot be read end it with status 1, a
command line that cannot be read with status 2.
-/

namespace ChatGateway

/-- The user's configuration directory. -/
def configurationDirectory : IO String := do
  match ← IO.getEnv "XDG_CONFIG_HOME" with
  | some directory => return directory
  | none => return ((← IO.getEnv "HOME").map (· ++ "/.config")).getD "."

/-- The variables that are set, of those that settings are read from. -/
def readVariables : IO (List (String × String)) :=
  Settings.variableNames.filterMapM fun name => do
    let value ← IO.getEnv (Settings.variableStart ++ name)
    return value.map fun value => (name, value)

/-- The lines that a gateway with these settings begins with. -/
def Settings.announcement (settings : Settings) (options : CommandLine) : List String :=
  let host := options.host.getD settings.host
  let number := options.tcpPort.getD settings.tcpPort
  let aliases := Model.Registry.ofOverrides settings.aliases
  ["http://" ++ host ++ ":" ++ toString number.toNat,
    "Serving " ++ toString aliases.length ++ " model aliases"] ++
  if settings.apiKey.isSome then ["API key required for /v1 routes"] else []

end ChatGateway

open ChatGateway in
def main (arguments : List String) : IO UInt32 := do
  let held ← readVariables
  match Settings.ofVariables (← configurationDirectory) (held.lookup ·) with
  | .error failure =>
      IO.eprintln failure.message
      return 1
  | .ok settings =>
      let lookup := fun name => (held.map fun (key, value) =>
        (Settings.variableStart ++ key, value)).lookup name
      match CommandLine.read arguments lookup with
      | .error .help =>
          IO.println (CommandLine.Refusal.message .help)
          return 0
      | .error refusal =>
          IO.eprintln refusal.message
          return 2
      | .ok options =>
          (settings.announcement options).forM fun line => IO.println line
          return 0
