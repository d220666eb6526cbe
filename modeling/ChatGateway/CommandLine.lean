import ChatGateway.Text.Split
import ChatGateway.Text.Whole

/-!
# The command line

Two options, each with a value: `--host` or `-H`, and `--port` or `-p`.  A value
follows its option, or is attached to it.  An option that the command line does
not give is taken from its variable.
-/

namespace ChatGateway

structure CommandLine where
  host : Option String
  tcpPort : Option UInt16
  deriving DecidableEq, Repr

namespace CommandLine

inductive Refusal where
  | help
  | unknownArgument
  | missingValue
  /-- A value is attached to an option that has none. -/
  | unneededValue
  | invalidValue
  | repeated
  deriving DecidableEq, Repr

def Refusal.message : Refusal -> String
  | .help => "usage: [--host HOST] [--port PORT]"
  | .unknownArgument => "an argument is not known"
  | .missingValue => "an option lacks its value"
  | .unneededValue => "an option without a value has one"
  | .invalidValue => "an option has an invalid value"
  | .repeated => "an option is given twice"

/-- The options with a value. -/
inductive Switch where
  | host
  | tcpPort
  deriving DecidableEq, Repr

inductive Shape where
  /-- Two dashes alone: no option comes after them. -/
  | escape
  | long (name : List Char) (value : Option (List Char))
  | short (letter : Char) (attached : List Char)
  | plain
  deriving DecidableEq, Repr

def Shape.of : List Char -> Shape
  | ['-', '-'] => .escape
  | '-' :: '-' :: rest =>
      match Text.cut '=' rest with
      | some (name, value) => .long name (some value)
      | none => .long rest none
  | '-' :: letter :: attached => .short letter attached
  | _ => .plain

/-- An option whose value is still to come, or is not looked at yet. -/
structure Pending where
  option : Switch
  value : Option (List Char)
  deriving DecidableEq, Repr

structure Progress where
  taken : CommandLine
  pending : Option Pending
  /-- Two dashes have come. -/
  escaped : Bool
  deriving DecidableEq, Repr

namespace Progress

def initial : Progress := ⟨⟨none, none⟩, none, false⟩

def endpoint (value : List Char) : Except Refusal UInt16 :=
  match Text.signedBelow? UInt16.size value with
  | some number => .ok (UInt16.ofNat number)
  | none => .error .invalidValue

/-- Takes the value of an option, which may have one only. -/
def take (progress : Progress) (option : Switch) (value : List Char) :
    Except Refusal Progress :=
  let taken := progress.taken
  match option with
  | .host =>
      if taken.host.isSome then .error .repeated
      else .ok { progress with taken := { taken with host := some (String.ofList value) } }
  | .tcpPort =>
      if taken.tcpPort.isSome then .error .repeated
      else do
        let number ← endpoint value
        return { progress with taken := { taken with tcpPort := some number } }

/-- Takes the pending option, which needs its value now. -/
def settle (progress : Progress) : Except Refusal Progress :=
  match progress.pending with
  | none => .ok progress
  | some ⟨_, none⟩ => .error .missingValue
  | some ⟨option, some value⟩ => { progress with pending := none }.take option value

/-- An option, with the value attached to it if there is one. -/
def option (progress : Progress) (option : Switch) (attached : Option (List Char)) :
    Except Refusal Progress := do
  let settled ← progress.settle
  match attached with
  | some value => settled.take option value
  | none => return { settled with pending := some ⟨option, none⟩ }

/-- Asking for help, which is heard after the options before it are settled. -/
def help (progress : Progress) : Except Refusal Progress := do
  let _ ← progress.settle
  throw .help

/-- An argument that is no option: the value that the pending option waits for. -/
def value (progress : Progress) (argument : List Char) : Except Refusal Progress :=
  match progress.pending with
  | some ⟨option, none⟩ => .ok { progress with pending := some ⟨option, some argument⟩ }
  | _ => .error .unknownArgument

def next (progress : Progress) (argument : List Char) : Except Refusal Progress :=
  if progress.escaped then .error .unknownArgument
  else
    match Shape.of argument with
    | .escape => .ok { progress with escaped := true }
    | .long name value =>
        match String.ofList name with
        | "host" => progress.option .host value
        | "port" => progress.option .tcpPort value
        | "help" => if value.isSome then .error .unneededValue else progress.help
        | _ => .error .unknownArgument
    | .short letter attached =>
        let value := match attached with
          | [] => none
          | '=' :: rest => some rest
          | _ => some attached
        if letter = 'H' then progress.option .host value
        else if letter = 'p' then progress.option .tcpPort value
        else if letter = 'h' then progress.help
        else .error .unknownArgument
    | .plain => progress.value argument

end Progress

/-- Fills an option that was not given from its variable. -/
def fill (progress : Progress) (given : Bool) (option : Switch) :
    Option String -> Except Refusal Progress
  | none => .ok progress
  | some value => if given then .ok progress else progress.take option value.toList

/-- The options that arguments and variables give. -/
def read (arguments : List String) (lookup : String -> Option String) :
    Except Refusal CommandLine := do
  let progress ← arguments.foldlM (fun progress argument => progress.next argument.toList)
    Progress.initial
  let progress ← progress.settle
  let progress ← fill progress progress.taken.host.isSome .host (lookup "ANTHROPIC_PROXY_HOST")
  let progress ←
    fill progress progress.taken.tcpPort.isSome .tcpPort (lookup "ANTHROPIC_PROXY_PORT")
  return progress.taken

end CommandLine

end ChatGateway
