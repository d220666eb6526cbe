import ChatGateway.Failure
import ChatGateway.Text.Blank

/-!
# Model names

The names under which callers ask for models, and the provider's names for them.
-/

namespace ChatGateway

namespace Model

structure Alias where
  name : String
  model : String
  deriving DecidableEq, Repr

namespace Alias

/-- An alias written `alias=model`, blanks around the names aside. -/
def ofEntry? (entry : List Char) : Option Alias :=
  match Text.cut '=' entry with
  | none => none
  | some (name, model) =>
      let name := Text.trimList name
      let model := Text.trimList model
      if name.isEmpty || model.isEmpty then none
      else some ⟨String.ofList name, String.ofList model⟩

def malformed (entry : List Char) : Failure :=
  .configuration ("ANTHROPIC_PROXY_MODEL_ALIASES entry must look like alias=model, got: " ++
    String.ofList entry)

/-- Aliases from a list with commas between the entries; blank entries are skipped. -/
def ofList (text : String) : Except Failure (List Alias) :=
  (((Text.splitAll ',' text.toList).map Text.trimList).filter fun entry => !entry.isEmpty).mapM
    fun entry =>
      match ofEntry? entry with
      | some entry => .ok entry
      | none => .error (malformed entry)

end Alias

/-- The names that are always known, in listing order. -/
def builtin : List Alias := [
  ⟨"claude-3-5-sonnet-20241022", "claude-3-5-sonnet-20241022"⟩,
  ⟨"claude-3-5-haiku-20241022", "claude-3-5-haiku-20241022"⟩,
  ⟨"claude-3-opus-20240229", "claude-3-opus-20240229"⟩,
  ⟨"claude-3-sonnet-20240229", "claude-3-sonnet-20240229"⟩,
  ⟨"claude-3-haiku-20240307", "claude-3-haiku-20240307"⟩,
  ⟨"claude-sonnet-4", "claude-sonnet-4-20250514"⟩,
  ⟨"claude-3.5-sonnet", "claude-3-5-sonnet-20241022"⟩,
  ⟨"claude-3.5-haiku", "claude-3-5-haiku-20241022"⟩,
  ⟨"claude-opus-4", "claude-opus-4-20250514"⟩,
  ⟨"claude-sonnet", "claude-sonnet-4-20250514"⟩,
  ⟨"claude-opus", "claude-opus-4-20250514"⟩,
  ⟨"claude-sonnet-4-20250514", "claude-sonnet-4-20250514"⟩,
  ⟨"claude-opus-4-20250514", "claude-opus-4-20250514"⟩]

/-- The aliases in listing order, each once. -/
abbrev Registry := List Alias

namespace Registry

/-- Gives an alias its model: in place if it is listed, at the end otherwise. -/
def set (entry : Alias) : Registry -> Registry
  | [] => [entry]
  | held :: rest => if held.name = entry.name then entry :: rest else held :: set entry rest

/-- The built-in names with overrides applied in order. -/
def ofOverrides (overrides : List Alias) : Registry :=
  overrides.foldl (fun registry entry => registry.set entry) builtin

def resolve (registry : Registry) (name : String) : Except Failure String :=
  match registry.find? (fun entry => entry.name = name) with
  | some entry => .ok entry.model
  | none => .error (.unknownModel name)

/-- The creation time that every listed model reports. -/
def createdAt : Nat := 1700000000

/-- The listing that callers get. -/
def toJson (registry : Registry) : Json :=
  .object [
    ("object", .text "list"),
    ("data", .array (registry.map fun entry => .object [
      ("id", .text entry.name),
      ("object", .text "model"),
      ("created", .nat createdAt),
      ("owned_by", .text "anthropic"),
      ("anthropic_id", .text entry.model)]))]

end Registry

end Model

end ChatGateway
