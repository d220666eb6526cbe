import ChatGateway.Text.Split

/-!
# Frames of an event stream

A frame is a block of lines: `event:` names it, every `data:` line adds a line to
its data, and lines that begin with a colon are comments.  A block without a data
line is no frame.
-/

namespace ChatGateway

namespace Stream

structure Frame where
  event : Option String
  data : String
  deriving DecidableEq, Repr

namespace Frame

/-- The line without a carriage return at its end. -/
def dropReturn (line : List Char) : List Char :=
  if line.getLast? = some '\r' then line.dropLast else line

/--
The lines of a block.  A line that ends with a line feed loses one carriage
return before it; what follows the last line feed is a line if it is not empty.
-/
def lines (text : List Char) : List (List Char) :=
  match (Text.splitAll '\n' text).reverse with
  | [] => []
  | last :: ended =>
      ended.reverse.map dropReturn ++ (if last.isEmpty then [] else [last])

inductive Line where
  | event (value : String)
  | data (value : String)
  /-- A comment, an empty line or a field that is not known. -/
  | other
  deriving DecidableEq, Repr

/-- A line is a name and a value with a colon between them; one blank after the colon is dropped. -/
def Line.of (line : List Char) : Line :=
  let (name, value) := (Text.cut ':' line).getD (line, [])
  let value := String.ofList ((Text.dropStart? [' '] value).getD value)
  if name = "event".toList then .event value
  else if name = "data".toList then .data value
  else .other

/-- The frame of a block's lines, if one of them holds data; the last event name counts. -/
def ofLines (lines : List Line) : Option Frame :=
  let data := lines.filterMap fun
    | .data value => some value
    | _ => none
  let events := lines.filterMap fun
    | .event value => some value
    | _ => none
  if data.isEmpty then none
  else some ⟨events.getLast?, Text.join "\n" data⟩

def ofText (text : String) : Option Frame :=
  ofLines ((lines text.toList).map Line.of)

end Frame

end Stream

end ChatGateway
