import ChatGateway.Text.Case.Tables

/-!
# Lower case

The lower-case form of a text by the rules of Unicode for any language.  All
characters map on their own but the capital sigma, which ends a word in another
form than it has inside one.
-/

namespace ChatGateway

namespace Text

namespace Case

def within (ranges : List (Nat × Nat)) (c : Char) : Bool :=
  ranges.any fun range => range.1 ≤ c.toNat && c.toNat ≤ range.2

def Run.covers (run : Run) (c : Char) : Bool :=
  run.first ≤ c.toNat && c.toNat ≤ run.last && (c.toNat - run.first) % run.stride = 0

/-- The lower-case form of one character; the dotted capital I keeps its dot as a mark. -/
def lowerChar (c : Char) : List Char :=
  if c = 'İ' then ['i', '\u0307']
  else
    match lowerRuns.find? fun run => run.covers c with
    | some run => [Char.ofNat (c.toNat + run.offset).toNat]
    | none => [c]

/-- The nearest character that counts for the end of a word is a cased one. -/
def meetsCased (text : List Char) : Bool :=
  match text.find? fun c => !within ignorableRanges c with
  | some c => within casedRanges c
  | none => false

/-- The lower-case form of the text after `before`, which is reversed. -/
def lowerFrom : List Char -> List Char -> List Char
  | _, [] => []
  | before, c :: rest =>
      (if c = 'Σ' then [if meetsCased before && !meetsCased rest then 'ς' else 'σ']
        else lowerChar c) ++
      lowerFrom (c :: before) rest

end Case

def lower (text : String) : String :=
  String.ofList (Case.lowerFrom [] text.toList)

end Text

end ChatGateway
