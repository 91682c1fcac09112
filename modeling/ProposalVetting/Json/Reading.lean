import ProposalVetting.Json.Numeral
import ProposalVetting.Json.Text

namespace ProposalVetting.Json

/-- What stands at the beginning of a value that cannot be read. -/
inductive Start where
  | nothing
  | quote
  | other
deriving DecidableEq, Repr

mutual

/-- A document as far as it can be read. What is wrong with it depends on what is expected of it, so
a fault is a leaf of the tree. -/
inductive Reading where
  | null
  | bool (value : Bool)
  /-- `none` is a number too large for a double. -/
  | number (value : Option Number)
  /-- `none` is a text with a surrogate that stands alone. -/
  | text (value : Option String)
  | array (items : Items)
  | object (members : Members)
  /-- The fault for one who wants the value, and for one who skips it. -/
  | broken (start : Start) (wanted skipped : Fault)

inductive Items where
  | closed
  /-- Neither a comma nor the bracket. -/
  | cut (fault : Fault)
  | item (first : Reading) (rest : Items)

inductive Members where
  | closed
  /-- What stands where a name, or a comma or the brace, should. -/
  | stray (afterComma : Bool) (found : Reading)
  | member (name : Option String) (value : Reading) (rest : Members)

end

namespace Reading

def isSpace (c : Char) : Bool := c == ' ' || c == '\n' || c == '\t' || c == '\r'

def skipSpace (cs : List Char) : List Char := cs.dropWhile isSpace

def brokenBy (f : Fault) : Reading := .broken .other f f

def nothing : Reading := .broken .nothing .unfinished .unfinished

/-- The rest of a literal name. -/
def literal (r : Reading) : List Char → List Char → Reading × List Char
  | [], cs => (r, cs)
  | _ :: _, [] => (brokenBy .unfinished, [])
  | w :: word, c :: cs => if c = w then literal r word cs else (brokenBy .malformed, [])

/-- A text whose opening mark has been read. -/
def ofText (cs : List Char) : Reading × List Char :=
  let body := Text.body cs
  match body.rest with
  | .ok rest => (.text ((Text.join? false body.pieces).map String.ofList), rest)
  | .error f =>
    (.broken .quote (if (Text.join? true body.pieces).isSome then f else .malformed) f, [])

def ofNumber (cs : List Char) : Reading × List Char :=
  match Numeral.read cs with
  | .ok (n, rest) => (.number n.value?, rest)
  | .error f => (.broken .other f .malformed, [])

end Reading

open Reading

mutual

/-- Reads one value. Every call takes a unit of fuel, and three for each character are enough. -/
def readValue : Nat → List Char → Reading × List Char
  | 0, _ => (brokenBy .malformed, [])
  | fuel + 1, cs =>
    match skipSpace cs with
    | [] => (nothing, [])
    | c :: rest =>
      if c = '"' then ofText rest
      else if c = '[' then
        let (items, rest) := readItems fuel true rest
        (.array items, rest)
      else if c = '\x7b' then
        let (members, rest) := readMembers fuel true rest
        (.object members, rest)
      else if c = 'n' then literal .null ['u', 'l', 'l'] rest
      else if c = 't' then literal (.bool true) ['r', 'u', 'e'] rest
      else if c = 'f' then literal (.bool false) ['a', 'l', 's', 'e'] rest
      else if c = '-' ∨ Numeral.isDigit c then ofNumber (c :: rest)
      else (brokenBy .malformed, [])

/-- Reads the items of a list from the first, or from the comma in front of the next. -/
def readItems : Nat → Bool → List Char → Items × List Char
  | 0, _, _ => (.cut .malformed, [])
  | fuel + 1, first, cs =>
    match skipSpace cs with
    | [] => (.cut .unfinished, [])
    | c :: rest =>
      if c = ']' then (.closed, rest)
      else if first ∨ c = ',' then
        let (value, rest) := readValue fuel (if first then c :: rest else rest)
        let (items, rest) := readItems fuel false rest
        (.item value items, rest)
      else (.cut .malformed, [])

def readMembers : Nat → Bool → List Char → Members × List Char
  | 0, _, _ => (.stray false (brokenBy .malformed), [])
  | fuel + 1, first, cs =>
    match skipSpace cs with
    | [] => (.stray false nothing, [])
    | c :: rest =>
      if c = '\x7d' then (.closed, rest)
      else if first then readMember fuel false (c :: rest)
      else if c = ',' then readMember fuel true rest
      else (.stray false (brokenBy .malformed), [])

def readMember : Nat → Bool → List Char → Members × List Char
  | 0, _, _ => (.stray false (brokenBy .malformed), [])
  | fuel + 1, afterComma, cs =>
    match readValue fuel cs with
    | (.text name, rest) =>
      match skipSpace rest with
      | [] => (.member name nothing .closed, [])
      | c :: rest =>
        if c = ':' then
          let (value, rest) := readValue fuel rest
          let (members, rest) := readMembers fuel false rest
          (.member name value members, rest)
        else (.member name (brokenBy .malformed) .closed, [])
    | (found, _) => (.stray afterComma found, [])

end

/-- The tree of a document, and what follows it. -/
def read (cs : List Char) : Reading × List Char := readValue (3 * cs.length + 3) cs

/-- The fault of something that stands where the name of a member should. -/
def Reading.nameFault : Reading → Fault
  | .broken .other _ _ => .malformed
  | .broken _ wanted _ => wanted
  | _ => .malformed

mutual

/-- Passes over a part that nobody asked for, in which numbers may be of any size and surrogates may
stand alone. -/
def Reading.skip : Reading → Except Fault Unit
  | .array items => items.skip
  | .object members => members.skip
  | .broken _ _ fault => .error fault
  | _ => .ok ()

def Items.skip : Items → Except Fault Unit
  | .closed => .ok ()
  | .cut fault => .error fault
  | .item first rest => do first.skip; rest.skip

def Members.skip : Members → Except Fault Unit
  | .closed => .ok ()
  | .stray _ (.broken .other _ _) => .error .malformed
  | .stray _ (.broken _ _ fault) => .error fault
  | .stray _ _ => .error .malformed
  | .member _ value rest => do value.skip; rest.skip

end

end ProposalVetting.Json
