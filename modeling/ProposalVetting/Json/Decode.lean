import ProposalVetting.Json.Error

namespace ProposalVetting.Json

/-- How many lists and objects may stand inside each other. -/
def nestingLimit : Nat := 127

def Reading.found : Reading → Except Fault Found
  | .null => .ok .null
  | .bool b => .ok (.bool b)
  | .number (some n) => .ok (.number n)
  | .text (some s) => .ok (.text s)
  | .number none | .text none => .error .malformed
  | .array _ => .ok .sequence
  | .object _ => .ok .map
  | .broken _ wanted _ => .error wanted

/-- The value is not of the wanted kind, or cannot even be read. -/
def Reading.mismatch (r : Reading) (wanted : String) : Result α :=
  match r.found with
  | .ok found => .error (.invalidType found wanted)
  | .error f => .fault f

def skipped (r : Reading) : Result Unit := r.skip.mapError .fault

namespace Decode

def text : Reading → Result String
  | .text (some s) => .ok s
  | r => r.mismatch "a string"

def bool : Reading → Result Bool
  | .bool b => .ok b
  | r => r.mismatch "a boolean"

/-- A whole number from 0 to `max`. -/
def natural (kind : String) (max : Nat) : Reading → Result Nat
  | .number (some (.integer n)) =>
    if 0 ≤ n ∧ n ≤ max then .ok n.toNat else .error (.invalidValue (.number (.integer n)) kind)
  | r => r.mismatch kind

def byte (r : Reading) : Result UInt8 := UInt8.ofNat <$> natural "u8" 0xff r

def word (kind : String) (r : Reading) : Result UInt64 :=
  UInt64.ofNat <$> natural kind (UInt64.size - 1) r

/-- A position or a count. -/
def count (r : Reading) : Result Nat := natural "usize" (UInt64.size - 1) r

def optional (decode : Reading → Result α) : Reading → Result (Option α)
  | .null => .ok none
  | r => some <$> decode r

def items (decode : Reading → Result α) : Items → Result (List α)
  | .closed => .ok []
  | .cut f => .fault f
  | .item first rest => do
    let a ← decode first
    let as ← items decode rest
    return a :: as

def list (decode : Reading → Result α) : Reading → Result (List α)
  | .array is => items decode is
  | r => r.mismatch "a sequence"

/-- All members of an object with any names, in the order of the text. -/
def members (decode : Reading → Result α) : Members → Result (List (String × α))
  | .closed => .ok []
  | .stray _ found => .fault found.nameFault
  | .member none _ _ => .fault .malformed
  | .member (some name) value rest => do
    let a ← decode value
    let as ← members decode rest
    return (name, a) :: as

def map (decode : Reading → Result α) : Reading → Result (List (String × α))
  | .object ms => members decode ms
  | r => r.mismatch "a map"

def choose (tags : List (String × α)) (tag : String) : Result α :=
  match tags.lookup tag with
  | some a => .ok a
  | none => .error (.unknownVariant tag (tags.map Prod.fst))

def unit : Reading → Result Unit
  | .null => .ok ()
  | r => r.mismatch "unit"

/-- One of several tags, as a text or as the only name of an object with the value null. -/
def variant (tags : List (String × α)) : Reading → Result α
  | .text (some tag) => choose tags tag
  | .object (.member (some tag) value rest) => do
    let a ← choose tags tag
    unit value
    match rest with
    | .closed => return a
    | .stray false found => .fault found.nameFault
    | _ => .fault .malformed
  | .object (.stray _ found) => found.mismatch "variant identifier"
  | .broken .nothing wanted _ => .fault wanted
  | .broken .quote wanted _ => .fault wanted
  | _ => .fault .malformed

/-- Puts a value into a field that has none yet. -/
def once (name : String) (current : Option α) (decode : Reading → Result α) (r : Reading) :
    Result (Option α) :=
  if current.isSome then .error (.duplicateField name) else some <$> decode r

def required (name : String) : Option α → Result α
  | some a => .ok a
  | none => .error (.missingField name)

end Decode

/-- A record with named fields, written as an object or as the list of its fields. -/
structure Layout (σ : Type) where
  name : String
  fields : List String
  /-- Fields behind this many may be left off the end of a list. -/
  needed : Nat
  /-- Whether an unknown field is refused rather than skipped. -/
  strict : Bool := false
  /-- Reads the value of a field into a draft of the record. -/
  read : String → σ → Reading → Result σ

namespace Layout

variable {σ : Type}

def title (l : Layout σ) : String := "struct " ++ l.name

def wantedLength (l : Layout σ) : String :=
  if l.strict then l.title else l.title ++ " with " ++ toString l.fields.length ++ " elements"

def fromMembers (l : Layout σ) (draft : σ) : Members → Result σ
  | .closed => .ok draft
  | .stray _ found => .fault found.nameFault
  | .member none _ _ => .fault .malformed
  | .member (some name) value rest =>
    if l.fields.contains name then do fromMembers l (← l.read name draft value) rest
    else if l.strict then .error (.unknownField name l.fields)
    else do
      skipped value
      fromMembers l draft rest

/-- The draft from a list, and the items that are left over. -/
def fromItems (l : Layout σ) (index : Nat) (draft : σ) : List String → Items → Result (σ × Items)
  | [], is => .ok (draft, is)
  | _ :: fields, .closed =>
    if index < l.needed then .error (.invalidLength index l.wantedLength)
    else fromItems l (index + 1) draft fields .closed
  | _ :: _, .cut f => .fault f
  | name :: fields, .item first rest => do
    fromItems l (index + 1) (← l.read name draft first) fields rest

def decode (l : Layout σ) (start : σ) (finish : σ → Result α) : Reading → Result α
  | .object ms => do finish (← l.fromMembers start ms)
  | .array is => do
    let (draft, rest) ← l.fromItems 0 start l.fields is
    let a ← finish draft
    match rest with
    | .closed => return a
    | .cut f => .fault f
    | .item _ _ => .fault .malformed
  | r => r.mismatch l.title

end Layout

mutual

/-- A value of any kind, at most `levels` lists and objects deep. -/
def Reading.value (levels : Nat) : Reading → Result Json
  | .null => .ok .null
  | .bool b => .ok (.bool b)
  | .number (some n) => .ok (.number n)
  | .text (some s) => .ok (.text s)
  | .number none | .text none => .fault .malformed
  | .array is => if levels = 0 then .fault .malformed else .array <$> is.values (levels - 1)
  | .object ms => if levels = 0 then .fault .malformed else .object <$> ms.values (levels - 1)
  | .broken _ wanted _ => .fault wanted

def Items.values (levels : Nat) : Items → Result (List Json)
  | .closed => .ok []
  | .cut f => .fault f
  | .item first rest => do
    let v ← first.value levels
    let vs ← rest.values levels
    return v :: vs

def Members.values (levels : Nat) : Members → Result (List (String × Json))
  | .closed => .ok []
  | .stray _ found => .fault found.nameFault
  | .member none _ _ => .fault .malformed
  | .member (some name) value rest => do
    let v ← value.value levels
    let vs ← rest.values levels
    return (name, v) :: vs

end

/-- Decodes a whole document; only blank space may follow the value. -/
def parse (decode : Reading → Result α) (document : String) : Result α := do
  let (r, rest) := read document.toList
  let a ← decode r
  if Reading.skipSpace rest = [] then return a else .fault .malformed

end ProposalVetting.Json
