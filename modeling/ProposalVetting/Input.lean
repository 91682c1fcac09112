import ProposalVetting.Address
import ProposalVetting.Files
import ProposalVetting.Text.Blank
import ProposalVetting.Text.Numeral
import ProposalVetting.Text.Quoted

namespace ProposalVetting
open Text

inductive InputError where
  | invalidCharacter (c : Char) (offset : Nat)
  | oddLength
  | unreadable (path : String) (fault : FileFault)
  | addressLength (input : String) (length : Nat)
  | nonce (input : String)
deriving DecidableEq, Repr

def InputError.message : InputError → String
  | invalidCharacter c offset =>
    "hex decode failed: Invalid character " ++ Quoted.char c ++ " at position " ++ toString offset
  | oddLength => "hex decode failed: Odd number of digits"
  | unreadable path fault => "could not read file '" ++ path ++ "': " ++ fault.message
  | addressLength input length =>
    "invalid address '" ++ input ++ "': expected 20 bytes, got " ++ toString length
  | nonce input => "invalid nonce '" ++ input ++ "'"

namespace Input

/-- Removes one `0x` or `0X` from the front. -/
def stripMark : List Char → List Char
  | '0' :: 'x' :: rest => rest
  | '0' :: 'X' :: rest => rest
  | cs => cs

/-- The characters that may break up code text. -/
def isFiller (c : Char) : Bool := c == '\n' || c == '\r' || c == ' ' || c == '\t'

/-- The first character that is no hex digit, with its offset in bytes. -/
def firstNonHex (offset : Nat) : List Char → Option (Char × Nat)
  | [] => none
  | c :: rest => if Hex.isDigit c then firstNonHex (offset + c.utf8Size) rest else some (c, offset)

/-- The digits of a code text. -/
def codeDigits (text : String) : Except InputError (List Char) :=
  let digits := stripMark ((trim text.toList).filter fun c => !isFiller c)
  match firstNonHex 0 digits with
  | some (c, offset) => .error (.invalidCharacter c offset)
  | none => if digits.length % 2 = 1 then .error .oddLength else .ok digits

def code (text : String) : Except InputError (List UInt8) := do
  match Hex.decode (← codeDigits text) with
  | some bytes => .ok bytes
  | none => .error .oddLength

def codeFile (files : Files) (path : String) : Except InputError (List UInt8) :=
  match files path with
  | .ok text => code text
  | .error fault => .error (.unreadable path fault)

def utf8 (cs : List Char) : List UInt8 := cs.flatMap String.utf8EncodeChar

/-- Hex digits given byte by byte; a byte that is no digit is named by the character of that
number. -/
def hexBytes (text : List UInt8) : Except InputError (List UInt8) :=
  let marks := text.map fun b => Char.ofNat b.toNat
  if marks.length % 2 = 1 then .error .oddLength
  else
    match marks.findIdx? fun c => !Hex.isDigit c, Hex.decode marks with
    | none, some bytes => .ok bytes
    | some i, _ => .error (.invalidCharacter (marks.getD i ' ') i)
    | none, none => .error .oddLength

def address (text : String) : Except InputError Address := do
  let bytes ← hexBytes (utf8 (stripMark (trim text.toList)))
  match Address.ofBytes? bytes with
  | some a => .ok a
  | none => .error (.addressLength text bytes.length)

/-- A number in hexadecimal behind a mark, in decimal without one; a mark alone is zero. -/
def nonceDigits? : List Char → Option UInt64
  | '0' :: 'x' :: digits => if digits = [] then some 0 else Numeral.word? 16 digits
  | '0' :: 'X' :: digits => if digits = [] then some 0 else Numeral.word? 16 digits
  | digits => Numeral.word? 10 digits

def nonce (text : String) : Except InputError UInt64 :=
  match nonceDigits? (trim text.toList) with
  | some n => .ok n
  | none => .error (.nonce text)

end Input
end ProposalVetting
