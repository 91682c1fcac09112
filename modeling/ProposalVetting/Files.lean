namespace ProposalVetting

inductive FileFault where
  | missing
  | directory
  | belowFile
  | nameTooLong
  | nulInName
  | notText
  | denied
  | other (reason : String)
deriving DecidableEq, Repr

def FileFault.message : FileFault → String
  | missing => "No such file or directory (os error 2)"
  | directory => "Is a directory (os error 21)"
  | belowFile => "Not a directory (os error 20)"
  | nameTooLong => "File name too long (os error 36)"
  | nulInName => "file name contained an unexpected NUL byte"
  | notText => "stream did not contain valid UTF-8"
  | denied => "Permission denied (os error 13)"
  | other reason => reason

abbrev Files := String → Except FileFault String

structure Folder where
  files : List (String × List UInt8)

namespace Folder

def textOf (bytes : List UInt8) : Except FileFault String :=
  match String.fromUTF8? ⟨bytes.toArray⟩ with
  | some s => .ok s
  | none => .error .notText

/-- Follows the steps of a path from the folder itself; `inside` is false once the path has left the
folder. -/
def follow (folder : Folder) (inside : Bool) : List String → Except FileFault String
  | [] => .error .directory
  | step :: rest =>
    if step = "" ∨ step = "." then folder.follow inside rest
    else if step = ".." then folder.follow false rest
    else if step.utf8ByteSize > 255 then .error .nameTooLong
    else
      match if inside then folder.files.lookup step else none with
      | none => .error .missing
      | some bytes => if rest = [] then textOf bytes else .error .belowFile

/-- The text of a file named by a path relative to the folder. -/
def read (folder : Folder) : Files := fun path =>
  if path = "" then .error .missing
  else if path.toList.contains (Char.ofNat 0) then .error .nulInName
  else if path.utf8ByteSize ≥ 4096 then .error .nameTooLong
  else folder.follow (path.toList.head? != some '/') (path.splitOn "/")

end Folder
end ProposalVetting
