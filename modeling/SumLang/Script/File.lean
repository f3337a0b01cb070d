import SumLang.Text.Newline
import SumLang.Text.Quoted
import SumLang.Text.Utf8

/-!
# Script files

A script is read as bytes and decoded as UTF-8, with its line ends folded. Reading
fails with a code and a reason of the file system, or with the first ill-formed
sequence of bytes.
-/

namespace SumLang

/-- Why a script cannot be read. -/
inductive FileError where
  /-- The file system refuses, with a code and a reason. -/
  | system (code : Nat) (reason : String)
  /-- The bytes are not UTF-8. -/
  | encoding (e : Utf8.DecodeError)
  deriving DecidableEq, Repr

namespace FileError

/-- There is no such file. -/
def missing : FileError := system 2 "No such file or directory"

/-- A part of the name before the last is a file. -/
def notDirectory : FileError := system 20 "Not a directory"

/-- The name is that of a directory. -/
def isDirectory : FileError := system 21 "Is a directory"

/-- The name, or a part of it, takes more bytes than the file system admits. -/
def nameTooLong : FileError := system 36 "File name too long"

/-- The report of a script with the given name. -/
def message (name : String) : FileError → String
  | system code reason => "[Errno " ++ toString code ++ "] " ++ reason ++ ": " ++ quoted name
  | encoding ⟨offset, bytes, flaw⟩ =>
    "'utf-8' codec can't decode " ++
      (match bytes with
        | [b] => "byte 0x" ++ String.ofList (hexDigits 2 b.toNat) ++ " in position " ++
            toString offset
        | _ => "bytes in position " ++ toString offset ++ "-" ++
            toString (offset + bytes.length - 1)) ++
      ": " ++ flaw.reason

end FileError

/-- The text of a script. -/
def scriptText (bytes : List UInt8) : Except FileError String :=
  match Utf8.decode bytes with
  | .ok s => .ok (String.ofList (foldNewlines s.toList))
  | .error e => .error (.encoding e)

/-- The number of bytes that a path may take. -/
def maxPathBytes : Nat := 4095

/-- The number of bytes that a part of a path may take. -/
def maxPartBytes : Nat := 255

/-- The parts of a path between its slashes. -/
def pathParts (path : String) : List String := (path.toList.splitOn '/').map String.ofList

/-- A folder with the files and folders below it. Their paths have no empty part, no `.`, and `..`
at the front only. -/
structure Folder where
  files : List (List String × List UInt8)
  folders : List (List String)

namespace Folder

/-- The path that one more part leads to. -/
def extend (path : List String) (part : String) : List String :=
  if part = "" ∨ part = "." then path
  else if part = ".." then
    if path.all (· == "..") then path ++ [".."] else path.dropLast
  else path ++ [part]

/-- The path that a name relative to the folder stands for. -/
def normalPath (name : String) : List String := (pathParts name).foldl extend []

/-- The folder with the given files and folders. Of two files with one path, the later counts. -/
def ofListing (files : List (String × List UInt8)) (folders : List String) : Folder :=
  ⟨files.reverse.map fun f => (normalPath f.1, f.2), folders.map normalPath⟩

/-- What a path leads to. -/
inductive Place where
  | file (bytes : List UInt8)
  | folder (path : List String)

/-- The place of a path. The folders around this one are always there. -/
def place? (d : Folder) (path : List String) : Option Place :=
  match d.files.lookup path with
  | some bytes => some (.file bytes)
  | none =>
    if path.all (· == "..") || d.folders.any (path.isPrefixOf ·) ||
        d.files.any (path.isPrefixOf ·.1) then
      some (.folder path)
    else none

/-- Follows one part of a path. -/
def enter (d : Folder) (part : String) : Place → Except FileError Place
  | .file _ => .error .notDirectory
  | .folder path =>
    if part.utf8ByteSize > maxPartBytes then .error .nameTooLong
    else match d.place? (extend path part) with
      | some p => .ok p
      | none => .error .missing

/-- The bytes of a file by its name relative to the folder. -/
def read (d : Folder) (name : String) : Except FileError (List UInt8) :=
  if name = "" then .error .missing
  else if name.utf8ByteSize > maxPathBytes then .error .nameTooLong
  else do
    match ← (pathParts name).foldlM (fun p part => d.enter part p) (.folder []) with
    | .file bytes => return bytes
    | .folder _ => throw .isDirectory

end Folder

end SumLang
