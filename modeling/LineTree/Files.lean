import LineTree.Text.Split

/-!
# Files

Reading a source: the bytes of a file or of the standard input have to be a text in UTF-8. A
`Folder` is a tree of files held in memory, in which the names between the slashes
of a path are followed as an operating system does.
-/
namespace LineTree

/-- Why there is no text. -/
inductive ReadFailure where
  | notFound
  | notAFolder
  | isAFolder
  | nameTooLong
  | zeroInName
  | invalidText
  /-- A failure in the words of the system. -/
  | other (reason : Text)
  deriving DecidableEq, Repr

/-- The failure in the words of the system. -/
def ReadFailure.message : ReadFailure → Text
  | notFound => "No such file or directory (os error 2)".toList
  | notAFolder => "Not a directory (os error 20)".toList
  | isAFolder => "Is a directory (os error 21)".toList
  | nameTooLong => "File name too long (os error 36)".toList
  | zeroInName => "file name contained an unexpected NUL byte".toList
  | invalidText => "stream did not contain valid UTF-8".toList
  | other reason => reason

/-- The text that the bytes are the UTF-8 form of. -/
def readText (bytes : ByteArray) : Except ReadFailure Text :=
  match String.fromUTF8? bytes with
  | some s => .ok s.toList
  | none => .error .invalidText

/-- What a name in a folder stands for. -/
inductive Entry where
  | file (bytes : ByteArray)
  | folder (entries : List (Text × Entry))

namespace Entry

/-- The greatest number of bytes of one name in a path. -/
def nameLimit : Nat := 255

/-- The number of bytes that no path reaches. -/
def pathLimit : Nat := 4096

/-- Follows the names from an entry on. The folders around it are at hand for the names `..`;
outside of the outermost one nothing is found. -/
def follow (around : List Entry) (here : Entry) : List Text → Except ReadFailure Entry
  | [] => .ok here
  | name :: rest =>
    match here with
    | .file _ => .error .notAFolder
    | .folder entries =>
      if name = [] ∨ name = ['.'] then follow around here rest
      else if name = ['.', '.'] then
        match around with
        | parent :: further => follow further parent rest
        | [] => follow [] (.folder []) rest
      else if nameLimit < Text.byteLength name then .error .nameTooLong
      else match entries.lookup name with
        | some entry => follow (here :: around) entry rest
        | none => .error .notFound

/-- The bytes of the file at a path, seen from the folder. Absolute paths lead out of it. -/
def contents (here : Entry) (path : Text) : Except ReadFailure ByteArray := do
  if path.contains '\x00' then .error .zeroInName
  else if path.isEmpty then .error .notFound
  else if pathLimit ≤ Text.byteLength path then .error .nameTooLong
  else
    let origin := if path.head? = some '/' then .folder [] else here
    match ← follow [] origin (Text.split '/' path) with
    | .file bytes => .ok bytes
    | .folder _ => .error .isAFolder

end Entry
end LineTree
