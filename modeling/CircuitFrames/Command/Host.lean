/-!
# What a command asks of the system

Commands are written over any system that can look up files and variables and print lines, so one
definition serves the program and a directory kept in memory. How a path is taken apart, and how its
extension is replaced, is the same on all of them.
-/

namespace CircuitFrames

/-- Why the system refuses a file. -/
inductive SystemError
  /-- There is no such file or directory. -/
  | notFound
  /-- The user may not do this. -/
  | denied
  /-- A part of the path that should be a directory is not. -/
  | notDirectory
  /-- A file is wanted, and this is a directory. -/
  | isDirectory
  /-- The path or a name in it is too long. -/
  | nameTooLong
  /-- The file is not text. -/
  | notText
  /-- Anything else, in the words of the system. -/
  | other (description : String)
deriving DecidableEq, Repr

/-- The wording of a refusal. -/
def SystemError.text : SystemError → String
  | notFound => "No such file or directory (os error 2)"
  | denied => "Permission denied (os error 13)"
  | notDirectory => "Not a directory (os error 20)"
  | isDirectory => "Is a directory (os error 21)"
  | nameTooLong => "File name too long (os error 36)"
  | notText => "stream did not contain valid UTF-8"
  | other description => description

/-- A system. -/
structure Host (m : Type → Type) where
  /-- Whether there is a file or directory at a path. -/
  isThere : String → m Bool
  /-- The text of a file. -/
  readFile : String → m (Except SystemError String)
  /-- Gives a file a text, whether it is there or not. -/
  writeFile : String → String → m (Except SystemError Unit)
  /-- The value of a variable of the environment. -/
  getVariable : String → m (Option String)
  /-- Prints a line. -/
  printLine : String → m Unit

/-! ## Paths -/

namespace Path

/-- The parts of a path between its slashes. -/
def parts : List Char → List (List Char)
  | [] => [[]]
  | c :: rest =>
    if c = '/' then [] :: parts rest
    else
      match parts rest with
      | [] => [[c]]
      | part :: more => (c :: part) :: more

/-- The path up to and with its last slash, and the name behind it. -/
def splitName (path : List Char) : List Char × List Char :=
  let name := (path.reverse.takeWhile (· != '/')).reverse
  (path.take (path.length - name.length), name)

/-- A name without its extension: up to its last dot, unless that is its first character. -/
def stem (name : List Char) : List Char :=
  match (name.reverse.dropWhile (· != '.')).drop 1 with
  | [] => name
  | before => before.reverse

/-- The path with another extension in the place of its own, or behind it if it has none. A name of
which only two dots are left without its extension leads to the directory above, which has no
extension to replace. -/
def withExtension (path extension : String) : String :=
  let (directory, name) := splitName path.toList
  let before := directory ++ stem name ++ ['.']
  .ofList (if stem name = ['.'] then before else before ++ extension.toList)

end Path

end CircuitFrames
