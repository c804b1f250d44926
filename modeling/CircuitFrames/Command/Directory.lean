import CircuitFrames.Command.Run

/-!
# Directories in memory

A directory as the list of the files below it, with the rules by which a system finds them: every
part of a path but the last has to be a directory, a dot stays in it, and two dots go up. The
directory lies in others, of which nothing is known but that they are there and take new files, and
that the outermost one leads to the null device.
`Directory.host` lets commands run on such a directory.
-/

namespace CircuitFrames

/-- A place below a directory: the names that lead to it. -/
abbrev Place := List String

/-- Where a path leads. -/
inductive Destination
  /-- A place below the directory, at which there may be nothing. -/
  | below (place : Place)
  /-- One of the directories around. -/
  | around
  /-- The outermost directory. -/
  | root
  /-- The directory of devices. -/
  | devices
  /-- A name in a directory outside, at which there is nothing. -/
  | outside
  /-- The device that is empty and takes everything. -/
  | nullDevice
deriving DecidableEq, Repr

/-- The files below a directory, with their texts. -/
structure Directory where
  files : List (Place × String)
deriving DecidableEq, Repr

namespace Directory

/-- The text of the file at a place. -/
def text? (d : Directory) (place : Place) : Option String :=
  d.files.lookup place

/-- Whether a place is a directory: the directory itself, or one that a file lies in. -/
def isDirectory (d : Directory) (place : Place) : Bool :=
  place.isEmpty || d.files.any fun (p, _) => place.isPrefixOf p && place != p

/-- How many octets a name may have. -/
def nameLimit : Nat := 255

/-- How many octets a path may have. -/
def pathLimit : Nat := 4095

/-- Whether a part of a path stays where it is. -/
def isStay (part : String) : Bool :=
  part = "" ∨ part = "."

/-- Where a part of a path leads from a directory outside, in which one name may be known. -/
def stepOutside (here up : Destination) (known : Option (String × Destination)) (part : String) :
    Except SystemError Destination :=
  if isStay part then .ok here
  else if part = ".." then .ok up
  else if nameLimit < part.utf8ByteSize then .error .nameTooLong
  else
    match known with
    | some (name, there) => .ok (if part = name then there else .outside)
    | none => .ok .outside

/-- Where a part of a path leads from a destination. -/
def step (d : Directory) (part : String) : Destination → Except SystemError Destination
  | .below place =>
    if (d.text? place).isSome then .error .notDirectory
    else if !d.isDirectory place then .error .notFound
    else if isStay part then .ok (.below place)
    else if part = ".." then .ok (if place.isEmpty then .around else .below place.dropLast)
    else if nameLimit < part.utf8ByteSize then .error .nameTooLong
    else .ok (.below (place ++ [part]))
  | .around => stepOutside .around .around none part
  | .root => stepOutside .root .root (some ("dev", .devices)) part
  | .devices => stepOutside .devices .root (some ("null", .nullDevice)) part
  | .outside => .error .notFound
  | .nullDevice => .error .notDirectory

/-- Where the parts of a path lead from the directory, or from the outermost one if the first part
is empty. -/
def follow (d : Directory) (parts : List String) : Except SystemError Destination :=
  parts.foldlM (fun place part => d.step part place)
    (if parts.head? = some "" then .root else .below [])

/-- The parts of a path. -/
def parts (path : String) : Except SystemError (List String) :=
  if path.isEmpty then .error .notFound
  else if pathLimit < path.utf8ByteSize then .error .nameTooLong
  else .ok ((Path.parts path.toList).map String.ofList)

/-- Where a path leads. -/
def resolve (d : Directory) (path : String) : Except SystemError Destination := do
  d.follow (← parts path)

/-- Whether there is a file or directory at a path. -/
def isThere (d : Directory) (path : String) : Bool :=
  match d.resolve path with
  | .ok (.below place) => (d.text? place).isSome || d.isDirectory place
  | .ok .around | .ok .root | .ok .devices | .ok .nullDevice => true
  | .ok .outside | .error _ => false

/-- The text of the file at a path. -/
def read (d : Directory) (path : String) : Except SystemError String := do
  match ← d.resolve path with
  | .below place =>
    match d.text? place with
    | some text => .ok text
    | none => .error (if d.isDirectory place then .isDirectory else .notFound)
  | .around | .root | .devices => .error .isDirectory
  | .outside => .error .notFound
  | .nullDevice => .ok ""

/-- The directory with a text at a place. -/
def put (d : Directory) (place : Place) (text : String) : Directory :=
  ⟨(place, text) :: d.files.filter (·.1 != place)⟩

/-- The directory with a text at the end of the parts of a path. -/
def writeAt (d : Directory) (parts : List String) (text : String) : Except SystemError Directory := do
  match ← d.follow parts with
  | .below place => if d.isDirectory place then .error .isDirectory else .ok (d.put place text)
  | .around | .root | .devices => .error .isDirectory
  | .outside | .nullDevice => .ok d

/-- The directory with a text at a path. A slash at the end asks for a directory, whatever the name
before it. -/
def write (d : Directory) (path text : String) : Except SystemError Directory := do
  let parts ← parts path
  let named := (parts.reverse.dropWhile (· == "")).reverse
  if named.length < parts.length then do
    let _ ← d.follow (named.dropLast ++ ["."])
    .error .isDirectory
  else d.writeAt parts text

end Directory

/-- A directory, and the lines printed so far. -/
structure Session where
  directory : Directory
  printed : List String
deriving DecidableEq, Repr

/-- A directory in memory as a system, under an environment. -/
def Directory.host (environment : List (String × String)) : Host (StateM Session) where
  isThere path := return (← get).directory.isThere path
  readFile path := return (← get).directory.read path
  writeFile path text := do
    let s ← get
    match s.directory.write path text with
    | .error e => return .error e
    | .ok directory =>
      set { s with directory := directory }
      return .ok ()
  getVariable name := return environment.lookup name
  printLine line := modify fun s => { s with printed := s.printed ++ [line] }

/-- A whole run on a directory: how it ends, and what it leaves behind. -/
def Directory.runProgram (d : Directory) (environment : List (String × String))
    (arguments : List String) : Outcome × Session :=
  (CircuitFrames.runProgram (Directory.host environment) arguments).run ⟨d, []⟩

end CircuitFrames
