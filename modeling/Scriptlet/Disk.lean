/-!
# Disks

The files, directories and links below a working directory, and what a path leads to there.  A
path is followed name by name, from the root if it starts with a slash and from the working
directory otherwise, so each of its parts has to exist, also one that a later `..` leaves again.
Where a name is that of a link, the path it holds is followed first.  Of what lies outside of the
working directory only the directories on the way down to it are known.

A path can be resolved whatever its length, since this goes on name by name; a path that is
opened as a whole has to have fewer than 4096 bytes.
-/

namespace Scriptlet

/-- The names on the way down from a directory to a file or directory. -/
abbrev Names := List String

/-- The files, directories and links below a working directory.  Their names lead down from
there. -/
structure Disk where
  /-- The path of the working directory. -/
  here : String
  /-- The files with their contents. -/
  files : List (Names × ByteArray)
  /-- Directories that exist whether or not something lies in them. -/
  directories : List Names
  /-- The links with the paths they hold. -/
  links : List (Names × String)

/-- Why a file cannot be read. -/
inductive DiskFault where
  | notFound
  | notDirectory
  | isDirectory
  | nameTooLong
  | tooManyLinks
  | invalidName
  | invalidText

/-- The wording of a fault. -/
def DiskFault.message : DiskFault → String
  | notFound => "No such file or directory (os error 2)"
  | notDirectory => "Not a directory (os error 20)"
  | isDirectory => "Is a directory (os error 21)"
  | nameTooLong => "File name too long (os error 36)"
  | tooManyLinks => "Too many levels of symbolic links (os error 40)"
  | invalidName => "file name contained an unexpected NUL byte"
  | invalidText => "stream did not contain valid UTF-8"

namespace Disk

/-- A disk without files. -/
def empty : Disk := ⟨"/home", [], [], []⟩

/-! ### What there is

A place is given by the names on the way down to it from the root. -/

/-- The parts of a path between its slashes. -/
def parts (path : String) : Names :=
  (path.toList.splitOn '/').map String.ofList

/-- The names of a path without the empty ones. -/
def namesOf (path : String) : Names :=
  (parts path).filter (· ≠ "")

/-- The place of the working directory. -/
def home (d : Disk) : Names :=
  namesOf d.here

/-- The names from the working directory down to a place, if it lies there. -/
def below? (d : Disk) (place : Names) : Option Names :=
  if d.home.isPrefixOf place then some (place.drop d.home.length) else none

/-- The content of the file at a place. -/
def content? (d : Disk) (place : Names) : Option ByteArray :=
  (d.below? place).bind (d.files.lookup ·)

/-- The path that the link at a place holds. -/
def link? (d : Disk) (place : Names) : Option String :=
  (d.below? place).bind (d.links.lookup ·)

/-- Whether there is a directory at a place: it is on the way to the working directory, has been
made, or something lies in it. -/
def isDirectory (d : Disk) (place : Names) : Bool :=
  place.isPrefixOf d.home || (d.below? place).any fun names =>
    d.directories.any (names.isPrefixOf ·)
      || d.files.any (fun (file, _) => names.isPrefixOf file && names != file)
      || d.links.any fun (link, _) => names.isPrefixOf link && names != link

/-! ### Following a path -/

/-- The names of a path.  A slash at the end stands for the directory itself. -/
def pathNames (path : String) : Names :=
  let last := if (parts path).getLast? = some "" then ["."] else []
  namesOf path ++ last

/-- Where a path starts that is followed from a place. -/
def origin (place : Names) (path : String) : Names :=
  if path.startsWith "/" then [] else place

/-- Where names lead from a place.  Where they come to a link, `jump` goes on with the directory of
the link, its path and the names behind it. -/
def walk (d : Disk) (jump : Names → String → Names → Except DiskFault Names) :
    Names → Names → Except DiskFault Names
  | place, [] => .ok place
  | place, name :: rest =>
    if !d.isDirectory place then
      .error .notDirectory
    else if name = "." then
      walk d jump place rest
    else if name = ".." then
      walk d jump place.dropLast rest
    else if 255 < name.utf8ByteSize then
      .error .nameTooLong
    else
      let there := place ++ [name]
      match d.link? there with
      | some path => jump place path rest
      | none =>
        if d.isDirectory there ∨ (d.content? there).isSome then walk d jump there rest
        else .error .notFound

/-- Where names lead from a place, over at most the given number of links. -/
def follow (d : Disk) : Nat → Names → Names → Except DiskFault Names
  | 0 => d.walk fun _ _ _ => .error .tooManyLinks
  | links + 1 => d.walk fun place path rest =>
    follow d links (origin place path) (pathNames path ++ rest)

/-- The number of links that a path may lead over. -/
def mostLinks : Nat := 40

/-- The place that a path leads to. -/
def resolve (d : Disk) (path : String) : Except DiskFault Names :=
  if path.isEmpty then
    .error .notFound
  else if '\x00' ∈ path.toList then
    .error .invalidName
  else
    d.follow mostLinks (origin d.home path) (pathNames path)

/-- Whether a path has too many bytes to be opened as a whole. -/
def isTooLong (path : String) : Bool :=
  4096 ≤ path.utf8ByteSize

/-- The place that a path leads to that is opened as a whole. -/
def locate (d : Disk) (path : String) : Except DiskFault Names :=
  if isTooLong path ∧ '\x00' ∉ path.toList then .error .nameTooLong else d.resolve path

/-! ### Reading -/

/-- The text at a place. -/
def readAt (d : Disk) (place : Names) : Except DiskFault String :=
  match d.content? place with
  | none => .error .isDirectory
  | some bytes =>
    match String.fromUTF8? bytes with
    | some text => .ok text
    | none => .error .invalidText

/-- The identity of the file or directory at a place, whatever path led there. -/
def identity (place : Names) : String :=
  "/" ++ "/".intercalate place

/-- The identity of what a path leads to. -/
def identity? (d : Disk) (path : String) : Option String :=
  match d.resolve path with
  | .ok place => some (identity place)
  | .error _ => none

/-- The text of the file that a path leads to. -/
def read (d : Disk) (path : String) : Except DiskFault String := do
  d.readAt (← d.locate path)

/-- Whether a path leads to a directory. -/
def leadsToDirectory (d : Disk) (path : String) : Bool :=
  match d.locate path with
  | .ok place => d.isDirectory place
  | .error _ => false

/-- Whether a path leads to a file. -/
def leadsToFile (d : Disk) (path : String) : Bool :=
  match d.locate path with
  | .ok place => (d.content? place).isSome
  | .error _ => false

/-- The path of `file` seen from the directory `dir`. -/
def join (dir file : String) : String :=
  if file.startsWith "/" ∨ dir.isEmpty then file
  else if dir.endsWith "/" then dir ++ file
  else dir ++ "/" ++ file

/-- The directory of the file that a path leads to. -/
def directoryOf (path : String) : String :=
  let names := parts path
  if names.length = 2 ∧ path.startsWith "/" then "/" else "/".intercalate names.dropLast

end Disk

end Scriptlet
