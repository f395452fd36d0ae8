import AppletHost.Value.Basic

/-!
# Files and directories

A tree of files, and the way from a directory of it to one of its nodes. A path is the list of its
parts; an empty part and `.` stay where they are, `..` goes back to the directory above, and all of
them need a directory to start from.
-/

namespace AppletHost.Hosting

/-- A file with its bytes, or a directory with its entries. -/
inductive FileNode where
  | file (content : ByteArray)
  | directory (entries : List (String × FileNode))
deriving Inhabited

/-- Why a file cannot be read. -/
inductive FileFault where
  | notFound
  | notADirectory
  | isADirectory
  | invalidText
  | invalidName
  | nameTooLong
deriving DecidableEq, Repr, Inhabited

/-- The text of the fault. -/
def FileFault.message : FileFault → String
  | .notFound => "No such file or directory (os error 2)"
  | .notADirectory => "Not a directory (os error 20)"
  | .isADirectory => "Is a directory (os error 21)"
  | .invalidText => "stream did not contain valid UTF-8"
  | .invalidName => "file name contained an unexpected NUL byte"
  | .nameTooLong => "File name too long (os error 36)"

/-- The parts of a path. -/
abbrev FilePath := List String

namespace FilePath

/-- The path that a text denotes. -/
def ofText (text : String) : FilePath := (text.toList.splitOn '/').map String.ofList

/-- A path that does not start at the directory it is looked up in. -/
def isAbsolute : FilePath → Bool
  | "" :: _ :: _ => true
  | _ => false

/-- The path `other` as seen from `base`. -/
def join (base other : FilePath) : FilePath := if other.isAbsolute then other else base ++ other

/-- The text of a path. -/
def text (path : FilePath) : String := "/".intercalate path

end FilePath

/-- The most bytes that the name of a file has. -/
def longestName : Nat := 255

namespace FileNode

/-- Where a walk stands: at a node, with the directories above it, the nearest first. -/
structure Place where
  node : FileNode
  above : List FileNode := []
deriving Inhabited

/-- One part further. Above the topmost directory there is that directory. -/
def Place.enter (place : Place) (part : String) : Except FileFault Place :=
  match place.node with
  | .file _ => .error .notADirectory
  | .directory entries =>
    if part = "" ∨ part = "." then .ok place
    else if part = ".." then
      match place.above with
      | [] => .ok place
      | parent :: above => .ok ⟨parent, above⟩
    else if longestName < part.utf8ByteSize then .error .nameTooLong
    else match Fields.get? entries part with
      | none => .error .notFound
      | some node => .ok ⟨node, place.node :: place.above⟩

/-- Goes all the way along a path. -/
def walk (place : Place) : FilePath → Except FileFault Place
  | [] => .ok place
  | part :: parts =>
    match place.enter part with
    | .ok next => walk next parts
    | .error fault => .error fault

/-- The node at a path. -/
def find (root : FileNode) (path : FilePath) : Except FileFault FileNode :=
  if path.any fun part => part.toList.contains '\x00' then .error .invalidName
  else (walk ⟨root, []⟩ path).map Place.node

/-- The node is a file. -/
def isFile : FileNode → Bool
  | .file _ => true
  | .directory _ => false

/-- There is a file at a path. -/
def holdsFile (root : FileNode) (path : FilePath) : Bool :=
  match root.find path with
  | .ok node => node.isFile
  | .error _ => false

/-- The text of the file at a path. -/
def read (root : FileNode) (path : FilePath) : Except FileFault String :=
  match root.find path with
  | .error fault => .error fault
  | .ok (.directory _) => .error .isADirectory
  | .ok (.file content) =>
    match String.fromUTF8? content with
    | some text => .ok text
    | none => .error .invalidText

/-- The names in the directory at a path; none if it cannot be read. -/
def entryNames (root : FileNode) (path : FilePath) : List String :=
  match root.find path with
  | .ok (.directory entries) => Fields.names entries
  | _ => []

/-- The tree with a node put at a path, and directories on the way where there are none. -/
def put (tree : FileNode) (node : FileNode) : FilePath → FileNode
  | [] => node
  | part :: parts =>
    match tree with
    | .file content => .file content
    | .directory entries =>
      let below := (Fields.get? entries part).getD (.directory [])
      .directory (Fields.set entries part (below.put node parts))

/-- A directory with nothing in it. -/
def empty : FileNode := .directory []

end FileNode

end AppletHost.Hosting
