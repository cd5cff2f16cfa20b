import TruthTables.Files.Path

namespace TruthTables

structure OpenFault where
  code : Nat
  text : String
  deriving DecidableEq, Repr

namespace OpenFault

def notDirectory : OpenFault := ⟨20, "Not a directory"⟩

def isDirectory : OpenFault := ⟨21, "Is a directory"⟩

def nameTooLong : OpenFault := ⟨36, "File name too long"⟩

end OpenFault

inductive Opened where
  | bytes (bytes : List UInt8)
  | missing
  | fault (fault : OpenFault)
  deriving DecidableEq, Repr

inductive FileNode where
  | file (bytes : List UInt8)
  | directory
  deriving DecidableEq, Repr

-- Files and directories by the parts of their paths. A directory need not be listed if something in
-- it is.
abbrev FileStore := List (List String × FileNode)

namespace FileStore

def longestName : Nat := 255

def longestPath : Nat := 4096

def node? (store : FileStore) (parts : List String) : Option FileNode :=
  if parts.isEmpty then some .directory
  else
    match store.find? fun (listed, _) => listed = parts with
    | some (_, node) => some node
    | none => if store.any fun (listed, _) => parts.isPrefixOf listed then some .directory else none

def system : FileStore :=
  (["dev", "null"], .file []) ::
    ["bin", "etc", "home", "proc", "root", "sys", "tmp", "usr", "var"].map
    fun name => ([name], .directory)

inductive Place where
  | inside (parts : List String)
  | above
  | absolute (parts : List String)
  deriving DecidableEq, Repr

namespace Place

def parent : Place → Place
  | inside [] => above
  | inside parts => inside parts.dropLast
  | above => above
  | absolute parts => absolute parts.dropLast

def child? (store : FileStore) (name : String) : Place → Option FileNode
  | inside parts => store.node? (parts ++ [name])
  | above => none
  | absolute parts => system.node? (parts ++ [name])

def enter (name : String) : Place → Place
  | inside parts => inside (parts ++ [name])
  | above => above
  | absolute parts => absolute (parts ++ [name])

end Place

def walk (store : FileStore) (here : Place) : List String → Opened
  | [] => .fault .isDirectory
  | part :: rest =>
    if part = ".." then walk store here.parent rest
    else if longestName < part.utf8ByteSize then .fault .nameTooLong
    else
      match here.child? store part with
      | none => .missing
      | some .directory => walk store (here.enter part) rest
      | some (.file bytes) => if rest.isEmpty then .bytes bytes else .fault .notDirectory

def open? (store : FileStore) (path : Path) : Opened :=
  if longestPath ≤ path.text.utf8ByteSize then .fault .nameTooLong
  else walk store (if path.isAbsolute then .absolute [] else .inside []) path.parts

end FileStore

end TruthTables
