/-!
# Where a command runs

A command sees its surroundings through a `Workspace`: the texts of files by path, and the text on
its input.  Both can be unreadable, also for bytes that are no text.  A `Folder` is such a place
that consists of given files only.  A path is followed step by step there, so every part of it but
the last has to be a folder.
-/

namespace Rebind.CommandLine

/-- What a command sees of its surroundings. -/
structure Workspace where
  /-- The text of the file at a path, if it can be read. -/
  read : String → Option String
  /-- Whether there is a file at a path. -/
  isFile : String → Bool
  /-- The text on the input, if it can be read. -/
  input : Option String

/-- Files by the names of the folders that they are in and their own name. -/
structure Folder where
  files : List (List String × String)
  deriving Repr, DecidableEq, Inhabited

namespace Folder

/-- The parts of a path. -/
def parts (path : String) : List String :=
  path.splitOn "/"

/-- Whether a part of a path stays where it is. -/
def isStay (part : String) : Bool :=
  part = "" || part = "."

/-- A folder with texts at some paths. -/
def ofTexts (texts : List (String × String)) : Folder where
  files := texts.map fun (path, text) => ((parts path).filter (!isStay ·), text)

/-- The text of the file with these names. -/
def textAt? (folder : Folder) (names : List String) : Option String :=
  folder.files.reverse.lookup names

/-- Whether there are files below these names. -/
def hasFolder (folder : Folder) (names : List String) : Bool :=
  names = [] || folder.files.any fun (file, _) => names.isPrefixOf file && names != file

/-- Follows the parts of a path from a folder, whose names are given. -/
def follow (folder : Folder) (names : List String) : List String → Option String
  | [] => none
  | part :: rest =>
    if isStay part then folder.follow names rest
    else if part = ".." then
      if names = [] then none else folder.follow names.dropLast rest
    else
      let here := names ++ [part]
      match folder.textAt? here with
      | some text => if rest = [] then some text else none
      | none => if folder.hasFolder here then folder.follow here rest else none

/-- The text at a path from the folder itself. -/
def read? (folder : Folder) (path : String) : Option String :=
  if path.startsWith "/" then none else folder.follow [] (parts path)

/-- A folder as the place where a command runs, with a text on its input. -/
def workspace (folder : Folder) (input : String) : Workspace where
  read := folder.read?
  isFile path := (folder.read? path).isSome
  input := some input

end Folder

end Rebind.CommandLine
