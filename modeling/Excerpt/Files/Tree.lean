import Excerpt.Utf8

/-!
This module contains what a name can lead to. A run is given that as a function; where no file is to be opened, it is
the function of a tree of files below a working directory, in which a name is resolved component by component between
slashes. Empty components and dots stay where they are, two dots lead one directory up, and nothing lies below a file.
Of what is outside of the tree only the directories on the way up exist.
-/

namespace Excerpt

inductive OpenError
  | notFound
  | notDirectory
  | nameTooLong
  | accessDenied
  deriving DecidableEq, Repr

def OpenError.message : OpenError → Text
  | .notFound => "No such file or directory".toList
  | .notDirectory => "Not a directory".toList
  | .nameTooLong => "File name too long".toList
  | .accessDenied => "Permission denied".toList

inductive Entry
  | file (data : Bytes)
  | directory
  | unavailable (e : OpenError)
  deriving DecidableEq, Repr

/--
Every file with its path. A directory exists if its path is listed or leads to something that is.
-/
structure FileTree where
  directories : List (List Text)
  files : List (List Text × Bytes)
  deriving DecidableEq, Repr

namespace FileTree

def maxComponentSize : Nat := 255

def maxNameSize : Nat := 4095

def components (name : Text) : List Text := name.splitOn '/'

def path (name : Text) : List Text := (components name).filter fun c => c != [] && c != ['.']

def ofNames (directories : List Text) (files : List (Text × Bytes)) : FileTree :=
  ⟨directories.map path, files.map fun (name, data) => (path name, data)⟩

def isDirectory (tree : FileTree) (path : List Text) : Bool :=
  path.isEmpty || tree.directories.any path.isPrefixOf || tree.files.any fun (file, _) => path.isPrefixOf file

def resolve (tree : FileTree) (place : Option (List Text)) : List Text → Entry
  | [] => .directory
  | c :: rest =>
    if c = [] ∨ c = ['.'] then
      tree.resolve place rest
    else if c = ['.', '.'] then
      tree.resolve (place.bind fun path => if path = [] then none else some path.dropLast) rest
    else if (Utf8.encode c).length > maxComponentSize then
      .unavailable .nameTooLong
    else
      match place with
      | none => .unavailable .notFound
      | some path =>
        let path := path ++ [c]
        match tree.files.lookup path with
        | some data => if rest = [] then .file data else .unavailable .notDirectory
        | none =>
          if tree.isDirectory path then tree.resolve (some path) rest else .unavailable .notFound

def find (tree : FileTree) (name : Text) : Entry :=
  if name = [] then
    .unavailable .notFound
  else if (Utf8.encode name).length > maxNameSize then
    .unavailable .nameTooLong
  else
    tree.resolve (if name.head? = some '/' then none else some []) (components name)

end FileTree

end Excerpt
