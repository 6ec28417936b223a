/-!
# Reading files

How the path of a program file is resolved: part by part, from the working directory or from the
root, in a tree whose files are known.  Only directories can be followed further, and only files
can be read.

Main results:

- `FileTree.read_name`: a plain name reads the file of that name in the working directory.
-/

namespace SeqCalc

/-! ## Failures -/

/-- Why a file cannot be read. -/
inductive ReadError where
  | missing
  | notDirectory
  | isDirectory
  | nameTooLong
  | denied
  | notText
  | other (reason : String)
deriving DecidableEq, Repr, Inhabited

/-- The reason as the terminal shows it. -/
def ReadError.text : ReadError → String
  | missing => "No such file or directory (os error 2)"
  | notDirectory => "Not a directory (os error 20)"
  | isDirectory => "Is a directory (os error 21)"
  | nameTooLong => "File name too long (os error 36)"
  | denied => "Permission denied (os error 13)"
  | notText => "stream did not contain valid UTF-8"
  | other reason => reason

/-! ## Paths -/

/-- The parts of a path between its slashes. -/
def pathParts (path : List Char) : List (List Char) :=
  path.splitOn '/'

/-- A path has fewer bytes than this. -/
def pathLimit : Nat :=
  4096

/-- A part of a path has at most so many bytes. -/
def nameLimit : Nat :=
  255

/-! ## Trees of files -/

/-- Files with their texts, each under the names on the way from the root to it. -/
structure FileTree where
  files : List (List String × String)
  workingDirectory : List String
deriving DecidableEq, Repr, Inhabited

namespace FileTree

/-- The text of the file under these names; there is none where they lead to a directory. -/
def text? (t : FileTree) (names : List String) : Option String :=
  t.files.lookup names

/-- Whether a file or a directory is under these names. -/
def holds (t : FileTree) (names : List String) : Bool :=
  names.isPrefixOf t.workingDirectory || t.files.any fun file => names.isPrefixOf file.1

/-- Follow one part of a path from a directory; above the root is the root. -/
def enter (t : FileTree) (names : List String) (part : String) : Except ReadError (List String) :=
  if part = "" ∨ part = "." then .ok names
  else if part = ".." then .ok names.dropLast
  else if nameLimit < part.utf8ByteSize then .error .nameTooLong
  else if t.holds (names ++ [part]) then .ok (names ++ [part])
  else .error .missing

/-- Follow the parts of a path, which has to end at a file. -/
def follow (t : FileTree) (names : List String) : List String → Except ReadError String
  | [] =>
    match t.text? names with
    | some text => .ok text
    | none => .error .isDirectory
  | part :: rest =>
    match t.text? names with
    | some _ => .error .notDirectory
    | none =>
      match t.enter names part with
      | .ok next => t.follow next rest
      | .error e => .error e

/-- The text of the file at a path; a path that starts with a slash starts at the root. -/
def read (t : FileTree) (path : String) : Except ReadError String :=
  if path = "" then .error .missing
  else if pathLimit ≤ path.utf8ByteSize then .error .nameTooLong
  else
    let start := if path.toList.head? = some '/' then [] else t.workingDirectory
    t.follow start ((pathParts path.toList).map String.ofList)

theorem read_name {t : FileTree} {name text : String}
    (h : t.files.lookup (t.workingDirectory ++ [name]) = some text)
    (hd : t.files.lookup t.workingDirectory = none) (hs : '/' ∉ name.toList)
    (hn : name ∉ ["", ".", ".."]) (hl : name.utf8ByteSize ≤ nameLimit) :
    t.read name = .ok text := by
  have hp : pathParts name.toList = [name.toList] :=
    List.splitOnP_eq_singleton fun c hc => by
      simpa using fun hcs : c = '/' => hs (hcs ▸ hc)
  have hr : name.toList.head? ≠ some '/' := fun hc => hs (List.mem_of_head? hc)
  have hh : t.holds (t.workingDirectory ++ [name]) = true := by
    obtain ⟨before, after, hf, -⟩ := List.lookup_eq_some_iff.1 h
    simp [holds, hf]
  simp only [List.mem_cons, List.not_mem_nil, or_false, not_or] at hn
  have hp' : ¬ pathLimit ≤ name.utf8ByteSize := by
    simp only [pathLimit, nameLimit] at *
    omega
  simp [read, hn.1, hp', hr, hp, follow, text?, hd, enter, hn.2.1, hn.2.2, Nat.not_lt.2 hl, hh, h]

end FileTree
end SeqCalc
