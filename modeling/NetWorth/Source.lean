/-! The kind of a source file, by the end of its name. -/
namespace NetWorth

inductive SourceKind
  | caseSet
  | case
  | unknown
  deriving DecidableEq

namespace SourceKind

/-- The names between the slashes of a path. Empty ones do not count, nor does a dot unless the path
starts with it. -/
private def components (path : List UInt8) : List (List UInt8) :=
  let parts := path.splitOnP (· = '/'.toUInt8)
  match parts with
  | [] => []
  | first :: rest =>
    (if first = [] then [] else [first]) ++ rest.filter fun p => p ≠ [] ∧ p ≠ ['.'.toUInt8]

/-- The name of the file at the end of a path, unless that is a dot or two. -/
def fileName? (path : List UInt8) : Option (List UInt8) :=
  match (components path).getLast? with
  | some name =>
    if name = ['.'.toUInt8] ∨ name = ['.'.toUInt8, '.'.toUInt8] then none else some name
  | none => none

def caseSetEnding : String := ".tout.md"

def caseEnding : String := ".cas.md"

def ofPath (path : List UInt8) : SourceKind :=
  match fileName? path with
  | none => unknown
  | some name =>
    if caseSetEnding.toUTF8.toList.isSuffixOf name then caseSet
    else if caseEnding.toUTF8.toList.isSuffixOf name then case
    else unknown

end SourceKind

end NetWorth
