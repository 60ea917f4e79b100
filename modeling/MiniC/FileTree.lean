/-!
# Files and paths

A tree of directories and files, and absolute paths into it. A path keeps its
parts as they were written, blank ones and dots included. What a path denotes is
found by walking through the tree; its parent is found in the path alone.
-/

namespace MiniC

/-! ## Paths -/

/-- An absolute path: the parts between its slashes. -/
structure Path where
  parts : List String
deriving DecidableEq, Repr

namespace Path

/-- The text of a path. -/
def render (p : Path) : String := "/" ++ "/".intercalate p.parts

/-- The path of an entry. -/
def join (p : Path) (name : String) : Path := ⟨p.parts ++ [name]⟩

/-- A part that leads nowhere. -/
def isIdle (part : String) : Bool := part == "" || part == "."

/-- Drops the parts at the end that lead nowhere. -/
def dropIdle (parts : List String) : List String := (parts.reverse.dropWhile isIdle).reverse

/-- The path without its last part that leads anywhere, be it two dots. The root
    has no parent. -/
def parent? (p : Path) : Option Path :=
  match p.parts.reverse.dropWhile isIdle with
  | [] => none
  | _ :: rest => some ⟨dropIdle rest.reverse⟩

theorem length_dropIdle_le (parts : List String) : (dropIdle parts).length ≤ parts.length := by
  unfold dropIdle
  simpa using (List.dropWhile_sublist isIdle (l := parts.reverse)).length_le

/-- A parent has fewer parts. -/
theorem length_parent?_lt {p q : Path} (up : p.parent? = some q) : q.parts.length < p.parts.length := by
  unfold parent? at up
  split at up
  · cases up
  · rename_i part rest last
    cases up
    have fewer := (List.dropWhile_sublist isIdle (l := p.parts.reverse)).length_le
    have idle := length_dropIdle_le rest.reverse
    rw [last] at fewer
    simp only [List.length_cons, List.length_reverse] at fewer idle
    show (dropIdle rest.reverse).length < p.parts.length
    omega

end Path

/-! ## Trees -/

/-- A file with its content, or a directory with its entries. -/
inductive FileTree where
  | file (content : ByteArray)
  | directory (entries : List (String × FileTree))
deriving Inhabited

/-- Why a path leads nowhere. -/
inductive WalkFault where
  | missing
  | notADirectory
deriving DecidableEq, Repr

namespace FileTree

/-- Walks along parts from a place in the tree, given with the directories around
    it, the nearest first. Two dots lead to the directory around, and around the
    root is the root. -/
def walk (here : FileTree) (around : List FileTree) : List String → Except WalkFault FileTree
  | [] => .ok here
  | part :: rest =>
    match here with
    | file _ => .error .notADirectory
    | directory entries =>
      if Path.isIdle part then walk here around rest
      else if part == ".." then
        match around with
        | [] => walk here [] rest
        | outer :: around => walk outer around rest
      else
        match entries.lookup part with
        | some inner => walk inner (here :: around) rest
        | none => .error .missing

/-- What a path denotes in a tree. -/
def locate (root : FileTree) (p : Path) : Except WalkFault FileTree := root.walk [] p.parts

/-- Whether a path denotes anything. -/
def «exists» (root : FileTree) (p : Path) : Bool :=
  match root.locate p with
  | .ok _ => true
  | .error _ => false

end FileTree
end MiniC
