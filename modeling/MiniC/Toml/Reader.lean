import MiniC.Toml.Basic
import MiniC.Toml.Text
import MiniC.Toml.Scalar

/-!
# Reading TOML documents

A document is a list of lines: headers, keys with their values, comments and
blanks. Lists of tables under headers are not read: no setting is written in
them, so a document that has one is refused in any case.
-/

namespace MiniC.Toml

/-! ## Tables that grow -/

/-- Replaces the value of a key. -/
def Fields.replace (key : String) (value : Toml) : Fields → Fields
  | [] => []
  | (k, v) :: rest => if k == key then (key, value) :: rest else (k, v) :: replace key value rest

/-- Adds a value under a key, or under a dotted one. A key is bound once, and only
    tables that were opened by dotted keys are open to them. -/
def Fields.add? : List String → Toml → Fields → Option Fields
  | [], _, _ => none
  | [key], value, fields => if (fields.lookup key).isSome then none else some (fields ++ [(key, value)])
  | key :: rest, value, fields =>
    match fields.lookup key with
    | none => (add? rest value []).map fun inner => fields ++ [(key, .table .dotted inner)]
    | some (.table .dotted inner) =>
      (add? rest value inner).map fun inner => Fields.replace key (.table .dotted inner) fields
    | some _ => none

/-- Opens the table of a header. A table has one header at most, and none if it
    was opened in another way than by the header of a table inside it. -/
def Fields.open? : List String → Fields → Option Fields
  | [], _ => none
  | [key], fields =>
    match fields.lookup key with
    | none => some (fields ++ [(key, .table .header [])])
    | some (.table .outer inner) => some (Fields.replace key (.table .header inner) fields)
    | some _ => none
  | key :: rest, fields =>
    match fields.lookup key with
    | none => (open? rest []).map fun inner => fields ++ [(key, .table .outer inner)]
    | some (.table .braces _) => none
    | some (.table origin inner) =>
      (open? rest inner).map fun inner => Fields.replace key (.table origin inner) fields
    | some _ => none

/-- Changes the fields of the table under a path of keys. -/
def Fields.within? (change : Fields → Option Fields) : List String → Fields → Option Fields
  | [], fields => change fields
  | key :: rest, fields =>
    match fields.lookup key with
    | some (.table origin inner) =>
      (within? change rest inner).map fun inner => Fields.replace key (.table origin inner) fields
    | _ => none

/-! ## Values -/

/-- Skips blanks, ends of lines and comments. -/
def skipLines (inComment : Bool) : List Char → List Char
  | [] => []
  | c :: rest =>
    if c == '\n' then skipLines false rest
    else if inComment then if isPlain c then skipLines true rest else c :: rest
    else if isGap c then skipLines false rest
    else if c == '#' then skipLines true rest
    else c :: rest

mutual
/-- Reads a value. Lists and tables may stand inside each other over so many
    levels. -/
def value? (levels : Nat) : Nat → List Char → Option (Toml × List Char)
  | 0, _ => none
  | fuel + 1, '[' :: rest => if levels = 0 then none else items? (levels - 1) fuel [] (skipLines false rest)
  | fuel + 1, '\x7b' :: rest =>
    if levels = 0 then none
    else
      match skipGap rest with
      | '\x7d' :: rest => some (.table .braces [], rest)
      | rest => entries? (levels - 1) fuel [] rest
  | _ + 1, cs =>
    match text? cs with
    | some (s, rest) => some (.text s, rest)
    | none =>
      let (word, rest) := cs.span isWordPart
      match integerOf? word with
      | some n => some (.integer n, rest)
      | none => if isForeign word then some (.foreign, afterWord word rest) else none

/-- Reads the items of a list, after those already found. -/
def items? (levels : Nat) : Nat → List Toml → List Char → Option (Toml × List Char)
  | 0, _, _ => none
  | _ + 1, found, ']' :: rest => some (.list found.reverse, rest)
  | fuel + 1, found, cs =>
    match value? levels fuel cs with
    | none => none
    | some (item, rest) =>
      match skipLines false rest with
      | ',' :: rest => items? levels fuel (item :: found) (skipLines false rest)
      | ']' :: rest => some (.list (item :: found).reverse, rest)
      | _ => none

/-- Reads the entries of a table in braces, after those already found. -/
def entries? (levels : Nat) : Nat → Fields → List Char → Option (Toml × List Char)
  | 0, _, _ => none
  | fuel + 1, found, cs =>
    match entry? levels fuel cs with
    | none => none
    | some (key, value, rest) =>
      match Fields.add? key value found, skipGap rest with
      | some fields, ',' :: rest => entries? levels fuel fields rest
      | some fields, '\x7d' :: rest => some (.table .braces fields, rest)
      | _, _ => none

/-- Reads a key and its value. -/
def entry? (levels : Nat) : Nat → List Char → Option (List String × Toml × List Char)
  | 0, _ => none
  | fuel + 1, cs =>
    match key? cs with
    | some (key, '=' :: rest) => (value? levels fuel (skipGap rest)).map fun (value, rest) => (key, value, rest)
    | _ => none
end

/-! ## Documents -/

/-- Reads what may stand at the end of a line: blanks and a comment. -/
def endLine? (cs : List Char) : Option (List Char) :=
  let rest := skipGap cs
  let rest := if rest.head? == some '#' then rest.dropWhile isPlain else rest
  match rest with
  | [] => some []
  | '\n' :: rest => some rest
  | _ => none

/-- Reads the lines of a document into the fields that it has so far; `path` is
    that of the table whose header came last. -/
def lines? : Nat → List String → Fields → List Char → Option Fields
  | 0, _, _, _ => none
  | fuel + 1, path, fields, cs =>
    match skipGap cs with
    | [] => some fields
    | '\n' :: rest => lines? fuel path fields rest
    | '#' :: rest =>
      match endLine? ('#' :: rest) with
      | some rest => lines? fuel path fields rest
      | none => none
    | '[' :: rest =>
      match key? rest with
      | some (path, ']' :: rest) =>
        match Fields.open? path fields, endLine? rest with
        | some fields, some rest => lines? fuel path fields rest
        | _, _ => none
      | _ => none
    | cs =>
      match entry? maxNesting fuel cs with
      | some (key, value, rest) =>
        match Fields.within? (Fields.add? key value) path fields, endLine? rest with
        | some fields, some rest => lines? fuel path fields rest
        | _, _ => none
      | none => none

/-- The fields of a document. A mark of byte order at the start is skipped. -/
def parse? (s : String) : Option Fields :=
  let cs := joinLineEnds s.toList
  let cs := if cs.head? == some '\uFEFF' then cs.tail else cs
  lines? (4 * cs.length + 4) [] [] cs

instance : Reader where
  parse? := parse?

end MiniC.Toml
