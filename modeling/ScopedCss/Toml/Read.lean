import ScopedCss.Toml.Moment
import ScopedCss.Toml.Number

/-!
# Reading TOML documents

The reader of values, and of the lines of a document. Values nest, and names go on, for at most
`nestingLimit` levels; a text that goes further is refused like one that is no TOML.
-/

namespace ScopedCss.Toml

/-- How deep values may nest, and how many parts a name may have. -/
def nestingLimit : Nat := 79

/-- Reads the equals sign behind a name, and the blanks behind it. -/
def readEquals : Reader Unit
  | '=' :: s => some ((), skipBlanks s)
  | _ => none

/-- Reads the items of an array up to its closing bracket. There are at most `n` of them, and a
comma may stand behind the last one. -/
def readItems (value : Reader Toml) : Nat → Reader (List Toml)
  | n, s =>
    match skipLayout false s with
    | ']' :: r => some ([], r)
    | s =>
      match n with
      | 0 => none
      | n + 1 => do
        let (v, s) ← value s
        match skipLayout false s with
        | ',' :: r => do
          let (vs, r) ← readItems value n r
          return (v :: vs, r)
        | ']' :: r => return ([v], r)
        | _ => none

/-- Reads the assignments in braces up to the closing one. There are at most `n` of them, all on
one line, and no comma may stand behind the last one. -/
def readPairs (value : Reader Toml) : Nat → Reader (List (List String × Toml))
  | 0, _ => none
  | n + 1, s => do
    let (name, s) ← readName nestingLimit s
    let (_, s) ← readEquals s
    let (v, s) ← value s
    match skipBlanks s with
    | ',' :: r => do
      let (ps, r) ← readPairs value n r
      return ((name, v) :: ps, r)
    | '}' :: r => return ([(name, v)], r)
    | _ => none

/-- Reads a table in braces, from behind the opening one. -/
def readBraces (value : Reader Toml) : Reader Toml := fun s =>
  match skipBlanks s with
  | '}' :: r => some (.table .braces [], r)
  | s => do
    let (pairs, s) ← readPairs value s.length s
    return (← ofAssignments pairs, s)

/-- Reads a value with at most `depth` levels of nesting. -/
def readValue : Nat → Reader Toml
  | depth, s =>
    match s with
    | '"' :: r => do let (t, r) ← readString '"' r; return (.text t, r)
    | '\'' :: r => do let (t, r) ← readString '\'' r; return (.text t, r)
    | 't' :: 'r' :: 'u' :: 'e' :: r => some (.plain, r)
    | 'f' :: 'a' :: 'l' :: 's' :: 'e' :: r => some (.plain, r)
    | '[' :: r =>
      match depth with
      | 0 => none
      | depth + 1 => do
        let (items, r) ← readItems (readValue depth) r.length r
        return (.array items, r)
    | '{' :: r =>
      match depth with
      | 0 => none
      | depth + 1 => readBraces (readValue depth) r
    | s => readMoment s <|> readFraction s <|> readInteger s <|> readSpecial s

/-- Reads a statement, or nothing from a line without one. -/
def readStatement : Reader (Option Statement)
  | '[' :: '[' :: s => do
    let (path, s) ← readName nestingLimit s
    match s with
    | ']' :: ']' :: r => return (some (.element path), r)
    | _ => none
  | '[' :: s => do
    let (path, s) ← readName nestingLimit s
    match s with
    | ']' :: r => return (some (.table path), r)
    | _ => none
  | c :: s =>
    if c = '#' ∨ c = '\n' ∨ c = '\r' then some (none, c :: s)
    else do
      let (name, s) ← readName nestingLimit (c :: s)
      let (_, s) ← readEquals s
      let (v, s) ← readValue nestingLimit s
      return (some (.assign name v), s)
  | [] => none

/-- Reads the statements of at most `n` lines. -/
def readLines : Nat → List Char → Option (List Statement)
  | n, s =>
    match skipBlanks s with
    | [] => some []
    | s =>
      match n with
      | 0 => none
      | n + 1 => do
        let (statement, s) ← readStatement s
        let (_, s) ← readLineEnd s
        let rest ← readLines n s
        return statement.toList ++ rest

/-- Drops a byte order mark at the front. -/
def skipMark : List Char → List Char
  | c :: s => if c.toNat = 0xFEFF then s else c :: s
  | [] => []

/-- Reads a document. -/
def read (text : String) : Option Members := do
  let s := skipMark text.toList
  ofStatements (← readLines s.length s)

end ScopedCss.Toml
