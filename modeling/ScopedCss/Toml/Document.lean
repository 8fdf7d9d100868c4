import ScopedCss.OrderedMap

/-!
# TOML documents

A document is a table of named values. It is written as a sequence of statements: headers, which
open a table or one more element of an array of tables, and assignments, which put a value into
the table that was opened last. A name may have several parts, and the tables on its way come into
being when they are first mentioned.

Each name can be given a value once, and each table can be opened once. What a table allows
afterwards depends on how it came into being (`Origin`): one that was only mentioned in the header
of another may still get a header of its own, one that stands on the way of a dotted name may get
more dotted names, and one written in braces is finished.

Only as much of a document is kept as settings need: of a number, a truth value or a date, that
there is one.
-/

namespace ScopedCss

/-- How a table came into being. -/
inductive Toml.Origin where
  /-- It was opened by a header. -/
  | header
  /-- It was mentioned in the header of a table inside it. -/
  | mention
  /-- It stands on the way of a dotted name. -/
  | dotted
  /-- It was written in braces. -/
  | braces
  deriving DecidableEq

/-- A value in a document. -/
inductive Toml where
  /-- A string. -/
  | text (s : String)
  /-- A number or a truth value. -/
  | plain
  /-- A date, a time of day, or both. -/
  | moment
  /-- An array in brackets. -/
  | array (items : List Toml)
  /-- A table with its named values. -/
  | table (origin : Toml.Origin) (members : List (String × Toml))
  /-- An array of tables, opened one by one by headers; `current` was opened last. -/
  | tables (earlier : List (List (String × Toml))) (current : List (String × Toml))

namespace Toml

instance : Inhabited Toml := ⟨.plain⟩

/-- The named values of a table. -/
abbrev Members := List (String × Toml)

/-- Puts a value under a name of one or more parts. The name must be new, and it must not lead
into a table that was made in another way than by dotted names, unless it is to go further. -/
def assign (v : Toml) : List String → Members → Option Members
  | [], _ => none
  | [name], ms => if (Pairs.get? name ms).isNone then some (Pairs.set name v ms) else none
  | name :: next :: path, ms => do
    let t ← match Pairs.get? name ms with
      | none => (table .dotted) <$> assign v (next :: path) []
      | some (.table .dotted inner) => (table .dotted) <$> assign v (next :: path) inner
      | some (.table .mention inner) =>
        if path.isEmpty then none else (table .mention) <$> assign v (next :: path) inner
      | some (.tables earlier current) =>
        if path.isEmpty then none else (tables earlier) <$> assign v (next :: path) current
      | some _ => none
    return Pairs.set name t ms

/-- Follows the path of a header and does `last` to what stands under its last part. Tables on the
way that do not exist are made, and of an array of tables the last one is followed. -/
def openAt (last : Option Toml → Option Toml) : List String → Members → Option Members
  | [], _ => none
  | [name], ms => do return Pairs.set name (← last (Pairs.get? name ms)) ms
  | name :: next :: path, ms => do
    let t ← match Pairs.get? name ms with
      | none => (table .mention) <$> openAt last (next :: path) []
      | some (.table .braces _) => none
      | some (.table origin inner) => (table origin) <$> openAt last (next :: path) inner
      | some (.tables earlier current) => (tables earlier) <$> openAt last (next :: path) current
      | some _ => none
    return Pairs.set name t ms

/-- Opens a table: a new one, or one that has only been mentioned so far. -/
def openTable : Option Toml → Option Toml
  | none => some (table .header [])
  | some (.table .mention inner) => some (table .header inner)
  | some _ => none

/-- Opens one more element of an array of tables. -/
def openElement : Option Toml → Option Toml
  | none => some (tables [] [])
  | some (.tables earlier current) => some (tables (earlier ++ [current]) [])
  | some _ => none

/-- Changes the table that a header has opened. -/
def within (f : Members → Option Members) : List String → Members → Option Members
  | [], ms => f ms
  | name :: path, ms => do
    let t ← match Pairs.get? name ms with
      | some (.table origin inner) => (table origin) <$> within f path inner
      | some (.tables earlier current) => (tables earlier) <$> within f path current
      | _ => none
    return Pairs.set name t ms

/-! ## Statements -/

/-- A statement of a document. -/
inductive Statement where
  /-- Opens a table. -/
  | table (path : List String)
  /-- Opens one more element of an array of tables. -/
  | element (path : List String)
  /-- Puts a value into the table that was opened last. -/
  | assign (name : List String) (value : Toml)

/-- The tables of a document so far. -/
structure Draft where
  /-- The path of the header that came last; at the beginning, the root. -/
  header : List String
  /-- The root table. -/
  root : Members

/-- Follows a statement. -/
def Draft.step (d : Draft) : Statement → Option Draft
  | .table path => do return ⟨path, ← openAt openTable path d.root⟩
  | .element path => do return ⟨path, ← openAt openElement path d.root⟩
  | .assign name value => do return ⟨d.header, ← within (Toml.assign value name) d.header d.root⟩

/-- The root table of a document, if every name and every table in it is made once. -/
def ofStatements (statements : List Statement) : Option Members :=
  (statements.foldlM Draft.step ⟨[], []⟩).map (·.root)

/-- A table in braces with the given assignments. -/
def ofAssignments (pairs : List (List String × Toml)) : Option Toml :=
  (table .braces) <$> pairs.foldlM (fun ms p => assign p.2 p.1 ms) []

end Toml

end ScopedCss
