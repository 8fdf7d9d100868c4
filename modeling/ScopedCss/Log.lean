import ScopedCss.Element
import ScopedCss.Sink.Basic

/-!
# The log

What happens behind the scenes is reported as notices: values that say what happened, with a level,
a message and named fields for those who write a log.
-/

namespace ScopedCss

/-- How much a notice matters. -/
inductive Level where
  /-- Of interest to those who follow every step. -/
  | trace
  /-- Of interest to those who look for a cause. -/
  | debug
  /-- Something was left out or went wrong. -/
  | warn
  deriving DecidableEq

/-- The name of a level in a log. -/
def Level.name : Level → String
  | .trace => "TRACE"
  | .debug => "DEBUG"
  | .warn => "WARN"

/-- Something that happened. -/
inductive Notice where
  /-- A style object was compiled. -/
  | compiled (fragment : Fragment)
  /-- A class became live, and the sink holds so many rules for it. -/
  | inserted (name : ClassName) (rules : Nat)
  /-- The last reference to a class is gone, and its rules are taken back. -/
  | retracted (name : ClassName) (rules : Nat)
  /-- A rule of a class was left out because the sink refused it. -/
  | ruleSkipped (rule : StyleRule) (error : SinkError)
  /-- A rule that belongs to no class was left out because the sink refused it. -/
  | globalSkipped (rule : StyleRule) (error : SinkError)
  /-- A registration was given back to a registry that did not issue it. -/
  | foreignRegistration (element : StyleElement)
  /-- The registration of a global rule was given back to a registry that did not issue it. -/
  | foreignGlobal (rule : StyleRule)
  /-- A guard ended while the registry was in use, so its styles stay. -/
  | stylesLeaked (element : StyleElement)
  /-- The guard of a global rule ended while the registry was in use, so the rule stays, with the
  given handle if the sink had taken it. -/
  | ruleLeaked (rule : StyleRule) (handle : Option Handle)
  /-- A file was compiled to an element. -/
  | fileCompiled (file : String) (element : StyleElement)
  /-- An entry among the global rules is no block. -/
  | entrySkipped (selector : String)
  deriving DecidableEq

namespace Notice

/-- The level of a notice. -/
def level : Notice → Level
  | .compiled _ => .trace
  | .inserted .. | .retracted .. | .fileCompiled .. => .debug
  | .ruleSkipped .. | .globalSkipped .. | .foreignRegistration _ | .foreignGlobal _
  | .stylesLeaked _ | .ruleLeaked .. | .entrySkipped _ => .warn

/-- The message of a notice. -/
def message : Notice → String
  | .compiled _ => "compiled style fragment"
  | .inserted .. => "inserted style rules"
  | .retracted .. => "retracted style rules"
  | .ruleSkipped .. => "could not add style rule"
  | .globalSkipped .. => "could not add global style rule"
  | .foreignRegistration _ => "ignoring registration from another registry"
  | .foreignGlobal _ => "ignoring global registration from another registry"
  | .stylesLeaked _ => "style registry busy during release; styles leaked"
  | .ruleLeaked .. => "style registry busy during release; rule leaked"
  | .fileCompiled .. => "compiled"
  | .entrySkipped _ => "global entry is not a declaration block; skipped"

/-- The named fields of a notice. -/
def fields : Notice → List (String × String)
  | .compiled f =>
    [("class_name", f.className.text), ("rules", toString f.rules.length)]
  | .inserted n rules | .retracted n rules =>
    [("class_name", n.text), ("rules", toString rules)]
  | .ruleSkipped rule e | .globalSkipped rule e => [("rule", rule.text), ("error", e.message)]
  | .foreignRegistration e | .stylesLeaked e => [("class_name", e.classList)]
  | .foreignGlobal rule | .ruleLeaked rule _ => [("rule", rule.text)]
  | .fileCompiled file e => [("file", file), ("class", e.classList)]
  | .entrySkipped selector => [("selector", selector)]

/-- What is reported about the building of an element. -/
def ofBuild (e : StyleElement) : List Notice := e.owned.toList.map compiled

end Notice

end ScopedCss
