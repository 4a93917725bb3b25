/-!
# Why a document cannot be read

A text that breaks a rule of the format is malformed. A text of good form may still hold a scalar
that does not convert to a value of its tag.
-/

set_option autoImplicit false

namespace DepGraph.Yaml

/-- The reasons for which a document has no value. -/
inductive Failure where
  /-- A rule of the format is broken. -/
  | malformed
  /-- A number, a date or an escaped character is not one, or lies out of range. -/
  | badValue
  /-- An escaped character lies beyond every range of codes. -/
  | badCode
  /-- A word is not one for a truth value. -/
  | badWord
  /-- A number has no digits at all. -/
  | emptyNumber
  /-- A text does not have the form of a date. -/
  | badDate
  /-- A date is asked of a mapping, which has none even if it has a text. -/
  | noDate
  deriving DecidableEq, Repr

end DepGraph.Yaml
