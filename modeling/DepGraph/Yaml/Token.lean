/-!
# Tokens of a document

Indentation is told by tokens of its own: the start of a block collection, and the end of one.
-/

set_option autoImplicit false

namespace DepGraph.Yaml

/-- What stands after a percent sign at the start of a line. -/
inductive Directive where
  | version (major : Nat)
  | tagHandle (handle stem : String)
  | other
  deriving DecidableEq, Repr

/-- A tag as it is written: a suffix, and the handle it is to be completed with if it has one. -/
structure WrittenTag where
  handle : Option String
  suffix : String
  deriving DecidableEq, Repr

/-- The parts of a document. -/
inductive Token where
  | directive (d : Directive)
  | documentStart
  | documentEnd
  | streamEnd
  | blockSequenceStart
  | blockMappingStart
  | blockEnd
  | flowSequenceStart
  | flowSequenceEnd
  | flowMappingStart
  | flowMappingEnd
  | flowEntry
  | blockEntry
  | key
  | value
  | alias (name : String)
  | anchor (name : String)
  | tag (t : WrittenTag)
  | scalar (text : String) (plain : Bool)
  deriving DecidableEq, Repr

end DepGraph.Yaml
