import DepGraph.Specifier.Basic

/-!
# What a run leaves in its log

Every call of an injected function is logged where it is made, and again if it is cancelled while
it waits. Notices are the messages for whoever follows a run; each names the part it comes from.
-/

set_option autoImplicit false

namespace DepGraph

/-- A file of a given name, counting how often a file of that name was added before it. -/
structure FileId where
  name : String
  generation : Nat
  deriving DecidableEq, Repr

/-- Which call is being made: for which file, for which of its specifiers, and how many calls that
specifier has made before. -/
structure Caller where
  file : FileId
  occurrence : Nat
  stage : Nat
  deriving DecidableEq, Repr

/-- A call of an injected function. -/
inductive Call where
  /-- Which address does a specifier of `origin` stand for? -/
  | address (specifier origin : String)
  /-- What does the descriptor of the package at an address say? -/
  | descriptor (address : String)
  /-- What is the text of a file? -/
  | source (name : String)
  deriving DecidableEq, Repr

/-- A message for whoever follows a run. -/
inductive Notice where
  | starting (file : String)
  | resolved (file : String) (dependencies declarations : Nat)
  | overridden (specifier package : String)
  | typesPackage (specifier address : String)
  | extracted (found : Extraction)
  | replacing (file : String)
  | alreadyRegistered (address : String)
  | registered (address : String) (position : Nat)
  | walked (files fresh : Nat)
  deriving DecidableEq, Repr

namespace Notice

/-- The channel on which a notice is given. -/
def channel : Notice → String
  | starting _ | resolved .. | overridden .. | typesPackage .. => "tsdeps.resolver"
  | extracted _ => "tsdeps.preprocess"
  | replacing _ => "tsdeps.host"
  | alreadyRegistered _ | registered .. => "tsdeps.registry"
  | walked .. => "tsdeps.walker"

/-- The wording of a notice. -/
def message : Notice → String
  | starting file => "[resolve] " ++ file ++ " -> starting"
  | resolved file dependencies declarations =>
    "[resolve] " ++ file ++ " -> " ++ toString dependencies ++ " dependencies, " ++
      toString declarations ++ " declarations"
  | overridden specifier package =>
    "[typings] " ++ specifier ++ " -> configured override for " ++ package
  | typesPackage specifier address => "[typings] " ++ specifier ++ " -> @types " ++ address
  | extracted found =>
    "[preprocess] refs=" ++ toString found.fileReferences.length ++
      " types=" ++ toString found.typeReferences.length ++
      " imports=" ++ toString found.imports.length ++
      " ambient=" ++ toString found.ambientModules.length ++
      " lib=" ++ (if found.isLib then "True" else "False")
  | replacing file => "[host] replacing " ++ file
  | alreadyRegistered address => "[declarations] " ++ address ++ " already registered"
  | registered address position =>
    "[declarations] registered " ++ address ++ " (#" ++ toString position ++ ")"
  | walked files fresh =>
    "[walk] resolved " ++ toString files ++ " files, " ++ toString fresh ++ " new"

end Notice

/-- What happens in a run, in the order in which it happens. -/
inductive Event where
  /-- A call made on behalf of a file. -/
  | called (caller : Caller) (call : Call)
  /-- A call made on behalf of a file was cancelled while it waited. -/
  | cancelled (caller : Caller) (call : Call)
  /-- A walk asks for the text of a file. -/
  | fetched (walk : Nat) (call : Call)
  /-- A walk's request was cancelled while it waited. -/
  | fetchCancelled (walk : Nat) (call : Call)
  /-- The specifiers of a file are read off its text. -/
  | extracting (file : FileId) (text : String)
  | notice (n : Notice)
  deriving DecidableEq, Repr

end DepGraph
