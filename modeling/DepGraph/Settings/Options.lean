import DepGraph.Keyed
import DepGraph.Value.Entries
import DepGraph.Value.Render
import DepGraph.Text.Quoted

/-!
# Options of a resolution

`Options.ofValue` reads the options from a mapping, collecting a `Problem` for everything that does
not fit: truth values may be given as numbers or words, lists must hold texts, and the keys of the
typings must be texts. `Options.ofSettings` takes the mapping from the `resolver` section.
-/

set_option autoImplicit false

namespace DepGraph

/-- Options that the resolution of every file consults. -/
structure Options where
  /-- Whether bare reference paths are resolved as modules. -/
  resolveAmbientRefs : Bool := false
  /-- Specifiers that may be looked up among the typings packages. -/
  types : List String := []
  /-- Typings given for a package, in place of what its descriptor says. -/
  typings : List (String × Value) := []
  deriving DecidableEq, Repr, Inhabited

namespace Options

/-- The kinds of value that do not fit. -/
inductive ProblemKind where
  | notAMapping
  | notATruthValue
  | unreadableTruthValue
  | notAList
  | notAText
  | undecodableText
  | notADictionary
  deriving DecidableEq, Repr

/-- A value that does not fit, and the path to it. -/
structure Problem where
  kind : ProblemKind
  place : List String
  deriving DecidableEq, Repr

/-- The code of a kind of problem. -/
def ProblemKind.code : ProblemKind → String
  | notAMapping => "model_type"
  | notATruthValue => "bool_type"
  | unreadableTruthValue => "bool_parsing"
  | notAList => "list_type"
  | notAText => "string_type"
  | undecodableText => "string_unicode"
  | notADictionary => "dict_type"

/-- The wording of a kind of problem. -/
def ProblemKind.message : ProblemKind → String
  | notAMapping => "Input should be a valid dictionary or instance of ResolverOptions"
  | notATruthValue => "Input should be a valid boolean"
  | unreadableTruthValue => "Input should be a valid boolean, unable to interpret input"
  | notAList => "Input should be a valid list"
  | notAText => "Input should be a valid string"
  | undecodableText =>
    "Input should be a valid string, unable to parse raw data as a unicode string"
  | notADictionary => "Input should be a valid dictionary"

/-! ## Truth values -/

def falseWords : List String := ["0", "off", "f", "false", "n", "no"]
def trueWords : List String := ["1", "on", "t", "true", "y", "yes"]

/-- A word for a truth value, in any case of the ASCII letters. -/
def truthOfWord (s : String) : Except ProblemKind Bool :=
  let word := String.ofList (s.toList.map Char.toLower)
  if falseWords.contains word then .ok false
  else if trueWords.contains word then .ok true
  else .error .unreadableTruthValue

/-- One and zero are truth values, no other number is. -/
def truthOfNumber (n : Int) : Except ProblemKind Bool :=
  if n = 0 then .ok false else if n = 1 then .ok true else .error .unreadableTruthValue

/-- The bound of signed words of 64 bits. -/
def wordBound : Int := 9223372036854775808

/-- Reads a truth value. Numbers have to be whole and to fit a signed word of 64 bits. -/
def readTruth : Value → Except ProblemKind Bool
  | .bool b => .ok b
  | .int i => if -wordBound ≤ i ∧ i < wordBound then truthOfNumber i else .error .notATruthValue
  | .real r =>
    match r.toInt? with
    | some n => if -wordBound < n ∧ n < wordBound then truthOfNumber n else .error .notATruthValue
    | none => .error .notATruthValue
  | .text s => truthOfWord s
  | .scalar (.bytes content) =>
    match String.fromUTF8? ⟨content.toArray⟩ with
    | some s => truthOfWord s
    | none => .error .unreadableTruthValue
  | _ => .error .notATruthValue

/-! ## Texts -/

/-- Reads a text; octets count as the text they encode. -/
def readText : Scalar → Except ProblemKind String
  | .text s => .ok s
  | .bytes content =>
    match String.fromUTF8? ⟨content.toArray⟩ with
    | some s => .ok s
    | none => .error .undecodableText
  | _ => .error .notAText

/-- Reads the items of a list of texts, numbering them from `i`. -/
def readTexts (field : String) (i : Nat) : List Value → List Problem × List String
  | [] => ([], [])
  | v :: rest =>
    let (problems, texts) := readTexts field (i + 1) rest
    let item := match v with
      | .scalar s => readText s
      | _ => .error .notAText
    match item with
    | .ok s => (problems, s :: texts)
    | .error kind => (⟨kind, [field, toString i]⟩ :: problems, texts)

/-- The elements of a list or a set. -/
def itemsOf? : Value → Option (List Value)
  | .list items => some items
  | .set members => some (members.map .scalar)
  | _ => none

/-! ## The fields -/

/-- A key as part of a path: truth values as numbers, texts as they are. -/
def keyPlace : Scalar → String
  | .bool b => if b then "1" else "0"
  | .text s => s
  | s => s.render

/-- Reads the typings: any values, under keys that are texts. -/
def readTypings : List (String × Value) → List (Scalar × Value) →
    List Problem × List (String × Value)
  | acc, [] => ([], acc)
  | acc, (k, v) :: rest =>
    match readText k with
    | .ok name => readTypings (Keyed.put name v acc) rest
    | .error kind =>
      let (problems, typings) := readTypings acc rest
      (⟨kind, ["typings", keyPlace k, "[key]"]⟩ :: problems, typings)

/-- The spelling under which the first option is given; the camel-case one wins. -/
def ambientKey? (entries : Entries) : Option String :=
  if (entries.field? "resolveAmbientRefs").isSome then some "resolveAmbientRefs"
  else if (entries.field? "resolve_ambient_refs").isSome then some "resolve_ambient_refs"
  else none

def readAmbient (entries : Entries) : List Problem × Bool :=
  match ambientKey? entries with
  | none => ([], false)
  | some key =>
    match readTruth ((entries.field? key).getD .null) with
    | .ok b => ([], b)
    | .error kind => ([⟨kind, [key]⟩], false)

def readTypes (entries : Entries) : List Problem × List String :=
  match entries.field? "types" with
  | none => ([], [])
  | some v =>
    match itemsOf? v with
    | some items => readTexts "types" 0 items
    | none => ([⟨.notAList, ["types"]⟩], [])

def readTypingsField (entries : Entries) : List Problem × List (String × Value) :=
  match entries.field? "typings" with
  | none => ([], [])
  | some (.map given) => readTypings [] given
  | some _ => ([⟨.notADictionary, ["typings"]⟩], [])

/-- Reads the options from the entries of a mapping. Fields that are not given keep their
defaults, unknown fields are ignored. -/
def ofEntries (entries : Entries) : Except (List Problem) Options :=
  let (ambientProblems, ambient) := readAmbient entries
  let (typesProblems, types) := readTypes entries
  let (typingsProblems, typings) := readTypingsField entries
  match ambientProblems ++ typesProblems ++ typingsProblems with
  | [] => .ok ⟨ambient, types, typings⟩
  | problems => .error problems

/-- Reads the options from a value, which has to be a mapping. -/
def ofValue : Value → Except (List Problem) Options
  | .map entries => ofEntries entries
  | _ => .error [⟨.notAMapping, []⟩]

/-- Reads the options from the `resolver` section of settings; a section that does not count as
given is an empty one. -/
def ofSettings (settings : Entries) : Except (List Problem) Options :=
  match settings.field? "resolver" with
  | some v => if v.truthy then ofValue v else .ok {}
  | none => .ok {}

/-- The typings configured for a package. -/
def typingsFor (o : Options) (package : String) : Option Value := o.typings.lookup package

/-- The message that options leave in the log once they are loaded. -/
def report (o : Options) : String :=
  let names := (o.typings.map (·.1)).mergeSort fun a b => decide (a ≤ b)
  "[config] resolve_ambient_refs=" ++ (if o.resolveAmbientRefs then "True" else "False") ++
    " types=" ++ Text.quoteList o.types ++ " typings=" ++ Text.quoteList names

end Options

end DepGraph
