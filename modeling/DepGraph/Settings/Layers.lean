import DepGraph.Settings.Format
import DepGraph.Settings.Merge
import DepGraph.Yaml.Value

/-!
# Layers of settings

Settings are given for three scopes. A file that cannot be opened or is malformed, or that holds
something other than a mapping, is skipped; the mappings of the others are merged, the more specific
scope winning. Whatever else goes wrong ends the loading: looking for a file may fail, and so may
reading and merging.

Main definitions: `Scope`, `File`, `Format.contribution` (what a file gives), `loadOnto` (the loop
over the scopes), `Format.load` (loading in any format); `yaml` (the format in use), `layer` (what
several mappings amount to), `load` (loading with as many calls as merging takes).
-/

set_option autoImplicit false

namespace DepGraph.Settings

/-- The scopes of settings: a user, a project, and one machine. -/
inductive Scope where
  | user
  | project
  | machine
  deriving DecidableEq, Repr

/-- All scopes, the least specific first. -/
def Scope.all : List Scope := [user, project, machine]

/-- What is found where a settings file is looked for. -/
inductive File where
  | absent
  /-- Something that cannot be opened. -/
  | directory
  | content (octets : ByteArray)

/-- Why a file is skipped. -/
inductive SkipReason where
  | unreadable
  | notAMapping
  deriving DecidableEq, Repr

/-! ## Loading -/

/-- What a settings file gives: nothing, a reason to skip it, a mapping, or the end of loading. -/
inductive Contribution (M X : Type) where
  | nothing
  | skipped (reason : SkipReason)
  | entries (es : M)
  | failed (failure : X)

namespace Contribution

variable {M X : Type}

/-- The reason for which a file is skipped, if it is. -/
def skipReason? : Contribution M X → Option SkipReason
  | .skipped reason => some reason
  | _ => none

/-- The settings that come of those of less specific scopes. -/
def onto (merge : M → M → Except X M) (settings : M) : Contribution M X → Except X M
  | .nothing => .ok settings
  | .skipped _ => .ok settings
  | .entries es => merge settings es
  | .failed failure => .error failure

end Contribution

/-- The result of loading: the files that were skipped, in order, and the settings. -/
structure Loaded (M X : Type) where
  skipped : List (Scope × SkipReason) := []
  settings : Except X M

/-- Loads what scopes give onto the settings of less specific ones. -/
def loadOnto {M X : Type} (merge : M → M → Except X M) (settings : M) :
    List (Scope × Contribution M X) → Loaded M X
  | [] => { settings := .ok settings }
  | (scope, contribution) :: rest =>
    match contribution.onto merge settings with
    | .error failure => { settings := .error failure }
    | .ok settings =>
      let loaded := loadOnto merge settings rest
      let skipped := contribution.skipReason?.toList.map fun reason => (scope, reason)
      { loaded with skipped := skipped ++ loaded.skipped }

namespace Format

variable {K V X : Type} (f : Format K V X)

/-- What comes of looking for a settings file. A value that does not count as given is an empty
mapping. -/
def contribution : Except X File → Contribution (List (K × V)) X
  | .error failure => .failed failure
  | .ok .absent => .nothing
  | .ok .directory => .skipped .unreadable
  | .ok (.content octets) =>
    match f.read octets with
    | .malformed => .skipped .unreadable
    | .broken failure => .failed failure
    | .value v =>
      match f.entries? v with
      | some es => .entries es
      | none => if f.given v then .skipped .notAMapping else .entries []

/-- Loads the settings of all scopes. Looking for a file may itself fail, and merging fails when it
has exhausted the calls that may be nested. -/
def load (exhausted : X) (calls : Nat) (looks : Scope → Except X File) : Loaded (List (K × V)) X :=
  loadOnto (f.mergeWithin exhausted calls) []
    (Scope.all.map fun scope => (scope, f.contribution (looks scope)))

end Format

/-! ## The format in use -/

/-- Why loading ends without settings: a file is not text, or a scalar in it does not convert. -/
inductive LoadFailure where
  | undecodable
  | unconvertible (cause : Yaml.Failure)
  deriving DecidableEq, Repr

/-- Documents in YAML that are not nested too deep to be read and no part of which holds itself. -/
def yaml : Format Scalar Value LoadFailure where
  read octets :=
    match String.fromUTF8? octets with
    | none => .broken .undecodable
    | some text =>
      match Yaml.read text with
      | .ok v => .value v
      | .error .malformed => .malformed
      | .error cause => .broken (.unconvertible cause)
  entries? := Value.entries?
  given := Value.truthy
  mapping := .map
  entries?_mapping _ := rfl
  sameKey := Scalar.sameKey

/-- Mappings merged one after the other, the last winning. -/
def layer (layers : List Entries) : Entries := layers.foldl merge []

/-- Loads the settings of all scopes. The values have an end, so there are enough calls to merge
them. -/
def load (files : Scope → File) : Loaded Entries LoadFailure :=
  loadOnto (fun base overlay => .ok (merge base overlay)) []
    (Scope.all.map fun scope => (scope, yaml.contribution (.ok (files scope))))

end DepGraph.Settings
