/-!
# Configuration

The settings of the lambda checks, read from named values. A setting that is left out has its
default, a setting of the wrong kind makes the whole configuration invalid, and unknown names are
passed over.
-/

namespace LambdaTyping

/-- The settings of the lambda checks. -/
structure Config where
  /-- The message for a target that is not an interface. -/
  notInterfaceMessage : String
  /-- Whether the candidates of a class are kept between checks. -/
  memoizeCandidates : Bool
  /-- Whether a wildcard argument that the functional method leaves open is an error. -/
  reportUnresolved : Bool
  deriving DecidableEq

namespace Config

/-- The message for a target that is not an interface, unless the configuration gives another. -/
def defaultNotInterfaceMessage : String :=
  "Target type of a lambda conversion must be an interface"

/-- The configuration in which every setting is left out. -/
def default : Config where
  notInterfaceMessage := defaultNotInterfaceMessage
  memoizeCandidates := true
  reportUnresolved := true

instance : Inhabited Config := ⟨default⟩

/-- The value given for a setting. -/
inductive Value where
  | text (s : String)
  | flag (b : Bool)
  | other
  deriving DecidableEq

/-- Change one setting; `none` if the value is of the wrong kind for it. -/
def set? (c : Config) : String → Value → Option Config
  | "not_interface_message", .text s => some { c with notInterfaceMessage := s }
  | "memoize_candidates", .flag b => some { c with memoizeCandidates := b }
  | "report_unresolved_type_arguments", .flag b => some { c with reportUnresolved := b }
  | "not_interface_message", _ | "memoize_candidates", _
  | "report_unresolved_type_arguments", _ => none
  | _, _ => some c

/-- The configuration that some settings give. -/
def ofSettings? (settings : List (String × Value)) : Option Config :=
  settings.foldlM (fun c s => c.set? s.1 s.2) default

/-- Every setting of the configuration by name. -/
def settings (c : Config) : List (String × Value) :=
  [("not_interface_message", .text c.notInterfaceMessage),
    ("memoize_candidates", .flag c.memoizeCandidates),
    ("report_unresolved_type_arguments", .flag c.reportUnresolved)]

/-- A description of the values that make a configuration. -/
structure Schema where
  /-- The names of the settings, in alphabetical order. -/
  names : List String
  /-- Whether other names belong in a configuration; reading passes them over all the same. -/
  othersAllowed : Bool
  deriving DecidableEq

/-- The description of configurations. -/
def schema : Schema where
  names := (default.settings.map Prod.fst).mergeSort
  othersAllowed := false

/-- Writing all settings out and reading them again gives the configuration back. -/
theorem ofSettings?_settings (c : Config) : ofSettings? c.settings = some c := rfl

end Config

end LambdaTyping
