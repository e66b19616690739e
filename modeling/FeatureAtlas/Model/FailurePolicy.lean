import FeatureAtlas.Model.Diagnostic

/-!
The policy that decides from its diagnostics whether a run has failed.
-/

namespace FeatureAtlas

inductive FailurePolicy where
  | error
  | warning
  | never
deriving DecidableEq, Repr, Inhabited

namespace FailurePolicy

def all : List FailurePolicy := [error, warning, never]

def name : FailurePolicy → String
  | error => "error"
  | warning => "warning"
  | never => "never"

def named : List (String × FailurePolicy) := all.map fun value => (value.name, value)

def decoder : Decoder FailurePolicy := .variant named

def threshold? : FailurePolicy → Option Severity
  | error => some .error
  | warning => some .warning
  | never => none

def isFailure (policy : FailurePolicy) (diagnostics : List Diagnostic) : Bool :=
  match policy.threshold? with
  | some threshold => diagnostics.any fun diagnostic => diagnostic.severity.reaches threshold
  | none => false

end FailurePolicy

end FeatureAtlas
