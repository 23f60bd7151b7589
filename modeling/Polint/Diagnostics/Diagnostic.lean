import Polint.Base.Fnv

/-!
# Diagnostics

Diagnostics and the fingerprints made from them.
-/

namespace Polint

/-- How severe a diagnostic is. -/
inductive Severity
  | info
  | warn
  | error
  deriving DecidableEq, Repr, Inhabited

/-- The name of a severity. -/
def Severity.toText : Severity → Text
  | info => "info".toList
  | warn => "warn".toList
  | error => "error".toList

/-- A range of lines and columns. -/
structure TextRange where
  startLine : Nat
  startCol : Nat
  endLine : Nat
  endCol : Nat
  deriving DecidableEq, Repr, Inhabited

/-- A range that belongs to a diagnostic, with a remark. -/
structure Label where
  range : TextRange
  message : Text
  deriving DecidableEq, Repr, Inhabited

/-- A labelled value behind a diagnostic. -/
structure Evidence where
  label : Text
  value : Text
  deriving DecidableEq, Repr, Inhabited

/-- A proposed change. -/
structure Fix where
  message : Text
  replacement : Option Text
  deriving DecidableEq, Repr, Inhabited

/-- A finding of a rule.  Suggestions are given by their messages, and
structured evidence by the text of its value. -/
structure Diagnostic where
  ruleId : Text
  severity : Severity
  file : Text
  range : TextRange
  message : Text
  labels : List Label
  help : Option Text
  evidence : List Evidence
  evidenceV1 : Option Text := none
  evidenceBundle : Option Nat := none
  suggestions : List Text
  fix : Option Fix
  stableFingerprint : Text
  deriving DecidableEq, Repr, Inhabited

/-! ## Fingerprints -/

/-- The hash of a list of texts, each closed by a byte that no text holds. -/
def fingerprint (parts : List Text) : Text :=
  Fnv.hashParts 0xff (parts.map (·.flatMap String.utf8EncodeChar))

/-- What the default fingerprint of a diagnostic is made from. -/
def diagnosticParts
    (ruleId file : Text) (range : TextRange) (message : Text) : List Text :=
  [ruleId, file, Text.ofNat range.startLine, Text.ofNat range.startCol,
    Text.ofNat range.endLine, Text.ofNat range.endCol, message]

/-- The fingerprint of a diagnostic that was given none. -/
def diagnosticFingerprint
    (ruleId file : Text) (range : TextRange) (message : Text) : Text :=
  fingerprint (diagnosticParts ruleId file range message)

end Polint
