import Highlight.Text.Source

/-! Guards: checks on a begin match before its mode is entered. -/
namespace Highlight

/-- A begin match: the whole text and the positions between which the match lies. -/
structure BeginMatch where
  text : Source
  start : Nat
  stop : Nat

namespace BeginMatch

def lexeme (m : BeginMatch) : String := m.text.slice m.start m.stop
def before? (m : BeginMatch) : Option Char := m.text.charBefore? m.start
def after? (m : BeginMatch) : Option Char := m.text.charAt? m.stop

end BeginMatch

/-- What to do with a begin match. -/
inductive Verdict where
  /-- Enter the mode. -/
  | accept
  /-- Try the remaining rules at the same spot. -/
  | ignore
  /-- Keep the lexeme as text of the current mode. -/
  | abort
  deriving DecidableEq, Repr

inductive BeginGuard where
  /-- Ignore matches that touch a dot on either side. -/
  | noSurroundingDot
  | custom (check : BeginMatch → Verdict)

namespace BeginGuard

def check : BeginGuard → BeginMatch → Verdict
  | noSurroundingDot, m =>
    if m.before? = some '.' || m.after? = some '.' then .ignore else .accept
  | custom check, m => check m

/-- Whether a guard is the built-in one. -/
def isBuiltIn : BeginGuard → Bool
  | noSurroundingDot => true
  | custom _ => false

end BeginGuard
end Highlight
