/-! What a user may set. -/
namespace Highlight

structure Settings where
  /-- Fall back to plain text where a scan runs into a fault. -/
  safeMode : Bool := true
  /-- Put before every class in markup. -/
  classPrefix : String := "hljs-"
  /-- Replaces tabs in the indentation of markup. -/
  tabReplacement : Option String := none
  /-- Whether line feeds in markup become line break tags. -/
  breakTags : Bool := false
  /-- The grammars that detection tries when a call names none. -/
  languages : Option (List String) := none
  deriving DecidableEq, Repr

end Highlight
