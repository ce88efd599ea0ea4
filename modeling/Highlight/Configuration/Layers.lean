import Highlight.Configuration.KeyPath
import Highlight.Configuration.Toml.Document
import Highlight.Settings

/-!
Layered configurations: the defaults, documents laid over them in order, and single keys that
override them all.
-/
namespace Highlight.Configuration

/-- Why settings cannot be had from a configuration. -/
inductive ConfigurationError where
  | missingFile (path : String)
  | badDocument (reason : Toml.TomlError)
  | badKey (key : String)
  | wrongType (key expected : String)
  deriving DecidableEq, Repr

def ConfigurationError.message : ConfigurationError → String
  | missingFile path => s!"configuration file \"{path}\" not found"
  | badDocument _ => "the configuration file is not valid TOML"
  | badKey key => s!"'{key}' does not name a setting"
  | wrongType key expected => s!"invalid type for key '{key}', expected {expected}"

/-- The defaults. -/
def defaults : Value :=
  .table [("safe_mode",.boolean true),("class_prefix",.text "hljs-"),("use_br",.boolean false)]

/-- A field of a document, under a key that may spell out a place. -/
def setDocumentField (root : Value) (key : String) (v : Value) : Value :=
  root.set ((KeyPath.ofString? key).getD { first := key }) v

/-- Lay a document over a configuration. -/
def layer (root : Value) (document : String) : Except ConfigurationError Value :=
  match Toml.read document with
  | .ok fields => .ok (fields.foldl (fun root (key,v) => setDocumentField root key v) root)
  | .error reason => .error (.badDocument reason)

/-- Set a single key. -/
def override (root : Value) (key : String) (v : Value) : Except ConfigurationError Value :=
  match KeyPath.ofString? key with
  | some path => .ok (root.set path v)
  | none => .error (.badKey key)

/-- A setting, or its default if there is none. -/
def setting {α : Type} (root : Value) (key expected : String) (read : Value → Option α)
    (fallback : α) : Except ConfigurationError α :=
  match root.fields.lookup key with
  | none => .ok fallback
  | some v =>
    match read v with
    | some a => .ok a
    | none => .error (.wrongType key expected)

/-- Read a setting that may be absent. -/
def orAbsent {α : Type} (read : Value → Option α) : Value → Option (Option α)
  | .absent => some none
  | v => (read v).map some

/-- The settings that a configuration comes to. Keys that are not settings do not matter. -/
def settings (root : Value) : Except ConfigurationError Settings := do
  let base : Settings := {}
  return {
    safeMode := ← setting root "safe_mode" "a boolean" Value.asBoolean? base.safeMode
    classPrefix := ← setting root "class_prefix" "a string" Value.asText? base.classPrefix
    tabReplacement := ← setting root "tab_replace" "a string" (orAbsent Value.asText?) none
    breakTags := ← setting root "use_br" "a boolean" Value.asBoolean? base.breakTags
    languages := ← setting root "languages" "a list" (orAbsent Value.asTexts?) none }

/-- The settings that documents and single keys give, laid over the defaults in that order. -/
def load (documents : List String) (overrides : List (String × Value)) :
    Except ConfigurationError Settings := do
  let root ← documents.foldlM layer defaults
  let root ← overrides.foldlM (fun root (key,v) => override root key v) root
  settings root

end Highlight.Configuration
