import AnnotationScene.Json.Parser

/-!
# Collector settings

Two switches, each with a default, read from JSON or from TOML. Unknown and repeated keys are
refused in both.
-/

namespace AnnotationScene

structure CollectorConfig where
  /-- Definitions of meta-annotations are collected too. -/
  includeMeta : Bool := false
  /-- Every value is checked against the merged definition of its annotation. -/
  verify : Bool := true
deriving DecidableEq, Repr

inductive ConfigKey
  | includeMeta
  | verify
deriving DecidableEq

def ConfigKey.name : ConfigKey → String
  | .includeMeta => "include_meta_annotations"
  | .verify => "verify_unification"

def ConfigKey.ofName? (name : String) : Option ConfigKey :=
  [ConfigKey.includeMeta, ConfigKey.verify].find? (·.name = name)

namespace CollectorConfig

def set (config : CollectorConfig) (key : ConfigKey) (value : Bool) : CollectorConfig :=
  match key with
  | .includeMeta => { config with includeMeta := value }
  | .verify => { config with verify := value }

/-- The defaults, with the settings given. No key may be set twice. -/
def ofSettings? (settings : List (ConfigKey × Bool)) : Option CollectorConfig :=
  if (settings.map (·.1)).Nodup then
    some (settings.foldl (fun config s => config.set s.1 s.2) {})
  else none

def settingOfField? (field : Option String × Json) : Option (ConfigKey × Bool) := do
  let key ← ConfigKey.ofName? (← field.1)
  return (key, ← field.2.bool?)

/-- A list gives the settings in the order of the keys, and may end early. -/
def ofJson? : Json → Option CollectorConfig
  | .object fields => (fields.mapM settingOfField?).bind ofSettings?
  | .list items => do
    let values ← items.mapM Json.bool?
    if 2 < values.length then none
    else ofSettings? ([ConfigKey.includeMeta, ConfigKey.verify].zip values)
  | _ => none

def parseJson? (text : String) : Option CollectorConfig := (Json.parse? text).bind ofJson?

end CollectorConfig

end AnnotationScene
