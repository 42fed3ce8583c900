import Interaction.Build.Config
import Interaction.Text.Blank
import Interaction.Yaml.Document

/-!
# Configurations as text

A configuration is a YAML mapping. Every field may be left out, and an empty text is the default
configuration. A configuration without any fetches at a time or with a blank network name is
refused.
-/

namespace Interaction

namespace Config

inductive Fault where
  | malformed
  | noFetches
  | blankNetwork
  | missingFile (path : String)
  deriving DecidableEq, Repr

def Fault.message : Fault → String
  | malformed => "CONFIG/" ++ Yaml.fault
  | noFetches => "CONFIG/max_concurrent_fetches must be at least 1"
  | blankNetwork => "CONFIG/empty network name"
  | missingFile path => s!"CONFIG/failed to read {path}: No such file or directory (os error 2)"

def formatName : Format → String
  | .keyed => "v1"
  | .listed => "v2"

def formatOfName? (name : String) : Option Format :=
  if name = "v1" then some .keyed
  else if name = "v2" then some .listed
  else none

open Yaml (Node)

def fields : List (Node.Field Config) := [
  { key := "format"
    put? := fun node config => do
      let format ← formatOfName? (← node.text?)
      return { config with format := format } },
  { key := "networks"
    put? := fun node config => node.texts?.map fun names => { config with networks := names } },
  { key := "max_concurrent_fetches"
    put? := fun node config => node.natural?.map fun n => { config with fetchLimit := n } },
  { key := "build_timeout_secs"
    put? := fun node config =>
      if node.isNull then some { config with timeout := none }
      else node.natural?.map fun n => { config with timeout := some n } },
  { key := "contracts"
    put? := fun node config =>
      (node.table? (Node.table? Node.text?)).map fun found => { config with contracts := found } }]

/-- Refuses a configuration that cannot be built with. -/
def validate (config : Config) : Except Fault Config :=
  if config.fetchLimit = 0 then .error .noFetches
  else if config.networks.any fun name => Text.trim name == "" then .error .blankNetwork
  else .ok config

def parse (text : String) : Except Fault Config :=
  match (Yaml.parse? text).bind (Node.record? fields {}) with
  | some config => validate config
  | none => .error .malformed

end Config

end Interaction
