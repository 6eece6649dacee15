import AssetCanvas.Json.Container
import AssetCanvas.Json.Spelling

/-!
# Renamed ports

Some ports were renamed when inputs became arrays.  `Migration.renames` lists, for a label,
its legacy ports with their current names; `Migration.current` is the current name of a
port, and `Migration.migrate` renames the ports of a map from ports to sources.  Where a
legacy port and its replacement are both connected, the replacement is kept.
-/

namespace AssetCanvas.Migration

/-- The renames of the inputs of a sum. -/
def pairRenames : List (String × String) := [("InputA", "Inputs[0]"), ("InputB", "Inputs[1]")]

/-- The labels whose ports were renamed, with the current names of their legacy ports. -/
def table : List (String × List (String × String)) :=
  [("Sum", pairRenames),
    ("Curve:Blend", pairRenames),
    ("Material:NoiseSelectorMaterial", pairRenames),
    ("Material:NoiseSelector", pairRenames)]

/-- The current names of the legacy ports of a label. -/
def renames (label : String) : List (String × String) := (Entries.find? table label).getD []

/-- The current name of a port. -/
def current (label port : String) : String := (Entries.find? (renames label) port).getD port

/-- The current name of a legacy port of a label; none for the other ports. -/
def replacement? (label : String) (port : Key) : Option String :=
  port.text?.bind (Entries.find? (renames label))

/-- The current name of a port of any kind. -/
def currentOf (label : String) (port : Key) : Json :=
  match replacement? label port with
  | some current => .str current
  | none => port.toJson

/-- The warning for a legacy port that was renamed. -/
def movedMessage (place port current : String) : String :=
  s!"Port migrated on {place}: '{port}' -> '{current}'"

/-- The warning for a legacy port whose replacement is connected. -/
def droppedMessage (place port current : String) : String :=
  s!"Legacy port '{port}' on {place} dropped: '{current}' already connected"

section Maps

variable {σ : Type}

/-- A map from ports to sources with the warnings so far. -/
abbrev Migrated (σ : Type) := List (Key × σ) × List String

/-- The map and the warnings after one legacy port with its current name. -/
def moveLegacy (place : String) (state : Migrated σ) (port current : String) (source : σ) :
    Migrated σ :=
  if Entries.contains state.1 current then
    (state.1, state.2 ++ [droppedMessage place port current])
  else
    (Entries.insert state.1 current source, state.2 ++ [movedMessage place port current])

/-- The map of current ports and the warnings, from a map of ports to sources. -/
def migrate (label : String) (ports : List (Key × σ)) (context : String) : Migrated σ :=
  let place := if context = "" then label else context
  let kept := ports.filter fun entry => (replacement? label entry.1).isNone
  ports.foldl
    (fun state entry =>
      match replacement? label entry.1 with
      | none => state
      | some current => moveLegacy place state entry.1.spelling current entry.2)
    (kept, [])

/-- The migration for a label of any kind; a label that is no text has no legacy ports. -/
def migrateUnder (label : Json) (ports : List (Key × σ)) (context : String) :
    Except Fault (Migrated σ) := do
  match (← label.key).text? with
  | some name => return migrate name ports context
  | none => return (ports, [])

end Maps

/-- The current name of a port for a label and a port of any kind. -/
def currentValue (label port : Json) : Except Fault Json := do
  let label ← label.key
  let key ← port.key
  return match label.text? with
    | some name => currentOf name key
    | none => port

end AssetCanvas.Migration
