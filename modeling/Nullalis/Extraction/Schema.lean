import Nullalis.Base.Bytes

/-!
# What is extracted

Entities, and the edges between them. A confidence is of any type of numbers.
-/

namespace Nullalis.Extraction

inductive EntityType where
  | person
  | place
  | project
  | concept
  | object
  | event
  | organization
deriving DecidableEq

/-- An unknown type is a concept. -/
def EntityType.fromString (s : Bytes) : EntityType :=
  if Bytes.eqlIgnoreCase s (ascii "person") then .person
  else if Bytes.eqlIgnoreCase s (ascii "place") then .place
  else if Bytes.eqlIgnoreCase s (ascii "project") then .project
  else if Bytes.eqlIgnoreCase s (ascii "object") then .object
  else if Bytes.eqlIgnoreCase s (ascii "event") then .event
  else if Bytes.eqlIgnoreCase s (ascii "organization") then .organization
  else .concept

structure Entity where
  name : Bytes
  entity_type : EntityType
deriving DecidableEq

inductive SlotIntent where
  | open_loop
  | active_goal
  | decision
  | preference
  | identity
  | temporal
deriving DecidableEq

/-- There is no intent if it is unknown. -/
def SlotIntent.fromString (s : Bytes) : Option SlotIntent :=
  if Bytes.eqlIgnoreCase s (ascii "open_loop") then some .open_loop
  else if Bytes.eqlIgnoreCase s (ascii "active_goal") then some .active_goal
  else if Bytes.eqlIgnoreCase s (ascii "decision") then some .decision
  else if Bytes.eqlIgnoreCase s (ascii "preference") then some .preference
  else if Bytes.eqlIgnoreCase s (ascii "identity") then some .identity
  else if Bytes.eqlIgnoreCase s (ascii "temporal") then some .temporal
  else none

structure Edge (Number : Type) where
  source_name : Bytes
  target_name : Bytes
  relation_type : Bytes
  fact : Bytes
  slot_intent : Option SlotIntent := none
  confidence : Option Number := none
  valid_at : Option ℤ := none
deriving DecidableEq

structure ExtractionResult (Number : Type) where
  entities : List Entity
  edges : List (Edge Number)
deriving DecidableEq

end Nullalis.Extraction
