import FhServer.GoJson
import FhServer.OrderedMap

namespace FhServer.Audit
open GoBytes GoJson

-- A time as json.Marshal sees it: it has a text in the years 0 to 9999.
structure Time where
  isZero : Bool
  text : Option Bytes

-- Any Go value as json.Marshal sees it: its text, or none where it is refused.
structure Value where
  text : Option Bytes
deriving DecidableEq

def Value.string (b : Bytes) : Value := ⟨some (quote b)⟩

abbrev Metadata := OrderedMap Bytes Value

structure AuditEvent where
  id : Bytes := []
  time : Time
  requestID : Bytes := []
  correlationID : Bytes := []
  tenantID : Bytes := []
  actorID : Bytes := []
  actorType : Bytes := []
  action : Bytes := []
  resource : Bytes := []
  resourceID : Bytes := []
  result : Bytes := []
  reason : Bytes := []
  method : Bytes := []
  path : Bytes := []
  ip : Bytes := []
  dataClass : Bytes := []
  dataCategories : List Bytes := []
  metadata : Metadata := {}

def commas (parts : List Bytes) : Bytes := [44].intercalate parts

def field (name : String) (text : Bytes) : Bytes := quote (ascii name) ++ [58] ++ text

def omitEmpty (name : String) (value : Bytes) : List Bytes := if value = [] then [] else [field name (quote value)]

def metadataText (m : Metadata) : Option (List Bytes) := m.entries.mapM fun e => e.2.text.map fun text => quote e.1 ++ [58] ++ text

def AuditEvent.marshal (e : AuditEvent) : Option Bytes :=
  match e.time.text,metadataText e.metadata with
  | some time,some entries =>
    some ([123] ++ commas ([field "id" (quote e.id),field "time" (quote time)] ++ omitEmpty "request_id" e.requestID ++
      omitEmpty "correlation_id" e.correlationID ++ omitEmpty "tenant_id" e.tenantID ++ omitEmpty "actor_id" e.actorID ++
      omitEmpty "actor_type" e.actorType ++ [field "action" (quote e.action)] ++ omitEmpty "resource" e.resource ++
      omitEmpty "resource_id" e.resourceID ++ omitEmpty "result" e.result ++ omitEmpty "reason" e.reason ++ omitEmpty "method" e.method ++
      omitEmpty "path" e.path ++ omitEmpty "ip" e.ip ++ omitEmpty "data_class" e.dataClass ++
      (if e.dataCategories = [] then [] else [field "data_categories" ([91] ++ commas (e.dataCategories.map quote) ++ [93])]) ++
      (if entries = [] then [] else [field "metadata" ([123] ++ commas entries ++ [125])])) ++ [125])
  | _,_ => none

theorem AuditEvent.marshal_head {e : AuditEvent} (marshalled : e.marshal = some text) : text.head? = some 123 := by
  unfold AuditEvent.marshal at marshalled
  split at marshalled
  · cases marshalled
    rfl
  · cases marshalled

def noon : Time := ⟨false,some (ascii "2026-01-02T12:00:00Z")⟩
end FhServer.Audit
