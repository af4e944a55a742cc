import ControlLoop.Daemon.Error
import ControlLoop.Daemon.Event
import ControlLoop.Loop.Handler
import ControlLoop.Store.Indexed

/-!
# Objects of tenants

What the daemon keeps: objects, each owned by a tenant (`TenantObject`), and an index of their keys
by tenant. An object without a tenant is refused. An event changes the store (`apply`), and a pool
reconciles what has changed (`reconcile`), which succeeds unless the specification of the object
asks for a failure.
-/

namespace ControlLoop

open Json

/-- An object owned by a tenant. -/
structure TenantObject where
  /-- its key -/
  id : Key
  /-- its owner -/
  tenant : String
  /-- what it should be like -/
  spec : Value

namespace TenantObject

/-- The name of the index by tenant. -/
def indexName : String := "tenant"

/-- Files an object under its tenant. -/
def byTenant : IndexFunction TenantObject := fun o =>
  if o.tenant.isEmpty then .error "tenant must not be empty" else .ok [o.tenant]

/-- Does the specification ask for a failure? -/
def asksForFailure (o : TenantObject) : Bool :=
  match o.spec.get? "fail" with
  | some (.bool true) => true
  | _ => false

end TenantObject

/-- The objects of all tenants. -/
abbrev TenantStore := Store TenantObject

namespace TenantStore

/-- A store without objects. -/
def empty : TenantStore := Store.withFunctions ((∅ : Table _).insert TenantObject.indexName TenantObject.byTenant)

/-- Applies an event; returns the key it is about. -/
def apply (s : TenantStore) : Event → Except Refusal (Key × TenantStore)
  | .upsert id tenant spec => do return (id, ← s.add id ⟨id, tenant, spec⟩)
  | .delete id => .ok (id, (s.delete id).2)

/-- Applies the event that a line describes; returns the key it is about. -/
def applyLine (s : TenantStore) (line : String) : Except DaemonError (Key × TenantStore) :=
  match Event.parse? line with
  | none => .error .badInput
  | some event => (s.apply event).mapError .refused

/-- Brings the world in line with the object under a key; a removed object leaves nothing to do. -/
def reconcile (s : TenantStore) (key : Key) : Except HandlerError Unit :=
  match s.get? key with
  | none => .ok ()
  | some o =>
    if o.asksForFailure then .error ⟨"object " ++ key ++ " requested failure"⟩
    else
      match s.indexKeys TenantObject.indexName o.tenant with
      | .ok _ => .ok ()
      | .error e => .error (.ofRefusal e)

end TenantStore

end ControlLoop
