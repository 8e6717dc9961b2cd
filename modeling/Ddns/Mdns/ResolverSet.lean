import Ddns.Mdns.Service

/-! The set of mDNS resolvers, one for each binding, and the calls that change it. A call takes
one step for each section under the lock, access to the flag, bind or shutdown of an instance. -/
namespace Ddns

inductive IpAddr where
  | v4 (ip : UInt32)
  | v6 (ip : BitVec 128)
  deriving DecidableEq

structure MdnsBinding where
  device : Name
  ip : IpAddr
  deriving DecidableEq

/-- A resolver that was bound: which one it is, and to what it is bound. -/
structure MdnsInstance where
  id : ℕ
  boundDevice : Name
  boundIp : IpAddr
  deriving DecidableEq

def MdnsInstance.binding (resolver : MdnsInstance) : MdnsBinding :=
  ⟨resolver.boundDevice, resolver.boundIp⟩

inductive MdnsBindError where
  | invalidServiceName
  | bind (device : Name) (ip : IpAddr)
  | closed
  deriving DecidableEq

inductive MdnsShutdownError where
  | taskFailed
  deriving DecidableEq

inductive MdnsReconcileError where
  | bind (binding : MdnsBinding) (source : MdnsBindError)
  | remove (binding : MdnsBinding) (source : MdnsShutdownError)
  deriving DecidableEq

/-- The last two fields are not in the program: all instances that were ever bound, and those
that were shut down. -/
structure MdnsResolverSet where
  serviceName : Name
  resolvers : AList fun _ : MdnsBinding => MdnsInstance
  closed : Bool
  bound : List MdnsInstance
  down : List MdnsInstance

namespace MdnsResolverSet

def new (serviceName : Name) : MdnsResolverSet := ⟨serviceName, ∅, false, [], []⟩

/-- The resolvers in one order of the iterator of the map. -/
def values (set : MdnsResolverSet) : List MdnsInstance := set.resolvers.entries.map Sigma.snd

/-- `MdnsResolver::bind`; the socket may not be had. -/
def bind (set : MdnsResolverSet) (binding : MdnsBinding) (ok : Bool) :
    Except MdnsBindError MdnsInstance :=
  if ¬ validServiceName set.serviceName then .error .invalidServiceName
  else if ok then .ok ⟨set.bound.length, binding.device, binding.ip⟩
  else .error (.bind binding.device binding.ip)

/-- `MdnsResolver::shutdown`; its tasks are gone even when one of them has failed. -/
def shutDown (set : MdnsResolverSet) (resolver : MdnsInstance) : MdnsResolverSet :=
  { set with down := set.down ++ [resolver] }

end MdnsResolverSet

inductive Race where
  | closed
  | existing (resolver : MdnsInstance)
  deriving DecidableEq

/-- Where a call of `upsert` stands. -/
inductive Upsert where
  | started
  | checking
  | missing
  | bound (candidate : MdnsInstance)
  | lost (candidate : MdnsInstance) (race : Race)
  | returned (result : Except MdnsBindError MdnsInstance)

/-- Where a call of `remove` stands. -/
inductive Remove where
  | started
  | taken (resolver : MdnsInstance)
  | returned (result : Except MdnsShutdownError Bool)

/-- Where a call of `shutdown` stands. -/
inductive Shutdown where
  | started
  | stored
  | closing (resolvers : List MdnsInstance) (error : Option MdnsShutdownError)
  | returned (result : Except MdnsShutdownError Unit)

/-- Where a call of `reconcile` stands: in one of its loops, or in a call of one of them. -/
inductive Reconcile where
  | started
  | removing (resolvers : List MdnsInstance) (errors : List MdnsReconcileError)
  | removingOne (binding : MdnsBinding) (call : Remove) (rest : List MdnsInstance)
    (errors : List MdnsReconcileError)
  | upserting (bindings : List MdnsBinding) (errors : List MdnsReconcileError)
  | upsertingOne (binding : MdnsBinding) (call : Upsert) (rest : List MdnsBinding)
    (errors : List MdnsReconcileError)
  | returned (errors : List MdnsReconcileError)

/-- A step of `upsert`; `ok` says whether a bind or a shutdown succeeds. -/
def Upsert.step (binding : MdnsBinding) (set : MdnsResolverSet) (ok : Bool) :
    Upsert → Option (MdnsResolverSet × Upsert)
  | .started => some (set, if set.closed then .returned (.error .closed) else .checking)
  | .checking =>
    match set.resolvers.lookup binding with
    | some resolver => some (set, .returned (.ok resolver))
    | none => some (set, .missing)
  | .missing =>
    match set.bind binding ok with
    | .error error => some (set, .returned (.error error))
    | .ok candidate => some ({ set with bound := set.bound ++ [candidate] }, .bound candidate)
  | .bound candidate =>
    if set.closed then some (set, .lost candidate .closed)
    else
      match set.resolvers.lookup binding with
      | some existing => some (set, .lost candidate (.existing existing))
      | none =>
        some ({ set with resolvers := set.resolvers.insert binding candidate },
          .returned (.ok candidate))
  | .lost candidate race =>
    if ok then
      match race with
      | .closed => some (set.shutDown candidate, .returned (.error .closed))
      | .existing existing => some (set.shutDown candidate, .returned (.ok existing))
    else some (set.shutDown candidate, .returned (.error (.bind binding.device binding.ip)))
  | .returned _ => none

def Remove.step (binding : MdnsBinding) (set : MdnsResolverSet) (ok : Bool) :
    Remove → Option (MdnsResolverSet × Remove)
  | .started =>
    match set.resolvers.lookup binding with
    | none => some (set, .returned (.ok false))
    | some resolver =>
      some ({ set with resolvers := set.resolvers.erase binding }, .taken resolver)
  | .taken resolver =>
    some (set.shutDown resolver, .returned (if ok then .ok true else .error .taskFailed))
  | .returned _ => none

/-- A step of `shutdown`; the map is drained in some order. -/
def Shutdown.step (set : MdnsResolverSet) (ok : Bool) (order : List MdnsInstance) :
    Shutdown → Option (MdnsResolverSet × Shutdown)
  | .started => some ({ set with closed := true }, .stored)
  | .stored =>
    if order.Perm set.values then some ({ set with resolvers := ∅ }, .closing order none) else none
  | .closing [] error => some (set, .returned (error.elim (.ok ()) .error))
  | .closing (resolver :: rest) error =>
    some (set.shutDown resolver,
      .closing rest (if ok then error else some (error.getD .taskFailed)))
  | .returned _ => none

/-- A step of `reconcile`; the snapshot is taken in some order. -/
def Reconcile.step (desired : List MdnsBinding) (set : MdnsResolverSet) (ok : Bool)
    (order : List MdnsInstance) : Reconcile → Option (MdnsResolverSet × Reconcile)
  | .started => if order.Perm set.values then some (set, .removing order []) else none
  | .removing [] errors => some (set, .upserting desired errors)
  | .removing (resolver :: rest) errors =>
    if resolver.binding ∈ desired then some (set, .removing rest errors)
    else some (set, .removingOne resolver.binding .started rest errors)
  | .removingOne _ (.returned (.ok _)) rest errors => some (set, .removing rest errors)
  | .removingOne binding (.returned (.error source)) rest errors =>
    some (set, .removing rest (errors ++ [.remove binding source]))
  | .removingOne binding call rest errors =>
    (call.step binding set ok).map fun out => (out.1, .removingOne binding out.2 rest errors)
  | .upserting [] errors => some (set, .returned errors)
  | .upserting (binding :: rest) errors =>
    some (set, .upsertingOne binding .started rest errors)
  | .upsertingOne _ (.returned (.ok _)) rest errors => some (set, .upserting rest errors)
  | .upsertingOne binding (.returned (.error source)) rest errors =>
    some (set, .upserting rest (errors ++ [.bind binding source]))
  | .upsertingOne binding call rest errors =>
    (call.step binding set ok).map fun out => (out.1, .upsertingOne binding out.2 rest errors)
  | .returned _ => none

/-- A call on the set; `desired` lists the set of bindings that `reconcile` collects. -/
inductive Operation where
  | upsert (binding : MdnsBinding) (call : Upsert)
  | remove (binding : MdnsBinding) (call : Remove)
  | shutdown (call : Shutdown)
  | reconcile (desired : List MdnsBinding) (call : Reconcile)

def Operation.step (set : MdnsResolverSet) (ok : Bool) (order : List MdnsInstance) :
    Operation → Option (MdnsResolverSet × Operation)
  | .upsert binding call =>
    (call.step binding set ok).map fun out => (out.1, .upsert binding out.2)
  | .remove binding call =>
    (call.step binding set ok).map fun out => (out.1, .remove binding out.2)
  | .shutdown call => (call.step set ok order).map fun out => (out.1, .shutdown out.2)
  | .reconcile desired call =>
    (call.step desired set ok order).map fun out => (out.1, .reconcile desired out.2)

/-- A call that has just been made. -/
def Operation.Starts : Operation → Prop
  | .upsert _ call => call = .started
  | .remove _ call => call = .started
  | .shutdown call => call = .started
  | .reconcile desired call => desired.Nodup ∧ call = .started

/-- The set with all the calls that were ever made on it, in the order in which they began. -/
structure MdnsSystem where
  set : MdnsResolverSet
  operations : List Operation

namespace MdnsSystem

def initial (serviceName : Name) : MdnsSystem := ⟨.new serviceName, []⟩

inductive Step (s : MdnsSystem) : MdnsSystem → Prop
  | call {operation : Operation} (hstarts : operation.Starts) :
    Step s { s with operations := s.operations ++ [operation] }
  | act {before after : List Operation} {operation operation' : Operation}
    {set : MdnsResolverSet} {ok : Bool} {order : List MdnsInstance}
    (hoperation : s.operations = before ++ operation :: after)
    (hstep : operation.step s.set ok order = some (set, operation')) :
    Step s ⟨set, before ++ operation' :: after⟩

end MdnsSystem

end Ddns
