import Mathlib.Data.List.AList
import Ddns.Library.Text
import Ddns.Publishers.Packet

/-! The mDNS resolver: its table of hosts, its responder and what a querier makes of an answer. -/
namespace Ddns

open Nom

/-- The text `.local` -/
def localText : Name := ['.', 'l', 'o', 'c', 'a', 'l']

/-- An ASCII letter or digit, a hyphen or an underscore. -/
def isServiceByte (byte : UInt8) : Bool :=
  (48 ≤ byte ∧ byte ≤ 57) ∨ (65 ≤ byte ∧ byte ≤ 90) ∨ (97 ≤ byte ∧ byte ≤ 122) ∨ byte = 45 ∨
    byte = 95

def validServiceName (name : Name) : Bool :=
  (Utf8.encode name).length ≤ 253 ∧ localText.isSuffixOf (Text.toAsciiLowercase name) ∧
    (name.splitOn '.').all fun label =>
      label ≠ [] ∧ (Utf8.encode label).length ≤ 63 ∧ (Utf8.encode label).all isServiceByte

section Names

variable [DhttpHome]

/-- The suffix of the overlay is replaced by the service name. -/
def localName (serviceName name : Name) : Name :=
  match DhttpHome.dhttpSuffix.isSuffixOf? name with
  | some stem => stem ++ '.' :: serviceName
  | none => name

/-- The name that a querier asks for. -/
def queryName (serviceName domain : Name) : Name :=
  localName serviceName (Text.toAsciiLowercase (Text.trimEndMatches (· = '.') domain))

def endpointOf : RData → Option EndpointAddr
  | .e endpoint => some endpoint
  | _ => none

/-- The endpoint records that `MdnsProtocol::query` takes from an answer. -/
def queryEndpoints (name : Name) (packet : Packet) : List EndpointAddr :=
  (packet.answers.filter fun answer => answer.name = name).filterMap fun answer =>
    endpointOf answer.data

/-- The table of hosts, under their local names. -/
abbrev HostRecords := AList fun _ : Name => List EndpointAddr

/-- The entries of the table in one order of its iterator. -/
def hostEntries (hosts : HostRecords) : List (Name × List EndpointAddr) :=
  hosts.entries.map fun entry => (entry.1, entry.2)

/-- A resolver that `bind` has made; sockets and tasks are left out. -/
structure MdnsResolver where
  serviceName : Name
  valid : validServiceName serviceName = true
  hosts : HostRecords

end Names

inductive MdnsPublishError [DhttpHome] [SubjectKey] where
  | invalidName
  | identityNameMismatch
  | encode (source : EncodeAuthorityDnsPacketError)

namespace MdnsResolver

variable [DhttpHome]

/-- A resolver as it is bound. -/
def new (serviceName : Name) (valid : validServiceName serviceName = true) : MdnsResolver :=
  ⟨serviceName, valid, ∅⟩

def insertHost (resolver : MdnsResolver) (hostName : Name) (endpoints : List EndpointAddr) :
    MdnsResolver :=
  { resolver with
    hosts := resolver.hosts.insert (localName resolver.serviceName hostName) endpoints }

def removeHost (resolver : MdnsResolver) (hostName : Name) : MdnsResolver :=
  { resolver with hosts := resolver.hosts.erase (localName resolver.serviceName hostName) }

def removeName (resolver : MdnsResolver) (name : Name) : MdnsResolver := resolver.removeHost name

/-- The answer to a query, for the table listed as `entries`. One matching question is enough to
send every host. -/
def respond (resolver : MdnsResolver) (entries : List (Name × List EndpointAddr))
    (query : Packet) : Option Packet :=
  let localNames := resolver.hosts.keys.map (localName resolver.serviceName)
  if query.questions.any fun question => localNames.any fun name => question.name <:+: name then
    some (Packet.answer query.header.id entries)
  else none

variable [SubjectKey] [Crypto]

/-- The checks of `publish_endpoints`, and the records that pass them. -/
def publishRecords (identity : LocalAuthority) (name : Name) (endpoints : List DquicEndpointAddr) :
    Except MdnsPublishError (List EndpointAddr) :=
  if ¬ DhttpHome.validateName name then .error .invalidName
  else if identity.name ≠ name then .error .identityNameMismatch
  else
    match dnsEndpointsForAuthority identity name endpoints with
    | .error source => .error (.encode source)
    | .ok records => .ok records

def publishEndpoints (resolver : MdnsResolver) (identity : LocalAuthority) (name : Name)
    (endpoints : List DquicEndpointAddr) : Except MdnsPublishError Unit × MdnsResolver :=
  match publishRecords identity name endpoints with
  | .error e => (.error e, resolver)
  | .ok records =>
    (.ok (), if records = [] then resolver.removeName name else resolver.insertHost name records)

end MdnsResolver

end Ddns
