import Ddns.Core.Certificate
import Ddns.Core.Varint

/-! Endpoint address records: flags, optional fields, and the legacy layouts. -/
namespace Ddns

open Nom BigEndian

structure SocketAddrV4 where
  ip : UInt32
  port : UInt16
  deriving DecidableEq

structure SocketAddrV6 where
  ip : BitVec 128
  port : UInt16
  flowinfo : UInt32
  scopeId : UInt32
  deriving DecidableEq

inductive SocketAddr where
  | v4 (addr : SocketAddrV4)
  | v6 (addr : SocketAddrV6)
  deriving DecidableEq

def SocketAddr.isV6 : SocketAddr → Bool
  | v4 _ => false
  | v6 _ => true

/-- An endpoint as the transport sees it. -/
inductive DquicEndpointAddr where
  | direct (addr : SocketAddr)
  | mediate (agent outer : SocketAddr)
  deriving DecidableEq

structure EndpointSignature where
  scheme : UInt16
  signature : List UInt8
  deriving DecidableEq

/-- An E record. `load` is kept as the bits of the float, as its equality compares them. -/
structure EndpointAddr [DhttpHome] where
  flags : UInt8
  sequence : Option CertificateSequence
  load : Option UInt32
  signature : Option EndpointSignature
  primary : SocketAddr
  agent : Option SocketAddr
  deriving DecidableEq

def putSocketAddrV4 (addr : SocketAddrV4) : List UInt8 := putWord addr.port ++ putWord addr.ip

/-- The flow label and the scope are not written. -/
def putSocketAddrV6 (addr : SocketAddrV6) : List UInt8 := putWord addr.port ++ putWord addr.ip

def putSocketAddr : SocketAddr → List UInt8
  | .v4 addr => putSocketAddrV4 addr
  | .v6 addr => putSocketAddrV6 addr

def beSocketAddrV4 (input : Slice) : IResult SocketAddrV4 :=
  (beU16 input).andThen fun remain port => (beU32 remain).map fun ip => ⟨ip, port⟩

def beSocketAddrV6 (input : Slice) : IResult SocketAddrV6 :=
  (beU16 input).andThen fun remain port => (beU128 remain).map fun ip => ⟨ip, port, 0, 0⟩

/-- The address of the family that the flags announce. -/
def beSocketAddr (isIpv6 : Bool) (input : Slice) : IResult SocketAddr :=
  if isIpv6 then (beSocketAddrV6 input).map .v6 else (beSocketAddrV4 input).map .v4

namespace EndpointAddr

def flagFamily : UInt8 := 0b1000_0000
def flagMain : UInt8 := 0b0100_0000
def flagClustered : UInt8 := 0b0010_0000
def flagNat : UInt8 := 0b0001_0000
def flagLoad : UInt8 := 0b0000_1000
def flagSigned : UInt8 := 0b0000_0001

variable [DhttpHome]

def directV4 (addr : SocketAddrV4) : EndpointAddr := ⟨0, none, none, none, .v4 addr, none⟩

def directV6 (addr : SocketAddrV6) : EndpointAddr :=
  ⟨flagFamily, none, none, none, .v6 addr, none⟩

def natV4 (outer agent : SocketAddrV4) : EndpointAddr :=
  ⟨flagNat, none, none, none, .v4 outer, some (.v4 agent)⟩

def natV6 (outer agent : SocketAddrV6) : EndpointAddr :=
  ⟨flagFamily ||| flagNat, none, none, none, .v6 outer, some (.v6 agent)⟩

def isIpv6 (e : EndpointAddr) : Bool := e.flags &&& flagFamily ≠ 0
def isNat (e : EndpointAddr) : Bool := e.flags &&& flagNat ≠ 0
def isClustered (e : EndpointAddr) : Bool := e.flags &&& flagClustered ≠ 0
def isLoad (e : EndpointAddr) : Bool := e.flags &&& flagLoad ≠ 0
def isMain (e : EndpointAddr) : Bool := e.flags &&& flagMain = flagMain
def isSigned (e : EndpointAddr) : Bool := e.flags &&& flagSigned = flagSigned

/-- Sets or clears one flag. -/
def setFlag (e : EndpointAddr) (flag : UInt8) (on : Bool) : EndpointAddr :=
  { e with flags := if on then e.flags ||| flag else e.flags &&& ~~~flag }

def setMain (e : EndpointAddr) (isMain : Bool) : EndpointAddr := e.setFlag flagMain isMain

def setSigned (e : EndpointAddr) (isSigned : Bool) : EndpointAddr := e.setFlag flagSigned isSigned

/-- Clearing the flag also clears the sequence. -/
def setClustered (e : EndpointAddr) (clustered : Bool) : EndpointAddr :=
  if clustered then e.setFlag flagClustered true
  else { e.setFlag flagClustered false with sequence := none }

def setLoad (e : EndpointAddr) (load : Option UInt32) : EndpointAddr :=
  ({ e with load := load } : EndpointAddr).setFlag flagLoad load.isSome

def setSequence (e : EndpointAddr) (sequence : CertificateSequence) : EndpointAddr :=
  if 0 < sequence.get then ({ e with sequence := some sequence } : EndpointAddr).setClustered true
  else ({ e with sequence := none } : EndpointAddr).setClustered false

def normalizedSequence (e : EndpointAddr) : CertificateSequence :=
  e.sequence.getD (CertificateSequence.ofU8 0)

def certificateChainKey (e : EndpointAddr) : CertificateChainKey :=
  if e.isMain then primaryChainKey e.normalizedSequence else secondaryChainKey e.normalizedSequence

/-- The bytes of everything but the signature. -/
def writeBase (e : EndpointAddr) : List UInt8 :=
  [e.flags] ++ (e.sequence.elim [] (fun seq => putVarint (VarInt.fromU32 seq.get)) ++
    (putSocketAddr e.primary ++ (e.agent.elim [] putSocketAddr ++ e.load.elim [] putWord)))

/-- What is signed: everything but the signature, as if it were there already. -/
def signedData (e : EndpointAddr) : List UInt8 :=
  ({ e.setSigned true with signature := none } : EndpointAddr).writeBase

end EndpointAddr

variable [DhttpHome]

/-- The length of a signature, or zero when it does not fit. -/
def signatureLen (signature : List UInt8) : VarInt :=
  (VarInt.tryFrom signature.length).getD (VarInt.fromU32 0)

def putEndpointSignature (sig : EndpointSignature) : List UInt8 :=
  putWord sig.scheme ++ (putVarint (signatureLen sig.signature) ++ sig.signature)

def putEndpointAddr (e : EndpointAddr) : List UInt8 :=
  e.writeBase ++ if e.isSigned then e.signature.elim [] putEndpointSignature else []

/-- The bytes of the addresses that the flags announce. -/
def addrLen : Bool → Bool → ℕ
  | false, false => 2 + 4
  | false, true => (2 + 4) * 2
  | true, false => 2 + 16
  | true, true => (2 + 16) * 2

def EndpointAddr.encpdingSize (e : EndpointAddr) : ℕ :=
  let metaLen := 1 + e.sequence.elim 0 (fun seq => (VarInt.fromU32 seq.get).encodingSize) +
    (if e.load.isSome then 4 else 0) +
    (if e.isSigned then
      e.signature.elim 0 fun sig =>
        2 + (signatureLen sig.signature).encodingSize + sig.signature.length
    else 0)
  metaLen + addrLen e.isIpv6 e.isNat

/-- The sequence field, refused when it is out of range. -/
def beSequence (input : Slice) : IResult CertificateSequence :=
  (beVarint input).andThen fun remain seq =>
    match CertificateSequence.tryFrom seq.val with
    | some sequence => .ok remain sequence
    | none => .err (.failure remain .tooLarge)

/-- Without the flag there must be nothing left to read. Lengths fit into `usize`. -/
def beEndpointSignature (flags : UInt8) (input : Slice) : IResult (Option EndpointSignature) :=
  if flags &&& EndpointAddr.flagSigned ≠ EndpointAddr.flagSigned then
    if input.bytes ≠ [] then .err (.error input .eof) else .ok input none
  else
    (beU16 input).andThen fun remain scheme =>
      (beVarint remain).andThen fun remain sigLen =>
        (take sigLen.val remain).map fun sig => some ⟨scheme, sig.bytes⟩

def beEndpointAddr (input : Slice) : IResult EndpointAddr :=
  (beU8 input).andThen fun remain flags =>
    let isClustered : Bool := flags &&& EndpointAddr.flagClustered ≠ 0
    let isIpv6 : Bool := flags &&& EndpointAddr.flagFamily ≠ 0
    let isNat : Bool := flags &&& EndpointAddr.flagNat ≠ 0
    let hasLoad : Bool := flags &&& EndpointAddr.flagLoad ≠ 0
    (cond isClustered beSequence remain).andThen fun remain sequence =>
      (beSocketAddr isIpv6 remain).andThen fun remain primary =>
        (cond isNat (beSocketAddr isIpv6) remain).andThen fun remain agent =>
          (cond hasLoad beU32 remain).andThen fun remain load =>
            (beEndpointSignature flags remain).map fun signature =>
              ⟨flags, sequence, load, signature, primary, agent⟩

/-- The layouts without flags, told apart by their lengths. -/
def beLegacyEndpointAddrByLength (input : Slice) (rdlen : UInt16) : IResult EndpointAddr :=
  if rdlen = 6 then (beSocketAddrV4 input).map fun addr => EndpointAddr.directV4 addr
  else if rdlen = 12 then
    (beSocketAddrV4 input).andThen fun remain primary =>
      (beSocketAddrV4 remain).map fun agent => EndpointAddr.natV4 primary agent
  else if rdlen = 18 then (beSocketAddrV6 input).map fun addr => EndpointAddr.directV6 addr
  else if rdlen = 36 then
    (beSocketAddrV6 input).andThen fun remain primary =>
      (beSocketAddrV6 remain).map fun agent => EndpointAddr.natV6 primary agent
  else .err (.error input .lengthValue)

/-- A complete modern record is preferred to a legacy one of the same length. -/
def beEndpointAddrCompat (input : Slice) (rdlen : UInt16) : IResult EndpointAddr :=
  if rdlen.toNat ∈ [6, 12, 18, 36] then
    match beEndpointAddr input with
    | .ok remaining endpoint =>
      if remaining.bytes = [] then .ok remaining endpoint
      else beLegacyEndpointAddrByLength input rdlen
    | .err _ => beLegacyEndpointAddrByLength input rdlen
  else beEndpointAddr input

/-- `TryFrom<DquicEndpointAddr>`; mixed families have no record. -/
def EndpointAddr.tryFrom : DquicEndpointAddr → Option EndpointAddr
  | .direct (.v4 addr) => some (.directV4 addr)
  | .direct (.v6 addr) => some (.directV6 addr)
  | .mediate (.v4 agent) (.v4 outer) => some (.natV4 outer agent)
  | .mediate (.v6 agent) (.v6 outer) => some (.natV6 outer agent)
  | _ => none

/-- `TryFrom<EndpointAddr>` -/
def DquicEndpointAddr.tryFrom (value : EndpointAddr) : Option DquicEndpointAddr :=
  match value.agent with
  | some agentAddr =>
    match value.primary, agentAddr with
    | .v4 outer, .v4 agent => some (.mediate (.v4 agent) (.v4 outer))
    | .v6 outer, .v6 agent => some (.mediate (.v6 agent) (.v6 outer))
    | _, _ => none
  | none => some (.direct value.primary)

end Ddns
