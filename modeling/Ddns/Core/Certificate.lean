import Ddns.Core.Name

/-! Certificate sequences and chain keys, over what the certificate crate provides. -/
namespace Ddns

/-- The text `.dhttp.net` -/
def dhttpSuffixText : Name := ['.', 'd', 'h', 't', 't', 'p', '.', 'n', 'e', 't']

/-- What is used of `dhttp_home` and its certificates. -/
class DhttpHome where
  /-- `DHTTP_SUFFIX` -/
  dhttpSuffix : Name
  dhttpSuffix_eq : dhttpSuffix = dhttpSuffixText
  /-- `validate_name` accepts. -/
  validateName : Name → Bool
  /-- `CertificateSequence::MAX` -/
  sequenceMax : UInt32
  /-- `From<u8>` is total. -/
  u8_le_sequenceMax : 255 ≤ sequenceMax.toNat
  /-- `CertificateUsage` -/
  Usage : Type
  usageDecidableEq : DecidableEq Usage
  clientAndServer : Usage
  clientOnly : Usage
  kindFlag : Usage → Name
  kindFlag_clientAndServer : kindFlag clientAndServer = ['0']

/-- The interface with two usages and the smallest range of sequences. -/
@[reducible] def plainHome : DhttpHome where
  dhttpSuffix := dhttpSuffixText
  dhttpSuffix_eq := rfl
  validateName _ := true
  sequenceMax := 255
  u8_le_sequenceMax := le_rfl
  Usage := Bool
  usageDecidableEq := inferInstance
  clientAndServer := false
  clientOnly := true
  kindFlag usage := if usage then ['1'] else ['0']
  kindFlag_clientAndServer := rfl

variable [DhttpHome]

instance : DecidableEq DhttpHome.Usage := DhttpHome.usageDecidableEq

/-- A sequence number in range. -/
@[ext] structure CertificateSequence where
  get : UInt32
  le_max : get.toNat ≤ DhttpHome.sequenceMax.toNat
  deriving DecidableEq

namespace CertificateSequence

/-- `TryFrom<u64>` -/
def tryFrom (value : ℕ) : Option CertificateSequence :=
  if h : value ≤ DhttpHome.sequenceMax.toNat then
    some ⟨UInt32.ofNat value, by
      have := DhttpHome.sequenceMax.toNat_lt
      rw [UInt32.toNat_ofNat', Nat.mod_eq_of_lt (by omega)]
      exact h⟩
  else none

/-- `From<u8>` -/
def ofU8 (value : UInt8) : CertificateSequence :=
  ⟨value.toUInt32, by
    have := value.toNat_lt
    have := DhttpHome.u8_le_sequenceMax
    rw [UInt8.toNat_toUInt32]
    omega⟩

/-- A sequence written as an integer is accepted again. -/
theorem tryFrom_get (sequence : CertificateSequence) :
    tryFrom sequence.get.toNat = some sequence := by
  unfold tryFrom
  rw [dif_pos sequence.le_max]
  congr 1
  ext1
  exact UInt32.ofNat_toNat

/-- An accepted integer is the one that is stored. -/
theorem get_of_tryFrom {value : ℕ} {sequence : CertificateSequence}
    (h : tryFrom value = some sequence) : sequence.get.toNat = value := by
  have hmax := DhttpHome.sequenceMax.toNat_lt
  unfold tryFrom at h
  split at h
  · cases h
    rw [UInt32.toNat_ofNat', Nat.mod_eq_of_lt (by omega)]
  · cases h

end CertificateSequence

structure CertificateChainKey where
  sequence : CertificateSequence
  usage : DhttpHome.Usage
  deriving DecidableEq

/-- `extract_dhttp_subject_key_identifier`, with the chain of the identifier it finds. -/
class SubjectKey where
  ExtractError : Type
  extract : List (List UInt8) → Except ExtractError CertificateChainKey

def primaryKindFlag : Name := ['0']

def primaryChainKey (sequence : CertificateSequence) : CertificateChainKey :=
  ⟨sequence, DhttpHome.clientAndServer⟩

def secondaryChainKey (sequence : CertificateSequence) : CertificateChainKey :=
  ⟨sequence, DhttpHome.clientOnly⟩

def isPrimaryChainKey (chainKey : CertificateChainKey) : Bool :=
  DhttpHome.kindFlag chainKey.usage = primaryKindFlag

theorem isPrimaryChainKey_primary (sequence : CertificateSequence) :
    isPrimaryChainKey (primaryChainKey sequence) = true := by
  simp [isPrimaryChainKey, primaryChainKey, primaryKindFlag, DhttpHome.kindFlag_clientAndServer]

/-- Certificates that are all of the primary chain with sequence 7. -/
@[reducible] def plainSubjectKey : SubjectKey where
  ExtractError := Unit
  extract _ := .ok (primaryChainKey (CertificateSequence.ofU8 7))

end Ddns
