import Ddns.Core.EndpointSigning
import Ddns.Library.History

/-! Records changed by their setters, in any order: which of them are still read back. -/
namespace Ddns

open Nom BigEndian EndpointAddr History

section Calls

variable [DhttpHome]

/-- A call of one of the setters. -/
inductive Setter where
  | main (on : Bool)
  | load (value : Option UInt32)
  | sequence (value : CertificateSequence)
  | clustered (on : Bool)
  | signed (on : Bool)

/-- What a setter changes. -/
inductive Setter.Part where
  | main
  | load
  | sequence
  | signature
  deriving DecidableEq

namespace Setter

def apply (e : EndpointAddr) : Setter → EndpointAddr
  | .main on => e.setMain on
  | .load value => e.setLoad value
  | .sequence value => e.setSequence value
  | .clustered on => e.setClustered on
  | .signed on => e.setSigned on

def part : Setter → Part
  | .main _ => .main
  | .load _ => .load
  | .sequence _ => .sequence
  | .clustered _ => .sequence
  | .signed _ => .signature

/-- A flag is only set where there is something that it announces. -/
def Fits (e : EndpointAddr) : Setter → Prop
  | .clustered on => on = true → e.sequence.isSome = true
  | .signed on => on = true → e.signature.isSome = true
  | _ => True

end Setter

def applySetters (e : EndpointAddr) (setters : List Setter) : EndpointAddr :=
  setters.foldl Setter.apply e

/-- The last call that changes the part fits the record that it is made on. -/
def LastFits (part : Setter.Part) (e : EndpointAddr) (setters : List Setter) : Prop :=
  ∀ before setter after, setters = before ++ setter :: after → setter.part = part →
    (∀ later ∈ after, later.part ≠ part) → setter.Fits (applySetters e before)

/-- How a record comes about. -/
inductive Obtained : EndpointAddr → Prop
  | directV4 (addr : SocketAddrV4) : Obtained (.directV4 addr)
  | directV6 (addr : SocketAddrV6) (hplain : (SocketAddr.v6 addr).Plain) : Obtained (.directV6 addr)
  | natV4 (outer agent : SocketAddrV4) : Obtained (.natV4 outer agent)
  | natV6 (outer agent : SocketAddrV6) (houter : (SocketAddr.v6 outer).Plain)
    (hagent : (SocketAddr.v6 agent).Plain) : Obtained (.natV6 outer agent)
  | read {input remain : Slice} {e : EndpointAddr} (h : beEndpointAddr input = .ok remain e) :
    Obtained e

/-- As many bytes are written as announced, and they are read as the same record, its signature
apart. -/
def ReadsBack (e : EndpointAddr) : Prop :=
  (putEndpointAddr e).length = e.encpdingSize ∧
    ∀ p, ∃ q e', beEndpointAddr ⟨p, putEndpointAddr e⟩ = .ok ⟨q, []⟩ e' ∧ e'.flags = e.flags ∧
      e'.sequence = e.sequence ∧ e'.load = e.load ∧ e'.primary = e.primary ∧ e'.agent = e.agent

def SequenceAnnounced (e : EndpointAddr) : Prop := e.isClustered = true → e.sequence.isSome = true

def SignatureAnnounced (e : EndpointAddr) : Prop := e.isSigned = true → e.signature.isSome = true

/-- What every call keeps. The signature may be there without its flag, the sequence may not. -/
structure Kept (e : EndpointAddr) : Prop where
  sequence : e.sequence.isSome = true → e.isClustered = true
  load : e.isLoad = e.load.isSome
  nat : e.isNat = e.agent.isSome
  family : e.primary.isV6 = e.isIpv6
  agentFamily : ∀ a ∈ e.agent, a.isV6 = e.isIpv6
  plain : e.primary.Plain
  agentPlain : ∀ a ∈ e.agent, a.Plain
  signatureFits : ∀ sig ∈ e.signature, sig.signature.length < 2 ^ 62

variable {e : EndpointAddr}

section Obtained

theorem EndpointAddr.WellFormed.kept (h : e.WellFormed)
    (hsig : ∀ sig ∈ e.signature, sig.signature.length < 2 ^ 62) : Kept e :=
  ⟨fun hsome => h.clustered.trans hsome, h.load, h.nat, h.family, h.agentFamily, h.plain,
    h.agentPlain, hsig⟩

/-- Every record starts well formed. -/
theorem Obtained.wellFormed (h : Obtained e) :
    e.WellFormed ∧ ∀ sig ∈ e.signature, sig.signature.length < 2 ^ 62 := by
  have haddresses : ∀ endpoint : DquicEndpointAddr, EndpointAddr.tryFrom endpoint = some e →
      endpoint.Plain → e.WellFormed ∧ ∀ sig ∈ e.signature, sig.signature.length < 2 ^ 62 := by
    intro endpoint hfrom hplain
    obtain ⟨hwell, hnone, _⟩ := tryFrom_spec hfrom hplain
    exact ⟨hwell, by simp [hnone]⟩
  cases h with
  | directV4 addr => exact haddresses (.direct (.v4 addr)) rfl trivial
  | directV6 addr hplain => exact haddresses (.direct (.v6 addr)) rfl hplain
  | natV4 outer agent => exact haddresses (.mediate (.v4 agent) (.v4 outer)) rfl ⟨trivial, trivial⟩
  | natV6 outer agent houter hagent =>
    exact haddresses (.mediate (.v6 agent) (.v6 outer)) rfl ⟨hagent, houter⟩
  | read h =>
    obtain ⟨hwell, w, v, hform⟩ := beEndpointAddr_ok h
    exact ⟨hwell, hform.signature_lt⟩

end Obtained

section ReadBack

theorem Kept.base (h : Kept e) (hsequence : SequenceAnnounced e) : e.BaseFormed :=
  ⟨Bool.eq_iff_iff.mpr ⟨hsequence, h.sequence⟩, h.load, h.nat, h.family, h.agentFamily, h.plain,
    h.agentPlain⟩

/-- A signature without its flag is not written, and not missed. -/
theorem Kept.readsBack (h : Kept e) (hsequence : SequenceAnnounced e)
    (hsignature : SignatureAnnounced e) : ReadsBack e := by
  have hbase := h.base hsequence
  by_cases hsigned : e.isSigned = true
  · have hwell : e.WellFormed := hbase.wellFormed (hsigned.trans (hsignature hsigned).symm)
    refine ⟨putEndpointAddr_length hwell, ?_⟩
    intro p
    obtain ⟨q, hq⟩ := beEndpointAddr_put hwell h.signatureFits p
    exact ⟨q, e, hq, rfl, rfl, rfl, rfl, rfl⟩
  · let bare : EndpointAddr := { e with signature := none }
    have hbare : bare.WellFormed := by
      refine EndpointAddr.BaseFormed.wellFormed ?_ (Bool.eq_false_iff.mpr hsigned)
      exact hbase.update none hbase.clustered hbase.load (fun _ _ => rfl)
    have hclear : ¬ bare.isSigned = true := hsigned
    have hput : putEndpointAddr e = putEndpointAddr bare := by
      simp only [putEndpointAddr, if_neg hsigned, if_neg hclear]
      rfl
    have hsize : e.encpdingSize = bare.encpdingSize := by
      simp only [EndpointAddr.encpdingSize, if_neg hsigned, if_neg hclear]
      rfl
    rw [ReadsBack, hput, hsize]
    refine ⟨putEndpointAddr_length hbare, ?_⟩
    intro p
    obtain ⟨q, hq⟩ := beEndpointAddr_put hbare (by simp [bare]) p
    exact ⟨q, bare, hq, rfl, rfl, rfl, rfl, rfl⟩

/-- Whatever is read with the flag of the sequence has a sequence. -/
theorem ReadsBack.sequenceAnnounced (h : ReadsBack e) : SequenceAnnounced e := by
  intro hclustered
  obtain ⟨q, e', hq, hflags, hsequence, _⟩ := h.2 0
  obtain ⟨hwell, _⟩ := beEndpointAddr_ok hq
  have hsame : e'.isClustered = e.isClustered := congrArg (fun f => decide (f &&& _ ≠ 0)) hflags
  rw [← hsequence, ← hwell.clustered, hsame, hclustered]

/-- Where nothing is left to be read, the flag of the signature is not set. -/
theorem ReadsBack.signatureAnnounced (h : ReadsBack e) (hbase : e.BaseFormed) :
    SignatureAnnounced e := by
  intro hsigned
  by_contra hnone
  rw [Option.not_isSome_iff_eq_none] at hnone
  obtain ⟨q, e', hq, _⟩ := h.2 0
  have hread := recognises_base hbase (sequenceForm_put e.sequence) 0 []
  have hput : putEndpointAddr e =
      e.spell (e.sequence.elim [] fun seq => putVarint (VarInt.fromU32 seq.get)) ++ [] := by
    rw [putEndpointAddr, hnone]
    exact congrArg _ (ite_self _)
  rw [hput, beEndpointAddr_eq, hread, andThen_ok] at hq
  obtain ⟨signature, hsignature, _⟩ := map_eq_ok.mp hq
  have hbit : e.flags &&& flagSigned = flagSigned := of_decide_eq_true hsigned
  rw [beEndpointSignature, if_neg (not_not_intro hbit)] at hsignature
  cases hsignature

theorem Kept.readsBack_iff (h : Kept e) :
    ReadsBack e ↔ SequenceAnnounced e ∧ SignatureAnnounced e := by
  constructor
  · intro hread
    have hsequence := hread.sequenceAnnounced
    exact ⟨hsequence, hread.signatureAnnounced (h.base hsequence)⟩
  · rintro ⟨hsequence, hsignature⟩
    exact h.readsBack hsequence hsignature

end ReadBack

section Step

/-- New flags with the sequence and the load that agree with them. -/
theorem Kept.update (h : Kept e) {flag : UInt8} {on : Bool} {sequence : Option CertificateSequence}
    {load : Option UInt32}
    (hother : [flagFamily, flagNat].all fun mask => flag &&& mask = 0 ∧ ~~~flag &&& mask = mask)
    (hsequence : sequence.isSome = true → (e.setFlag flag on).flags &&& flagClustered ≠ 0)
    (hload : decide ((e.setFlag flag on).flags &&& flagLoad ≠ 0) = load.isSome) :
    Kept ⟨(e.setFlag flag on).flags, sequence, load, e.signature, e.primary, e.agent⟩ := by
  have hbit : ∀ mask ∈ [flagFamily, flagNat],
      decide ((e.setFlag flag on).flags &&& mask ≠ 0) = decide (e.flags &&& mask ≠ 0) :=
    fun mask hmem => congrArg (fun bits => decide (bits ≠ 0)) (setFlag_keeps e flag on hother mask hmem)
  have hfamily := hbit flagFamily (by simp)
  refine ⟨fun hsome => decide_eq_true (hsequence hsome), hload, ?_, h.family.trans hfamily.symm, ?_,
    h.plain, h.agentPlain, h.signatureFits⟩
  · exact (hbit flagNat (by simp)).trans h.nat
  · intro a ha
    exact (h.agentFamily a ha).trans hfamily.symm

theorem Kept.sequence_other (h : Kept e) {flag : UInt8} (on : Bool)
    (hset : flag &&& flagClustered = 0) (hclear : ~~~flag &&& flagClustered = flagClustered)
    (hsome : e.sequence.isSome = true) : (e.setFlag flag on).flags &&& flagClustered ≠ 0 := by
  rw [setFlag_and e flag flagClustered on hset hclear]
  exact of_decide_eq_true (h.sequence hsome)

theorem Kept.load_other (h : Kept e) {flag : UInt8} (on : Bool)
    (hset : flag &&& flagLoad = 0) (hclear : ~~~flag &&& flagLoad = flagLoad) :
    decide ((e.setFlag flag on).flags &&& flagLoad ≠ 0) = e.load.isSome := by
  have hkeep := setFlag_and e flag flagLoad on hset hclear
  exact (congrArg (fun bits => decide (bits ≠ 0)) hkeep).trans h.load

/-- A flag that is set covers any sequence, one that is cleared covers none. -/
theorem Kept.recluster (h : Kept e) (on : Bool) {sequence : Option CertificateSequence}
    (hsequence : sequence.isSome = true → on = true) :
    Kept ⟨(e.setFlag flagClustered on).flags, sequence, e.load, e.signature, e.primary, e.agent⟩ := by
  refine h.update (by decide) ?_ (h.load_other on (by decide) (by decide))
  intro hsome
  rw [setFlag_and_self, hsequence hsome]
  decide

theorem Kept.step (h : Kept e) (setter : Setter) : Kept (setter.apply e) := by
  cases setter with
  | main on =>
    exact h.update (by decide) (h.sequence_other on (by decide) (by decide))
      (h.load_other on (by decide) (by decide))
  | load value =>
    refine h.update (by decide) (h.sequence_other _ (by decide) (by decide)) ?_
    rw [setFlag_and_self]
    cases value <;> rfl
  | sequence value =>
    rw [Setter.apply, EndpointAddr.setSequence]
    split
    · exact h.recluster true (fun _ => rfl)
    · exact h.recluster false (fun hsome => by cases hsome)
  | clustered on =>
    cases on with
    | false => exact h.recluster false (fun hsome => by cases hsome)
    | true => exact h.recluster true (fun _ => rfl)
  | signed on =>
    exact h.update (by decide) (h.sequence_other on (by decide) (by decide))
      (h.load_other on (by decide) (by decide))

/-- The flag of a part is not touched by a setter of another one. -/
theorem isClustered_setFlag (e : EndpointAddr) {flag : UInt8} (on : Bool)
    (hset : flag &&& flagClustered = 0) (hclear : ~~~flag &&& flagClustered = flagClustered) :
    (e.setFlag flag on).isClustered = e.isClustered :=
  congrArg (fun bits => decide (bits ≠ 0)) (setFlag_and e flag flagClustered on hset hclear)

theorem isSigned_setFlag (e : EndpointAddr) {flag : UInt8} (on : Bool)
    (hset : flag &&& flagSigned = 0) (hclear : ~~~flag &&& flagSigned = flagSigned) :
    (e.setFlag flag on).isSigned = e.isSigned :=
  congrArg (fun bits => decide (bits = flagSigned)) (setFlag_and e flag flagSigned on hset hclear)

/-- A call on the sequence announces it exactly when it fits. -/
theorem sequenceAnnounced_apply {setter : Setter} (hpart : setter.part = .sequence) :
    SequenceAnnounced (setter.apply e) ↔ setter.Fits e := by
  have hcleared : (e.setFlag flagClustered false).isClustered = false :=
    congrArg (fun bits => decide (bits ≠ 0)) (setFlag_and_self e flagClustered false)
  have hset : (e.setFlag flagClustered true).isClustered = true :=
    congrArg (fun bits => decide (bits ≠ 0)) (setFlag_and_self e flagClustered true)
  cases setter with
  | sequence value =>
    refine iff_of_true ?_ trivial
    rw [Setter.apply, EndpointAddr.setSequence]
    split
    · exact fun _ => rfl
    · exact fun hclustered => absurd (hcleared.symm.trans hclustered) (by decide)
  | clustered on =>
    cases on with
    | false =>
      refine iff_of_true (fun hclustered => ?_) (fun hon => by cases hon)
      exact absurd (hcleared.symm.trans hclustered) (by decide)
    | true => exact ⟨fun h _ => h hset, fun h _ => h rfl⟩
  | _ => cases hpart

theorem sequenceAnnounced_other {setter : Setter} (hpart : setter.part ≠ .sequence) :
    SequenceAnnounced (setter.apply e) ↔ SequenceAnnounced e := by
  have hsame : (setter.apply e).isClustered = e.isClustered ∧
      (setter.apply e).sequence = e.sequence := by
    cases setter with
    | main on => exact ⟨isClustered_setFlag e on (by decide) (by decide), rfl⟩
    | load value => exact ⟨isClustered_setFlag e value.isSome (by decide) (by decide), rfl⟩
    | signed on => exact ⟨isClustered_setFlag e on (by decide) (by decide), rfl⟩
    | _ => exact absurd rfl hpart
  rw [SequenceAnnounced, hsame.1, hsame.2, SequenceAnnounced]

theorem signatureAnnounced_apply {setter : Setter} (hpart : setter.part = .signature) :
    SignatureAnnounced (setter.apply e) ↔ setter.Fits e := by
  cases setter with
  | signed on =>
    cases on with
    | false =>
      refine iff_of_true (fun hsigned => ?_) (fun hon => by cases hon)
      have hbit : (e.setFlag flagSigned false).flags &&& flagSigned = flagSigned :=
        of_decide_eq_true hsigned
      rw [setFlag_and_self] at hbit
      exact absurd hbit (by decide)
    | true => exact ⟨fun h _ => h (isSigned_setSigned e), fun h _ => h rfl⟩
  | _ => cases hpart

theorem signatureAnnounced_other {setter : Setter} (hpart : setter.part ≠ .signature) :
    SignatureAnnounced (setter.apply e) ↔ SignatureAnnounced e := by
  have hsame : (setter.apply e).isSigned = e.isSigned ∧
      (setter.apply e).signature = e.signature := by
    cases setter with
    | main on => exact ⟨isSigned_setFlag e on (by decide) (by decide), rfl⟩
    | load value => exact ⟨isSigned_setFlag e value.isSome (by decide) (by decide), rfl⟩
    | sequence value =>
      refine ⟨?_, setSequence_signature e value⟩
      rw [Setter.apply, EndpointAddr.setSequence]
      split
      · exact isSigned_setFlag e true (by decide) (by decide)
      · exact isSigned_setFlag e false (by decide) (by decide)
    | clustered on =>
      cases on with
      | false => exact ⟨isSigned_setFlag e false (by decide) (by decide), rfl⟩
      | true => exact ⟨isSigned_setFlag e true (by decide) (by decide), rfl⟩
    | signed on => exact absurd rfl hpart
  rw [SignatureAnnounced, hsame.1, hsame.2, SignatureAnnounced]

end Step

section Run

theorem applySetters_snoc (e : EndpointAddr) (setters : List Setter) (last : Setter) :
    applySetters e (setters ++ [last]) = last.apply (applySetters e setters) :=
  List.foldl_append

theorem Kept.run (h : Kept e) (setters : List Setter) : Kept (applySetters e setters) := by
  induction setters generalizing e with
  | nil => exact h
  | cons setter setters ih => exact ih (h.step setter)

/-- Only the last call on a part counts. -/
theorem lastFits_snoc {part : Setter.Part} {setters : List Setter} {last : Setter} :
    LastFits part e (setters ++ [last]) ↔
      if last.part = part then last.Fits (applySetters e setters) else LastFits part e setters := by
  by_cases hpart : last.part = part
  · rw [if_pos hpart]
    constructor
    · intro h
      exact h setters last [] rfl hpart (by simp)
    · intro hfits before setter after hsplit _ hlater
      rcases snoc_eq_append_cons.mp hsplit with ⟨rfl, rfl, rfl⟩ | ⟨init, rfl, rfl⟩
      · exact hfits
      · exact absurd hpart (hlater last (by simp))
  · rw [if_neg hpart]
    constructor
    · rintro h before setter after rfl hsetter hlater
      refine h before setter (after ++ [last]) (by simp) hsetter ?_
      intro later hmem
      rcases List.mem_append.mp hmem with hmem | hmem
      · exact hlater later hmem
      · obtain rfl := List.mem_singleton.mp hmem
        exact hpart
    · intro h before setter after hsplit hsetter hlater
      rcases snoc_eq_append_cons.mp hsplit with ⟨rfl, rfl, rfl⟩ | ⟨init, rfl, rfl⟩
      · exact absurd hsetter hpart
      · refine h before setter init rfl hsetter ?_
        intro later hmem
        exact hlater later (List.mem_append_left _ hmem)

/-- What holds after a call on a part when the call fits, and is kept by all the other calls, holds
after a run when the last call on the part fits. -/
theorem run_iff_lastFits {P : EndpointAddr → Prop} {part : Setter.Part}
    (happly : ∀ {e : EndpointAddr} {setter : Setter}, setter.part = part →
      (P (setter.apply e) ↔ setter.Fits e))
    (hother : ∀ {e : EndpointAddr} {setter : Setter}, setter.part ≠ part →
      (P (setter.apply e) ↔ P e))
    (h : P e) (setters : List Setter) : P (applySetters e setters) ↔ LastFits part e setters := by
  induction setters using List.reverseRecOn with
  | nil =>
    refine iff_of_true h ?_
    intro before setter after hsplit
    simp at hsplit
  | append_singleton setters last ih =>
    rw [applySetters_snoc, lastFits_snoc]
    by_cases hpart : last.part = part
    · rw [if_pos hpart, happly hpart]
    · rw [if_neg hpart, hother hpart, ih]

/-- After any calls, a record is read back exactly when the last call on the sequence and the last
call on the signature fit. -/
theorem setters_read_back_iff (h : Obtained e) (setters : List Setter) :
    ReadsBack (applySetters e setters) ↔
      LastFits .sequence e setters ∧ LastFits .signature e setters := by
  obtain ⟨hwell, hsig⟩ := h.wellFormed
  have hsequence : SequenceAnnounced e := fun hclustered => hwell.clustered.symm.trans hclustered
  have hsignature : SignatureAnnounced e := fun hsigned => hwell.signed.symm.trans hsigned
  have hkept := (hwell.kept hsig).run setters
  rw [hkept.readsBack_iff,
    run_iff_lastFits sequenceAnnounced_apply sequenceAnnounced_other hsequence setters,
    run_iff_lastFits signatureAnnounced_apply signatureAnnounced_other hsignature setters]

end Run

end Calls

section Sample

attribute [local instance] plainHome

/-- The flag alone is not read back, and the sequence that follows makes up for it. -/
theorem setters_read_back_iff_clustered :
    ReadsBack (applySetters (.directV4 ⟨0x0A000001, 5353⟩)
      [.clustered true, .sequence (CertificateSequence.ofU8 5)]) := by
  refine (setters_read_back_iff (.directV4 _) _).mpr ⟨?_, ?_⟩
  · have hlast : LastFits .sequence (.directV4 ⟨0x0A000001, 5353⟩)
        ([.clustered true] ++ [.sequence (CertificateSequence.ofU8 5)]) := lastFits_snoc.mpr trivial
    exact hlast
  · intro before setter after hsplit hpart _
    have hmem : setter ∈ [.clustered true, .sequence (CertificateSequence.ofU8 5)] := by
      simp [hsplit]
    rcases List.mem_pair.mp hmem with rfl | rfl <;> cases hpart

/-- Either flag, set on a plain address, makes the record unreadable. -/
theorem flag_without_field_unreadable :
    Obtained (.directV4 ⟨0x0A000001, 5353⟩) ∧
      beEndpointAddr ⟨0, putEndpointAddr
        (applySetters (.directV4 ⟨0x0A000001, 5353⟩) [.clustered true])⟩ = .err (.incomplete 1) ∧
      ¬ ReadsBack (applySetters (.directV4 ⟨0x0A000001, 5353⟩) [.clustered true]) ∧
      beEndpointAddr ⟨0, putEndpointAddr
        (applySetters (.directV4 ⟨0x0A000001, 5353⟩) [.signed true])⟩ = .err (.incomplete 2) ∧
      ¬ ReadsBack (applySetters (.directV4 ⟨0x0A000001, 5353⟩) [.signed true]) := by
  have hclustered : beEndpointAddr ⟨0, putEndpointAddr
      (applySetters (.directV4 ⟨0x0A000001, 5353⟩) [.clustered true])⟩ = .err (.incomplete 1) := by
    rfl
  have hsigned : beEndpointAddr ⟨0, putEndpointAddr
      (applySetters (.directV4 ⟨0x0A000001, 5353⟩) [.signed true])⟩ = .err (.incomplete 2) := by
    rfl
  refine ⟨.directV4 _, hclustered, ?_, hsigned, ?_⟩
  · rintro ⟨_, hread⟩
    obtain ⟨q, e', hq, _⟩ := hread 0
    rw [hclustered] at hq
    cases hq
  · rintro ⟨_, hread⟩
    obtain ⟨q, e', hq, _⟩ := hread 0
    rw [hsigned] at hq
    cases hq

end Sample

end Ddns
