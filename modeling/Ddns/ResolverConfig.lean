import Mathlib.Data.Finset.Basic
import Ddns.Library.Text
import Ddns.Mdns.ResolverSet

/-! Installing the configured sources into the global resolver. -/
namespace Ddns

inductive DnsScheme where
  | system
  | mdns
  | h3
  | http
  deriving DecidableEq

namespace DnsScheme

/-- `Display` -/
def text : DnsScheme → Name
  | .system => ['s', 'y', 's', 't', 'e', 'm']
  | .mdns => ['m', 'd', 'n', 's']
  | .h3 => ['h', '3']
  | .http => ['h', 't', 't', 'p']

def fromStr (s : Name) : Except Name DnsScheme :=
  let lower := Text.toAsciiLowercase s
  if lower = ['s', 'y', 's', 't', 'e', 'm'] then .ok .system
  else if lower = ['m', 'd', 'n', 's'] then .ok .mdns
  else if lower = ['h', '3'] then .ok .h3
  else if lower = ['h', 't', 't', 'p'] then .ok .http
  else .error (['u', 'n', 's', 'u', 'p', 'p', 'o', 'r', 't', 'e', 'd', ' ', 'D', 'N', 'S', ' ', 's',
    'c', 'h', 'e', 'm', 'e', ':', ' '] ++ s)

/-- A scheme is read from its own text in any case, and from nothing else. -/
theorem fromStr_eq_ok_iff {s : Name} {scheme : DnsScheme} :
    fromStr s = .ok scheme ↔ Text.eqIgnoreAsciiCase s scheme.text = true := by
  have htext : Text.toAsciiLowercase scheme.text = scheme.text := by cases scheme <;> rfl
  rw [Text.eqIgnoreAsciiCase, htext, decide_eq_true_iff]
  unfold fromStr
  dsimp only
  constructor
  · intro h
    split_ifs at h with hsystem hmdns hh3 hhttp
    all_goals cases h
    · exact hsystem
    · exact hmdns
    · exact hh3
    · exact hhttp
  · intro h
    rw [h]
    cases scheme <;> rfl

/-- A source that is reached over the network and found by ordinary DNS. -/
def Remote (scheme : DnsScheme) : Prop := scheme = .h3 ∨ scheme = .http

instance (scheme : DnsScheme) : Decidable scheme.Remote :=
  inferInstanceAs (Decidable (_ ∨ _))

end DnsScheme

section Install

/-- What is remembered between the calls. -/
structure Installed where
  schemes : Finset DnsScheme
  mdns : Option MdnsResolverSet

/-- The sources of the global resolver, in the order in which they were added, and what is
remembered about them. -/
structure ResolverConfig where
  added : List DnsScheme
  installed : Installed

/-- A call, with what the environment answers: whether the lock is not poisoned, and which of the
resolvers can be constructed. -/
structure InstallCall where
  schemes : List DnsScheme
  lock : Bool
  made : DnsScheme → Bool

inductive InstallError where
  | poisoned
  | notMade (scheme : DnsScheme)
  deriving DecidableEq

namespace ResolverConfig

def initial : ResolverConfig := ⟨[], ∅, none⟩

def add (config : ResolverConfig) (scheme : DnsScheme) : ResolverConfig :=
  ⟨config.added ++ [scheme], { config.installed with
    schemes := insert scheme config.installed.schemes }⟩

variable (domain : Name)

/-- One arm of the match; nothing is added when the resolver cannot be constructed. -/
def installScheme (made : DnsScheme → Bool) (config : ResolverConfig) :
    DnsScheme → Option ResolverConfig
  | .system => some (config.add .system)
  | .h3 => if made .h3 then some (config.add .h3) else none
  | .http => if made .http then some (config.add .http) else none
  | .mdns =>
    let set := MdnsResolverSet.new domain
    let config := config.add .mdns
    some { config with installed := { config.installed with mdns := some set } }

/-- Gives the scheme at which the loop returns early. -/
def installSchemes (made : DnsScheme → Bool) :
    List DnsScheme → ResolverConfig → Option DnsScheme × ResolverConfig
  | [], config => (none, config)
  | scheme :: schemes, config =>
    if scheme ∈ config.installed.schemes then installSchemes made schemes config
    else
      match installScheme domain made config scheme with
      | some config => installSchemes made schemes config
      | none => (some scheme, config)

/-- H3 and HTTP need ordinary DNS, which comes last. -/
def requested (schemes : List DnsScheme) : List DnsScheme :=
  if schemes.any fun scheme => scheme.Remote then schemes ++ [.system] else schemes

def installResolvers (config : ResolverConfig) (call : InstallCall) :
    Except InstallError (Option MdnsResolverSet) × ResolverConfig :=
  if call.lock then
    match installSchemes domain call.made (requested call.schemes) config with
    | (some scheme, config) => (.error (.notMade scheme), config)
    | (none, config) =>
      (.ok (if .mdns ∈ call.schemes then config.installed.mdns else none), config)
  else (.error .poisoned, config)

/-- The state after the calls. -/
def run (calls : List InstallCall) : ResolverConfig :=
  calls.foldl (fun config call => (installResolvers domain config call).2) initial

/-- No source is there twice, and a remote one is not there without the system's. -/
def Bootstrapped (config : ResolverConfig) : Prop :=
  config.added.Nodup ∧
    (.h3 ∈ config.added ∨ .http ∈ config.added → DnsScheme.system ∈ config.added)

/-- One remote source is added and the next one cannot be constructed, all of it before the
system's is reached. -/
def StopsShort (config : ResolverConfig) (call : InstallCall) : Prop :=
  call.lock = true ∧ .system ∉ config.added ∧
    ∃ lost ∈ call.schemes, lost.Remote ∧ call.made lost = false ∧
      .system ∉ call.schemes.takeWhile (· ≠ lost) ∧
      ∃ kept ∈ call.schemes.takeWhile (· ≠ lost), kept.Remote ∧ call.made kept = true

/-- What is remembered is what was added. -/
structure Consistent (config : ResolverConfig) : Prop where
  nodup : config.added.Nodup
  mem : ∀ scheme, scheme ∈ config.installed.schemes ↔ scheme ∈ config.added

/-- What the loop over the schemes leads to. -/
structure Installs (made : DnsScheme → Bool) (config : ResolverConfig) (schemes : List DnsScheme)
    (stopped : Option DnsScheme) (config' : ResolverConfig) : Prop where
  consistent : config'.Consistent
  made_of_new : ∀ scheme ∈ config'.added, scheme ∉ config.added → scheme.Remote → made scheme = true
  all : stopped = none → ∀ scheme, scheme ∈ config'.added ↔ scheme ∈ config.added ∨ scheme ∈ schemes
  stop : ∀ lost ∈ stopped, lost ∈ schemes ∧ lost.Remote ∧ made lost = false ∧ lost ∉ config'.added
  upTo : ∀ lost ∈ stopped, ∀ scheme, scheme ∈ config'.added ↔
    scheme ∈ config.added ∨ scheme ∈ schemes.takeWhile (· ≠ lost)

variable {domain : Name} {made : DnsScheme → Bool} {config config' : ResolverConfig}
  {schemes : List DnsScheme}

theorem installScheme_some {scheme : DnsScheme}
    (h : installScheme domain made config scheme = some config') :
    config'.added = config.added ++ [scheme] ∧
      config'.installed.schemes = insert scheme config.installed.schemes ∧
      (scheme.Remote → made scheme = true) := by
  cases scheme with
  | system =>
    cases h
    exact ⟨rfl, rfl, by rintro (h | h) <;> cases h⟩
  | mdns =>
    cases h
    exact ⟨rfl, rfl, by rintro (h | h) <;> cases h⟩
  | h3 =>
    obtain ⟨hmade, hnext⟩ := Option.ite_none_right_eq_some.mp h
    cases hnext
    exact ⟨rfl, rfl, fun _ => hmade⟩
  | http =>
    obtain ⟨hmade, hnext⟩ := Option.ite_none_right_eq_some.mp h
    cases hnext
    exact ⟨rfl, rfl, fun _ => hmade⟩

theorem installScheme_none {scheme : DnsScheme}
    (h : installScheme domain made config scheme = none) :
    scheme.Remote ∧ made scheme = false := by
  cases scheme with
  | system => cases h
  | mdns => cases h
  | h3 => simp_all [installScheme, DnsScheme.Remote]
  | http => simp_all [installScheme, DnsScheme.Remote]

theorem Consistent.installScheme {scheme : DnsScheme} (hconfig : config.Consistent)
    (hnew : scheme ∉ config.installed.schemes)
    (h : config.installScheme domain made scheme = some config') : config'.Consistent := by
  obtain ⟨hadded, hschemes, _⟩ := installScheme_some h
  refine ⟨?_, ?_⟩
  · rw [hadded]
    refine hconfig.nodup.append (List.nodup_singleton _) ?_
    rw [List.disjoint_singleton]
    exact fun hmem => hnew ((hconfig.mem scheme).mpr hmem)
  · intro other
    rw [hschemes, hadded, Finset.mem_insert, hconfig.mem, List.mem_append, List.mem_singleton,
      or_comm]

/-- One more turn before the others, in which a scheme was added or was there already. -/
theorem Installs.cons {next : ResolverConfig} {scheme : DnsScheme} {stopped : Option DnsScheme}
    (h : Installs made next schemes stopped config')
    (hmem : ∀ other, other ∈ next.added ↔ other ∈ config.added ∨ other = scheme)
    (hscheme : scheme ∉ config.added → scheme.Remote → made scheme = true) :
    Installs made config (scheme :: schemes) stopped config' := by
  obtain ⟨hcons, hmade, hall, hstop, hupTo⟩ := h
  refine ⟨hcons, ?_, ?_, ?_, ?_⟩
  · intro other hother hnew hremote
    by_cases hsame : other = scheme
    · subst hsame
      exact hscheme hnew hremote
    · refine hmade other hother ?_ hremote
      rw [hmem]
      exact not_or_intro hnew hsame
  · intro hdone other
    rw [hall hdone other, hmem, List.mem_cons, or_assoc]
  · intro lost hlost
    obtain ⟨hin, hremote, hnot, hout⟩ := hstop lost hlost
    exact ⟨List.mem_cons_of_mem _ hin, hremote, hnot, hout⟩
  · intro lost hlost other
    have hne : scheme ≠ lost := by
      rintro rfl
      have hadded := (hmem scheme).mpr (Or.inr rfl)
      exact (hstop scheme hlost).2.2.2 ((hupTo scheme hlost scheme).mpr (Or.inl hadded))
    rw [hupTo lost hlost other, hmem, List.takeWhile_cons_of_pos (by simpa using hne),
      List.mem_cons, or_assoc]

/-- A turn in which the scheme cannot be had. -/
theorem Consistent.stopped {scheme : DnsScheme} (hconfig : config.Consistent)
    (hnew : scheme ∉ config.added) (hremote : scheme.Remote) (hnot : made scheme = false) :
    Installs made config (scheme :: schemes) (some scheme) config := by
  refine ⟨hconfig, fun _ hmem hout => absurd hmem hout, by simp, ?_, ?_⟩
  · intro lost hlost
    obtain rfl := Option.some_inj.mp hlost
    exact ⟨List.mem_cons_self, hremote, hnot, hnew⟩
  · intro lost hlost other
    obtain rfl := Option.some_inj.mp hlost
    simp

/-- The loop adds what is requested, up to the first scheme that cannot be had. -/
theorem installSchemes_spec (hconfig : config.Consistent) :
    Installs made config schemes (installSchemes domain made schemes config).1
      (installSchemes domain made schemes config).2 := by
  induction schemes generalizing config with
  | nil =>
    refine ⟨hconfig, fun _ hmem hnew => absurd hmem hnew, fun _ scheme => ?_, ?_, ?_⟩
    · simp [installSchemes]
    · simp [installSchemes]
    · simp [installSchemes]
  | cons scheme schemes ih =>
    rw [installSchemes]
    by_cases hthere : scheme ∈ config.installed.schemes
    · rw [if_pos hthere]
      have hadded := (hconfig.mem scheme).mp hthere
      refine (ih hconfig).cons ?_ fun hnew => absurd hadded hnew
      intro other
      refine ⟨Or.inl, ?_⟩
      rintro (hother | rfl)
      · exact hother
      · exact hadded
    · rw [if_neg hthere]
      cases hinstall : installScheme domain made config scheme with
      | none =>
        obtain ⟨hremote, hnot⟩ := installScheme_none hinstall
        exact hconfig.stopped (fun hmem => hthere ((hconfig.mem _).mpr hmem)) hremote hnot
      | some next =>
        obtain ⟨hadded, _, hmade⟩ := installScheme_some hinstall
        refine (ih (hconfig.installScheme hthere hinstall)).cons ?_ fun _ => hmade
        intro other
        rw [hadded, List.mem_append, List.mem_singleton]

theorem takeWhile_append_of_mem {lost : DnsScheme} (h : lost ∈ schemes) (rest : List DnsScheme) :
    (schemes ++ rest).takeWhile (· ≠ lost) = schemes.takeWhile (· ≠ lost) := by
  induction schemes with
  | nil => cases h
  | cons scheme schemes ih =>
    by_cases hsame : scheme = lost
    · simp [hsame]
    · have htail : lost ∈ schemes := List.mem_of_ne_of_mem (Ne.symm hsame) h
      simpa [hsame] using ih htail

/-- Only the system's source is requested in addition. -/
theorem takeWhile_requested {lost : DnsScheme} (h : lost ∈ schemes) :
    (requested schemes).takeWhile (· ≠ lost) = schemes.takeWhile (· ≠ lost) := by
  unfold requested
  split
  · exact takeWhile_append_of_mem h _
  · rfl

theorem mem_requested {scheme : DnsScheme} : scheme ∈ requested schemes ↔
    scheme ∈ schemes ∨ scheme = .system ∧ ∃ remote ∈ schemes, remote.Remote := by
  unfold requested
  split
  · simp_all
  · simp_all

/-- There are two remote sources. -/
theorem remote_cases {x y z : DnsScheme} (hx : x.Remote) (hy : y.Remote) (hz : z.Remote)
    (hne : x ≠ y) : z = x ∨ z = y := by
  rcases hx with rfl | rfl <;> rcases hy with rfl | rfl <;> rcases hz with rfl | rfl <;> simp_all

theorem not_remote_system : ¬ DnsScheme.system.Remote := by decide

theorem Bootstrapped.not_remote (h : config.Bootstrapped) (hsystem : .system ∉ config.added)
    {scheme : DnsScheme} (hremote : scheme.Remote) : scheme ∉ config.added := by
  intro hmem
  rcases hremote with rfl | rfl
  · exact hsystem (h.2 (Or.inl hmem))
  · exact hsystem (h.2 (Or.inr hmem))

theorem bootstrapped_of_remote (hconfig : config.Consistent)
    (h : ∀ scheme ∈ config.added, scheme.Remote → .system ∈ config.added) : config.Bootstrapped := by
  refine ⟨hconfig.nodup, ?_⟩
  rintro (hmem | hmem)
  · exact h _ hmem (Or.inl rfl)
  · exact h _ hmem (Or.inr rfl)

/-- A loop that comes to its end has reached the system's source. -/
theorem Installs.bootstrapped (h : Installs made config (requested schemes) none config')
    (hold : ∀ scheme : DnsScheme, scheme.Remote → scheme ∉ config.added) : config'.Bootstrapped := by
  refine bootstrapped_of_remote h.consistent ?_
  intro scheme hmem hremote
  rcases (h.all rfl scheme).mp hmem with hmem | hmem
  · exact absurd hmem (hold scheme hremote)
  · rcases mem_requested.mp hmem with hmem | ⟨rfl, _⟩
    · exact (h.all rfl _).mpr (Or.inr (mem_requested.mpr (Or.inr ⟨rfl, scheme, hmem, hremote⟩)))
    · exact absurd hremote not_remote_system

/-- A loop that returns early leaves a remote source alone when it has added one and not reached
the system's. -/
theorem Installs.bootstrapped_iff_stop {lost : DnsScheme}
    (h : Installs made config (requested schemes) (some lost) config')
    (hsystem : .system ∉ config.added)
    (hold : ∀ scheme : DnsScheme, scheme.Remote → scheme ∉ config.added) :
    lost ∈ schemes ∧ (config'.Bootstrapped ↔ .system ∈ schemes.takeWhile (· ≠ lost) ∨
      ∀ kept ∈ schemes.takeWhile (· ≠ lost), ¬ kept.Remote) := by
  obtain ⟨hrequested, hremote, _, _⟩ := h.stop lost rfl
  have hmem : lost ∈ schemes := by
    rcases mem_requested.mp hrequested with hmem | ⟨rfl, _⟩
    · exact hmem
    · exact absurd hremote not_remote_system
  have hadded := h.upTo lost rfl
  rw [takeWhile_requested hmem] at hadded
  refine ⟨hmem, ?_⟩
  constructor
  · intro hboot
    by_contra hcon
    rw [not_or] at hcon
    obtain ⟨hnot, hkept⟩ := hcon
    have hout : .system ∉ config'.added := by
      rw [hadded]
      exact not_or_intro hsystem hnot
    refine hkept ?_
    intro kept hin hkeptRemote
    exact hboot.not_remote hout hkeptRemote ((hadded kept).mpr (Or.inr hin))
  · intro hcases
    refine bootstrapped_of_remote h.consistent ?_
    intro scheme hin hschemeRemote
    rcases hcases with hfound | hnone
    · exact (hadded _).mpr (Or.inr hfound)
    · rcases (hadded scheme).mp hin with hin | hin
      · exact absurd hin (hold scheme hschemeRemote)
      · exact absurd hschemeRemote (hnone scheme hin)

theorem installResolvers_config {call : InstallCall} (hlock : call.lock = true) :
    (installResolvers domain config call).2 =
      (installSchemes domain call.made (requested call.schemes) config).2 := by
  rw [installResolvers, if_pos hlock]
  split <;> simp_all

theorem Consistent.installResolvers (hconfig : config.Consistent) (call : InstallCall) :
    (config.installResolvers domain call).2.Consistent := by
  by_cases hlock : call.lock = true
  · rw [installResolvers_config hlock]
    exact (installSchemes_spec hconfig).consistent
  · rw [ResolverConfig.installResolvers, if_neg hlock]
    exact hconfig

/-- A call that returns early stops short at the scheme that could not be had. -/
theorem Installs.stopsShort_iff {call : InstallCall} {lost : DnsScheme}
    (h : Installs call.made config (requested call.schemes) (some lost) config')
    (hlock : call.lock = true) (hsystem : .system ∉ config.added)
    (hold : ∀ scheme : DnsScheme, scheme.Remote → scheme ∉ config.added)
    (hlost : lost ∈ call.schemes) :
    config.StopsShort call ↔ .system ∉ call.schemes.takeWhile (· ≠ lost) ∧
      ∃ kept ∈ call.schemes.takeWhile (· ≠ lost), kept.Remote := by
  obtain ⟨_, hremote, hnot, _⟩ := h.stop lost rfl
  constructor
  · rintro ⟨_, _, lost', _, hremote', hnot', hbefore, kept, hkept, hkeptRemote, hmade⟩
    have hne : kept ≠ lost' := by
      rintro rfl
      rw [hmade] at hnot'
      cases hnot'
    have hsame : lost = lost' := by
      rcases remote_cases hkeptRemote hremote' hremote hne with rfl | hsame
      · rw [hmade] at hnot
        cases hnot
      · exact hsame
    rw [hsame]
    exact ⟨hbefore, kept, hkept, hkeptRemote⟩
  · rintro ⟨hbefore, kept, hin, hkeptRemote⟩
    have hadded := h.upTo lost rfl kept
    rw [takeWhile_requested hlost] at hadded
    have hmade := h.made_of_new kept (hadded.mpr (Or.inr hin)) (hold kept hkeptRemote) hkeptRemote
    exact ⟨hlock, hsystem, lost, hlost, hremote, hnot, hbefore, kept, hin, hkeptRemote, hmade⟩

/-- A call leaves the sources bootstrapped exactly when it does not stop short. -/
theorem bootstrapped_iff (hconfig : config.Consistent) (hboot : config.Bootstrapped)
    (call : InstallCall) :
    (installResolvers domain config call).2.Bootstrapped ↔ ¬ config.StopsShort call := by
  by_cases hlock : call.lock = true
  · rw [installResolvers_config hlock]
    have hspec : Installs call.made config (requested call.schemes)
        (installSchemes domain call.made (requested call.schemes) config).1
        (installSchemes domain call.made (requested call.schemes) config).2 :=
      installSchemes_spec hconfig
    generalize installSchemes domain call.made (requested call.schemes) config = out at hspec ⊢
    obtain ⟨stopped, next⟩ := out
    dsimp only at hspec ⊢
    by_cases hsystem : .system ∈ config.added
    · refine iff_of_true (bootstrapped_of_remote hspec.consistent ?_) fun hstops => hstops.2.1 hsystem
      intro _ _ _
      cases stopped with
      | none => exact (hspec.all rfl _).mpr (Or.inl hsystem)
      | some lost => exact (hspec.upTo lost rfl _).mpr (Or.inl hsystem)
    have hold : ∀ scheme : DnsScheme, scheme.Remote → scheme ∉ config.added :=
      fun scheme hremote => hboot.not_remote hsystem hremote
    cases stopped with
    | none =>
      refine iff_of_true (hspec.bootstrapped hold) ?_
      rintro ⟨_, _, lost, hlost, hremote, hnot, _⟩
      have hadded := (hspec.all rfl lost).mpr (Or.inr (mem_requested.mpr (Or.inl hlost)))
      rw [hspec.made_of_new lost hadded (hold lost hremote) hremote] at hnot
      cases hnot
    | some lost =>
      obtain ⟨hlost, hiff⟩ := hspec.bootstrapped_iff_stop hsystem hold
      rw [hiff, hspec.stopsShort_iff hlock hsystem hold hlost, not_and_or, not_not]
      simp only [not_exists, not_and]
  · rw [installResolvers, if_neg hlock]
    exact iff_of_true hboot fun hstops => hlock hstops.1

theorem run_snoc (calls : List InstallCall) (call : InstallCall) :
    run domain (calls ++ [call]) = (installResolvers domain (run domain calls) call).2 :=
  List.foldl_append

theorem consistent_run (calls : List InstallCall) : (run domain calls).Consistent := by
  induction calls using List.reverseRecOn with
  | nil => exact ⟨List.nodup_nil, by simp [run, initial]⟩
  | append_singleton calls call ih =>
    rw [run_snoc]
    exact ih.installResolvers call

/-- The sources are bootstrapped between all calls exactly when no call stops short. -/
theorem bootstrapped_run_iff (domain : Name) (calls : List InstallCall) :
    (∀ before after, calls = before ++ after → (run domain before).Bootstrapped) ↔
      ∀ before call after, calls = before ++ call :: after →
        ¬ (run domain before).StopsShort call := by
  constructor
  · rintro h before call after rfl
    have hboot := h before (call :: after) rfl
    have hnext := h (before ++ [call]) after (by simp)
    rw [run_snoc] at hnext
    exact (bootstrapped_iff (consistent_run before) hboot call).mp hnext
  · intro h before
    induction before using List.reverseRecOn with
    | nil =>
      intro after _
      exact bootstrapped_of_remote (consistent_run []) (by simp [run, initial])
    | append_singleton before call ih =>
      rintro after rfl
      have hboot := ih (call :: after) (by simp)
      rw [run_snoc]
      exact (bootstrapped_iff (consistent_run before) hboot call).mpr (h before call after (by simp))

/-- HTTP cannot be had after H3 was added: H3 is left without the system's source. -/
theorem http_not_made_leaves_h3 :
    (installResolvers [] initial ⟨[.h3, .http], true, fun scheme => scheme = .h3⟩).1 =
        .error (.notMade .http) ∧
      (run [] [⟨[.h3, .http], true, fun scheme => scheme = .h3⟩]).added = [.h3] ∧
      ¬ (run [] [⟨[.h3, .http], true, fun scheme => scheme = .h3⟩]).Bootstrapped := by
  have hadded : (run [] [⟨[.h3, .http], true, fun scheme => scheme = .h3⟩]).added = [.h3] := rfl
  refine ⟨rfl, hadded, ?_⟩
  rintro ⟨_, hsystem⟩
  rw [hadded] at hsystem
  exact absurd (hsystem (Or.inl (by decide))) (by decide)

end ResolverConfig

end Install

end Ddns
