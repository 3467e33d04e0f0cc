import AppBundle.Targeting

/-!
# Devices

The description of one device, and the decision whether a targeting serves it.
The main statement is that the untargeted content serves every device.
-/

namespace AppBundle

/-- The description of one device. -/
structure Device where
  /-- The architectures the device runs, the preferred one first. -/
  supportedAbis : List Abi := []
  /-- The dots per inch of the screen. -/
  screenDensity : UInt32
  /-- The locales the user has set. -/
  supportedLocales : List String := []
  deriving DecidableEq

/-- The languages of the locales that can be read. -/
def Device.languages (d : Device) : OrderedSet Language :=
  .ofList (d.supportedLocales.filterMap fun l => (Language.ofLocale l).toOption)

/-- A decision whether a targeting serves a device. -/
abbrev Matcher := Targeting → Device → Bool

namespace Targeting

/-- The device prefers one of the served architectures to all its siblings. -/
def servesAbi (t : Targeting) (d : Device) : Bool :=
  !t.hasAbi ||
    match d.supportedAbis.find? (· ∈ t.abi.choices) with
    | some best => best ∈ t.abi.values
    | none => false

/-- One of the served density classes suits the screen best. -/
def servesDensity (t : Targeting) (d : Device) : Bool :=
  !t.hasDensity ||
    match Density.bestMatch d.screenDensity.toNat t.density.choices.toList with
    | some best => best ∈ t.density.values
    | none => false

/-- One of the served languages is a language of the device. -/
def servesLanguage (t : Targeting) (d : Device) : Bool :=
  !t.hasLanguage || d.languages.toList.any (· ∈ t.language.values)

/-- The device runs all architectures of one of the served sets. -/
def servesMultiAbi (t : Targeting) (d : Device) : Bool :=
  !t.hasMultiAbi || t.multiAbi.values.toList.any fun s => s.toList.all (· ∈ d.supportedAbis)

/-- A targeting serves a device if it does so in every dimension; a dimension
that is not targeted serves every device. -/
def serves (t : Targeting) (d : Device) : Bool :=
  t.servesAbi d && t.servesDensity d && t.servesLanguage d && t.servesMultiAbi d

/-- Untargeted content serves every device. -/
theorem serves_of_isUntargeted {t : Targeting} (h : t.isUntargeted) (d : Device) : t.serves d := by
  obtain ⟨ha, hd, hl, hm⟩ := isUntargeted_iff.mp h
  simp [serves, servesAbi, servesDensity, servesLanguage, servesMultiAbi, ha, hd, hl, hm]

end Targeting

end AppBundle
