import AppBundle.Proofs.JoinedTexts
import AppBundle.Proofs.SystemImage

/-!
# Labels can be read back

The label of a targeting shows the values of each dimension, joined by several separators. No
value holds a separator, so the label can be taken apart: it determines the values in every
dimension, and whether anything is targeted at all. It says nothing about alternatives.
-/

namespace AppBundle

open Text

/-- The characters that part the pieces of a label, and labels from each other. -/
def labelMarks : List Char := ['+', '.', ',', '=', '\n']

/-- A text that can stand between the marks of a label. -/
def IsPlain (s : String) : Prop := s ≠ "" ∧ s.toList.all (· ∉ labelMarks)

instance (s : String) : Decidable (IsPlain s) := inferInstanceAs (Decidable (_ ∧ _))

/-- A plain text holds no mark. -/
theorem IsPlain.not_mem {s : String} (h : IsPlain s) {c : Char} (hc : c ∈ labelMarks) :
    c ∉ s.toList := fun hmem => of_decide_eq_true (List.all_eq_true.mp h.2 c hmem) hc

/-- The names of architectures are plain. -/
theorem Abi.isPlain_name (a : Abi) : IsPlain a.name := by cases a <;> decide

/-- The names of density classes are plain. -/
theorem Density.isPlain_name (d : Density) : IsPlain d.name := by cases d <;> decide

/-- The codes of languages are plain. -/
theorem Language.isPlain_of_isCode {s : String} (h : isCode s) : IsPlain s := by
  obtain ⟨hlength, hletters⟩ := Bool.and_eq_true_iff.mp h
  have hmarks : labelMarks.all (!isCodeLetter ·) := by decide
  refine ⟨?_, List.all_eq_true.mpr fun c hmem => decide_eq_true fun hc => ?_⟩
  · rintro rfl
    exact absurd hlength (by decide)
  · have hmark := List.all_eq_true.mp hmarks c hc
    rw [List.all_eq_true.mp hletters c hmem] at hmark
    cases hmark

namespace Targeting

variable {t u : Targeting} {name : String} {parts : List String}

/-- The targeted languages have codes of the shape that reading gives them. -/
def HasCodes (t : Targeting) : Prop := ∀ l ∈ t.language.values, Language.isCode l.code

/-- What the parts of a label say about a dimension. -/
def shownValues (name : String) (parts : List String) : List String :=
  parts.filterMap (after? (name ++ "="))

/-- The text for the values of a dimension, if there are any. -/
def valueTexts (values : List String) : List String :=
  if values.isEmpty then [] else [join "+" values]

/-- The text for each set of architectures. -/
def abiSetTexts (t : Targeting) : List String :=
  t.multiAbi.values.toList.map fun s => join "." (s.toList.map Abi.name)

/-- A part of a label shows a text behind the name of its dimension. -/
def namedText (name text : String) : String := name ++ "=" ++ text

/-- The parts of a label show the texts of all dimensions behind their names. -/
theorem labelParts_eq (t : Targeting) :
    t.labelParts =
      (valueTexts (t.abi.values.toList.map Abi.name)).map (namedText "abi") ++
        (valueTexts (t.density.values.toList.map Density.name)).map (namedText "density") ++
        (valueTexts (t.language.values.toList.map Language.code)).map (namedText "lang") ++
        t.abiSetTexts.map (namedText "multi_abi") := by
  have hpart (name : String) (values : List String) :
      labelPart name "+" values = (valueTexts values).map (namedText name) := by
    unfold labelPart valueTexts
    split <;> rfl
  have hsets (text : String) : "multi_abi=" ++ text = namedText "multi_abi" text := rfl
  simp only [labelParts, hpart, abiSetTexts, List.map_map, hsets, Function.comp_def]

section Reading

theorem shownValues_append (name : String) (parts others : List String) :
    shownValues name (parts ++ others) = shownValues name parts ++ shownValues name others :=
  List.filterMap_append

/-- A text without the sign of equality shows no values. -/
theorem shownValues_singleton {word : String} (h : '=' ∉ word.toList) :
    shownValues name [word] = [] := by
  have hnone : after? (name ++ "=") word = none := by
    rw [Option.eq_none_iff_forall_ne_some]
    intro rest hrest
    refine h ?_
    rw [after?_eq_some_iff.mp hrest, String.toList_append, String.toList_append]
    simp
  rw [shownValues, List.filterMap_cons_none hnone, List.filterMap_nil]

/-- What is shown behind a name is what that name shows, and no other name does. -/
theorem shownValues_map {other : String} (hname : '=' ∉ name.toList) (hother : '=' ∉ other.toList)
    (texts : List String) :
    shownValues name (texts.map (namedText other)) = if other = name then texts else [] := by
  have hmark : "=".toList = ['='] := rfl
  rw [shownValues, List.filterMap_map]
  split
  · rename_i heq
    have hall : after? (name ++ "=") ∘ namedText other = some := by
      funext text
      rw [Function.comp_apply, heq]
      exact after?_eq_some_iff.mpr rfl
    rw [hall, List.filterMap_some]
  · rename_i hne
    refine List.filterMap_eq_nil_iff.mpr fun text _ => ?_
    rw [Function.comp_apply, Option.eq_none_iff_forall_ne_some]
    intro rest hrest
    have hcut := congrArg (split '=') (after?_eq_some_iff.mp hrest)
    rw [namedText, split_append_of_not_mem hmark hother, split_append_of_not_mem hmark hname,
      List.cons.injEq] at hcut
    exact hne hcut.1

/-- A label shows the texts of the dimension that is asked for. -/
theorem shownValues_labelParts (hname : '=' ∉ name.toList) (t : Targeting) :
    shownValues name t.labelParts =
      (if "abi" = name then valueTexts (t.abi.values.toList.map Abi.name) else []) ++
        (if "density" = name then valueTexts (t.density.values.toList.map Density.name) else []) ++
        (if "lang" = name then valueTexts (t.language.values.toList.map Language.code) else []) ++
        (if "multi_abi" = name then t.abiSetTexts else []) := by
  rw [labelParts_eq, shownValues_append, shownValues_append, shownValues_append,
    shownValues_map hname (by decide), shownValues_map hname (by decide),
    shownValues_map hname (by decide), shownValues_map hname (by decide)]

/-- A label shows the architectures. -/
theorem shownValues_abi (t : Targeting) :
    shownValues "abi" t.labelParts = valueTexts (t.abi.values.toList.map Abi.name) := by
  simp [shownValues_labelParts]

/-- A label shows the density classes. -/
theorem shownValues_density (t : Targeting) :
    shownValues "density" t.labelParts = valueTexts (t.density.values.toList.map Density.name) := by
  simp [shownValues_labelParts]

/-- A label shows the languages. -/
theorem shownValues_language (t : Targeting) :
    shownValues "lang" t.labelParts = valueTexts (t.language.values.toList.map Language.code) := by
  simp [shownValues_labelParts]

/-- A label shows the sets of architectures. -/
theorem shownValues_multiAbi (t : Targeting) :
    shownValues "multi_abi" t.labelParts = t.abiSetTexts := by
  simp [shownValues_labelParts]

end Reading

section Words

/-- The pieces of a label between its commas. -/
def labelWords (t : Targeting) : List String :=
  if t.isUntargeted then ["master"]
  else if t.labelParts = [] then ["alternatives-only"] else t.labelParts

/-- The label has its words between commas. -/
theorem label_eq (t : Targeting) : t.label = join "," t.labelWords := by
  unfold label labelWords
  split
  · rfl
  · split
    · rename_i hparts
      rw [if_pos hparts]
      rfl
    · rename_i hne
      rw [if_neg hne]

/-- Nothing is shown by the label of what has no values. -/
theorem labelParts_of_isUntargeted (h : t.isUntargeted) : t.labelParts = [] := by
  rw [of_decide_eq_true h]
  rfl

/-- The words of a label show what its parts show. -/
theorem shownValues_labelWords (name : String) (t : Targeting) :
    shownValues name t.labelWords = shownValues name t.labelParts := by
  unfold labelWords
  split
  · rename_i huntargeted
    rw [labelParts_of_isUntargeted huntargeted, shownValues_singleton (by decide)]
    rfl
  · split
    · rename_i hparts
      rw [hparts, shownValues_singleton (by decide)]
      rfl
    · rfl

/-- The names of the dimensions in a label. -/
def labelNames : List String := ["abi", "density", "lang", "multi_abi"]

/-- Every part of a label is made of plain values. -/
theorem exists_of_mem_labelParts (h : t.HasCodes) {part : String} (hpart : part ∈ t.labelParts) :
    ∃ name ∈ labelNames, ∃ sep ∈ ["+", "."], ∃ values : List String,
      (∀ v ∈ values, IsPlain v) ∧ part = namedText name (join sep values) := by
  have hvalues {name : String} (hname : name ∈ labelNames) {values : List String}
      (hplain : ∀ v ∈ values, IsPlain v)
      (hpart : part ∈ (valueTexts values).map (namedText name)) :
      ∃ name ∈ labelNames, ∃ sep ∈ ["+", "."], ∃ values : List String,
        (∀ v ∈ values, IsPlain v) ∧ part = namedText name (join sep values) := by
    obtain ⟨text, htext, rfl⟩ := List.mem_map.mp hpart
    unfold valueTexts at htext
    split at htext
    · exact absurd htext List.not_mem_nil
    · exact ⟨name, hname, "+", by decide, values, hplain, by rw [List.mem_singleton.mp htext]⟩
  rw [labelParts_eq, List.mem_append, List.mem_append, List.mem_append] at hpart
  rcases hpart with ((hpart | hpart) | hpart) | hpart
  · exact hvalues (by decide) (List.forall_mem_map.mpr fun a _ => a.isPlain_name) hpart
  · exact hvalues (by decide) (List.forall_mem_map.mpr fun d _ => d.isPlain_name) hpart
  · exact hvalues (by decide)
      (List.forall_mem_map.mpr fun l hl => Language.isPlain_of_isCode (h l hl)) hpart
  · obtain ⟨text, htext, rfl⟩ := List.mem_map.mp hpart
    obtain ⟨s, _, rfl⟩ := List.mem_map.mp htext
    exact ⟨"multi_abi", by decide, ".", by decide, s.toList.map Abi.name,
      List.forall_mem_map.mpr fun a _ => a.isPlain_name, rfl⟩

/-- The words of a label hold neither commas nor line breaks. -/
theorem not_mem_of_mem_labelWords (h : t.HasCodes) {c : Char} (hc : c ∈ [',', '\n'])
    {word : String} (hword : word ∈ t.labelWords) : c ∉ word.toList := by
  obtain ⟨hmark, hequals, hspecial, hnames, hseps⟩ : c ∈ labelMarks ∧ c ∉ "=".toList ∧
      (∀ word ∈ ["master", "alternatives-only"], c ∉ word.toList) ∧
      (∀ name ∈ labelNames, c ∉ name.toList) ∧ ∀ sep ∈ ["+", "."], c ∉ sep.toList := by
    rcases List.mem_pair.mp hc with rfl | rfl <;> decide
  unfold labelWords at hword
  split at hword
  · exact hspecial word (by simp [List.mem_singleton.mp hword])
  split at hword
  · exact hspecial word (by simp [List.mem_singleton.mp hword])
  obtain ⟨name, hname, sep, hsep, values, hvalues, rfl⟩ := exists_of_mem_labelParts h hword
  rw [namedText, String.toList_append, String.toList_append, List.mem_append, List.mem_append]
  rintro ((hmem | hmem) | hmem)
  · exact hnames name hname hmem
  · exact hequals hmem
  · rcases mem_of_mem_join hmem with hmem | ⟨v, hv, hmem⟩
    · exact hseps sep hsep hmem
    · exact (hvalues v hv).not_mem hmark hmem

/-- A label is one line. -/
theorem not_mem_label (h : t.HasCodes) : '\n' ∉ t.label.toList := by
  rw [label_eq]
  intro hmem
  rcases mem_of_mem_join hmem with hmem | ⟨word, hword, hmem⟩
  · exact absurd hmem (by decide)
  · exact not_mem_of_mem_labelWords h (by decide) hword hmem

/-- The label determines its words. -/
theorem labelWords_eq_of_label (ht : t.HasCodes) (hu : u.HasCodes) (h : t.label = u.label) :
    t.labelWords = u.labelWords := by
  have hne (t : Targeting) : t.labelWords ≠ [] := by
    unfold labelWords
    split
    · exact List.cons_ne_nil _ _
    · split
      · exact List.cons_ne_nil _ _
      · assumption
  rw [label_eq, label_eq] at h
  exact join_injective_of_ne_nil rfl
    ⟨hne t, fun _ => not_mem_of_mem_labelWords ht (by decide)⟩
    ⟨hne u, fun _ => not_mem_of_mem_labelWords hu (by decide)⟩ h

/-- Every part of a label has a sign of equality. -/
theorem mem_of_mem_labelParts {part : String} (hpart : part ∈ t.labelParts) :
    '=' ∈ part.toList := by
  have hnamed (name text : String) : '=' ∈ (namedText name text).toList := by
    simp [namedText]
  rw [labelParts_eq, List.mem_append, List.mem_append, List.mem_append] at hpart
  rcases hpart with ((hpart | hpart) | hpart) | hpart <;>
    obtain ⟨text, _, rfl⟩ := List.mem_map.mp hpart <;> exact hnamed _ _

/-- The words of a label tell whether anything is targeted. -/
theorem labelWords_eq_master_iff : t.labelWords = ["master"] ↔ t.isUntargeted := by
  unfold labelWords
  split
  · rename_i huntargeted
    exact iff_of_true rfl huntargeted
  · rename_i htargeted
    refine iff_of_false ?_ htargeted
    split
    · decide
    · intro hparts
      have hmem : "master" ∈ t.labelParts := hparts ▸ List.mem_singleton_self _
      exact absurd (mem_of_mem_labelParts hmem) (by decide)

end Words

section Injective

/-- The text for some values determines them. -/
theorem valueTexts_injective {values others : List String} (hvalues : ∀ v ∈ values, IsPlain v)
    (hothers : ∀ v ∈ others, IsPlain v) (h : valueTexts values = valueTexts others) :
    values = others := by
  have hplus : '+' ∈ labelMarks := by decide
  unfold valueTexts at h
  by_cases hempty : values.isEmpty
  · by_cases hempty' : others.isEmpty
    · rw [List.isEmpty_iff.mp hempty, List.isEmpty_iff.mp hempty']
    · rw [if_pos hempty, if_neg hempty'] at h
      cases h
  · by_cases hempty' : others.isEmpty
    · rw [if_neg hempty, if_pos hempty'] at h
      cases h
    · rw [if_neg hempty, if_neg hempty', List.singleton_inj] at h
      exact join_injective rfl (fun v hv => ⟨(hvalues v hv).1, (hvalues v hv).not_mem hplus⟩)
        (fun v hv => ⟨(hothers v hv).1, (hothers v hv).not_mem hplus⟩) h

/-- The text for the names of a set determines the set. -/
theorem eq_of_valueTexts {α : Type} [Ord α] {name : α → String} {s s' : OrderedSet α}
    (hname : ∀ a b, name a = name b → a = b) (hs : ∀ a ∈ s, IsPlain (name a))
    (hs' : ∀ a ∈ s', IsPlain (name a))
    (h : valueTexts (s.toList.map name) = valueTexts (s'.toList.map name)) : s = s' := by
  have hnames := valueTexts_injective (List.forall_mem_map.mpr hs) (List.forall_mem_map.mpr hs') h
  exact OrderedSet.toList_injective ((List.map_inj_right hname).mp hnames)

/-- The text for a set of architectures determines it. -/
theorem abiSet_eq_of_join {s s' : AbiSet}
    (h : join "." (s.toList.map Abi.name) = join "." (s'.toList.map Abi.name)) : s = s' := by
  have hplain (s : AbiSet) : ∀ v ∈ s.toList.map Abi.name, v ≠ "" ∧ '.' ∉ v.toList :=
    List.forall_mem_map.mpr fun a _ => ⟨a.isPlain_name.1, a.isPlain_name.not_mem (by decide)⟩
  have hnames := join_injective rfl (hplain s) (hplain s') h
  exact OrderedSet.toList_injective ((List.map_inj_right fun _ _ => Abi.name_injective).mp hnames)

/-- Targetings whose labels show the same serve the same. -/
theorem sameValues_of_shownValues (ht : t.HasCodes) (hu : u.HasCodes)
    (h : ∀ name, shownValues name t.labelParts = shownValues name u.labelParts) :
    t.SameValues u where
  abi := by
    have habi := h "abi"
    rw [shownValues_abi, shownValues_abi] at habi
    exact eq_of_valueTexts (fun _ _ => Abi.name_injective) (fun a _ => a.isPlain_name)
      (fun a _ => a.isPlain_name) habi
  density := by
    have hdensity := h "density"
    rw [shownValues_density, shownValues_density] at hdensity
    exact eq_of_valueTexts (fun _ _ => Density.name_injective) (fun d _ => d.isPlain_name)
      (fun d _ => d.isPlain_name) hdensity
  language := by
    have hlanguage := h "lang"
    rw [shownValues_language, shownValues_language] at hlanguage
    have hcode (l l' : Language) (h : l.code = l'.code) : l = l' := by
      cases l; cases l'; cases h; rfl
    exact eq_of_valueTexts hcode (fun l hl => Language.isPlain_of_isCode (ht l hl))
      (fun l hl => Language.isPlain_of_isCode (hu l hl)) hlanguage
  multiAbi := by
    have hsets := h "multi_abi"
    rw [shownValues_multiAbi, shownValues_multiAbi] at hsets
    exact OrderedSet.toList_injective
      ((List.map_inj_right fun _ _ => abiSet_eq_of_join).mp hsets)

/-- Two labels are the same if the same values are served in every dimension, and either both
targetings or none of them leave nothing targeted. -/
theorem label_eq_iff (ht : t.HasCodes) (hu : u.HasCodes) :
    t.label = u.label ↔ t.SameValues u ∧ (t.isUntargeted ↔ u.isUntargeted) := by
  constructor
  · intro h
    have hwords := labelWords_eq_of_label ht hu h
    refine ⟨sameValues_of_shownValues ht hu fun name => ?_, ?_⟩
    · rw [← shownValues_labelWords, hwords, shownValues_labelWords]
    · rw [← labelWords_eq_master_iff, hwords, labelWords_eq_master_iff]
  · rintro ⟨hvalues, huntargeted⟩
    have hparts : t.labelParts = u.labelParts := by
      rw [labelParts, labelParts, hvalues.abi, hvalues.density, hvalues.language,
        hvalues.multiAbi]
    simp only [label_eq, labelWords, hparts, huntargeted]

/-- The languages of a targeting, those of its siblings as well, were read from texts. -/
def HasReadLanguages (t : Targeting) : Prop :=
  ∀ l ∈ t.language.choices, ∃ text, Language.parse text = .ok l

/-- Languages that were read have codes. -/
theorem HasReadLanguages.hasCodes (h : t.HasReadLanguages) : t.HasCodes := by
  intro l hl
  obtain ⟨text, htext⟩ := h l (Selection.mem_choices.mpr (.inl hl))
  exact Language.isCode_of_parse htext

/-- A label can be read in one way only: two targetings with the same label serve the same values in
every dimension, and either both or none of them is the untargeted one. They can differ in their
alternatives, and only there. -/
theorem eq_label_iff_sameValues (ht : t.HasReadLanguages) (hu : u.HasReadLanguages) :
    t.label = u.label ↔ t.SameValues u ∧ (t = untargeted ↔ u = untargeted) := by
  rw [label_eq_iff ht.hasCodes hu.hasCodes, isUntargeted, isUntargeted, decide_eq_true_eq,
    decide_eq_true_eq]

/-- A targeting with values in every dimension, the set without architectures among them. -/
def wideTargeting (alternatives : OrderedSet AbiSet) : Targeting where
  abi := .one .x86 (.ofList [.mips])
  density := ⟨.ofList [.hdpi, .ldpi], ∅⟩
  language := ⟨.ofList [⟨"fr"⟩, ⟨"fil"⟩], .ofList [⟨"de"⟩]⟩
  multiAbi := ⟨.ofList [∅, .ofList [.x86, .x86_64]], alternatives⟩

/-- Wide targetings with other alternatives have the same label. -/
theorem eq_label_wideTargeting :
    (wideTargeting ∅).HasReadLanguages ∧ (wideTargeting (.singleton ∅)).HasReadLanguages ∧
      (wideTargeting ∅).label =
        "abi=x86,density=ldpi+hdpi,lang=fil+fr,multi_abi=,multi_abi=x86.x86_64" ∧
      ((wideTargeting ∅).label = (wideTargeting (.singleton ∅)).label ↔
        (wideTargeting ∅).SameValues (wideTargeting (.singleton ∅)) ∧
          (wideTargeting ∅ = untargeted ↔ wideTargeting (.singleton ∅) = untargeted)) := by
  have hread (alternatives : OrderedSet AbiSet) : (wideTargeting alternatives).HasReadLanguages := by
    intro l hl
    have hcodes : ∀ l ∈ (wideTargeting ∅).language.choices.toList, Language.isCode l.code := by
      decide
    exact ⟨l.code, Language.parse_of_isCode (hcodes l hl)⟩
  exact ⟨hread ∅, hread _, by decide, eq_label_iff_sameValues (hread ∅) (hread _)⟩

/-- A text that no language is read from can hold the mark between two languages. -/
example :
    (forLanguage ⟨"de+fr"⟩).label =
      label { language := ⟨.ofList [⟨"de"⟩, ⟨"fr"⟩], ∅⟩ } := by
  decide

end Injective

end Targeting

end AppBundle
