import AppBundle.Proofs.PurePipelines

/-!
# The order of splitters

Different splitters concern different entries, except that two splitters by architecture concern
the same native libraries. So what one splitter takes out is nothing to the others, and the main
statement says that the order of the splitters of a pipeline makes no difference but to the order
of the parts.
-/

namespace AppBundle

/-- Paths below `assets` are assets. -/
theorem Category.ofPath_of_assets {path rest : String}
    (h : Text.after? "assets/" path = some rest) : ofPath path = assets := by
  have hlib := Text.startsWith_eq_false h "lib/" (by decide) (by decide)
  have hres := Text.startsWith_eq_false h "res/" (by decide) (by decide)
  have hassets : Text.startsWith "assets/" path = true := by
    rw [Text.startsWith, h, Option.isSome_some]
  have htable : path ≠ "resources.pb" := by
    rintro rfl
    exact absurd hassets (by decide)
  simp [ofPath, hlib, hres, hassets, htable]

section Concerns

variable {splitter other : Splitter} {e : Entry}

/-- Marked assets are assets. -/
theorem category_of_assetLanguage? (h : (assetLanguage? e.path).isSome) :
    e.category = .assets := by
  cases hassets : Text.after? "assets/" e.path with
  | none => simp [assetLanguage?, hassets] at h
  | some rest => exact Category.ofPath_of_assets hassets

/-- Resources for a language are resources. -/
theorem category_of_resourceLanguage? (h : (resourceLanguage? e.path).isSome) :
    e.category = .resources := by
  cases hres : Text.after? "res/" e.path with
  | none => simp [resourceLanguage?, ResourcePath.parse?, hres] at h
  | some rest => exact Category.ofPath_of_res hres

/-- The kind of content that a splitter divides. -/
def Splitter.category : Splitter → Category
  | nativeLibraries _ => .nativeLibraries
  | densityResources => .resources
  | languageResources => .resources
  | languageAssets => .assets
  | apexImages => .apexImages

/-- A splitter concerns only one kind of content. -/
theorem Splitter.category_of_concerns (h : splitter.concerns e) :
    e.category = splitter.category := by
  cases splitter with
  | nativeLibraries keep64Bit => exact Entry.category_of_isLibrary h
  | densityResources =>
    obtain ⟨v, hv⟩ := Option.isSome_iff_exists.mp (Option.isSome_map.symm.trans h)
    exact DensityVariant.category_of_ofEntry? hv
  | languageResources => exact category_of_resourceLanguage? h
  | languageAssets => exact category_of_assetLanguage? h
  | apexImages => exact ApexFile.category_of_ofPath_ne (of_decide_eq_true h)

/-- A resource that is qualified by a density has no language. -/
theorem resourceLanguage?_eq_none (h : e.resourceKey?.isSome) :
    resourceLanguage? e.path = none := by
  obtain ⟨k, hk⟩ := Option.isSome_iff_exists.mp h
  obtain ⟨d, r, hr, _, hd⟩ := Entry.resourceKey?_eq_some_iff.mp hk
  simp [resourceLanguage?, hr, hd]

/-- Different splitters concern different entries, unless both divide by architecture. -/
theorem Splitter.eq_of_concerns (h : splitter.concerns e) (hother : other.concerns e)
    (hnative : ∀ b c, splitter = .nativeLibraries b → other = .nativeLibraries c → b = c) :
    splitter = other := by
  have hcategory := (category_of_concerns h).symm.trans (category_of_concerns hother)
  cases splitter <;> cases other <;> try first | rfl | cases hcategory
  case nativeLibraries.nativeLibraries b c => rw [hnative b c rfl rfl]
  case densityResources.languageResources =>
    rw [concerns, resourceLanguage?_eq_none h] at hother
    cases hother
  case languageResources.densityResources =>
    rw [concerns, resourceLanguage?_eq_none hother] at h
    cases h

end Concerns

namespace Splitter

variable {splitter other : Splitter} {s t : Split} {left left' : List Entry}
variable {targeted targeted' : List Split}

/-- Agreement goes both ways. -/
theorem Agrees.symm (h : splitter.Agrees s t) : splitter.Agrees t s :=
  ⟨h.moduleName.symm, h.splitName.symm, h.entries.symm⟩

/-- Agreement can be continued. -/
theorem Agrees.trans {u : Split} (h : splitter.Agrees s t) (h' : splitter.Agrees t u) :
    splitter.Agrees s u :=
  ⟨h'.moduleName.trans h.moduleName, h'.splitName.trans h.splitName, h'.entries.trans h.entries⟩

/-- A splitter takes the same out of splits that agree. -/
theorem Takes.of_agrees (h : splitter.Takes s left targeted) (hagrees : splitter.Agrees s t) :
    splitter.Takes t left targeted where
  isOneDimensional := h.isOneDimensional
  eq_derive p hp := by
    have hderive := h.eq_derive p hp
    simp only [Split.derive] at hderive ⊢
    rwa [hagrees.moduleName, hagrees.splitName]
  concerns_left := h.concerns_left
  left_eq_nil := h.left_eq_nil
  split_eq u hu h' := h.split_eq u hu (hagrees.trans h')

/-- Two splitters are different and concern different entries. -/
structure IsApart (splitter other : Splitter) : Prop where
  ne : splitter ≠ other
  not_concerns : ∀ e, splitter.concerns e → other.concerns e = false

/-- Being apart goes both ways. -/
theorem IsApart.symm (h : splitter.IsApart other) : other.IsApart splitter where
  ne := h.ne.symm
  not_concerns e he := by
    cases hsplitter : splitter.concerns e with
    | false => rfl
    | true => rw [h.not_concerns e hsplitter] at he; cases he

namespace IsApart

variable (hapart : splitter.IsApart other)
include hapart

/-- What a splitter leaves is the same to another one. -/
theorem agrees_remaining (hleft : ∀ e ∈ left, splitter.concerns e) :
    other.Agrees s (splitter.remaining s left) := by
  refine ⟨rfl, rfl, ?_⟩
  have hnone : left.filter other.concerns = [] := by
    refine List.filter_eq_nil_iff.mpr fun e he => ?_
    rw [hapart.not_concerns e (hleft e he)]
    exact Bool.false_ne_true
  rw [remaining, Split.derive_entries, List.filter_append, hnone, List.append_nil,
    List.filter_filter]
  refine List.filter_congr fun e _ => ?_
  cases he : splitter.concerns e with
  | false => simp
  | true => simp [hapart.not_concerns e he]

/-- The entries that remain when both splitters are done. -/
theorem remaining_remaining (hleft : ∀ e ∈ left, splitter.concerns e) :
    other.remaining (splitter.remaining s left) left' =
      s.derive (s.entries.filter (fun e => !splitter.concerns e && !other.concerns e) ++
        (left ++ left')) .untargeted := by
  have hall : left.filter (!other.concerns ·) = left := by
    refine List.filter_eq_self.mpr fun e he => ?_
    rw [hapart.not_concerns e (hleft e he)]
    rfl
  have hentries : (splitter.remaining s left).entries.filter (!other.concerns ·) ++ left' =
      s.entries.filter (fun e => !splitter.concerns e && !other.concerns e) ++ (left ++ left') := by
    rw [remaining, Split.derive_entries, List.filter_append, hall, List.filter_filter,
      List.append_assoc]
    congr 1
    exact List.filter_congr fun e _ => Bool.and_comm _ _
  rw [remaining, hentries]
  rfl

/-- What remains does not depend on the order of the splitters, because only one of them puts
entries back. -/
theorem remaining_comm (h : splitter.Takes s left targeted) (h' : other.Takes s left' targeted') :
    other.remaining (splitter.remaining s left) left' =
      splitter.remaining (other.remaining s left') left := by
  have hleft : left ++ left' = left' ++ left := by
    by_cases himages : splitter = .apexImages
    · rw [h'.left_eq_nil fun hother => hapart.ne (himages.trans hother.symm), List.append_nil,
        List.nil_append]
    · rw [h.left_eq_nil himages, List.append_nil, List.nil_append]
  have hrest : (fun e => !splitter.concerns e && !other.concerns e) =
      fun e => !other.concerns e && !splitter.concerns e :=
    funext fun e => Bool.and_comm _ _
  rw [hapart.remaining_remaining h.concerns_left, hapart.symm.remaining_remaining h'.concerns_left,
    hleft, hrest]

/-- Two splitters at the beginning of a pipeline can be swapped. -/
theorem exists_of_split_swap {p : Pipeline} {parts : List Split} (hs : s.targeting.isUntargeted)
    (h : Pipeline.split (splitter :: other :: p) s = .ok parts) :
    ∃ parts', Pipeline.split (other :: splitter :: p) s = .ok parts' ∧ parts.Perm parts' := by
  obtain ⟨left, targeted, htakes⟩ := Pipeline.exists_takes_of_split_cons hs h
  have hagrees : other.Agrees s (splitter.remaining s left) :=
    hapart.agrees_remaining htakes.concerns_left
  rw [Pipeline.split_cons_of_takes htakes hs] at h
  obtain ⟨rest, hrest, rfl⟩ := map_eq_ok_iff.mp h
  obtain ⟨left', targeted', htakes'⟩ := Pipeline.exists_takes_of_split_cons rfl hrest
  rw [Pipeline.split_cons_of_takes htakes' rfl] at hrest
  obtain ⟨last, hlast, rfl⟩ := map_eq_ok_iff.mp hrest
  -- the same two steps in the other order, from the same split
  have hother : other.Takes s left' targeted' := htakes'.of_agrees hagrees.symm
  have hsplitter : splitter.Takes (other.remaining s left') left targeted :=
    htakes.of_agrees (hapart.symm.agrees_remaining hother.concerns_left)
  refine ⟨last ++ targeted ++ targeted', ?_, ?_⟩
  · rw [Pipeline.split_cons_of_takes hother hs, Pipeline.split_cons_of_takes hsplitter rfl,
      ← hapart.remaining_comm htakes hother, hlast]
    rfl
  · rw [List.append_assoc, List.append_assoc]
    exact List.perm_append_comm.append_left last

end IsApart

end Splitter

namespace Pipeline

variable {p q : Pipeline} {s : Split}

/-- The splitters of a pipeline that does not treat 64-bit libraries in two ways are apart. -/
theorem isApart (h64 : ¬ (.nativeLibraries true ∈ p ∧ .nativeLibraries false ∈ p))
    {splitter other : Splitter} (hsplitter : splitter ∈ p) (hother : other ∈ p)
    (hne : splitter ≠ other) : splitter.IsApart other := by
  refine ⟨hne, fun e he => ?_⟩
  cases hconcerns : other.concerns e with
  | false => rfl
  | true =>
    refine absurd (Splitter.eq_of_concerns he hconcerns ?_) hne
    rintro b c rfl rfl
    cases b <;> cases c
    case true.true | false.false => rfl
    case true.false => exact absurd ⟨hsplitter, hother⟩ h64
    case false.true => exact absurd ⟨hother, hsplitter⟩ h64

/-- Permuting the splitters of a pipeline that succeeds permutes the parts. -/
theorem exists_perm_of_split (hperm : p.Perm q)
    (h64 : ¬ (.nativeLibraries true ∈ p ∧ .nativeLibraries false ∈ p))
    (hs : s.targeting.isUntargeted) {parts : List Split} (h : p.split s = .ok parts) :
    ∃ parts', q.split s = .ok parts' ∧ parts.Perm parts' := by
  -- the split changes behind a common first splitter, but it stays untargeted
  induction hperm generalizing s parts with
  | nil => exact ⟨parts, h, .refl _⟩
  | cons splitter _ ih =>
    obtain ⟨left, targeted, htakes⟩ := exists_takes_of_split_cons hs h
    rw [split_cons_of_takes htakes hs] at h
    obtain ⟨own, hown, rfl⟩ := map_eq_ok_iff.mp h
    have hrest := fun hmem => h64 (And.imp (List.mem_cons_of_mem _) (List.mem_cons_of_mem _) hmem)
    obtain ⟨own', hown', hperm⟩ := ih hrest rfl hown
    rw [split_cons_of_takes htakes hs, hown']
    exact ⟨_, rfl, hperm.append_right targeted⟩
  | swap splitter other l =>
    by_cases heq : splitter = other
    · subst heq
      exact ⟨parts, h, .refl _⟩
    · exact (isApart h64 (by simp) (by simp) (Ne.symm heq)).exists_of_split_swap hs h
  | trans hperm _ ih ih' =>
    obtain ⟨middle, hmiddle, hperm₁⟩ := ih h64 hs h
    rw [hperm.mem_iff, hperm.mem_iff] at h64
    obtain ⟨parts', hparts', hperm₂⟩ := ih' h64 hs hmiddle
    exact ⟨parts', hparts', hperm₁.trans hperm₂⟩

/-- The order of the splitters of a pipeline that does not treat 64-bit libraries in two ways makes
no difference to a split: either all orders fail, or all orders make the same parts, though perhaps
in different orders. -/
theorem alike_split_of_perm (hperm : p.Perm q)
    (h64 : ¬ (.nativeLibraries true ∈ p ∧ .nativeLibraries false ∈ p))
    (hs : s.targeting.isUntargeted) : Alike List.Perm (p.split s) (q.split s) := by
  have h64' : ¬ (.nativeLibraries true ∈ q ∧ .nativeLibraries false ∈ q) := by
    rwa [← hperm.mem_iff, ← hperm.mem_iff]
  refine alike_of_forall (fun parts h => exists_perm_of_split hperm h64 hs h) fun parts h => ?_
  obtain ⟨parts', hparts', _⟩ := exists_perm_of_split hperm.symm h64' hs h
  exact ⟨parts', hparts'⟩

/-- The content of the sample is divided into the same parts by density first and by density
last. -/
theorem alike_split_sampleBase :
    let s := Split.ofEntries baseName sampleBase.entries .untargeted
    let p : Pipeline := [.densityResources, .nativeLibraries false, .languageAssets]
    let q : Pipeline := [.nativeLibraries false, .languageAssets, .densityResources]
    p.Perm q ∧ ¬ (.nativeLibraries true ∈ p ∧ .nativeLibraries false ∈ p) ∧
      s.targeting.isUntargeted ∧ (p.split s).toOption.isSome ∧
      Alike List.Perm (p.split s) (q.split s) := by
  have hperm : List.Perm [Splitter.densityResources, .nativeLibraries false, .languageAssets]
      [.nativeLibraries false, .languageAssets, .densityResources] := by decide
  have h64 : ¬ (Splitter.nativeLibraries true ∈
        [Splitter.densityResources, .nativeLibraries false, .languageAssets] ∧
      Splitter.nativeLibraries false ∈
        [Splitter.densityResources, .nativeLibraries false, .languageAssets]) := by decide
  exact ⟨hperm, h64, rfl, by decide +kernel, alike_split_of_perm hperm h64 rfl⟩

end Pipeline

end AppBundle
