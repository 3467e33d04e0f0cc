import AppBundle.Proofs.StageOrder

/-!
# Pipelines that are applied again

A splitter that has divided a split finds nothing to take out of the first part, and the other
splitters of a pipeline put nothing there for it. Files that tell how images were built and that go
with no image are put back in the order in which they are taken out again. The main statement says
that a pipeline changes nothing in the parts that it has made.
-/

namespace AppBundle

/-- A file that tells how an image was built, where no image among some entries has the set of
architectures that the file is named for. -/
def Entry.IsOrphanAmong (entries : List Entry) (e : Entry) : Prop :=
  ∃ stem, ApexFile.buildInfoStem? e.path = some stem ∧
    ∀ abis, ApexFile.abis? stem = some abis → ∀ f ∈ entries, f.imageAbis? ≠ some abis

/-- A file without an image among some entries has none among entries with no more images. -/
theorem Entry.IsOrphanAmong.of_subset {entries others : List Entry} {e : Entry}
    (h : e.IsOrphanAmong entries) (hsub : ∀ f ∈ others, f.imageAbis?.isSome → f ∈ entries) :
    e.IsOrphanAmong others := by
  obtain ⟨stem, hstem, hnone⟩ := h
  refine ⟨stem, hstem, fun abis habis f hf himage => ?_⟩
  exact hnone abis habis f (hsub f hf (Option.isSome_of_eq_some himage)) himage

section BuildFiles

variable {entries : List Entry} {images : OrderedSet AbiSet}

/-- The files that tell how images were built, by their stems. -/
def buildFiles (entries : List Entry) : OrderedMap String Entry :=
  .ofList (entries.filterMap fun e => (ApexFile.buildInfoStem? e.path).map (·, e))

/-- The files that tell how images were built and go with none of some sets of images. -/
def orphans (entries : List Entry) (images : OrderedSet AbiSet) : List (String × Entry) :=
  (buildFiles entries).toList.filter fun p => (ApexFile.abis? p.1).all (· ∉ images)

/-- The files that go with no images are those without a label, in the order of their stems. -/
theorem entriesLabelled_labelBuildInfo :
    entriesLabelled (labelBuildInfo entries images) none =
      (orphans entries images).map Prod.snd := by
  have hlabel (p : String × Entry) : decide ((ApexFile.abis? p.1).filter (· ∈ images) = none) =
      (ApexFile.abis? p.1).all (· ∉ images) := by
    cases ApexFile.abis? p.1 <;> simp
  rw [entriesLabelled, labelBuildInfo, List.filter_map, List.map_map, orphans]
  simp only [Function.comp_def, hlabel]
  rfl

/-- A file that goes with no images is an entry with its stem. -/
theorem of_mem_orphans {stem : String} {e : Entry} (h : (stem, e) ∈ orphans entries images) :
    e ∈ entries ∧ ApexFile.buildInfoStem? e.path = some stem ∧
      ∀ abis, ApexFile.abis? stem = some abis → abis ∉ images := by
  obtain ⟨hfile, hnone⟩ := List.mem_filter.mp h
  obtain ⟨f, hf, hpair⟩ := List.mem_filterMap.mp (OrderedMap.mem_of_mem_ofList hfile)
  obtain ⟨_, hstem, heq⟩ := Option.map_eq_some_iff.mp hpair
  obtain ⟨rfl, rfl⟩ := Prod.mk.inj heq
  refine ⟨hf, hstem, fun abis habis => ?_⟩
  rw [habis] at hnone
  exact of_decide_eq_true hnone

/-- The files that go with no images are found again, in the same order. -/
theorem toList_buildFiles_orphans :
    (buildFiles ((orphans entries images).map Prod.snd)).toList = orphans entries images := by
  have hfiles : ((orphans entries images).map Prod.snd).filterMap
      (fun e => (ApexFile.buildInfoStem? e.path).map (·, e)) = orphans entries images := by
    have hself : ∀ p ∈ orphans entries images,
        ((ApexFile.buildInfoStem? p.2.path).map (·, p.2)) = some p := by
      rintro ⟨stem, e⟩ hp
      rw [(of_mem_orphans hp).2.1, Option.map_some]
    rw [List.filterMap_map]
    exact (List.filterMap_congr hself).trans List.filterMap_some
  -- a part of the files has increasing stems as well
  let kept : OrderedMap String Entry :=
    ⟨orphans entries images, (buildFiles entries).increasing.sublist (List.filter_sublist.map _)⟩
  rw [buildFiles, hfiles]
  exact congrArg OrderedMap.toList (OrderedMap.ofList_toList kept)

/-- Without images all files go with none. -/
theorem labelBuildInfo_empty :
    labelBuildInfo entries ∅ = (buildFiles entries).toList.map fun p => (p.2, none) := by
  refine List.map_congr_left ?_
  rintro ⟨stem, e⟩ _
  simp

end BuildFiles

/-- A division by labels that no entry has makes one part. -/
theorem Split.divide_of_unlabelled {κ : Type} [Ord κ] [Std.TransOrd κ] [Std.LawfulEqOrd κ]
    [DecidableEq κ] {s : Split} {entries : List Entry} {target : κ → OrderedSet κ → Targeting} :
    s.divide (entries.map fun e => (e, none)) target = [s.derive entries .untargeted] := by
  have hall : entriesLabelled (entries.map fun e => (e, (none : Option κ))) none = entries := by
    refine (map_fst_filter_labelled (fun _ => none) (· = none) entries).trans ?_
    exact List.filter_eq_self.mpr fun _ _ => rfl
  have hlabels : (entries.map fun e => (e, (none : Option κ))).filter (·.2.isSome) = [] := by
    simp
  rw [divide_eq, hall, hlabels]
  rfl

/-- The images of a split with their sets of architectures. -/
theorem Split.mem_images {s : Split} {e : Entry} {abis : AbiSet} :
    (e, some abis) ∈ s.images ↔ e ∈ s.entries ∧ e.imageAbis? = some abis := by
  rw [images, List.mem_map]
  constructor
  · rintro ⟨f, hf, hpair⟩
    obtain ⟨rfl, himage⟩ := Prod.mk.inj hpair
    exact ⟨(List.mem_filter.mp hf).1, himage⟩
  · rintro ⟨he, himage⟩
    obtain ⟨stem, hpath, _⟩ := Entry.imageAbis?_eq_some_iff.mp himage
    refine ⟨e, List.mem_filter.mpr ⟨he, ?_⟩, by rw [himage]⟩
    rw [ApexFile.buildInfoStem?, hpath]
    rfl

namespace Splitter

variable {splitter other : Splitter} {s t : Split} {left own rest : List Entry}
variable {targeted parts : List Split}

/-- A splitter has nothing to do in a split: it gives the split back as it is. -/
def IsDoneWith (splitter : Splitter) (s : Split) : Prop := splitter.split s = .ok [s]

/-- There is nothing to do in an empty split. -/
theorem isDoneWith_nil (splitter : Splitter) (s : Split) :
    splitter.IsDoneWith (s.derive [] .untargeted) := by
  cases splitter <;> rfl

/-- A splitter that is done with a split takes nothing out of it. -/
theorem Takes.eq_of_isDoneWith (h : splitter.Takes s left targeted)
    (hdone : splitter.IsDoneWith s) (hs : s.targeting.isUntargeted) :
    splitter.remaining s left = s ∧ targeted = [] :=
  List.cons.inj (Except.ok.inj ((h.split_self hs).symm.trans hdone))

/-- Entries that do not concern a splitter make no difference to whether it is done. -/
theorem IsDoneWith.append_left (h : splitter.IsDoneWith (s.derive own .untargeted))
    (hown : ∀ e ∈ own, splitter.concerns e) (hrest : ∀ e ∈ rest, splitter.concerns e = false) :
    splitter.IsDoneWith (s.derive (rest ++ own) .untargeted) := by
  have hrestNone : rest.filter splitter.concerns = [] := by
    refine List.filter_eq_nil_iff.mpr fun e he => ?_
    rw [hrest e he]
    exact Bool.false_ne_true
  have hrestAll : rest.filter (!splitter.concerns ·) = rest := by
    refine List.filter_eq_self.mpr fun e he => ?_
    rw [hrest e he]
    rfl
  have hownNone : own.filter (!splitter.concerns ·) = [] := by
    refine List.filter_eq_nil_iff.mpr fun e he => ?_
    rw [hown e he]
    exact Bool.false_ne_true
  have hagrees :
      splitter.Agrees (s.derive own .untargeted) (s.derive (rest ++ own) .untargeted) := by
    refine ⟨rfl, rfl, ?_⟩
    rw [Split.derive_entries, Split.derive_entries, List.filter_append, hrestNone, List.nil_append]
  obtain ⟨left, targeted, htakes⟩ := exists_takes rfl h
  obtain ⟨hself, rfl⟩ := htakes.eq_of_isDoneWith h rfl
  -- what is put back is all there was
  have hleft : left = own := by
    have hentries := congrArg Split.entries hself
    rwa [remaining, Split.derive_entries, Split.derive_entries, hownNone, List.nil_append]
      at hentries
  rw [IsDoneWith, htakes.split_eq _ rfl hagrees, remaining, Split.derive_entries,
    List.filter_append, hrestAll, hownNone, List.append_nil, hleft]
  rfl

/-- A splitter has nothing to do where no entry concerns it. -/
theorem isDoneWith_of_forall (s : Split) (h : ∀ e ∈ rest, splitter.concerns e = false) :
    splitter.IsDoneWith (s.derive rest .untargeted) := by
  have hdone := (isDoneWith_nil splitter s).append_left (by simp) h
  rwa [List.append_nil] at hdone

/-- What is put back are the files that tell how images were built and go with no images. -/
theorem Takes.left_eq (h : apexImages.Takes s left targeted) (hs : s.targeting.isUntargeted) :
    left = (orphans s.entries (occurringLabels s.images)).map Prod.snd := by
  have hsplit := h.split_self hs
  rw [split, if_pos hs] at hsplit
  obtain ⟨images, himages, hdivide⟩ := bind_eq_ok_iff.mp hsplit
  have hmalformed := not_isMalformedImage_of_labelImages himages
  obtain rfl : s.images = images := Except.ok.inj ((labelImages_eq hmalformed).symm.trans himages)
  have hfirst := congrArg Split.entries (List.cons.inj (Except.ok.inj hdivide)).1
  rw [remaining, Split.derive_entries, Split.derive_entries, entriesLabelled, List.filter_append,
    List.map_append] at hfirst
  change entriesLabelled s.images none ++ entriesLabelled (labelBuildInfo _ _) none = _ at hfirst
  rw [entriesLabelled_images hmalformed, entriesLabelled_labelBuildInfo] at hfirst
  exact (List.append_cancel_left hfirst).symm

/-- Files that go with no images are put back as they are. -/
theorem isDoneWith_orphans (s : Split) (entries : List Entry) (images : OrderedSet AbiSet) :
    apexImages.IsDoneWith (s.derive ((orphans entries images).map Prod.snd) .untargeted) := by
  let put := (orphans entries images).map Prod.snd
  have himages : labelImages put = .ok [] := by
    have hnone : put.filter (fun e => (ApexFile.buildInfoStem? e.path).isNone) = [] := by
      refine List.filter_eq_nil_iff.mpr fun e he => ?_
      obtain ⟨⟨stem, f⟩, hf, rfl⟩ := List.mem_map.mp he
      simp [(of_mem_orphans hf).2.1]
    rw [labelImages, hnone]
    rfl
  have hinfo : labelBuildInfo put ∅ = put.map fun e => (e, none) := by
    rw [labelBuildInfo_empty, toList_buildFiles_orphans, List.map_map]
    rfl
  refine bind_eq_ok_iff.mpr ⟨[], himages, congrArg Except.ok ?_⟩
  change (s.derive put .untargeted).divide (labelBuildInfo put ∅) .forAbiSet = _
  rw [hinfo, Split.divide_of_unlabelled]
  rfl

/-- A splitter has nothing left to do in what remains when it is done. -/
theorem Takes.isDoneWith (h : splitter.Takes s left targeted) (hs : s.targeting.isUntargeted) :
    splitter.IsDoneWith (splitter.remaining s left) := by
  have hrest : ∀ e ∈ s.entries.filter (!splitter.concerns ·), splitter.concerns e = false :=
    fun e he => by simpa using (List.mem_filter.mp he).2
  by_cases himages : splitter = .apexImages
  · subst himages
    refine IsDoneWith.append_left ?_ h.concerns_left hrest
    rw [h.left_eq hs]
    exact isDoneWith_orphans ..
  · rw [h.left_eq_nil himages]
    exact (isDoneWith_nil splitter s).append_left (by simp) hrest

/-- Two splitters concern different entries, or they are the same or divide by architecture. -/
theorem isApart_or (splitter other : Splitter) :
    splitter.IsApart other ∨ splitter = other ∨
      ∃ b c, splitter = .nativeLibraries b ∧ other = .nativeLibraries c := by
  by_cases hne : splitter = other
  · exact .inr (.inl hne)
  · by_cases hnative : ∃ b c, splitter = .nativeLibraries b ∧ other = .nativeLibraries c
    · exact .inr (.inr hnative)
    · refine .inl ⟨hne, fun e he => ?_⟩
      cases hother : other.concerns e with
      | false => rfl
      | true =>
        refine absurd (eq_of_concerns he hother fun b c hb hc => ?_) hne
        exact absurd ⟨b, c, hb, hc⟩ hnative

/-- A splitter that is done with a split is done with what another one leaves of it. -/
theorem IsDoneWith.remaining (h : splitter.IsDoneWith s) (hs : s.targeting.isUntargeted)
    (hother : other.Takes s left targeted) : splitter.IsDoneWith (other.remaining s left) := by
  rcases isApart_or splitter other with hapart | rfl | ⟨b, c, rfl, rfl⟩
  · obtain ⟨own, _, htakes⟩ := exists_takes hs h
    obtain ⟨hself, rfl⟩ := htakes.eq_of_isDoneWith h hs
    have hagrees : splitter.Agrees s (other.remaining s left) :=
      hapart.symm.agrees_remaining hother.concerns_left
    rw [IsDoneWith, htakes.split_eq _ rfl hagrees, ← hapart.remaining_comm htakes hother, hself]
  · exact hother.isDoneWith hs
  · -- without native libraries it makes no difference which of them are kept
    rw [Splitter.remaining, hother.left_eq_nil (by simp), List.append_nil]
    refine isDoneWith_of_forall s fun e he => ?_
    have hlibrary : (!e.isLibrary) = true := (List.mem_filter.mp he).2
    exact (Bool.not_eq_true' _).mp hlibrary

/-- What a splitter puts back are entries of the split that tell how images were built and go with
no image of the split. -/
theorem Takes.isOrphan_of_mem (h : splitter.Takes s left targeted) (hs : s.targeting.isUntargeted)
    {e : Entry} (he : e ∈ left) :
    splitter = .apexImages ∧ e ∈ s.entries ∧ e.IsOrphanAmong s.entries := by
  by_cases himages : splitter = .apexImages
  · subst himages
    rw [h.left_eq hs] at he
    obtain ⟨⟨stem, f⟩, hf, rfl⟩ := List.mem_map.mp he
    obtain ⟨hmem, hstem, hnone⟩ := of_mem_orphans hf
    refine ⟨rfl, hmem, stem, hstem, fun abis habis image himage hset => hnone abis habis ?_⟩
    exact mem_occurringLabels.mpr ⟨image, Split.mem_images.mpr ⟨himage, hset⟩⟩
  · rw [h.left_eq_nil himages] at he
    exact absurd he List.not_mem_nil

end Splitter

namespace Pipeline

variable {p : Pipeline} {s first : Split} {parts rest : List Split} {splitter : Splitter}

/-- A pipeline makes its parts of what its first splitter leaves, and adds what that took out. -/
theorem exists_of_split_cons (hs : s.targeting.isUntargeted)
    (h : Pipeline.split (splitter :: p) s = .ok parts) :
    ∃ left targeted own, splitter.Takes s left targeted ∧
      p.split (splitter.remaining s left) = .ok own ∧ parts = own ++ targeted := by
  obtain ⟨left, targeted, htakes⟩ := exists_takes_of_split_cons hs h
  rw [split_cons_of_takes htakes hs] at h
  obtain ⟨own, hown, hparts⟩ := map_eq_ok_iff.mp h
  exact ⟨left, targeted, own, htakes, hown, hparts.symm⟩

/-- The first part that a pipeline makes is untargeted, and all others are targeted. -/
theorem exists_first_of_split (hs : s.targeting.isUntargeted) (h : p.split s = .ok parts) :
    ∃ first rest, parts = first :: rest ∧ first.targeting.isUntargeted ∧
      ∀ q ∈ rest, q.targeting.isUntargeted = false := by
  induction p generalizing s parts with
  | nil => exact ⟨s, [], (Except.ok.inj h).symm, hs, by simp⟩
  | cons splitter p ih =>
    obtain ⟨left, targeted, own, htakes, hown, rfl⟩ := exists_of_split_cons hs h
    obtain ⟨first, rest, rfl, hfirst, hrest⟩ := ih rfl hown
    refine ⟨first, rest ++ targeted, rfl, hfirst, fun q hq => ?_⟩
    exact (List.mem_append.mp hq).elim (hrest q) (htakes.isUntargeted_eq_false q)

/-- The first part that a pipeline makes is the first one that it makes of what its first splitter
leaves. -/
theorem exists_takes_first (hs : s.targeting.isUntargeted)
    (h : Pipeline.split (splitter :: p) s = .ok (first :: rest)) :
    ∃ left targeted own, splitter.Takes s left targeted ∧
      p.split (splitter.remaining s left) = .ok (first :: own) := by
  obtain ⟨left, targeted, own, htakes, hown, hparts⟩ := exists_of_split_cons hs h
  obtain ⟨first', rest', rfl, _⟩ := exists_first_of_split rfl hown
  obtain ⟨rfl, _⟩ := List.cons.inj hparts
  exact ⟨left, targeted, rest', htakes, hown⟩

/-- A splitter that is done with a split is done with the first part that a pipeline makes of it. -/
theorem isDoneWith_of_split (hdone : splitter.IsDoneWith s) (hs : s.targeting.isUntargeted)
    (h : p.split s = .ok (first :: rest)) : splitter.IsDoneWith first := by
  induction p generalizing s rest with
  | nil =>
    obtain ⟨rfl, _⟩ := List.cons.inj (Except.ok.inj h)
    exact hdone
  | cons other p ih =>
    obtain ⟨left, targeted, own, htakes, hown⟩ := exists_takes_first hs h
    exact ih (hdone.remaining hs htakes) rfl hown

/-- The first part that a pipeline makes holds entries of the split. -/
theorem mem_of_mem_first (hs : s.targeting.isUntargeted) (h : p.split s = .ok (first :: rest))
    {e : Entry} (he : e ∈ first.entries) : e ∈ s.entries := by
  induction p generalizing s rest with
  | nil =>
    obtain ⟨rfl, _⟩ := List.cons.inj (Except.ok.inj h)
    exact he
  | cons other p ih =>
    obtain ⟨left, targeted, own, htakes, hown⟩ := exists_takes_first hs h
    rcases List.mem_append.mp (ih rfl hown) with he | he
    · exact (List.mem_filter.mp he).1
    · exact (htakes.isOrphan_of_mem hs he).2.1

/-- All splitters of a pipeline are done with the first part that it makes. -/
theorem forall_isDoneWith_of_split (hs : s.targeting.isUntargeted)
    (h : p.split s = .ok (first :: rest)) : ∀ splitter ∈ p, splitter.IsDoneWith first := by
  induction p generalizing s rest with
  | nil => simp
  | cons other p ih =>
    obtain ⟨left, targeted, own, htakes, hown⟩ := exists_takes_first hs h
    intro splitter hsplitter
    rcases List.mem_cons.mp hsplitter with rfl | hsplitter
    · exact isDoneWith_of_split (htakes.isDoneWith hs) rfl hown
    · exact ih rfl hown splitter hsplitter

/-- Of the entries that concern a splitter of a pipeline, only files that tell how images were
built and that go with no image of the split stay in the first part. -/
theorem isOrphan_of_mem_first (hs : s.targeting.isUntargeted)
    (h : p.split s = .ok (first :: rest)) (hsplitter : splitter ∈ p) {e : Entry}
    (he : e ∈ first.entries) (hconcerns : splitter.concerns e) :
    splitter = .apexImages ∧ e.IsOrphanAmong s.entries := by
  induction p generalizing s rest with
  | nil => exact absurd hsplitter List.not_mem_nil
  | cons other p ih =>
    obtain ⟨left, targeted, own, htakes, hown⟩ := exists_takes_first hs h
    rcases List.mem_append.mp (mem_of_mem_first rfl hown he) with hmem | hmem
    · -- the entry does not concern the first splitter, which leaves all images if it is another one
      obtain ⟨_, hnot⟩ := List.mem_filter.mp hmem
      have hne : splitter ≠ other := by
        rintro rfl
        rw [hconcerns] at hnot
        cases hnot
      obtain ⟨rfl, horphan⟩ := ih rfl hown ((List.mem_cons.mp hsplitter).resolve_left hne)
      refine ⟨rfl, horphan.of_subset fun f hf himage => List.mem_append_left _ ?_⟩
      refine List.mem_filter.mpr ⟨hf, ?_⟩
      cases hother : other.concerns f with
      | false => rfl
      | true =>
        have hf' : Splitter.apexImages.concerns f := Entry.isApexFile_of_imageAbis? himage
        exact absurd (Splitter.eq_of_concerns hf' hother (by simp)) hne
    · obtain ⟨hother, _, horphan⟩ := htakes.isOrphan_of_mem hs hmem
      have hsame :=
        Splitter.eq_of_concerns hconcerns (htakes.concerns_left e hmem) (by simp [hother])
      exact ⟨hsame.trans hother, horphan⟩

/-- A pipeline whose splitters are done with some splits gives them back. -/
theorem splitAll_of_isDoneWith (h : ∀ splitter ∈ p, ∀ q ∈ parts, splitter.IsDoneWith q) :
    p.splitAll parts = .ok parts := by
  induction p with
  | nil => rfl
  | cons splitter p ih =>
    have hmap : parts.mapM splitter.split = .ok (parts.map fun q => [q]) := by
      refine mapM_eq_ok_iff.mpr ?_
      rw [List.forall₂_map_right_iff, List.forall₂_same]
      exact h splitter List.mem_cons_self
    have hsingles : (parts.map fun q => [q]).flatten = parts := by
      rw [← List.flatMap_def, List.flatMap_singleton']
    rw [splitAll_cons]
    refine bind_eq_ok_iff.mpr ⟨parts, bind_eq_ok_iff.mpr ⟨_, hmap, congrArg Except.ok hsingles⟩, ?_⟩
    exact ih fun other hother => h other (List.mem_cons_of_mem _ hother)

/-- A targeted split is a part of its own for every pipeline. -/
theorem split_of_targeted (p : Pipeline) (hs : s.targeting.isUntargeted = false) :
    p.split s = .ok [s] := by
  refine splitAll_of_isDoneWith fun splitter _ q hq => ?_
  rw [List.mem_singleton.mp hq]
  exact Splitter.split_of_targeted hs splitter

/-- Nothing is left to do for a pipeline in the parts that it has made of a split. -/
structure IsComplete (p : Pipeline) (s : Split) (parts : List Split) : Prop where
  /-- The pipeline makes the same parts of all parts together. -/
  again : p.splitAll parts = .ok parts
  /-- The pipeline makes of each part that part alone. -/
  each : ∀ q ∈ parts, p.split q = .ok [q]
  /-- So does every splitter of the pipeline. -/
  done : ∀ splitter ∈ p, ∀ q ∈ parts, splitter.split q = .ok [q]
  /-- Of what concerns a splitter, an untargeted part holds only files that tell how images were
  built, and only those that go with no image. -/
  orphans : ∀ q ∈ parts, q.targeting.isUntargeted → ∀ splitter ∈ p, ∀ e ∈ q.entries,
    splitter.concerns e → splitter = .apexImages ∧ e.IsOrphanAmong s.entries

/-- A part that a pipeline makes is targeted, or it is the first part of an untargeted split. -/
theorem of_mem_parts (h : p.split s = .ok parts) {q : Split} (hq : q ∈ parts) :
    q.targeting.isUntargeted = false ∨
      s.targeting.isUntargeted ∧ ∃ rest, p.split s = .ok (q :: rest) := by
  cases hs : s.targeting.isUntargeted with
  | false =>
    rw [split_of_targeted p hs] at h
    obtain rfl := Except.ok.inj h
    rw [List.mem_singleton.mp hq]
    exact .inl hs
  | true =>
    obtain ⟨first, rest, rfl, _, hrest⟩ := exists_first_of_split hs h
    rcases List.mem_cons.mp hq with rfl | hq
    · exact .inr ⟨rfl, rest, h⟩
    · exact .inl (hrest q hq)

/-- A pipeline that succeeds leaves nothing to do for itself. -/
theorem isComplete_of_split (h : p.split s = .ok parts) : p.IsComplete s parts := by
  have hdone : ∀ splitter ∈ p, ∀ q ∈ parts, splitter.IsDoneWith q := by
    intro splitter hsplitter q hq
    rcases of_mem_parts h hq with htargeted | ⟨hs, rest, hfirst⟩
    · exact Splitter.split_of_targeted htargeted splitter
    · exact forall_isDoneWith_of_split hs hfirst splitter hsplitter
  refine ⟨splitAll_of_isDoneWith hdone, fun q hq => ?_, hdone, ?_⟩
  · refine splitAll_of_isDoneWith fun splitter hsplitter q' hq' => ?_
    rw [List.mem_singleton.mp hq']
    exact hdone splitter hsplitter q hq
  · intro q hq huntargeted splitter hsplitter e he hconcerns
    rcases of_mem_parts h hq with htargeted | ⟨hs, rest, hfirst⟩
    · rw [huntargeted] at htargeted
      cases htargeted
    · exact isOrphan_of_mem_first hs hfirst hsplitter he hconcerns

/-- Applying a pipeline twice is applying it once, with the same parts in the same order or with
the same failure, and nothing is left to do for it in the parts that it makes. -/
theorem isComplete_of_split_twice (p : Pipeline) (s : Split) :
    Pipeline.split (p ++ p) s = p.split s ∧
      ∀ parts, p.split s = .ok parts → p.IsComplete s parts := by
  refine ⟨?_, fun parts h => isComplete_of_split h⟩
  rw [split, splitAll_append]
  cases h : p.split s with
  | error cause =>
    rw [split] at h
    rw [h]
    rfl
  | ok parts =>
    have hagain := (isComplete_of_split h).again
    rw [split] at h
    rw [h]
    exact hagain

/-- A split with an image, the file that tells how it was built and two such files without an
image, whose order is not that of their stems. -/
def sampleImageSplit : Split :=
  .ofEntries baseName
    [⟨"apex/x86.build_info.pb", ⟨#[1]⟩⟩, ⟨"apex/mips.build_info.pb", ⟨#[2]⟩⟩,
      ⟨"apex/x86.img", ⟨#[3]⟩⟩, ⟨"lib/x86_64/libmain.so", ⟨#[4]⟩⟩,
      ⟨"apex/armeabi.build_info.pb", ⟨#[5]⟩⟩, ⟨"lib/x86/libmain.so", ⟨#[6]⟩⟩] .untargeted

/-- The sample is divided once and for all, though both files without an image stay in its first
part, in the other order. -/
theorem isComplete_of_split_sampleImageSplit :
    let p : Pipeline := [.apexImages, .nativeLibraries false, .densityResources]
    Pipeline.split (p ++ p) sampleImageSplit = p.split sampleImageSplit ∧
      ∃ parts, p.split sampleImageSplit = .ok parts ∧
        (parts.head?.map Split.paths) =
          some ["apex/armeabi.build_info.pb", "apex/mips.build_info.pb"] ∧
        p.IsComplete sampleImageSplit parts := by
  intro p
  obtain ⟨htwice, hcomplete⟩ := isComplete_of_split_twice p sampleImageSplit
  have hhead : (p.split sampleImageSplit).toOption.bind (·.head?.map Split.paths) =
      some ["apex/armeabi.build_info.pb", "apex/mips.build_info.pb"] := by
    decide +kernel
  obtain ⟨parts, hparts⟩ := exists_of_isSome_toOption (x := p.split sampleImageSplit)
    (by decide +kernel)
  rw [hparts] at hhead
  exact ⟨htwice, parts, hparts, hhead, hcomplete parts hparts⟩

end Pipeline

end AppBundle
