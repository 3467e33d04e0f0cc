import AppBundle.Package
import AppBundle.Proofs.Merging
import AppBundle.Proofs.Outcomes

/-!
# The files of a package

A package is filled entry by entry, and an entry whose path is taken must have the content
that is there. Filling therefore succeeds exactly when no path has two contents, whatever the
order of the entries, and the package then holds exactly the entries it was filled with.
-/

namespace AppBundle

/-- Some files are exactly some entries. -/
def HoldsExactly (files : OrderedMap String ByteArray) (entries : List Entry) : Prop :=
  ∀ e : Entry, files.get? e.path = some e.content ↔ e ∈ entries

section Files

variable {files result : OrderedMap String ByteArray} {entries others : List Entry} {e : Entry}

/-- Entries that files can hold have no path with two contents. -/
theorem HoldsExactly.pathsConsistent (h : HoldsExactly files entries) :
    PathsConsistent entries := by
  intro e he f hf hpath
  have hcontent := (h e).mpr he
  rw [hpath, (h f).mpr hf] at hcontent
  exact (Option.some.inj hcontent).symm

/-- Files hold the same entries if they hold each other's entries. -/
theorem HoldsExactly.unique (h : HoldsExactly files entries) (h' : HoldsExactly result others)
    (hsame : ∀ e, e ∈ entries ↔ e ∈ others) : files = result := by
  refine OrderedMap.ext fun ⟨path, content⟩ => ?_
  have hfiles := h ⟨path, content⟩
  have hresult := h' ⟨path, content⟩
  rw [← OrderedMap.get?_eq_some_iff, ← OrderedMap.get?_eq_some_iff, hfiles, hresult]
  exact hsame _

/-- One more entry is there already or becomes a file. -/
theorem HoldsExactly.addFile (h : HoldsExactly files entries)
    (hadd : AppBundle.addFile files e = .ok result) : HoldsExactly result (entries ++ [e]) := by
  intro f
  rw [List.mem_append, List.mem_singleton]
  unfold AppBundle.addFile at hadd
  cases hget : files.get? e.path with
  | none =>
    simp only [hget, Except.ok.injEq] at hadd
    have hnew : f ∈ entries → e.path ≠ f.path := by
      intro hf hpath
      rw [hpath, (h f).mpr hf] at hget
      cases hget
    rw [← hadd, OrderedMap.get?_insert]
    by_cases hpath : e.path = f.path
    · rw [if_pos hpath, Option.some.injEq, or_iff_right fun hf => hnew hf hpath]
      constructor
      · intro hcontent
        exact Entry.ext hpath.symm hcontent.symm
      · intro hfe
        rw [hfe]
    · have hne : f ≠ e := fun hfe => hpath (by rw [hfe])
      rw [if_neg hpath, h f, or_iff_left hne]
  | some content =>
    simp only [hget] at hadd
    split at hadd
    · rename_i hcontent
      have hold : e ∈ entries := (h e).mp (by rw [hget, hcontent])
      rw [← Except.ok.inj hadd, h f, iff_self_or]
      intro hfe
      rwa [hfe]
    · cases hadd

/-- Files that were filled with some entries hold exactly these. -/
theorem holdsExactly_of_foldlM (h : entries.foldlM addFile ∅ = .ok files) :
    HoldsExactly files entries := by
  induction entries using List.reverseRecOn generalizing files with
  | nil =>
    obtain rfl : ∅ = files := Except.ok.inj h
    intro e
    rw [OrderedMap.get?_eq_some_iff]
    exact iff_of_false List.not_mem_nil List.not_mem_nil
  | append_singleton entries e ih =>
    rw [List.foldlM_append] at h
    obtain ⟨before, hbefore, h⟩ := bind_eq_ok_iff.mp h
    obtain ⟨after, hafter, h⟩ := bind_eq_ok_iff.mp h
    rw [← Except.ok.inj h]
    exact (ih hbefore).addFile hafter

/-- An entry is added if its path has no other content. -/
theorem HoldsExactly.exists_addFile (h : HoldsExactly files entries)
    (hpaths : PathsConsistent (entries ++ [e])) :
    ∃ result, AppBundle.addFile files e = .ok result := by
  unfold AppBundle.addFile
  cases hget : files.get? e.path with
  | none => exact ⟨_, rfl⟩
  | some content =>
    have hthere : ⟨e.path, content⟩ ∈ entries := (h ⟨e.path, content⟩).mp hget
    have hcontent : content = e.content :=
      hpaths _ (List.mem_append_left _ hthere) e (by simp) rfl
    exact ⟨_, if_pos hcontent⟩

/-- Files can be filled with entries in which no path has two contents. -/
theorem exists_foldlM_addFile (h : PathsConsistent entries) :
    ∃ files, entries.foldlM addFile ∅ = .ok files := by
  induction entries using List.reverseRecOn with
  | nil => exact ⟨∅, rfl⟩
  | append_singleton entries e ih =>
    obtain ⟨before, hbefore⟩ := ih (h.subset fun f hf => List.mem_append_left _ hf)
    obtain ⟨after, hafter⟩ := (holdsExactly_of_foldlM hbefore).exists_addFile h
    refine ⟨after, ?_⟩
    rw [List.foldlM_append]
    exact bind_eq_ok_iff.mpr ⟨before, hbefore, bind_eq_ok_iff.mpr ⟨after, hafter, rfl⟩⟩

/-- Filling fails at a path of two entries with different contents. -/
theorem exists_clash_of_foldlM {path : String} (h : entries.foldlM addFile ∅ = .error path) :
    ∃ e ∈ entries, ∃ f ∈ entries, e.path = path ∧ f.path = path ∧ e.content ≠ f.content := by
  induction entries using List.reverseRecOn with
  | nil => cases h
  | append_singleton entries e ih =>
    rw [List.foldlM_append, bind_eq_error_iff] at h
    rcases h with h | ⟨before, hbefore, h⟩
    · obtain ⟨f, hf, g, hg, hclash⟩ := ih h
      exact ⟨f, List.mem_append_left _ hf, g, List.mem_append_left _ hg, hclash⟩
    · rcases bind_eq_error_iff.mp h with h | ⟨_, _, h⟩
      · unfold addFile at h
        cases hget : before.get? e.path with
        | none => simp [hget] at h
        | some content =>
          simp only [hget] at h
          split at h
          · cases h
          · rename_i hcontent
            have hthere := (holdsExactly_of_foldlM hbefore ⟨e.path, content⟩).mp hget
            obtain rfl := Except.error.inj h
            exact ⟨_, List.mem_append_left _ hthere, e, by simp, rfl, rfl, hcontent⟩
      · cases h

end Files

/-- The entries that the package of a shard is filled with. -/
def fusedEntries (shard : Shard) (metadata : Metadata) : List Entry :=
  commonEntries shard ++ packageDex shard ++ metadataEntries metadata

namespace Package

variable {shard : Shard} {metadata : Metadata} {p : Package}

/-- No path of a package occurs twice. -/
theorem nodup_paths (p : Package) : (p.entries.map Entry.path).Nodup := by
  refine p.paths_increasing.imp fun hlt heq => ?_
  rw [heq, Std.ReflOrd.compare_self] at hlt
  cases hlt

/-- The entries of a package are its files. -/
theorem mem_entries {e : Entry} : e ∈ p.entries ↔ p.files.get? e.path = some e.content := by
  rw [OrderedMap.get?_eq_some_iff, entries, List.mem_map]
  constructor
  · rintro ⟨⟨path, content⟩, h, rfl⟩
    exact h
  · exact fun h => ⟨(e.path, e.content), h, rfl⟩

/-- Fusing makes the package of exactly the entries of the shard. -/
theorem fuse_eq_ok_iff :
    fuse shard metadata = .ok p ↔ ∃ files, HoldsExactly files (fusedEntries shard metadata) ∧
      p = .ofFiles (.combine (shard.map Split.targeting)) (shardModules shard) files := by
  unfold fuse
  dsimp only
  rw [← fusedEntries]
  constructor
  · intro h
    cases hfiles : (fusedEntries shard metadata).foldlM addFile ∅ with
    | error path => simp [hfiles] at h
    | ok files =>
      simp only [hfiles, Except.ok.injEq] at h
      exact ⟨files, holdsExactly_of_foldlM hfiles, h.symm⟩
  · rintro ⟨files, hfiles, rfl⟩
    obtain ⟨result, hresult⟩ := exists_foldlM_addFile hfiles.pathsConsistent
    have hsame := (holdsExactly_of_foldlM hresult).unique hfiles fun _ => Iff.rfl
    rw [hresult, hsame]

/-- A shard can be fused if no path has two contents in it. -/
theorem exists_fuse_iff :
    (∃ p, fuse shard metadata = .ok p) ↔ PathsConsistent (fusedEntries shard metadata) := by
  constructor
  · rintro ⟨p, h⟩
    obtain ⟨files, hfiles, _⟩ := fuse_eq_ok_iff.mp h
    exact hfiles.pathsConsistent
  · intro h
    obtain ⟨files, hfiles⟩ := exists_foldlM_addFile h
    exact ⟨_, fuse_eq_ok_iff.mpr ⟨files, holdsExactly_of_foldlM hfiles, rfl⟩⟩

/-- A package holds exactly the entries of its shard. -/
theorem mem_entries_of_fuse (h : fuse shard metadata = .ok p) {e : Entry} :
    e ∈ p.entries ↔ e ∈ fusedEntries shard metadata := by
  obtain ⟨files, hfiles, rfl⟩ := fuse_eq_ok_iff.mp h
  rw [mem_entries]
  exact hfiles e

/-- A conflict is about two entries of the shard with one path and different contents. -/
theorem exists_clash_of_fuse {path : String} {t : Targeting}
    (h : fuse shard metadata = .error (.conflict path t)) :
    ∃ e ∈ fusedEntries shard metadata, ∃ f ∈ fusedEntries shard metadata,
      e.path = path ∧ f.path = path ∧ e.content ≠ f.content := by
  unfold fuse at h
  dsimp only at h
  rw [← fusedEntries] at h
  cases hfiles : (fusedEntries shard metadata).foldlM addFile ∅ with
  | ok files => simp [hfiles] at h
  | error found =>
    simp only [hfiles, Except.error.injEq, ShardError.conflict.injEq] at h
    exact exists_clash_of_foldlM (h.1 ▸ hfiles)

/-- Shards with the same entries make packages with the same files, or none of them can be
fused. -/
theorem exists_fuse_of_mem_iff {other : Shard} (h : fuse shard metadata = .ok p)
    (hsame : ∀ e, e ∈ fusedEntries shard metadata ↔ e ∈ fusedEntries other metadata) :
    fuse other metadata =
      .ok (.ofFiles (.combine (other.map Split.targeting)) (shardModules other) p.files) := by
  obtain ⟨files, hfiles, rfl⟩ := fuse_eq_ok_iff.mp h
  refine fuse_eq_ok_iff.mpr ⟨files, fun e => ?_, rfl⟩
  rw [hfiles e, hsame e]

end Package

end AppBundle
