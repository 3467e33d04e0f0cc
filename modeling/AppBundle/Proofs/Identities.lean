import AppBundle.Proofs.LanguageCodes

/-!
# What an identifier tells

The identifier of a package is the digest of a text with one line for the targeting and one line
for each entry. Up to collisions it tells what values are served. It also tells the entries, as
long as no path holds a line break: a path is written into its line as it is, so a line break in
a path makes one entry look like two.
-/

namespace AppBundle

open Text

/-- Two texts are different but have the same digest. -/
def Blake3.IsCollision (a b : ByteArray) : Prop := a ≠ b ∧ hex a = hex b

/-- Equal digests belong to equal texts or to a collision. -/
theorem Blake3.eq_or_isCollision {a b : ByteArray} (h : hex a = hex b) :
    a = b ∨ IsCollision a b := by
  by_cases hab : a = b
  · exact .inl hab
  · exact .inr ⟨hab, h⟩

/-- The characters of a digest are hexadecimal digits. -/
theorem Blake3.exists_of_mem_hex {bytes : ByteArray} {c : Char} (h : c ∈ (hex bytes).toList) :
    ∃ n < 16, c = hexDigit n := by
  rw [hex, String.toList_ofList, List.mem_flatMap] at h
  obtain ⟨byte, _, h⟩ := h
  have hbyte : byte.toNat < 256 := byte.toNat_lt
  rcases List.mem_cons.mp h with rfl | h
  · exact ⟨_, by omega, rfl⟩
  · exact ⟨_, by omega, List.mem_singleton.mp h⟩

/-- A digest holds no other characters than digits. -/
theorem Blake3.not_mem_hex {c : Char} (hc : ∀ n : Fin 16, c ≠ hexDigit n) (bytes : ByteArray) :
    c ∉ (hex bytes).toList := by
  intro h
  obtain ⟨n, hn, rfl⟩ := exists_of_mem_hex h
  exact hc ⟨n, hn⟩ rfl

/-- The line of an entry without the line break at its end. -/
def Entry.words (e : Entry) : String := e.path ++ " " ++ Blake3.hex e.content

theorem Entry.not_mem_words {e : Entry} (h : '\n' ∉ e.path.toList) : '\n' ∉ e.words.toList := by
  rw [words, String.toList_append, String.toList_append, List.mem_append, List.mem_append]
  rintro ((hmem | hmem) | hmem)
  · exact h hmem
  · exact absurd hmem (by decide)
  · exact Blake3.not_mem_hex (by decide) e.content hmem

/-- The words of an entry tell its path and the digest of its content. -/
theorem Entry.words_injective {e f : Entry} (h : e.words = f.words) :
    e.path = f.path ∧ Blake3.hex e.content = Blake3.hex f.content := by
  have hchars : (e.path ++ " ").toList ++ (Blake3.hex e.content).toList =
      (f.path ++ " ").toList ++ (Blake3.hex f.content).toList := by
    rw [← String.toList_append, ← String.toList_append]
    exact congrArg String.toList h
  obtain ⟨hpath, hdigest⟩ := List.append_inj' hchars
    ((Blake3.length_hex _).trans (Blake3.length_hex _).symm)
  rw [String.toList_inj, String.append_left_inj] at hpath
  exact ⟨hpath, String.toList_inj.mp hdigest⟩

namespace Package

variable {shard other : Shard} {metadata metadata' : Metadata} {p q : Package}

/-- The text whose digest is the identifier of a package. -/
def identityText (p : Package) : String := identity p.targeting p.entries

theorem targeting_of_fuse (h : fuse shard metadata = .ok p) :
    p.targeting = .combine (shard.map Split.targeting) := by
  obtain ⟨files, _, rfl⟩ := fuse_eq_ok_iff.mp h
  rfl

/-- The identifier of a package is the digest of its text. -/
theorem id_of_fuse (h : fuse shard metadata = .ok p) :
    p.id = Blake3.hex p.identityText.toUTF8 := by
  obtain ⟨files, _, rfl⟩ := fuse_eq_ok_iff.mp h
  rfl

/-- The targeting of a package has codes if those of its splits have. -/
theorem hasCodes_of_fuse (h : fuse shard metadata = .ok p)
    (hcodes : ∀ s ∈ shard, s.targeting.HasCodes) : p.targeting.HasCodes := by
  rw [targeting_of_fuse h]
  exact Targeting.hasCodes_combine (List.forall_mem_map.mpr hcodes)

end Package

section Reading

variable {t u : Targeting} {entries others : List Entry}

/-- The text for a package tells the label of its targeting, and the lines of its entries. -/
theorem eq_of_identity_eq (ht : t.HasCodes) (hu : u.HasCodes)
    (h : identity t entries = identity u others) :
    t.label = u.label ∧ join "" (entries.map Entry.line) = join "" (others.map Entry.line) := by
  have hbreak : "\n".toList = ['\n'] := rfl
  have hlabel : t.label = u.label := by
    have hsplit := congrArg (split '\n') h
    rw [identity, identity, split_append_of_not_mem hbreak (Targeting.not_mem_label ht),
      split_append_of_not_mem hbreak (Targeting.not_mem_label hu)] at hsplit
    exact (List.cons.inj hsplit).1
  rw [identity, identity, hlabel, String.append_right_inj] at h
  exact ⟨hlabel, h⟩

/-- The lines of entries can be taken apart if no path holds a line break. -/
theorem words_eq_of_lines (hentries : ∀ e ∈ entries, '\n' ∉ e.path.toList)
    (hothers : ∀ e ∈ others, '\n' ∉ e.path.toList)
    (h : join "" (entries.map Entry.line) = join "" (others.map Entry.line)) :
    entries.map Entry.words = others.map Entry.words := by
  have hlines (es : List Entry) :
      es.map Entry.line = (es.map Entry.words).map (· ++ "\n") := by
    rw [List.map_map]
    rfl
  have hsplit := congrArg (split '\n') h
  rw [hlines, hlines,
    split_join_append rfl (List.forall_mem_map.mpr fun e he => Entry.not_mem_words (hentries e he)),
    split_join_append rfl (List.forall_mem_map.mpr fun e he => Entry.not_mem_words (hothers e he))]
    at hsplit
  exact List.append_cancel_right hsplit

/-- Entries with the same words are the same, or the contents of two of them collide. -/
theorem eq_or_isCollision_of_words (h : entries.map Entry.words = others.map Entry.words) :
    entries = others ∨
      ∃ e ∈ entries, ∃ f ∈ others, Blake3.IsCollision e.content f.content := by
  induction entries generalizing others with
  | nil => exact .inl (List.map_eq_nil_iff.mp h.symm).symm
  | cons e es ih =>
    obtain ⟨f, fs, rfl, hfirst, hrest⟩ := List.map_eq_cons_iff.mp h.symm
    obtain ⟨hpath, hdigest⟩ := Entry.words_injective hfirst.symm
    rcases Blake3.eq_or_isCollision hdigest with hcontent | hcollision
    · rcases ih hrest.symm with rfl | ⟨e', he', f', hf', hcollision⟩
      · exact .inl (by rw [Entry.ext hpath hcontent])
      · exact .inr ⟨e', List.mem_cons_of_mem _ he', f', List.mem_cons_of_mem _ hf', hcollision⟩
    · exact .inr ⟨e, List.mem_cons_self, f, List.mem_cons_self, hcollision⟩

end Reading

/-- A split with some entries that is not targeted. -/
def plainSplit (moduleName : String) (entries : List Entry) : Split :=
  .ofEntries moduleName entries .untargeted

theorem hasCodes_plainSplit {moduleName : String} {entries : List Entry} :
    ∀ s ∈ [plainSplit moduleName entries], s.targeting.HasCodes := by
  intro s hs
  rw [List.mem_singleton.mp hs]
  exact Targeting.hasCodes_of_hasLanguage_eq_false rfl

namespace Package

variable {shard other : Shard} {metadata metadata' : Metadata} {p q : Package}

/-- A split whose entries come in the order of their paths is fused to a package of these
entries. -/
theorem exists_fuse_singleton {s : Split}
    (hincreasing : (s.entries.map Entry.path).Pairwise (compare · · = .lt)) :
    ∃ p, fuse [s] ∅ = .ok p ∧ p.targeting = .combine [s.targeting] ∧ p.entries = s.entries := by
  have hkeys : (s.entries.map fun e => (e.path, e.content)).map Prod.fst =
      s.entries.map Entry.path := by
    rw [List.map_map]
    rfl
  have hentries : (s.entries.map fun e => (e.path, e.content)).map
      (fun entry => Entry.mk entry.1 entry.2) = s.entries := by
    rw [List.map_map]
    exact List.map_id _
  refine ⟨_, fuse_eq_ok_iff.mpr ⟨⟨_, hkeys ▸ hincreasing⟩, fun e => ?_, rfl⟩, rfl, hentries⟩
  rw [OrderedMap.get?_eq_some_iff,
    mem_fusedEntries_of_forall_eq (List.cons_ne_nil _ _) fun _ h => by rw [List.mem_singleton.mp h]]
  constructor
  · intro hmem
    obtain ⟨e', he', heq⟩ := List.mem_map.mp hmem
    obtain ⟨hpath, hcontent⟩ := Prod.mk.inj heq
    exact ⟨s, List.mem_singleton_self s, Entry.ext hpath hcontent ▸ he'⟩
  · rintro ⟨s', hs', he⟩
    obtain rfl := List.mem_singleton.mp hs'
    exact List.mem_map.mpr ⟨e, he, rfl⟩

/-- Two packages with the same identifier serve the same values, unless the texts that identify
them collide. They have the same entries, unless contents of them collide or some path holds a
line break. -/
theorem sameValues_of_id_eq (hp : fuse shard metadata = .ok p) (hq : fuse other metadata' = .ok q)
    (hcodes : ∀ s ∈ shard, s.targeting.HasCodes) (hcodes' : ∀ s ∈ other, s.targeting.HasCodes)
    (hid : p.id = q.id) :
    Blake3.IsCollision p.identityText.toUTF8 q.identityText.toUTF8 ∨
      p.targeting.SameValues q.targeting ∧
        ((∀ e ∈ p.entries, '\n' ∉ e.path.toList) → (∀ e ∈ q.entries, '\n' ∉ e.path.toList) →
          p.entries = q.entries ∨
            ∃ e ∈ p.entries, ∃ f ∈ q.entries, Blake3.IsCollision e.content f.content) := by
  rw [id_of_fuse hp, id_of_fuse hq] at hid
  rcases Blake3.eq_or_isCollision hid with htext | hcollision
  · have hpcodes := hasCodes_of_fuse hp hcodes
    have hqcodes := hasCodes_of_fuse hq hcodes'
    obtain ⟨hlabel, hlines⟩ :=
      eq_of_identity_eq hpcodes hqcodes (String.toByteArray_inj.mp htext)
    refine .inr ⟨((Targeting.label_eq_iff hpcodes hqcodes).mp hlabel).1, fun hpaths hpaths' => ?_⟩
    exact eq_or_isCollision_of_words (words_eq_of_lines hpaths hpaths' hlines)
  · exact .inl hcollision

/-- Two modules with the same file give two packages with the same identifier. -/
theorem sameValues_of_id_eq_plainSplit :
    ∃ p q, fuse [plainSplit "base" [⟨"a", ⟨#[]⟩⟩]] ∅ = .ok p ∧
      fuse [plainSplit "feature" [⟨"a", ⟨#[]⟩⟩]] ∅ = .ok q ∧ p.id = q.id ∧
      (Blake3.IsCollision p.identityText.toUTF8 q.identityText.toUTF8 ∨
        p.targeting.SameValues q.targeting ∧
          ((∀ e ∈ p.entries, '\n' ∉ e.path.toList) → (∀ e ∈ q.entries, '\n' ∉ e.path.toList) →
            p.entries = q.entries ∨
              ∃ e ∈ p.entries, ∃ f ∈ q.entries, Blake3.IsCollision e.content f.content)) := by
  obtain ⟨p, hp, htargeting, hentries⟩ :=
    exists_fuse_singleton (s := plainSplit "base" [⟨"a", ⟨#[]⟩⟩]) (by decide)
  obtain ⟨q, hq, htargeting', hentries'⟩ :=
    exists_fuse_singleton (s := plainSplit "feature" [⟨"a", ⟨#[]⟩⟩]) (by decide)
  have hid : p.id = q.id := by
    rw [id_of_fuse hp, id_of_fuse hq, identityText, identityText, htargeting, htargeting',
      hentries, hentries']
    rfl
  exact ⟨p, q, hp, hq, hid,
    sameValues_of_id_eq hp hq hasCodes_plainSplit hasCodes_plainSplit hid⟩

end Package

/-- An entry whose line is the line of one entry followed by that of another one. -/
def Entry.blend (e f : Entry) : Entry := ⟨e.words ++ "\n" ++ f.path, f.content⟩

theorem Entry.line_blend (e f : Entry) : (e.blend f).line = e.line ++ f.line := by
  simp only [line, blend, words, String.append_assoc]

/-- Two entries are taken for one whose path holds a line break. -/
theorem identity_blend (t : Targeting) (e f : Entry) (es : List Entry) :
    identity t (e.blend f :: es) = identity t (e :: f :: es) := by
  simp only [identity, List.map_cons, join_empty_cons, Entry.line_blend, String.append_assoc]

/-- A package of two empty files and a package of one file have the same identifier: their texts
are the same, as the path of the one file holds a line break. -/
theorem Package.exists_same_id_different_entries :
    ∃ p q, fuse [plainSplit baseName [⟨"a", ⟨#[]⟩⟩, ⟨"b", ⟨#[]⟩⟩]] ∅ = .ok p ∧
      fuse [plainSplit baseName [Entry.blend ⟨"a", ⟨#[]⟩⟩ ⟨"b", ⟨#[]⟩⟩]] ∅ = .ok q ∧
      p.identityText = q.identityText ∧ p.id = q.id ∧ p.entries ≠ q.entries ∧
      ∀ e ∈ p.entries ++ q.entries, e.content = ⟨#[]⟩ := by
  obtain ⟨p, hp, htargeting, hentries⟩ :=
    exists_fuse_singleton (s := plainSplit baseName [⟨"a", ⟨#[]⟩⟩, ⟨"b", ⟨#[]⟩⟩]) (by decide)
  obtain ⟨q, hq, htargeting', hentries'⟩ :=
    exists_fuse_singleton (s := plainSplit baseName [Entry.blend ⟨"a", ⟨#[]⟩⟩ ⟨"b", ⟨#[]⟩⟩])
      (List.pairwise_singleton _ _)
  have htext : p.identityText = q.identityText := by
    rw [identityText, identityText, htargeting, htargeting', hentries, hentries']
    exact (identity_blend _ _ _ _).symm
  refine ⟨p, q, hp, hq, htext, ?_, ?_, ?_⟩
  · rw [id_of_fuse hp, id_of_fuse hq, htext]
  · rw [hentries, hentries']
    exact fun h => absurd (congrArg List.length h) (by decide)
  · rw [hentries, hentries']
    simp [plainSplit, Split.ofEntries, Entry.blend]

end AppBundle
