import AppBundle.Text.Pieces

/-!
# Joined texts

Pieces that are joined by a separator can be told apart again if none of them holds
the separator. So a joined text determines its pieces, and every text is joined from
the pieces between its separators.
-/

namespace AppBundle.Text

variable {c : Char} {sep : String} {pieces others : List String}

section Split

/-- A list without the separator is one piece. -/
theorem splitChars_of_not_mem {cs : List Char} (h : c ∉ cs) : splitChars c cs = [cs] := by
  induction cs with
  | nil => rfl
  | cons d ds ih =>
    obtain ⟨hd, hds⟩ := List.ne_and_not_mem_of_not_mem_cons h
    rw [splitChars, if_neg hd.symm, ih hds]

/-- The pieces before a separator come before those after it. -/
theorem splitChars_append (left right : List Char) :
    splitChars c (left ++ c :: right) = splitChars c left ++ splitChars c right := by
  induction left with
  | nil => simp [splitChars]
  | cons d ds ih =>
    rw [List.cons_append, splitChars, splitChars, ih]
    split
    · rw [List.cons_append]
    · cases hpieces : splitChars c ds with
      | nil => exact absurd hpieces (splitChars_ne_nil c ds)
      | cons piece rest => rfl

/-- A beginning has the same pieces up to its last one. -/
theorem exists_splitChars_of_append (left right : List Char) :
    ∃ pieces last rest, splitChars c left = pieces ++ [last] ∧ rest ≠ [] ∧
      splitChars c (left ++ right) = pieces ++ rest := by
  suffices h : ∃ pieces last more rest, splitChars c left = pieces ++ [last] ∧
      splitChars c (left ++ right) = pieces ++ (last ++ more) :: rest by
    obtain ⟨pieces, last, more, rest, hleft, hall⟩ := h
    exact ⟨pieces, last, _, hleft, List.cons_ne_nil _ _, hall⟩
  induction left with
  | nil =>
    obtain ⟨more, rest, hright⟩ := List.exists_cons_of_ne_nil (splitChars_ne_nil c right)
    exact ⟨[], [], more, rest, rfl, hright⟩
  | cons d ds ih =>
    obtain ⟨pieces, last, more, rest, hleft, hall⟩ := ih
    rw [List.cons_append, splitChars, splitChars, hleft, hall]
    split
    · exact ⟨[] :: pieces, last, more, rest, rfl, rfl⟩
    · cases pieces with
      | nil => exact ⟨[], d :: last, more, rest, rfl, rfl⟩
      | cons piece pieces => exact ⟨(d :: piece) :: pieces, last, more, rest, rfl, rfl⟩

/-- A beginning has the same pieces up to its last one. -/
theorem exists_split_of_prefix {s t : String} (h : t.toList <+: s.toList) :
    ∃ pieces last rest, split c t = pieces ++ [last] ∧ rest ≠ [] ∧
      split c s = pieces ++ rest := by
  obtain ⟨right, hright⟩ := h
  obtain ⟨pieces, last, rest, hleft, hrest, hall⟩ :=
    exists_splitChars_of_append (c := c) t.toList right
  refine ⟨pieces.map .ofList, .ofList last, rest.map .ofList, ?_, ?_, ?_⟩
  · rw [split, hleft, List.map_append, List.map_singleton]
  · exact fun hnil => hrest (List.map_eq_nil_iff.mp hnil)
  · rw [split, ← hright, hall, List.map_append]

/-- A text without the separator is one piece. -/
theorem split_of_not_mem {s : String} (h : c ∉ s.toList) : split c s = [s] := by
  rw [split, splitChars_of_not_mem h, List.map_singleton, String.ofList_toList]

/-- There is always a first piece. -/
theorem split_ne_nil (c : Char) (s : String) : split c s ≠ [] :=
  fun h => splitChars_ne_nil c s.toList (List.map_eq_nil_iff.mp h)

/-- The pieces before a separator come before those after it. -/
theorem split_append (hsep : sep.toList = [c]) (left right : String) :
    split c (left ++ sep ++ right) = split c left ++ split c right := by
  have hlist : (left ++ sep ++ right).toList = left.toList ++ c :: right.toList := by
    rw [String.toList_append, String.toList_append, hsep, List.append_assoc]
    rfl
  rw [split, hlist, splitChars_append, List.map_append, split, split]

/-- What stands before the first separator is the first piece. -/
theorem split_append_of_not_mem (hsep : sep.toList = [c]) {left : String} (h : c ∉ left.toList)
    (right : String) : split c (left ++ sep ++ right) = left :: split c right := by
  rw [split_append hsep, split_of_not_mem h, List.singleton_append]

end Split

section Join

/-- A first piece is joined to the other ones by a separator. -/
theorem join_cons (sep piece : String) (h : pieces ≠ []) :
    join sep (piece :: pieces) = piece ++ sep ++ join sep pieces := by
  cases pieces with
  | nil => exact absurd rfl h
  | cons next rest => rfl

/-- Without a separator the pieces are put one behind the other. -/
theorem join_empty_cons (piece : String) (pieces : List String) :
    join "" (piece :: pieces) = piece ++ join "" pieces := by
  cases pieces with
  | nil => rw [join, join, String.append_empty]
  | cons next rest => rw [join_cons _ _ (List.cons_ne_nil _ _), String.append_empty]

/-- What stands before the first piece stands before the joined text. -/
theorem join_append_cons (sep lead piece : String) (pieces : List String) :
    join sep ((lead ++ piece) :: pieces) = lead ++ join sep (piece :: pieces) := by
  cases pieces with
  | nil => rfl
  | cons next rest =>
    rw [join_cons _ _ (List.cons_ne_nil _ _), join_cons _ _ (List.cons_ne_nil _ _),
      String.append_assoc, String.append_assoc, String.append_assoc]

/-- A character is in a joined text if it is in a piece, or in the separators. -/
theorem mem_of_mem_join {d : Char} (h : d ∈ (join sep pieces).toList) :
    d ∈ sep.toList ∨ ∃ piece ∈ pieces, d ∈ piece.toList := by
  induction pieces with
  | nil => exact absurd h List.not_mem_nil
  | cons piece rest ih =>
    cases rest with
    | nil => exact .inr ⟨piece, List.mem_cons_self, h⟩
    | cons next rest =>
      rw [join_cons _ _ (List.cons_ne_nil _ _), String.toList_append, String.toList_append,
        List.mem_append, List.mem_append] at h
      rcases h with (h | h) | h
      · exact .inr ⟨piece, List.mem_cons_self, h⟩
      · exact .inl h
      · rcases ih h with h | ⟨p, hp, h⟩
        · exact .inl h
        · exact .inr ⟨p, List.mem_cons_of_mem _ hp, h⟩

/-- The characters of the pieces are in the joined text. -/
theorem mem_join_of_mem (sep : String) {d : Char} {piece : String} (hpiece : piece ∈ pieces)
    (h : d ∈ piece.toList) : d ∈ (join sep pieces).toList := by
  induction pieces with
  | nil => exact absurd hpiece List.not_mem_nil
  | cons first rest ih =>
    cases rest with
    | nil => rwa [List.mem_singleton.mp hpiece] at h
    | cons next rest =>
      rw [join_cons _ _ (List.cons_ne_nil _ _), String.toList_append, String.toList_append,
        List.mem_append, List.mem_append]
      rcases List.mem_cons.mp hpiece with rfl | hpiece
      · exact .inl (.inl h)
      · exact .inr (ih hpiece)

/-- Joining with the separator undoes cutting at it. -/
theorem join_splitChars (hsep : sep.toList = [c]) (cs : List Char) :
    join sep ((splitChars c cs).map String.ofList) = String.ofList cs := by
  induction cs with
  | nil => rfl
  | cons d ds ih =>
    have happend (rest : List Char) : String.ofList (d :: rest) = .ofList [d] ++ .ofList rest :=
      @String.ofList_append [d] rest
    unfold splitChars
    by_cases hd : d = c
    · have hne : (splitChars c ds).map String.ofList ≠ [] :=
        fun h => splitChars_ne_nil c ds (List.map_eq_nil_iff.mp h)
      have hnone : String.ofList [] = "" := rfl
      rw [if_pos hd, List.map_cons, join_cons _ _ hne, ih, happend, hd, ← hsep,
        String.ofList_toList, hnone, String.empty_append]
    · rw [if_neg hd]
      cases hpieces : splitChars c ds with
      | nil => exact absurd hpieces (splitChars_ne_nil c ds)
      | cons piece rest =>
        rw [hpieces, List.map_cons] at ih
        dsimp only
        rw [List.map_cons, happend, join_append_cons, ih, ← happend]

/-- Joining with the separator undoes cutting at it. -/
theorem join_split (hsep : sep.toList = [c]) (s : String) : join sep (split c s) = s := by
  rw [split, join_splitChars hsep, String.ofList_toList]

/-- The pieces between the separators hold no others than the characters of the text, and no
separator. -/
theorem mem_of_mem_split {s piece : String} (hpiece : piece ∈ split c s) :
    c ∉ piece.toList ∧ ∀ d ∈ piece.toList, d ∈ s.toList := by
  constructor
  · obtain ⟨chars, hchars, rfl⟩ := List.mem_map.mp hpiece
    rw [String.toList_ofList]
    exact not_mem_of_mem_splitChars hchars
  · intro d hd
    have hmem := mem_join_of_mem (String.singleton c) hpiece hd
    rwa [join_split (String.toList_singleton c)] at hmem

/-- Cutting at the separator undoes joining with it. -/
theorem split_join (hsep : sep.toList = [c]) (hne : pieces ≠ [])
    (h : ∀ piece ∈ pieces, c ∉ piece.toList) : split c (join sep pieces) = pieces := by
  induction pieces with
  | nil => exact absurd rfl hne
  | cons piece rest ih =>
    have hpiece := h piece List.mem_cons_self
    cases rest with
    | nil => exact split_of_not_mem hpiece
    | cons next rest =>
      rw [join_cons _ _ (List.cons_ne_nil _ _), split_append_of_not_mem hsep hpiece,
        ih (List.cons_ne_nil _ _) fun p hp => h p (List.mem_cons_of_mem _ hp)]

/-- A last piece is joined to the other ones by a separator. -/
theorem join_concat (sep last : String) (h : pieces ≠ []) :
    join sep (pieces ++ [last]) = join sep pieces ++ sep ++ last := by
  induction pieces with
  | nil => exact absurd rfl h
  | cons piece rest ih =>
    cases rest with
    | nil => rfl
    | cons next rest =>
      rw [List.cons_append, join_cons _ _ (by simp), ih (List.cons_ne_nil _ _),
        join_cons _ _ (List.cons_ne_nil _ _)]
      simp only [String.append_assoc]

/-- A text begins with the separator if there is nothing before the first one. -/
theorem startsWith_iff (hsep : sep.toList = [c]) {s : String} :
    startsWith sep s ↔ ∃ rest, rest ≠ [] ∧ split c s = "" :: rest := by
  constructor
  · intro h
    obtain ⟨rest, hrest⟩ := Option.isSome_iff_exists.mp h
    refine ⟨split c rest, split_ne_nil c rest, ?_⟩
    have hs : s = "" ++ sep ++ rest := by
      rw [String.empty_append]
      exact after?_eq_some_iff.mp hrest
    rw [hs, split_append_of_not_mem hsep List.not_mem_nil]
  · rintro ⟨rest, hne, hsplit⟩
    have hs : s = sep ++ join sep rest := by
      rw [← join_split hsep s, hsplit, join_cons _ _ hne, String.empty_append]
    exact Option.isSome_iff_exists.mpr ⟨_, after?_eq_some_iff.mpr hs⟩

/-- A text ends with the separator if there is nothing after the last one. -/
theorem endsWith_iff (hsep : sep.toList = [c]) {s : String} :
    endsWith sep s ↔ ∃ rest, rest ≠ [] ∧ split c s = rest ++ [""] := by
  constructor
  · intro h
    obtain ⟨rest, hrest⟩ := Option.isSome_iff_exists.mp h
    refine ⟨split c rest, split_ne_nil c rest, ?_⟩
    have hs : s = rest ++ sep ++ "" := by
      rw [String.append_empty]
      exact before?_eq_some_iff.mp hrest
    rw [hs, split_append hsep]
    rfl
  · rintro ⟨rest, hne, hsplit⟩
    have hs : s = join sep rest ++ sep := by
      rw [← join_split hsep s, hsplit, join_concat _ _ hne, String.append_empty]
    exact Option.isSome_iff_exists.mpr ⟨_, before?_eq_some_iff.mpr hs⟩

/-- A joined text determines its pieces, if there are some. -/
theorem join_injective_of_ne_nil (hsep : sep.toList = [c])
    (hpieces : pieces ≠ [] ∧ ∀ piece ∈ pieces, c ∉ piece.toList)
    (hothers : others ≠ [] ∧ ∀ piece ∈ others, c ∉ piece.toList)
    (h : join sep pieces = join sep others) : pieces = others := by
  rw [← split_join hsep hpieces.1 hpieces.2, h, split_join hsep hothers.1 hothers.2]

/-- Pieces that are not empty do not join to the empty text. -/
theorem join_ne_empty (hsep : sep.toList = [c]) (hne : pieces ≠ [])
    (h : ∀ piece ∈ pieces, piece ≠ "" ∧ c ∉ piece.toList) : join sep pieces ≠ "" := by
  intro hempty
  have hpieces := split_join hsep hne fun p hp => (h p hp).2
  rw [hempty] at hpieces
  have hmem : "" ∈ pieces := hpieces ▸ List.mem_singleton_self ""
  exact (h "" hmem).1 rfl

/-- A joined text determines its pieces, also if there are none, as long as no piece is
empty. -/
theorem join_injective (hsep : sep.toList = [c])
    (hpieces : ∀ piece ∈ pieces, piece ≠ "" ∧ c ∉ piece.toList)
    (hothers : ∀ piece ∈ others, piece ≠ "" ∧ c ∉ piece.toList)
    (h : join sep pieces = join sep others) : pieces = others := by
  by_cases hp : pieces = []
  · by_cases ho : others = []
    · rw [hp, ho]
    · rw [hp] at h
      exact absurd h.symm (join_ne_empty hsep ho hothers)
  · by_cases ho : others = []
    · rw [ho] at h
      exact absurd h (join_ne_empty hsep hp hpieces)
    · exact join_injective_of_ne_nil hsep ⟨hp, fun p h => (hpieces p h).2⟩
        ⟨ho, fun p h => (hothers p h).2⟩ h

/-- Pieces that each end with the separator are told apart by it. -/
theorem split_join_append (hsep : sep.toList = [c]) (h : ∀ piece ∈ pieces, c ∉ piece.toList) :
    split c (join "" (pieces.map (· ++ sep))) = pieces ++ [""] := by
  induction pieces with
  | nil => rfl
  | cons piece rest ih =>
    rw [List.map_cons, join_empty_cons, split_append_of_not_mem hsep (h piece List.mem_cons_self),
      ih fun p hp => h p (List.mem_cons_of_mem _ hp), List.cons_append]

end Join

end AppBundle.Text
