/-!
# Taking texts apart

Cutting a text at a separator, removing a known beginning or end, and putting
pieces together again. The main statements say how the parts make up the text.
-/

namespace AppBundle.Text

/-- The rest of a list after a known beginning. -/
def afterChars? : List Char → List Char → Option (List Char)
  | [], cs => some cs
  | _ :: _, [] => none
  | p :: ps, c :: cs => if p = c then afterChars? ps cs else none

/-- The part of a text after a known beginning. -/
def after? (lead s : String) : Option String :=
  (afterChars? lead.toList s.toList).map String.ofList

/-- The part of a text before a known end. -/
def before? (tail s : String) : Option String :=
  (afterChars? tail.toList.reverse s.toList.reverse).map fun r => String.ofList r.reverse

/-- Whether a text begins with another one. -/
def startsWith (lead s : String) : Bool := (after? lead s).isSome

/-- Whether a text ends with another one. -/
def endsWith (tail s : String) : Bool := (before? tail s).isSome

/-- The pieces between the occurrences of a separator, one more than there are
occurrences. -/
def splitChars (sep : Char) : List Char → List (List Char)
  | [] => [[]]
  | c :: cs =>
    if c = sep then [] :: splitChars sep cs
    else
      match splitChars sep cs with
      | [] => [[c]]
      | piece :: rest => (c :: piece) :: rest

/-- The pieces of a text between the occurrences of a separator. -/
def split (sep : Char) (s : String) : List String :=
  (splitChars sep s.toList).map String.ofList

/-- The parts of a list before and after the first occurrence of a separator. -/
def cutChars? (sep : Char) : List Char → Option (List Char × List Char)
  | [] => none
  | c :: cs =>
    if c = sep then some ([], cs)
    else (cutChars? sep cs).map fun (left, right) => (c :: left, right)

/-- The parts of a text before and after the first occurrence of a separator. -/
def cut? (sep : Char) (s : String) : Option (String × String) :=
  (cutChars? sep s.toList).map fun (left, right) => (String.ofList left, String.ofList right)

/-- What follows the first occurrence of a text within a list. -/
def afterFirstChars? (mark : List Char) : List Char → Option (List Char)
  | [] => afterChars? mark []
  | c :: cs =>
    match afterChars? mark (c :: cs) with
    | some rest => some rest
    | none => afterFirstChars? mark cs

/-- What follows the first occurrence of one text within another. -/
def afterFirst? (mark s : String) : Option String :=
  (afterFirstChars? mark.toList s.toList).map String.ofList

/-- The pieces with a separator between each two of them. -/
def join (sep : String) : List String → String
  | [] => ""
  | [piece] => piece
  | piece :: next :: rest => piece ++ sep ++ join sep (next :: rest)

/-- The longest beginning of a list of characters with at most some number of bytes. -/
def takeBytesChars : (limit : Nat) → List Char → List Char
  | _, [] => []
  | limit, c :: cs =>
    if c.utf8Size ≤ limit then c :: takeBytesChars (limit - c.utf8Size) cs else []

/-- The longest beginning of a text with at most some number of bytes. -/
def takeBytes (limit : Nat) (s : String) : String := String.ofList (takeBytesChars limit s.toList)

/-- The beginning and the rest make up the text. -/
theorem afterChars?_eq_some_iff {lead cs rest : List Char} :
    afterChars? lead cs = some rest ↔ cs = lead ++ rest := by
  induction lead generalizing cs with
  | nil => simp [afterChars?]
  | cons p ps ih =>
    cases cs with
    | nil => simp [afterChars?]
    | cons c cs =>
      by_cases h : p = c
      · subst h
        simp [afterChars?, ih]
      · simp [afterChars?, h, Ne.symm h]

/-- The beginning and the rest make up the text. -/
theorem after?_eq_some_iff {lead s rest : String} :
    after? lead s = some rest ↔ s = lead ++ rest := by
  rw [after?, Option.map_eq_some_iff, ← String.toList_inj, String.toList_append]
  constructor
  · rintro ⟨cs, hcs, rfl⟩
    rw [String.toList_ofList]
    exact afterChars?_eq_some_iff.mp hcs
  · intro h
    exact ⟨rest.toList, afterChars?_eq_some_iff.mpr h, String.ofList_toList⟩

/-- The part before the end and the end make up the text. -/
theorem before?_eq_some_iff {tail s rest : String} :
    before? tail s = some rest ↔ s = rest ++ tail := by
  rw [before?, Option.map_eq_some_iff, ← String.toList_inj, String.toList_append]
  constructor
  · rintro ⟨cs, hcs, rfl⟩
    have := congrArg List.reverse (afterChars?_eq_some_iff.mp hcs)
    simpa using this
  · intro h
    refine ⟨rest.toList.reverse, afterChars?_eq_some_iff.mpr ?_, by simp⟩
    rw [h, List.reverse_append]

/-- There is always a first piece. -/
theorem splitChars_ne_nil (sep : Char) (cs : List Char) : splitChars sep cs ≠ [] := by
  cases cs with
  | nil => simp [splitChars]
  | cons c cs =>
    unfold splitChars
    split
    · simp
    · split <;> simp

/-- No piece holds the separator. -/
theorem not_mem_of_mem_splitChars {sep : Char} {cs piece : List Char}
    (h : piece ∈ splitChars sep cs) : sep ∉ piece := by
  induction cs generalizing piece with
  | nil => simp [splitChars] at h; simp [h]
  | cons c cs ih =>
    unfold splitChars at h
    split at h
    · rcases List.mem_cons.mp h with rfl | h
      · simp
      · exact ih h
    · rename_i hc
      split at h
      · simp at h; simp [h, Ne.symm hc]
      · rename_i first rest heq
        rcases List.mem_cons.mp h with rfl | h
        · have := ih (heq ▸ List.mem_cons_self)
          simp [Ne.symm hc, this]
        · exact ih (heq ▸ List.mem_cons_of_mem _ h)

/-- The parts around the first separator make up the text, and the first part
holds no separator. -/
theorem cutChars?_eq_some_iff {sep : Char} {cs left right : List Char} :
    cutChars? sep cs = some (left, right) ↔ cs = left ++ sep :: right ∧ sep ∉ left := by
  induction cs generalizing left with
  | nil => simp [cutChars?]
  | cons c cs ih =>
    unfold cutChars?
    split
    · rename_i h
      subst h
      constructor
      · intro h; cases h; simp
      · rintro ⟨h, hleft⟩
        cases left with
        | nil => simp at h; simp [h]
        | cons d left => simp at h hleft; exact absurd h.1 hleft.1
    · rename_i h
      cases left with
      | nil => simp [h]
      | cons d left =>
        simp only [Option.map_eq_some_iff, Prod.mk.injEq, Prod.exists, List.cons.injEq,
          List.cons_append, List.mem_cons, not_or]
        constructor
        · rintro ⟨l, r, hlr, ⟨rfl, rfl⟩, rfl⟩
          obtain ⟨rfl, hl⟩ := ih.mp hlr
          exact ⟨⟨rfl, rfl⟩, Ne.symm h, hl⟩
        · rintro ⟨⟨rfl, rfl⟩, -, hl⟩
          exact ⟨left, right, ih.mpr ⟨rfl, hl⟩, ⟨rfl, rfl⟩, rfl⟩

end AppBundle.Text
