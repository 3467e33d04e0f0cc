import AppBundle.Proofs.JsonParts

/-!
# Texts of documents in JSON

A document has many texts in JSON, which differ in the blanks between their parts and in the order
of the fields of tables. This file says which texts these are, and proves that each of them is read
as the document. The text that is written over several lines is one of them.
-/

namespace AppBundle.Json

open Document (quote)

variable {cs rest : List Char} {c : Char}

/-! ## Texts of documents -/

/-- The characters of a truth value. -/
def wordOf : Bool → List Char
  | true => ['t', 'r', 'u', 'e']
  | false => ['f', 'a', 'l', 's', 'e']

mutual

/-- A text begins with a document and goes on with a rest. The fields of a table are in the order
of their names, but can be written in any order. -/
inductive Spells : Document → List Char → List Char → Prop
  | null (rest : List Char) : Spells .null ('n' :: 'u' :: 'l' :: 'l' :: rest) rest
  | bool (b : Bool) (rest : List Char) : Spells (.bool b) (wordOf b ++ rest) rest
  | int (n : Int) {rest : List Char} (h : EndsNumber rest) :
      Spells (.int n) ((toString n).toList ++ rest) rest
  | text (s : String) (rest : List Char) : Spells (.text s) ((quote s).toList ++ rest) rest
  | emptyList {cs rest : List Char} (h : BlanksTo cs (']' :: rest)) :
      Spells (.list []) ('[' :: cs) rest
  | list {ds : List Document} {cs rest : List Char} (h : SpellsItems ds cs rest) :
      Spells (.list ds) ('[' :: cs) rest
  | emptyTable {cs rest : List Char} (h : BlanksTo cs ('\x7d' :: rest)) :
      Spells (.table []) ('\x7b' :: cs) rest
  | table {fs written : List (String × Document)} {cs rest : List Char}
      (hnames : (fs.map Prod.fst).Pairwise (compare · · = .lt)) (horder : written.Perm fs)
      (h : SpellsFields written cs rest) : Spells (.table fs) ('\x7b' :: cs) rest

/-- A text begins with the items of a list up to the closing bracket. -/
inductive SpellsItems : List Document → List Char → List Char → Prop
  | last {d : Document} {cs start after rest : List Char} (hstart : BlanksTo cs start)
      (h : Spells d start after) (hafter : BlanksTo after (']' :: rest)) : SpellsItems [d] cs rest
  | cons {d : Document} {ds : List Document} {cs start after next rest : List Char}
      (hstart : BlanksTo cs start) (h : Spells d start after)
      (hafter : BlanksTo after (',' :: next)) (hnext : SpellsItems ds next rest) :
      SpellsItems (d :: ds) cs rest

/-- A text begins with a field of a table, its name first. -/
inductive SpellsField : String × Document → List Char → List Char → Prop
  | mk {name : String} {d : Document} {cs colon content start after : List Char}
      (hname : BlanksTo cs ((quote name).toList ++ colon))
      (hcolon : BlanksTo colon (':' :: content)) (hstart : BlanksTo content start)
      (h : Spells d start after) : SpellsField (name, d) cs after

/-- A text begins with the fields of a table up to the closing brace. -/
inductive SpellsFields : List (String × Document) → List Char → List Char → Prop
  | last {f : String × Document} {cs after rest : List Char} (h : SpellsField f cs after)
      (hafter : BlanksTo after ('\x7d' :: rest)) : SpellsFields [f] cs rest
  | cons {f : String × Document} {fs : List (String × Document)} {cs after next rest : List Char}
      (h : SpellsField f cs after) (hafter : BlanksTo after (',' :: next))
      (hnext : SpellsFields fs next rest) : SpellsFields (f :: fs) cs rest

end

/-- A text in JSON of a document, with blanks and an order of fields of its own. -/
def IsTextOf (s : String) (d : Document) : Prop :=
  ∃ start rest, BlanksTo s.toList start ∧ Spells d start rest ∧ BlanksTo rest []

/-! ## The room that a document takes -/

theorem length_lt_of_quote {name : String} {colon content : List Char}
    (hname : BlanksTo cs ((quote name).toList ++ colon))
    (hcolon : BlanksTo colon (':' :: content)) : content.length < cs.length := by
  have hcs := hname.length_le
  have hcontent := hcolon.length_le
  rw [toList_quote] at hcs
  simp only [List.length_cons, List.length_append] at hcs hcontent
  omega

mutual

/-- A document takes at least one character. -/
theorem Spells.length_lt {d : Document} {cs rest : List Char} (h : Spells d cs rest) :
    rest.length < cs.length :=
  match h with
  | .null _ => Nat.lt_add_of_pos_right (k := 4) (by decide)
  | .bool true _ => Nat.lt_add_of_pos_right (k := 4) (by decide)
  | .bool false _ => Nat.lt_add_of_pos_right (k := 5) (by decide)
  | .int n _ => by
    obtain ⟨c, digits, htext, -⟩ := exists_toString_eq n
    rw [htext]
    simp only [List.length_append, List.length_cons]
    omega
  | .text s _ => by
    rw [toList_quote]
    simp only [List.length_append, List.length_cons]
    omega
  | .emptyList h => Nat.lt_of_lt_of_le (Nat.lt_succ_self _) (Nat.le_succ_of_le h.length_le)
  | .list h => Nat.lt_succ_of_lt h.length_lt
  | .emptyTable h => Nat.lt_of_lt_of_le (Nat.lt_succ_self _) (Nat.le_succ_of_le h.length_le)
  | .table _ _ h => Nat.lt_succ_of_lt h.length_lt

theorem SpellsItems.length_lt {ds : List Document} {cs rest : List Char}
    (h : SpellsItems ds cs rest) : rest.length < cs.length :=
  match h with
  | .last hstart h hafter =>
    Nat.lt_of_lt_of_le (Nat.lt_trans hafter.length_le h.length_lt) hstart.length_le
  | .cons hstart h hafter hnext =>
    Nat.lt_of_lt_of_le
      (Nat.lt_trans (Nat.lt_trans hnext.length_lt hafter.length_le) h.length_lt) hstart.length_le

theorem SpellsField.length_lt {f : String × Document} {cs after : List Char}
    (h : SpellsField f cs after) : after.length < cs.length :=
  match h with
  | .mk hname hcolon hstart h =>
    Nat.lt_trans (Nat.lt_of_lt_of_le h.length_lt hstart.length_le) (length_lt_of_quote hname hcolon)

theorem SpellsFields.length_lt {fs : List (String × Document)} {cs rest : List Char}
    (h : SpellsFields fs cs rest) : rest.length < cs.length :=
  match h with
  | .last h hafter => Nat.lt_trans hafter.length_le h.length_lt
  | .cons h hafter hnext =>
    Nat.lt_trans (Nat.lt_trans hnext.length_lt hafter.length_le) h.length_lt

end

/-! ## Reading -/

/-- A list of items does not begin with its closing bracket. -/
theorem SpellsItems.afterMark?_eq_none {ds : List Document} (h : SpellsItems ds cs rest) :
    afterMark? ']' cs = none := by
  have hhead {start after : List Char} {d : Document} (hstart : BlanksTo cs start)
      (h : Spells d start after) : afterMark? ']' cs = none := by
    have hmark {c : Char} {tail : List Char} (hcs : BlanksTo cs (c :: tail))
        (hc : isBlank c = false) (hne : c ≠ ']') : afterMark? ']' cs = none := by
      rw [hcs.afterMark?_eq hc, if_neg hne]
    cases h with
    | null | emptyList | list | emptyTable | table => exact hmark hstart rfl (by decide)
    | bool b => cases b <;> exact hmark hstart rfl (by decide)
    | int n =>
      obtain ⟨c, digits, htext, hall⟩ := exists_toString_eq n
      have hc := hall c List.mem_cons_self
      rw [htext] at hstart
      exact hmark hstart (isBlank_of_isNumberChar hc) (ne_of_isNumberChar hc rfl)
    | text s =>
      rw [toList_quote] at hstart
      exact hmark hstart rfl (by decide)
  cases h with
  | last hstart h _ => exact hhead hstart h
  | cons hstart h _ _ => exact hhead hstart h

/-- The fields of a table do not begin with its closing brace. -/
theorem SpellsFields.afterMark?_eq_none {fs : List (String × Document)}
    (h : SpellsFields fs cs rest) : afterMark? '\x7d' cs = none := by
  have hhead {after : List Char} {f : String × Document} (h : SpellsField f cs after) :
      afterMark? '\x7d' cs = none := by
    cases h with
    | mk hname _ _ _ =>
      rw [toList_quote] at hname
      rw [hname.afterMark?_eq rfl, if_neg (by decide)]
  cases h with
  | last h _ => exact hhead h
  | cons h _ _ => exact hhead h

/-- A name is read up to its closing quotes. -/
theorem quoted?_of_blanksTo {name : String} {colon : List Char}
    (h : BlanksTo cs ((quote name).toList ++ colon)) : quoted? cs = some (name, colon) := by
  rw [toList_quote] at h
  rw [quoted?, h.afterMark?_eq rfl, if_pos rfl, Option.bind_eq_bind, Option.bind_some,
    stringBody_flatMap]
  simp

/-- A value that begins with no mark is a scalar. -/
theorem value_scalar {tail : List Char} (h : BlanksTo cs (c :: tail)) (hblank : isBlank c = false)
    (htext : c ≠ '"') (hlist : c ≠ '[') (htable : c ≠ '\x7b') (fuel : Nat) :
    value (fuel + 1) cs = scalar? (c :: tail) := by
  rw [value, h.skipBlanks_cons hblank]
  split
  · rename_i heq
    exact absurd (List.cons.inj heq).1 htext
  · rename_i heq
    exact absurd (List.cons.inj heq).1 hlist
  · rename_i heq
    exact absurd (List.cons.inj heq).1 htable
  · rfl

/-- A whole number is read as a value. -/
theorem value_int {n : Int} (h : BlanksTo cs ((toString n).toList ++ rest))
    (hrest : EndsNumber rest) (fuel : Nat) : value (fuel + 1) cs = some (.int n, rest) := by
  have hscalar := scalar?_int n hrest
  obtain ⟨c, digits, htext, hall⟩ := exists_toString_eq n
  have hc := hall c List.mem_cons_self
  rw [htext, List.cons_append] at h hscalar
  rw [← hscalar]
  exact value_scalar h (isBlank_of_isNumberChar hc) (ne_of_isNumberChar hc rfl)
    (ne_of_isNumberChar hc rfl) (ne_of_isNumberChar hc rfl) fuel

/-- A table has its fields in the order of their names, in whatever order they were written. -/
theorem toList_ofList_of_perm {fs written : List (String × Document)}
    (hnames : (fs.map Prod.fst).Pairwise (compare · · = .lt)) (horder : written.Perm fs) :
    (OrderedMap.ofList written).toList = fs := by
  let m : OrderedMap String Document := ⟨fs, hnames⟩
  have hnodup : (written.map Prod.fst).Nodup := (horder.map Prod.fst).nodup_iff.mpr m.nodup_keys
  have hperm := (OrderedMap.ofList_perm hnodup).trans horder
  exact congrArg OrderedMap.toList (OrderedMap.ext (n := m) fun p => hperm.mem_iff)

mutual

/-- A document is read from each of its texts. Every character of the text pays for two steps, one
to a value and one to its parts, so the parts begin with one step less than twice their length. -/
theorem value_of_spells {d : Document} {cs start rest : List Char} (hstart : BlanksTo cs start)
    (h : Spells d start rest) (fuel : Nat) (hfuel : 2 * cs.length ≤ fuel + 2 * rest.length) :
    value fuel cs = some (d, rest) := by
  have hlt := h.length_lt
  have hle := hstart.length_le
  match fuel with
  | 0 => omega
  | fuel + 1 =>
    cases h with
    | null => exact value_scalar hstart rfl (by decide) (by decide) (by decide) fuel
    | bool b =>
      cases b <;> exact value_scalar hstart rfl (by decide) (by decide) (by decide) fuel
    | int n h => exact value_int hstart h fuel
    | text s =>
      rw [toList_quote] at hstart
      rw [value, hstart.skipBlanks_cons rfl]
      simp [stringBody_flatMap]
    | emptyList h =>
      rw [value, hstart.skipBlanks_cons rfl]
      simp [h.afterMark?_eq rfl]
    | list h =>
      rw [List.length_cons] at hle
      have hitems := items_of_spells h fuel (by omega)
      rw [value, hstart.skipBlanks_cons rfl]
      simp [h.afterMark?_eq_none, hitems]
    | emptyTable h =>
      rw [value, hstart.skipBlanks_cons rfl]
      simp [h.afterMark?_eq rfl]
    | table hnames horder h =>
      rw [List.length_cons] at hle
      have hfields := fields_of_spells h fuel (by omega)
      rw [value, hstart.skipBlanks_cons rfl]
      simp [h.afterMark?_eq_none, hfields, toList_ofList_of_perm hnames horder]

/-- The items of a list are read up to the closing bracket. -/
theorem items_of_spells {ds : List Document} {cs rest : List Char} (h : SpellsItems ds cs rest)
    (fuel : Nat) (hfuel : 2 * cs.length ≤ fuel + 1 + 2 * rest.length) :
    items fuel cs = some (ds, rest) := by
  have hlt := h.length_lt
  match fuel with
  | 0 => omega
  | fuel + 1 =>
    cases h with
    | last hstart h hafter =>
      have hle := hafter.length_le
      rw [List.length_cons] at hle
      have hvalue := value_of_spells hstart h fuel (by omega)
      simp [items, hvalue, hafter.skipBlanks_cons rfl]
    | cons hstart h hafter hnext =>
      have hle := hafter.length_le
      have hnextLt := hnext.length_lt
      have hitemLt := Nat.lt_of_lt_of_le h.length_lt hstart.length_le
      rw [List.length_cons] at hle
      have hvalue := value_of_spells hstart h fuel (by omega)
      have hitems := items_of_spells hnext fuel (by omega)
      simp [items, hvalue, hafter.skipBlanks_cons rfl, hitems]

/-- The fields of a table are read up to the closing brace. -/
theorem fields_of_spells {fs : List (String × Document)} {cs rest : List Char}
    (h : SpellsFields fs cs rest) (fuel : Nat)
    (hfuel : 2 * cs.length ≤ fuel + 1 + 2 * rest.length) : fields fuel cs = some (fs, rest) := by
  have hlt := h.length_lt
  match fuel with
  | 0 => omega
  | fuel + 1 =>
    cases h with
    | last h hafter =>
      have hle := hafter.length_le
      rw [List.length_cons] at hle
      cases h with
      | mk hname hcolon hstart h =>
        have hcontent := length_lt_of_quote hname hcolon
        have hvalue := value_of_spells hstart h fuel (by omega)
        simp [fields, quoted?_of_blanksTo hname, hcolon.afterMark?_eq rfl, hvalue,
          hafter.skipBlanks_cons rfl]
    | cons h hafter hnext =>
      have hle := hafter.length_le
      have hnextLt := hnext.length_lt
      have hfieldLt := h.length_lt
      rw [List.length_cons] at hle
      have hfields := fields_of_spells hnext fuel (by omega)
      cases h with
      | mk hname hcolon hstart h =>
        have hcontent := length_lt_of_quote hname hcolon
        have hvalue := value_of_spells hstart h fuel (by omega)
        simp [fields, quoted?_of_blanksTo hname, hcolon.afterMark?_eq rfl, hvalue,
          hafter.skipBlanks_cons rfl, hfields]

end

/-- Every text of a document is read as the document. -/
theorem read?_of_isTextOf {s : String} {d : Document} (h : IsTextOf s d) : read? s = some d := by
  obtain ⟨start, rest, hstart, hspells, hrest⟩ := h
  have hvalue := value_of_spells hstart hspells (2 * s.toList.length) (Nat.le_add_right _ _)
  have hskip : skipBlanks rest = [] := hrest.skipBlanks_eq
  simp [read?, hvalue, hskip]

/-! ## Written texts -/

/-- A document without numbers other than whole ones, whose tables have their fields in the order
of the names. -/
inductive IsPlain : Document → Prop
  | null : IsPlain .null
  | bool (b : Bool) : IsPlain (.bool b)
  | int (n : Int) : IsPlain (.int n)
  | text (s : String) : IsPlain (.text s)
  | list {ds : List Document} (h : ∀ d ∈ ds, IsPlain d) : IsPlain (.list ds)
  | table {fs : List (String × Document)}
      (hnames : (fs.map Prod.fst).Pairwise (compare · · = .lt)) (h : ∀ f ∈ fs, IsPlain f.2) :
      IsPlain (.table fs)

/-- A new line begins with its break, and goes on with blanks. -/
theorem toList_newline (level : Nat) :
    (Document.newline level).toList = '\n' :: List.replicate (2 * level) ' ' := by
  rw [Document.newline, String.toList_append, String.toList_ofList, String.toList_ofList]
  rfl

theorem blanksTo_newline (level : Nat) (rest : List Char) :
    BlanksTo ((Document.newline level).toList ++ rest) rest := by
  refine ⟨_, ?_, rfl⟩
  rw [toList_newline, List.all_cons, List.all_replicate]
  simp [isBlank]

theorem endsNumber_cons (hc : isNumberChar c = false) (rest : List Char) :
    EndsNumber (c :: rest) := by
  rintro d ⟨⟩
  exact hc

theorem endsNumber_newline (level : Nat) (rest : List Char) :
    EndsNumber ((Document.newline level).toList ++ rest) := by
  rw [toList_newline]
  exact endsNumber_cons rfl _

/-- What is written of a document, at any level, spells it. -/
def SpellsWritten (d : Document) : Prop :=
  ∀ (level : Nat) {rest : List Char}, EndsNumber rest →
    Spells d ((d.renderAt level).toList ++ rest) rest

theorem toList_renderItems_cons (level : Nat) (d : Document) (ds : List Document) :
    (Document.renderItems level (d :: ds)).toList =
      ',' :: ((Document.newline level).toList ++ ((d.renderAt level).toList ++
        (Document.renderItems level ds).toList)) := by
  simp [Document.renderItems]

theorem toList_renderFields_cons (level : Nat) (name : String) (d : Document)
    (fs : List (String × Document)) :
    (Document.renderFields level ((name, d) :: fs)).toList =
      ',' :: ((Document.newline level).toList ++ ((quote name).toList ++ (':' :: ' ' ::
        ((d.renderAt level).toList ++ (Document.renderFields level fs).toList)))) := by
  simp [Document.renderFields]

/-- What is written of the items of a list spells them. -/
theorem spellsItems_written {d : Document} {ds : List Document} (hd : SpellsWritten d)
    (hds : ∀ d ∈ ds, SpellsWritten d) (level outer : Nat)
    (hcs : BlanksTo cs ((d.renderAt level).toList ++ ((Document.renderItems level ds).toList ++
      ((Document.newline outer).toList ++ ']' :: rest)))) : SpellsItems (d :: ds) cs rest := by
  induction ds generalizing d cs with
  | nil =>
    rw [Document.renderItems, String.toList_empty, List.nil_append] at hcs
    exact .last hcs (hd level (endsNumber_newline _ _)) (blanksTo_newline _ _)
  | cons e ds ih =>
    obtain ⟨he, hds⟩ := List.forall_mem_cons.mp hds
    simp only [toList_renderItems_cons, List.cons_append, List.append_assoc] at hcs
    exact .cons hcs (hd level (endsNumber_cons rfl _)) (.refl _)
      (ih he hds (blanksTo_newline _ _))

/-- What is written of a field of a table spells it. -/
theorem spellsField_written {name : String} {d : Document} (hd : SpellsWritten d) (level : Nat)
    (hrest : EndsNumber rest) (hcs : BlanksTo cs ((quote name).toList ++ (':' :: ' ' ::
      ((d.renderAt level).toList ++ rest)))) : SpellsField (name, d) cs rest :=
  .mk hcs (.refl _) ⟨[' '], rfl, rfl⟩ (hd level hrest)

/-- What is written of the fields of a table spells them. -/
theorem spellsFields_written {name : String} {d : Document} {fs : List (String × Document)}
    (hd : SpellsWritten d) (hfs : ∀ f ∈ fs, SpellsWritten f.2) (level outer : Nat)
    (hcs : BlanksTo cs ((quote name).toList ++ (':' :: ' ' :: ((d.renderAt level).toList ++
      ((Document.renderFields level fs).toList ++
        ((Document.newline outer).toList ++ '\x7d' :: rest)))))) :
    SpellsFields ((name, d) :: fs) cs rest := by
  induction fs generalizing name d cs with
  | nil =>
    rw [Document.renderFields, String.toList_empty, List.nil_append] at hcs
    exact .last (spellsField_written hd level (endsNumber_newline _ _) hcs) (blanksTo_newline _ _)
  | cons f fs ih =>
    obtain ⟨name', e⟩ := f
    obtain ⟨he, hfs⟩ := List.forall_mem_cons.mp hfs
    simp only [toList_renderFields_cons, List.cons_append, List.append_assoc] at hcs
    exact .cons (spellsField_written hd level (endsNumber_cons rfl _) hcs) (.refl _)
      (ih he hfs (blanksTo_newline _ _))

/-- What is written of a plain document spells it. -/
theorem IsPlain.spellsWritten {d : Document} (h : IsPlain d) : SpellsWritten d := by
  induction h with
  | null =>
    intro level rest _
    have htext : (Document.null.renderAt level).toList = ['n', 'u', 'l', 'l'] := by
      simp [Document.renderAt]
    rw [htext]
    exact .null rest
  | bool b =>
    intro level rest _
    have htext : ((Document.bool b).renderAt level).toList = wordOf b := by
      cases b <;> simp [Document.renderAt, wordOf]
    rw [htext]
    exact .bool b rest
  | int n =>
    intro level rest hrest
    rw [Document.renderAt]
    exact .int n hrest
  | text s =>
    intro level rest _
    rw [Document.renderAt]
    exact .text s rest
  | @list ds _ ih =>
    intro level rest _
    cases ds with
    | nil =>
      have htext : ((Document.list []).renderAt level).toList = ['[', ']'] := by
        simp [Document.renderAt]
      rw [htext]
      exact .emptyList (.refl _)
    | cons d ds =>
      obtain ⟨hd, hds⟩ := List.forall_mem_cons.mp ih
      have hitems : SpellsItems (d :: ds) _ rest :=
        spellsItems_written hd hds (level + 1) level (blanksTo_newline (level + 1) _)
      have htext : ((Document.list (d :: ds)).renderAt level).toList ++ rest =
          '[' :: ((Document.newline (level + 1)).toList ++ ((d.renderAt (level + 1)).toList ++
            ((Document.renderItems (level + 1) ds).toList ++
              ((Document.newline level).toList ++ ']' :: rest)))) := by
        simp [Document.renderAt]
      rw [htext]
      exact .list hitems
  | @table fs hnames _ ih =>
    intro level rest _
    cases fs with
    | nil =>
      have htext : ((Document.table []).renderAt level).toList = ['\x7b', '\x7d'] := by
        simp [Document.renderAt]
      rw [htext]
      exact .emptyTable (.refl _)
    | cons f fs =>
      obtain ⟨name, d⟩ := f
      obtain ⟨hd, hfs⟩ := List.forall_mem_cons.mp ih
      have hfields : SpellsFields ((name, d) :: fs) _ rest :=
        spellsFields_written hd hfs (level + 1) level (blanksTo_newline (level + 1) _)
      have htext : ((Document.table ((name, d) :: fs)).renderAt level).toList ++ rest =
          '\x7b' :: ((Document.newline (level + 1)).toList ++ ((quote name).toList ++
            (':' :: ' ' :: ((d.renderAt (level + 1)).toList ++
              ((Document.renderFields (level + 1) fs).toList ++
                ((Document.newline level).toList ++ '\x7d' :: rest)))))) := by
        simp [Document.renderAt]
      rw [htext]
      exact .table hnames (.refl _) hfields

/-- The written text of a plain document is one of its texts. -/
theorem IsPlain.isTextOf_render {d : Document} (h : IsPlain d) : IsTextOf d.render d := by
  have hend : EndsNumber [] := by
    rintro c ⟨⟩
  have hspells := h.spellsWritten 0 hend
  rw [List.append_nil] at hspells
  exact ⟨_, [], .refl _, hspells, .refl []⟩

end AppBundle.Json
