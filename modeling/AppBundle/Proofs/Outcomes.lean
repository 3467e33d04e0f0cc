import Mathlib.Data.List.Forall2

/-!
# Outcomes of steps that can fail

A chain of steps succeeds when every step does, and its failure is the failure
of one of its steps. These rules take apart the steps of dividing, merging and
grouping, so that later proofs do not repeat the case splits.
-/

namespace AppBundle

variable {ε δ α β : Type}

/-- Two steps in a row succeed when the first one does and the second one does
with its result. -/
theorem bind_eq_ok_iff {x : Except ε α} {f : α → Except ε β} {b : β} :
    (x >>= f) = .ok b ↔ ∃ a, x = .ok a ∧ f a = .ok b := by
  cases x <;> simp [bind, Except.bind]

/-- Two steps in a row fail with the failure of the first one, or else with that
of the second one. -/
theorem bind_eq_error_iff {x : Except ε α} {f : α → Except ε β} {e : ε} :
    (x >>= f) = .error e ↔ x = .error e ∨ ∃ a, x = .ok a ∧ f a = .error e := by
  cases x <;> simp [bind, Except.bind]

/-- A step that is no failure succeeds with a result. -/
theorem exists_of_isSome_toOption {x : Except ε α} (h : x.toOption.isSome) :
    ∃ a, x = .ok a := by
  cases x with
  | ok a => exact ⟨a, rfl⟩
  | error e => cases h

/-- A step whose result passes a check succeeds with a result that does. -/
theorem exists_of_any_toOption {x : Except ε α} {P : α → Prop} [DecidablePred P]
    (h : x.toOption.any (decide <| P ·)) : ∃ a, x = .ok a ∧ P a := by
  cases x with
  | ok a => exact ⟨a, rfl, of_decide_eq_true h⟩
  | error e => cases h

/-- A step on a result changes no failure. -/
theorem map_eq_error_iff {x : Except ε α} {f : α → β} {e : ε} :
    x.map f = .error e ↔ x = .error e := by
  cases x <;> simp [Except.map]

/-- A step on a result succeeds with what it makes of the result. -/
theorem map_eq_ok_iff {x : Except ε α} {f : α → β} {b : β} :
    x.map f = .ok b ↔ ∃ a, x = .ok a ∧ f a = b := by
  cases x <;> simp [Except.map]

/-- Taking over a failure as a cause changes no success. -/
theorem mapError_eq_ok_iff {x : Except ε α} {f : ε → δ} {a : α} :
    x.mapError f = .ok a ↔ x = .ok a := by
  cases x <;> simp [Except.mapError]

/-- A failure that was taken over as a cause comes from a failure. -/
theorem mapError_eq_error_iff {x : Except ε α} {f : ε → δ} {d : δ} :
    x.mapError f = .error d ↔ ∃ e, x = .error e ∧ f e = d := by
  cases x <;> simp [Except.mapError]

/-- A step on every element succeeds when it does so on each of them. -/
theorem mapM_eq_ok_iff {f : α → Except ε β} {as : List α} {bs : List β} :
    as.mapM f = .ok bs ↔ List.Forall₂ (fun a b => f a = .ok b) as bs := by
  induction as generalizing bs with
  | nil =>
    rw [List.mapM_nil, List.forall₂_nil_left_iff]
    exact ⟨fun h => (Except.ok.inj h).symm, fun h => h ▸ rfl⟩
  | cons a as ih =>
    rw [List.mapM_cons, bind_eq_ok_iff]
    constructor
    · rintro ⟨b, hb, h⟩
      obtain ⟨rest, hrest, h⟩ := bind_eq_ok_iff.mp h
      rw [← Except.ok.inj h]
      exact .cons hb (ih.mp hrest)
    · rintro (_ | ⟨hb, hrest⟩)
      exact ⟨_, hb, bind_eq_ok_iff.mpr ⟨_, ih.mpr hrest, rfl⟩⟩

/-- A step on every element that succeeds does so on each of them. -/
theorem exists_of_mem_of_mapM_eq_ok {f : α → Except ε β} {as : List α} {bs : List β}
    (h : as.mapM f = .ok bs) {a : α} (ha : a ∈ as) : ∃ b, f a = .ok b := by
  induction mapM_eq_ok_iff.mp h with
  | nil => exact absurd ha List.not_mem_nil
  | cons hb _ ih =>
    rcases List.mem_cons.mp ha with rfl | ha
    · exact ⟨_, hb⟩
    · exact ih (mapM_eq_ok_iff.mpr ‹_›) ha

/-- A step on every element that succeeds is a map. -/
theorem exists_map_of_mapM_eq_ok [Inhabited β] {f : α → Except ε β} {as : List α} {bs : List β}
    (h : as.mapM f = .ok bs) : ∃ g : α → β, (∀ a ∈ as, f a = .ok (g a)) ∧ bs = as.map g := by
  let g (a : α) : β := (f a).toOption.getD default
  have hg {a : α} {b : β} (hb : f a = .ok b) : g a = b := by
    simp only [g, hb, Except.toOption, Option.getD_some]
  refine ⟨g, ?_⟩
  induction mapM_eq_ok_iff.mp h with
  | nil => exact ⟨fun a ha => absurd ha List.not_mem_nil, rfl⟩
  | cons hb _ ih =>
    obtain ⟨hall, hmap⟩ := ih (mapM_eq_ok_iff.mpr ‹_›)
    refine ⟨fun a ha => ?_, by rw [List.map_cons, ← hmap, hg hb]⟩
    rcases List.mem_cons.mp ha with rfl | ha
    · rw [hg hb, hb]
    · exact hall a ha

/-- The results of a step on every element stand at the places of the elements. -/
theorem exists_mem_zip_of_mapM_eq_ok {κ : Type} {f : α → Except ε β} {ks : List κ} {as : List α}
    {bs : List β} (h : as.mapM f = .ok bs) {k : κ} {a : α} (hmem : (k, a) ∈ ks.zip as) :
    ∃ b, (k, b) ∈ ks.zip bs ∧ f a = .ok b := by
  induction mapM_eq_ok_iff.mp h generalizing ks with
  | nil => simp at hmem
  | cons hb _ ih =>
    cases ks with
    | nil => simp at hmem
    | cons k' ks =>
      rcases List.mem_cons.mp hmem with heq | hmem
      · obtain ⟨rfl, rfl⟩ := Prod.mk.inj heq
        exact ⟨_, List.mem_cons_self, hb⟩
      · obtain ⟨b, hmem, hb⟩ := ih (mapM_eq_ok_iff.mpr ‹_›) hmem
        exact ⟨b, List.mem_cons_of_mem _ hmem, hb⟩

/-- A step on every element fails as it does on the first element on which it fails. -/
theorem mapM_eq_error_iff {f : α → Except ε β} {as : List α} {e : ε} :
    as.mapM f = .error e ↔ ∃ before a after, as = before ++ a :: after ∧
      (∀ b ∈ before, ∃ c, f b = .ok c) ∧ f a = .error e := by
  induction as with
  | nil =>
    refine iff_of_false (fun h => by cases h) ?_
    rintro ⟨before, a, after, hsplit, -⟩
    exact absurd hsplit.symm (by simp)
  | cons first as ih =>
    rw [List.mapM_cons, bind_eq_error_iff]
    constructor
    · rintro (h | ⟨c, hc, h⟩)
      · exact ⟨[], first, as, rfl, by simp, h⟩
      · rcases bind_eq_error_iff.mp h with h | ⟨rest, _, h⟩
        · obtain ⟨before, a, after, rfl, hbefore, ha⟩ := ih.mp h
          exact ⟨first :: before, a, after, rfl, List.forall_mem_cons.mpr ⟨⟨c, hc⟩, hbefore⟩, ha⟩
        · cases h
    · rintro ⟨before, a, after, hsplit, hbefore, ha⟩
      cases before with
      | nil =>
        obtain ⟨rfl, rfl⟩ := List.cons.inj hsplit
        exact .inl ha
      | cons b before =>
        obtain ⟨rfl, rfl⟩ := List.cons.inj hsplit
        obtain ⟨⟨c, hc⟩, hbefore⟩ := List.forall_mem_cons.mp hbefore
        have hrest := ih.mpr ⟨before, a, after, rfl, hbefore, ha⟩
        exact .inr ⟨c, hc, bind_eq_error_iff.mpr (.inl hrest)⟩

/-- A step on every element fails only if it fails on one of them. -/
theorem exists_of_mapM_eq_error {f : α → Except ε β} {as : List α} {e : ε}
    (h : as.mapM f = .error e) : ∃ a ∈ as, f a = .error e := by
  obtain ⟨before, a, after, rfl, -, ha⟩ := mapM_eq_error_iff.mp h
  exact ⟨a, by simp, ha⟩

/-- A step on every element succeeds exactly if it does so on each of them. -/
theorem exists_mapM_eq_ok_iff {f : α → Except ε β} {as : List α} :
    (∃ bs, as.mapM f = .ok bs) ↔ ∀ a ∈ as, ∃ b, f a = .ok b := by
  constructor
  · rintro ⟨bs, h⟩ a ha
    exact exists_of_mem_of_mapM_eq_ok h ha
  · intro h
    cases hall : as.mapM f with
    | ok bs => exact ⟨bs, rfl⟩
    | error e =>
      obtain ⟨a, ha, hfails⟩ := exists_of_mapM_eq_error hall
      obtain ⟨b, hb⟩ := h a ha
      rw [hfails] at hb
      cases hb

/-- A step has one result if a condition holds, and otherwise it fails in one way. -/
structure YieldsIf (P : Prop) (x : Except ε α) (a : α) (e : ε) : Prop where
  ok : P → x = .ok a
  error : ¬ P → x = .error e

section YieldsIf

variable {P Q : Prop} {x : Except ε α} {a : α} {e : ε}

theorem YieldsIf.of_iff (h : YieldsIf P x a e) (hiff : Q ↔ P) : YieldsIf Q x a e :=
  ⟨fun hQ => h.ok (hiff.mp hQ), fun hQ => h.error (mt hiff.mpr hQ)⟩

/-- Two steps in a row need the conditions of both. -/
theorem YieldsIf.bind {f : α → Except ε β} {b : β} (h : YieldsIf P x a e)
    (hnext : P → YieldsIf Q (f a) b e) : YieldsIf (P ∧ Q) (x >>= f) b e := by
  constructor
  · rintro ⟨hP, hQ⟩
    exact bind_eq_ok_iff.mpr ⟨a, h.ok hP, (hnext hP).ok hQ⟩
  · intro hnot
    by_cases hP : P
    · exact bind_eq_error_iff.mpr
        (.inr ⟨a, h.ok hP, (hnext hP).error fun hQ => hnot ⟨hP, hQ⟩⟩)
    · exact bind_eq_error_iff.mpr (.inl (h.error hP))

/-- A step that cannot fail needs no condition. -/
theorem YieldsIf.map (h : YieldsIf P x a e) (f : α → β) :
    YieldsIf P (do return f (← x)) (f a) e := by
  constructor
  · intro hP
    rw [h.ok hP]
    rfl
  · intro hP
    rw [h.error hP]
    rfl

/-- A step on every element needs the conditions of all of them. -/
theorem yieldsIf_mapM {P : α → Prop} {f : α → Except ε β} {g : α → β} {as : List α}
    (h : ∀ a ∈ as, YieldsIf (P a) (f a) (g a) e) :
    YieldsIf (∀ a ∈ as, P a) (as.mapM f) (as.map g) e := by
  constructor
  · intro hall
    refine mapM_eq_ok_iff.mpr (List.forall₂_map_right_iff.mpr (List.forall₂_same.mpr ?_))
    exact fun a ha => (h a ha).ok (hall a ha)
  · intro hnot
    obtain ⟨a, ha, hfails⟩ : ∃ a ∈ as, ¬ P a := by simpa using hnot
    cases hresult : as.mapM f with
    | ok bs =>
      obtain ⟨b, hb⟩ := exists_of_mem_of_mapM_eq_ok hresult ha
      rw [(h a ha).error hfails] at hb
      cases hb
    | error e' =>
      obtain ⟨a', ha', hfirst⟩ := exists_of_mapM_eq_error hresult
      by_cases hP : P a'
      · rw [(h a' ha').ok hP] at hfirst
        cases hfirst
      · rw [(h a' ha').error hP, Except.error.injEq] at hfirst
        rw [hfirst]

end YieldsIf

/-- Elements on which a step succeeds can be left out before the step instead of afterwards. -/
theorem mapM_filter {f : α → Except ε β} {p : α → Bool} {q : β → Bool}
    (hsame : ∀ a b, f a = .ok b → q b = p a) (hleft : ∀ a, p a = false → ∃ b, f a = .ok b)
    (as : List α) : (as.filter p).mapM f = (as.mapM f).map (·.filter q) := by
  induction as with
  | nil => rfl
  | cons a as ih =>
    rw [List.mapM_cons]
    cases hp : p a with
    | true =>
      rw [List.filter_cons_of_pos hp, List.mapM_cons, ih]
      cases hf : f a with
      | error e => rfl
      | ok b =>
        have hq : q b = true := (hsame a b hf).trans hp
        cases as.mapM f with
        | error e => rfl
        | ok bs => exact congrArg Except.ok (List.filter_cons_of_pos hq).symm
    | false =>
      obtain ⟨b, hf⟩ := hleft a hp
      have hq : ¬ q b = true := by rw [hsame a b hf, hp]; exact Bool.false_ne_true
      rw [List.filter_cons_of_neg (by rw [hp]; exact Bool.false_ne_true), ih, hf]
      cases as.mapM f with
      | error e => rfl
      | ok bs => exact congrArg Except.ok (List.filter_cons_of_neg hq).symm

/-- A result that stands beside some elements stands beside one of them. -/
theorem exists_of_mem_of_forall₂ {P : α → β → Prop} {as : List α} {bs : List β}
    (h : List.Forall₂ P as bs) {b : β} (hb : b ∈ bs) : ∃ a ∈ as, P a b := by
  induction h with
  | nil => exact absurd hb List.not_mem_nil
  | cons hab _ ih =>
    rcases List.mem_cons.mp hb with rfl | hb
    · exact ⟨_, List.mem_cons_self, hab⟩
    · obtain ⟨a, ha, hab⟩ := ih hb
      exact ⟨a, List.mem_cons_of_mem _ ha, hab⟩

/-- The results of a step on every element are those of the step on some element. -/
theorem mem_iff_of_mapM_eq_ok {f : α → Except ε β} {as : List α} {bs : List β}
    (h : as.mapM f = .ok bs) {b : β} : b ∈ bs ↔ ∃ a ∈ as, f a = .ok b := by
  have hall := mapM_eq_ok_iff.mp h
  constructor
  · exact exists_of_mem_of_forall₂ hall
  · rintro ⟨a, ha, hb⟩
    obtain ⟨b', hb', hab⟩ := exists_of_mem_of_forall₂ hall.flip ha
    exact Except.ok.inj (hab.symm.trans hb) ▸ hb'

/-- As many results satisfy a test as do elements beside them, if the tests agree. -/
theorem countP_eq_of_forall₂ {P : α → β → Prop} {p : α → Bool} {q : β → Bool} {as : List α}
    {bs : List β} (h : List.Forall₂ P as bs) (hpq : ∀ a b, P a b → q b = p a) :
    bs.countP q = as.countP p := by
  induction h with
  | nil => rfl
  | cons hab _ ih => rw [List.countP_cons, List.countP_cons, ih, hpq _ _ hab]

/-- Partners of elements of which each is related to all later ones are related in the same
order. -/
theorem pairwise_of_forall₂ {R : α → β → Prop} {P : α → α → Prop} {Q : β → β → Prop}
    {as : List α} {bs : List β} (h : List.Forall₂ R as bs) (has : as.Pairwise P)
    (hstep : ∀ a b p q, R a p → R b q → P a b → Q p q) : bs.Pairwise Q := by
  induction h with
  | nil => exact .nil
  | @cons a p as bs hfirst hrest ih =>
    obtain ⟨hlater, has⟩ := List.pairwise_cons.mp has
    refine List.pairwise_cons.mpr ⟨fun q hq => ?_, ih has⟩
    obtain ⟨b, hb, hbq⟩ := exists_of_mem_of_forall₂ hrest hq
    exact hstep a b p q hfirst hbq (hlater b hb)

/-- Partners of different elements have different values, if the value of a partner tells the
element. -/
theorem nodup_map_of_forall₂ {γ : Type} {R : α → β → Prop} {f : β → γ} {as : List α} {bs : List β}
    (h : List.Forall₂ R as bs) (has : as.Nodup)
    (hinj : ∀ a b p q, R a p → R b q → f p = f q → a = b) : (bs.map f).Nodup :=
  List.pairwise_map.mpr (pairwise_of_forall₂ h has fun a b p q hp hq hne heq =>
    hne (hinj a b p q hp hq heq))

/-- Results that stand beside some elements can be replaced one by one, if each of them can. -/
theorem exists_forall₂ {γ : Type} {P : α → β → Prop} {Q : α → γ → Prop} {R : β → γ → Prop}
    {as : List α} {bs : List β} (h : List.Forall₂ P as bs)
    (hstep : ∀ a b, P a b → ∃ c, Q a c ∧ R b c) :
    ∃ cs, List.Forall₂ Q as cs ∧ List.Forall₂ R bs cs := by
  induction h with
  | nil => exact ⟨[], .nil, .nil⟩
  | cons hab _ ih =>
    obtain ⟨c, hac, hbc⟩ := hstep _ _ hab
    obtain ⟨cs, hacs, hbcs⟩ := ih
    exact ⟨c :: cs, .cons hac hacs, .cons hbc hbcs⟩

/-- Two outcomes are alike: both are failures, or both are results and these are related. -/
def Alike (R : α → β → Prop) : Except ε α → Except δ β → Prop
  | .ok a, .ok b => R a b
  | .error _, .error _ => True
  | _, _ => False

/-- Two steps have outcomes that are alike if each succeeds when the other one does. -/
theorem alike_of_forall {R : α → β → Prop} {x : Except ε α} {y : Except δ β}
    (hx : ∀ a, x = .ok a → ∃ b, y = .ok b ∧ R a b) (hy : ∀ b, y = .ok b → ∃ a, x = .ok a) :
    Alike R x y := by
  cases x with
  | ok a =>
    obtain ⟨b, rfl, hab⟩ := hx a rfl
    exact hab
  | error e =>
    cases y with
    | ok b =>
      obtain ⟨a, ha⟩ := hy b rfl
      cases ha
    | error d => trivial

end AppBundle
