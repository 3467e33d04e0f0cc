import AppBundle.Proofs.ArchiveNames

/-!
# The order of bytes

Texts are compared character by character. That is the same as comparing their bytes, because the
first bytes in which the codes of two characters differ have the order of the characters.
-/

namespace AppBundle

open Archive

/-- The codes of two different characters differ in some byte, and there they have the order of the
characters. -/
theorem utf8EncodeChar_append_lt {c d : Char} (h : c < d) (as bs : List UInt8) :
    String.utf8EncodeChar c ++ as < String.utf8EncodeChar d ++ bs := by
  have hval : c.val.toNat < d.val.toNat := h
  have hmax : d.val.toNat < 1114112 := by
    have hvalid := d.valid
    simp only [UInt32.isValidChar, Nat.isValidChar] at hvalid
    omega
  simp only [String.utf8EncodeChar]
  split_ifs <;> simp (disch := omega) only [List.cons_append, List.nil_append,
    List.cons_lt_cons_iff, UInt8.lt_iff_toNat_lt, ← UInt8.toNat_inj, UInt8.toNat_ofNat',
    Nat.mod_eq_of_lt] <;> omega

/-- Characters in increasing order have codes in increasing order. -/
theorem flatMap_utf8EncodeChar_lt {cs ds : List Char} (h : cs < ds) :
    cs.flatMap String.utf8EncodeChar < ds.flatMap String.utf8EncodeChar := by
  induction cs generalizing ds with
  | nil =>
    cases ds with
    | nil => exact absurd h (by simp)
    | cons d ds =>
      obtain ⟨b, bs, hcode⟩ := List.exists_cons_of_ne_nil (String.utf8EncodeChar_ne_nil (c := d))
      simp [hcode]
  | cons c cs ih =>
    cases ds with
    | nil => exact absurd h (by simp)
    | cons d ds =>
      rw [List.flatMap_cons, List.flatMap_cons]
      rcases List.cons_lt_cons_iff.mp h with hcd | ⟨rfl, hrest⟩
      · exact utf8EncodeChar_append_lt hcd _ _
      · exact List.append_left_lt (ih hrest)

/-- The bytes of texts have the order of the texts. -/
theorem bytesOf_lt_iff {s t : String} : bytesOf s < bytesOf t ↔ compare s t = .lt := by
  have hmono {s t : String} (h : compare s t = .lt) : bytesOf s < bytesOf t := by
    have hlt : s < t := compareOfLessAndEq_eq_lt.mp h
    rw [bytesOf_eq_flatMap, bytesOf_eq_flatMap]
    exact flatMap_utf8EncodeChar_lt hlt
  refine ⟨fun h => ?_, hmono⟩
  cases hst : compare s t with
  | lt => rfl
  | eq =>
    rw [Std.LawfulEqOrd.eq_of_compare hst] at h
    exact absurd h (List.lt_irrefl _)
  | gt => exact absurd h (List.lt_asymm (hmono (Std.OrientedCmp.lt_of_gt hst)))

end AppBundle
