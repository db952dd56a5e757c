import RosRecipes.Text.Utf8

/-!
# The order of texts and the order of bytes

Texts are ordered by their characters.  This is the order of their UTF-8 forms byte by byte (`bytes_lt_bytes`):
of two different characters the smaller one has the smaller byte at the first place where their forms differ,
and there is such a place in both forms.
-/

namespace RosRecipes.Text

/-- The UTF-8 form of a text. -/
def bytes (s : String) : List UInt8 := s.toUTF8.data.toList

private theorem bytes_eq_flatMap (s : String) : bytes s = s.toList.flatMap String.utf8EncodeChar := by
  have h : (String.ofList s.toList).toUTF8 = s.toList.utf8Encode := by
    rw [String.toUTF8_eq_toByteArray, String.toByteArray_ofList]
  rw [String.ofList_toList] at h
  rw [bytes, h, List.utf8Encode, List.toList_data_toByteArray]

private theorem toNat_val_lt (c : Char) : c.val.toNat < 0x110000 := by
  have h := c.valid
  simp only [UInt32.isValidChar, Nat.isValidChar] at h
  omega

/-- What follows two different characters does not matter for the order of their UTF-8 forms. -/
private theorem encode_append_lt {c d : Char} (h : c < d) (u v : List UInt8) :
    String.utf8EncodeChar c ++ u < String.utf8EncodeChar d ++ v := by
  have hd := toNat_val_lt d
  have hcd : c.val.toNat < d.val.toNat := h
  unfold String.utf8EncodeChar
  dsimp only
  generalize c.val.toNat = m at *
  generalize d.val.toNat = n at *
  have h₂ : ∀ k : Nat, k / 4096 = k / 64 / 64 := fun k => by omega
  have h₃ : ∀ k : Nat, k / 262144 = k / 64 / 64 / 64 := fun k => by omega
  simp only [h₂, h₃]
  -- the forms have one to four bytes, and the first byte tells how many
  repeat' split
  all_goals
    simp only [List.cons_append, List.nil_append, List.cons_lt_cons_iff, UInt8.lt_iff_toNat_lt, ← UInt8.toNat_inj,
      UInt8.toNat_ofNat']
    omega

private theorem append_lt_append_left (p u v : List UInt8) : p ++ u < p ++ v ↔ u < v := by
  induction p with
  | nil => rfl
  | cons a p ih =>
    rw [List.cons_append, List.cons_append, List.cons_lt_cons_iff, ih]
    simp

private theorem flatMap_encode_lt (l m : List Char) :
    l.flatMap String.utf8EncodeChar < m.flatMap String.utf8EncodeChar ↔ l < m := by
  induction l generalizing m with
  | nil =>
    cases m with
    | nil => simp
    | cons d m =>
      obtain ⟨b, bs, hb⟩ := List.exists_cons_of_ne_nil (String.utf8EncodeChar_ne_nil (c := d))
      simp [hb]
  | cons c l ih =>
    cases m with
    | nil => simp
    | cons d m =>
      rw [List.flatMap_cons, List.flatMap_cons, List.cons_lt_cons_iff]
      by_cases hcd : c < d
      · exact iff_of_true (encode_append_lt hcd _ _) (.inl hcd)
      by_cases heq : c = d
      · subst heq
        rw [append_lt_append_left, ih]
        simp
      · have hdc : d < c := Char.not_le.1 fun hle => heq (Char.le_antisymm hle (Char.not_lt.1 hcd))
        refine iff_of_false (List.lt_asymm (encode_append_lt hdc _ _)) ?_
        simp [hcd, heq]

/-- The order of texts is the order of their bytes. -/
theorem bytes_lt_bytes {s t : String} : bytes s < bytes t ↔ s < t := by
  rw [bytes_eq_flatMap, bytes_eq_flatMap, flatMap_encode_lt]
  exact Iff.rfl

theorem bytes_inj {s t : String} : bytes s = bytes t ↔ s = t := by
  constructor
  · intro h
    have hst : ¬ s < t := by rw [← bytes_lt_bytes, h]; exact List.lt_irrefl _
    have hts : ¬ t < s := by rw [← bytes_lt_bytes, h]; exact List.lt_irrefl _
    exact String.le_antisymm hts hst
  · rintro rfl
    rfl

end RosRecipes.Text
