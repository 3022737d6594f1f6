import Reckoner.Position
import Reckoner.Utf8

/-!
Byte offsets in a text. Leaving out bytes in front and keeping them succeed exactly where whole
characters stand before the offset, and so does a slice between two offsets in order. Among the
parts in front of one text the length in bytes decides which is longer, and equal lengths are those
of the same part.
-/

namespace Reckoner

theorem byteLength_append (a b : List Char) :
    byteLength (a ++ b) = byteLength a + byteLength b := by
  induction a with
  | nil => simp [byteLength]
  | cons c a ih =>
    simp only [List.cons_append, byteLength, ih]
    omega

/-- Every character takes at least one byte. -/
theorem eq_nil_of_byteLength_append_le {a t : List Char}
    (h : byteLength (a ++ t) ≤ byteLength a) : t = [] := by
  rw [byteLength_append] at h
  cases t with
  | nil => rfl
  | cons c t =>
    have hc := c.utf8Size_pos
    simp only [byteLength] at h
    omega

theorem utf8ByteSize_ofList (cs : List Char) :
    (String.ofList cs).utf8ByteSize = byteLength cs := by
  induction cs with
  | nil => rfl
  | cons c cs ih =>
    rw [String.ofList_cons, String.utf8ByteSize_append, String.utf8ByteSize_singleton, ih,
      byteLength]

theorem Utf8.encode_ofList_append (a b : List Char) :
    encode (String.ofList (a ++ b)) = encode (String.ofList a) ++ encode (String.ofList b) := by
  rw [String.ofList_append, encode_append]

theorem Utf8.length_encode_ofList (cs : List Char) :
    (encode (String.ofList cs)).length = byteLength cs := by
  induction cs with
  | nil => rfl
  | cons c cs ih =>
    have hc : (encode (String.ofList [c])).length = c.utf8Size := by
      simp [encode]
    rw [← List.singleton_append, encode_ofList_append, List.length_append, ih, hc]
    rfl

/-!
Parts in front of one text.
-/

section

variable {a b cs : List Char}

theorem prefix_of_byteLength_le (ha : a <+: cs) (hb : b <+: cs)
    (h : byteLength a ≤ byteLength b) : a <+: b := by
  rcases List.prefix_or_prefix_of_prefix ha hb with hab | ⟨t, rfl⟩
  · exact hab
  · simp [eq_nil_of_byteLength_append_le h]

theorem eq_of_byteLength_eq (ha : a <+: cs) (hb : b <+: cs)
    (h : byteLength a = byteLength b) : a = b := by
  obtain ⟨t, rfl⟩ := prefix_of_byteLength_le ha hb (Nat.le_of_eq h)
  rw [eq_nil_of_byteLength_append_le (Nat.le_of_eq h.symm), List.append_nil]

end

/-!
Leaving out, keeping and slicing.
-/

theorem exists_utf8Size_add_eq (c : Char) (n : Nat) : ∃ m, c.utf8Size + n = m + 1 := by
  have hc := c.utf8Size_pos
  exact Nat.exists_eq_add_one_of_ne_zero (by omega)

theorem dropBytes?_cons (c : Char) (n : Nat) (cs : List Char) :
    dropBytes? (c.utf8Size + n) (c :: cs) = dropBytes? n cs := by
  obtain ⟨m, hm⟩ := exists_utf8Size_add_eq c n
  rw [hm, dropBytes?, ← hm, if_pos (Nat.le_add_right _ _), Nat.add_sub_cancel_left]

theorem takeBytes?_cons (c : Char) (n : Nat) (cs : List Char) :
    takeBytes? (c.utf8Size + n) (c :: cs) = (takeBytes? n cs).map (c :: ·) := by
  obtain ⟨m, hm⟩ := exists_utf8Size_add_eq c n
  rw [hm, takeBytes?, ← hm, if_pos (Nat.le_add_right _ _), Nat.add_sub_cancel_left]

theorem dropBytes?_byteLength (a rest : List Char) :
    dropBytes? (byteLength a) (a ++ rest) = some rest := by
  induction a with
  | nil => simp [byteLength, dropBytes?]
  | cons c a ih => rw [byteLength, List.cons_append, dropBytes?_cons, ih]

theorem takeBytes?_byteLength (a rest : List Char) :
    takeBytes? (byteLength a) (a ++ rest) = some a := by
  induction a with
  | nil => simp [byteLength, takeBytes?]
  | cons c a ih => rw [byteLength, List.cons_append, takeBytes?_cons, ih, Option.map_some]

theorem dropBytes?_eq_some_iff {n : Nat} {cs rest : List Char} :
    dropBytes? n cs = some rest ↔ ∃ a, cs = a ++ rest ∧ byteLength a = n := by
  constructor
  · intro h
    fun_induction dropBytes? n cs with
    | case1 cs => exact ⟨[], Option.some.inj h, rfl⟩
    | case2 n => cases h
    | case3 n c cs hfits ih =>
      obtain ⟨a, rfl, ha⟩ := ih h
      refine ⟨c :: a, rfl, ?_⟩
      simp only [byteLength]
      omega
    | case4 n c cs hover => cases h
  · rintro ⟨a, rfl, rfl⟩
    exact dropBytes?_byteLength a rest

theorem takeBytes?_eq_some_iff {n : Nat} {cs a : List Char} :
    takeBytes? n cs = some a ↔ a <+: cs ∧ byteLength a = n := by
  constructor
  · intro h
    fun_induction takeBytes? n cs generalizing a with
    | case1 cs =>
      cases h
      exact ⟨List.nil_prefix, rfl⟩
    | case2 n => cases h
    | case3 n c cs hfits ih =>
      obtain ⟨a, ha, rfl⟩ := Option.map_eq_some_iff.mp h
      obtain ⟨hfront, hlength⟩ := ih ha
      refine ⟨List.cons_prefix_cons.mpr ⟨rfl, hfront⟩, ?_⟩
      simp only [byteLength]
      omega
    | case4 n c cs hover => cases h
  · rintro ⟨⟨rest, rfl⟩, rfl⟩
    exact takeBytes?_byteLength a rest

/-- A slice is the text between two parts of whole characters, and there is none otherwise. -/
theorem slice?_eq_some_iff {cs t : List Char} {start stop : Nat} :
    slice? cs start stop = some t ↔
      ∃ a b, cs = a ++ t ++ b ∧ byteLength a = start ∧ byteLength (a ++ t) = stop := by
  unfold slice?
  constructor
  · intro h
    split at h
    · next hle =>
      obtain ⟨rest, hrest, ht⟩ := Option.bind_eq_some_iff.mp h
      obtain ⟨a, rfl, ha⟩ := dropBytes?_eq_some_iff.mp hrest
      obtain ⟨⟨b, rfl⟩, hlength⟩ := takeBytes?_eq_some_iff.mp ht
      refine ⟨a, b, (List.append_assoc a t b).symm, ha, ?_⟩
      rw [byteLength_append]
      omega
    · cases h
  · rintro ⟨a, b, rfl, rfl, rfl⟩
    rw [byteLength_append, if_pos (Nat.le_add_right _ _), Nat.add_sub_cancel_left,
      List.append_assoc, dropBytes?_byteLength, Option.bind_some, takeBytes?_byteLength]

/-- A slice inside of a character is none. -/
example : slice? ['é', 'x'] 1 3 = none ∧ slice? ['é', 'x'] 2 3 = some ['x'] := by decide

end Reckoner
