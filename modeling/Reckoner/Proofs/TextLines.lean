import Reckoner.Utf8

/-!
The lines of a text in bytes. Reading bytes as a text undoes writing the text, a line feed is a
character of its own wherever its byte stands, and so the lines of a text are texts. Bytes are cut
into lines in one way.
-/

namespace Reckoner.Utf8

theorem toByteArray_encode (text : String) : (encode text).toByteArray = text.toByteArray :=
  String.utf8Encode_toList

/-- Reading undoes writing. -/
theorem decode?_eq_some_iff {bytes : List UInt8} {text : String} :
    decode? bytes = some text ↔ bytes = encode text := by
  unfold decode? String.fromUTF8?
  constructor
  · intro h
    split at h
    · next hvalid =>
      obtain rfl := Option.some.inj h
      exact List.toByteArray_inj.mp (toByteArray_encode (String.fromUTF8 _ hvalid)).symm
    · cases h
  · rintro rfl
    have hvalid : (encode text).toByteArray.IsValidUTF8 := by
      rw [toByteArray_encode]
      exact text.isValidUTF8
    rw [dif_pos hvalid]
    exact congrArg some (String.toByteArray_inj.mp (toByteArray_encode text))

/-- Whether bytes are those of a text. -/
def IsText (bytes : List UInt8) : Prop := ∃ text, bytes = encode text

theorem decode?_eq_none_iff {bytes : List UInt8} : decode? bytes = none ↔ ¬ IsText bytes := by
  unfold IsText
  cases hdecode : decode? bytes with
  | none =>
    simp only [true_iff, not_exists]
    intro text htext
    rw [decode?_eq_some_iff.mpr htext] at hdecode
    cases hdecode
  | some text => simpa using ⟨text, decode?_eq_some_iff.mp hdecode⟩

/-- Bytes as lines. A line ends with its only line feed, which only the last line may lack. -/
inductive Cut : List UInt8 → List (List UInt8) → Prop
  | nil : Cut [] []
  | unfinished {body : List UInt8} (hne : body ≠ []) (hbody : lineFeed ∉ body) : Cut body [body]
  | cons {body rest : List UInt8} {ls : List (List UInt8)} (hbody : lineFeed ∉ body)
      (hrest : Cut rest ls) : Cut (body ++ lineFeed :: rest) ((body ++ [lineFeed]) :: ls)

theorem lines_append {body : List UInt8} (hne : body ≠ []) (hbody : lineFeed ∉ body)
    (rest : List UInt8) : lines (body ++ rest) =
      match lines rest with
      | [] => [body]
      | line :: others => (body ++ line) :: others := by
  induction body with
  | nil => exact absurd rfl hne
  | cons b body ih =>
    obtain ⟨hb, hbody⟩ := List.ne_and_not_mem_of_not_mem_cons hbody
    have hstep : lines (b :: (body ++ rest)) = match lines (body ++ rest) with
      | [] => [[b]]
      | line :: others => (b :: line) :: others := if_neg (Ne.symm hb)
    rw [List.cons_append, hstep]
    cases body with
    | nil => rfl
    | cons c body =>
      rw [ih (List.cons_ne_nil _ _) hbody]
      cases lines rest with
      | nil => rfl
      | cons line others => rfl

theorem lines_lineFeed (rest : List UInt8) :
    lines (lineFeed :: rest) = [lineFeed] :: lines rest := by
  rw [lines, if_pos rfl]

theorem cut_lines (bytes : List UInt8) : Cut bytes (lines bytes) := by
  induction bytes with
  | nil => exact .nil
  | cons b rest ih =>
    by_cases hb : b = lineFeed
    · rw [hb, lines_lineFeed]
      exact @Cut.cons [] rest _ List.not_mem_nil ih
    · have hcons := lines_append (List.cons_ne_nil b []) (by simp [Ne.symm hb]) rest
      rw [List.singleton_append] at hcons
      rw [hcons]
      generalize lines rest = ls at ih
      cases ih with
      | nil => exact .unfinished (List.cons_ne_nil _ _) (by simp [Ne.symm hb])
      | unfinished hne hbody =>
        exact .unfinished (List.cons_ne_nil _ _) (by simp [Ne.symm hb, hbody])
      | @cons body rest ls hbody hrest =>
        have hlonger : lineFeed ∉ b :: body := by simp [Ne.symm hb, hbody]
        exact .cons hlonger hrest

/-- Bytes are cut into lines in one way. -/
theorem cut_iff {bytes : List UInt8} {ls : List (List UInt8)} :
    Cut bytes ls ↔ ls = lines bytes := by
  constructor
  · intro h
    induction h with
    | nil => rfl
    | unfinished hne hbody => simpa [lines] using (lines_append hne hbody []).symm
    | @cons body rest ls hbody hrest ih =>
      rw [ih]
      cases body with
      | nil => exact (lines_lineFeed rest).symm
      | cons b body =>
        rw [lines_append (List.cons_ne_nil _ _) hbody, lines_lineFeed]
  · rintro rfl
    exact cut_lines bytes

/-- The byte of a line feed belongs to no other character. -/
theorem lineFeed_not_mem {c : Char} (hc : c ≠ '\n') : lineFeed ∉ String.utf8EncodeChar c := by
  have hval : c.val.toNat ≠ 10 := by
    intro h
    exact hc (Char.ext (UInt32.toNat_inj.mp h))
  have hbyte : ∀ n, UInt8.ofNat n = lineFeed → n % 256 = 10 := by
    intro n hn
    simpa [lineFeed] using congrArg UInt8.toNat hn
  intro h
  unfold String.utf8EncodeChar at h
  dsimp only at h
  split at h
  · next hone =>
    have := hbyte _ (List.mem_singleton.mp h).symm
    omega
  split at h
  · simp only [List.mem_cons, List.not_mem_nil, or_false] at h
    rcases h with h | h <;> have := hbyte _ h.symm <;> omega
  split at h
  · simp only [List.mem_cons, List.not_mem_nil, or_false] at h
    rcases h with h | h | h <;> have := hbyte _ h.symm <;> omega
  · simp only [List.mem_cons, List.not_mem_nil, or_false] at h
    rcases h with h | h | h | h <;> have := hbyte _ h.symm <;> omega

theorem isText_append {a b : List UInt8} (ha : IsText a) (hb : IsText b) : IsText (a ++ b) := by
  obtain ⟨s, rfl⟩ := ha
  obtain ⟨t, rfl⟩ := hb
  exact ⟨s ++ t, (encode_append s t).symm⟩

theorem isText_character (c : Char) : IsText (String.utf8EncodeChar c) := by
  refine ⟨String.ofList [c], ?_⟩
  simp [encode]

theorem isText_lines_flatMap (cs : List Char) :
    ∀ line ∈ lines (cs.flatMap String.utf8EncodeChar), IsText line := by
  induction cs with
  | nil => simp [lines]
  | cons c cs ih =>
    rw [List.flatMap_cons]
    by_cases hc : c = '\n'
    · have hencode : String.utf8EncodeChar c = [lineFeed] := by
        rw [hc]
        rfl
      rw [hencode, List.singleton_append, lines_lineFeed]
      intro line hline
      rcases List.mem_cons.mp hline with rfl | hline
      · exact hencode ▸ isText_character c
      · exact ih line hline
    · have hne : String.utf8EncodeChar c ≠ [] := by
        rw [← List.length_pos_iff, String.length_utf8EncodeChar]
        exact Char.utf8Size_pos c
      rw [lines_append hne (lineFeed_not_mem hc)]
      cases hlines : lines (cs.flatMap String.utf8EncodeChar) with
      | nil =>
        intro line hline
        rw [List.mem_singleton.mp hline]
        exact isText_character c
      | cons first others =>
        rw [hlines] at ih
        intro line hline
        rcases List.mem_cons.mp hline with rfl | hline
        · exact isText_append (isText_character c) (ih first List.mem_cons_self)
        · exact ih line (List.mem_cons_of_mem first hline)

/-- The lines of a text are texts. -/
theorem isText_of_mem_lines {bytes : List UInt8} (h : IsText bytes) :
    ∀ line ∈ lines bytes, IsText line := by
  obtain ⟨text, rfl⟩ := h
  exact isText_lines_flatMap text.toList

end Reckoner.Utf8
