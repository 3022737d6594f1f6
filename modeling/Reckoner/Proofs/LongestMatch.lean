import Mathlib
import Reckoner.Scan

/-!
The pieces of a text, described without cutting it. A kind of piece matches some texts; the first
piece of a text is its longest prefix that some kind matches, or a fault if there is none. A text
splits into pieces in one way, which is how it is cut.
-/

namespace Reckoner.Piece

/-- The texts of each kind of piece. Faults match no text. -/
inductive Matches : PieceKind → List Char → Prop
  | blank {c : Char} (hc : c ∈ [' ', '\r', '\t', '\n']) : Matches .blank [c]
  | comment {cs : List Char} (hcs : ∀ d ∈ cs, d ≠ '\n') : Matches .comment ('/' :: '/' :: cs)
  | symbol (s : Symbol) : Matches (.symbol s) s.text.toList
  | string {cs : List Char} (hcs : ∀ d ∈ cs, d ≠ '"') : Matches .string ('"' :: (cs ++ ['"']))
  | whole {ds : List Char} (hne : ds ≠ []) (hds : ∀ d ∈ ds, d.isDigit = true) :
      Matches .number ds
  | decimal {ds fs : List Char} (hne : ds ≠ []) (hds : ∀ d ∈ ds, d.isDigit = true)
      (hne' : fs ≠ []) (hfs : ∀ d ∈ fs, d.isDigit = true) : Matches .number (ds ++ '.' :: fs)
  | word {c : Char} {cs : List Char} (hc : c.isAlpha = true ∨ c = '_')
      (hcs : ∀ d ∈ cs, d.isAlpha = true ∨ d = '_' ∨ d.isDigit = true) : Matches .word (c :: cs)

/-- The first piece of a text. -/
inductive First : List Char → Piece → Prop
  | longest {source : List Char} {p : Piece} (hstart : p.text <+: source)
      (hmatch : Matches p.kind p.text)
      (hlongest : ∀ kind text, text <+: source → Matches kind text →
        text.length ≤ p.text.length) : First source p
  | unclosed {rest : List Char} (hnone : ∀ kind text, text <+: '"' :: rest → ¬ Matches kind text) :
      First ('"' :: rest) ⟨.unclosed, '"' :: rest⟩
  | stray {c : Char} {rest : List Char} (hc : c ≠ '"')
      (hnone : ∀ kind text, text <+: c :: rest → ¬ Matches kind text) :
      First (c :: rest) ⟨.stray, [c]⟩

/-- Pieces that follow each other, each of them the first of what is left. -/
inductive Splits : List Char → List Piece → Prop
  | nil : Splits [] []
  | cons {p : Piece} {rest : List Char} {ps : List Piece} (hfirst : First (p.text ++ rest) p)
      (hrest : Splits rest ps) : Splits (p.text ++ rest) (p :: ps)

theorem length_le_takeWhile {test : Char → Bool} {cs source : List Char} (h : cs <+: source)
    (hcs : ∀ d ∈ cs, test d = true) : cs.length ≤ (source.takeWhile test).length := by
  obtain ⟨rest, rfl⟩ := h
  rw [List.takeWhile_append_of_pos hcs, List.length_append]
  exact Nat.le_add_right _ _

theorem take_length_takeWhile (test : Char → Bool) (cs : List Char) :
    cs.take (cs.takeWhile test).length = cs.takeWhile test :=
  (List.prefix_iff_eq_take.mp (List.takeWhile_prefix test)).symm

theorem mem_blanks_iff {c : Char} : c ∈ [' ', '\r', '\t', '\n'] ↔ isBlank c = true := by
  simp [isBlank, or_assoc]

theorem isWordStart_iff {c : Char} : isWordStart c = true ↔ c.isAlpha = true ∨ c = '_' := by
  rw [isWordStart, Bool.or_eq_true, beq_iff_eq]

theorem isWordPart_iff {c : Char} :
    isWordPart c = true ↔ c.isAlpha = true ∨ c = '_' ∨ c.isDigit = true := by
  simp [isWordPart, isWordStart, or_assoc]

theorem Matches.ne_nil {kind : PieceKind} {text : List Char} (h : Matches kind text) :
    text ≠ [] := by
  cases h with
  | symbol s => cases s <;> simp [Symbol.text]
  | whole hne _ => exact hne
  | _ => simp

theorem isBlank_eq_false_of_isDigit {c : Char} (h : c.isDigit = true) : isBlank c = false := by
  by_contra hblank
  rw [Bool.not_eq_false, ← mem_blanks_iff] at hblank
  simp only [List.mem_cons, List.not_mem_nil, or_false] at hblank
  rcases hblank with rfl | rfl | rfl | rfl <;> simp at h

theorem isBlank_eq_false_of_isWordStart {c : Char} (h : isWordStart c = true) :
    isBlank c = false := by
  by_contra hblank
  rw [Bool.not_eq_false, ← mem_blanks_iff] at hblank
  simp only [List.mem_cons, List.not_mem_nil, or_false] at hblank
  rcases hblank with rfl | rfl | rfl | rfl <;> simp [isWordStart] at h

theorem isDigit_eq_false_of_isWordStart {c : Char} (h : isWordStart c = true) :
    c.isDigit = false := by
  by_contra hdigit
  rw [Bool.not_eq_false, Char.isDigit_iff_toNat] at hdigit
  obtain ⟨hlow, hhigh⟩ := hdigit
  simp only [isWordStart, Bool.or_eq_true, beq_iff_eq, Char.isAlpha, Char.isUpper, Char.isLower,
    Bool.and_eq_true, decide_eq_true_eq, ge_iff_le, UInt32.le_iff_toNat_le] at h
  have hval : c.val.toNat = c.toNat := rfl
  simp only [Char.reduceToNat, Char.reduceVal, UInt32.reduceToNat] at hlow hhigh h
  rcases h with (h | h) | rfl
  · omega
  · omega
  · simp at hhigh

section Measure

variable {c : Char} (rest : List Char)

theorem measure_blank (h : isBlank c = true) : measure c rest = (.blank, 0) := by
  simp [measure, h]

theorem measure_digit (h : c.isDigit = true) : measure c rest = (.number, numberTail rest) := by
  simp [measure, h, isBlank_eq_false_of_isDigit h]

theorem measure_wordStart (h : isWordStart c = true) :
    measure c rest = (.word, (rest.takeWhile isWordPart).length) := by
  simp [measure, h, isBlank_eq_false_of_isWordStart h, isDigit_eq_false_of_isWordStart h]

theorem measure_quote :
    measure '"' rest =
      if (rest.takeWhile (· != '"')).length < rest.length then
        (.string, (rest.takeWhile (· != '"')).length + 1)
      else (.unclosed, (rest.takeWhile (· != '"')).length) := by
  simp [measure, isBlank, isWordStart]

theorem measure_slash :
    measure '/' rest =
      if rest.head? = some '/' then (.comment, (rest.takeWhile (· != '\n')).length)
      else (.symbol .slash, 0) := by
  simp [measure, isBlank, isWordStart]

theorem measure_single {o : Symbol} (h : single? c = some o) :
    measure c rest = (.symbol o, 0) := by
  unfold single? at h
  split at h
  all_goals cases h
  all_goals simp [measure, isBlank, isWordStart, single?]

theorem measure_extensible {short long : Symbol} (h : extensible? c = some (short, long)) :
    measure c rest =
      if rest.head? = some '=' then (.symbol long, 1) else (.symbol short, 0) := by
  unfold extensible? at h
  split at h
  all_goals cases h
  all_goals simp [measure, isBlank, isWordStart, single?, extensible?]

end Measure

/-- The measured piece is no fault, and has at least `n` characters after the first one. -/
def Covers (c : Char) (rest : List Char) (n : Nat) : Prop :=
  (measure c rest).1 ≠ .unclosed ∧ (measure c rest).1 ≠ .stray ∧ n ≤ (measure c rest).2

theorem covers_single {c : Char} {o : Symbol} (rest : List Char) (h : single? c = some o) :
    Covers c rest 0 := by
  simp [Covers, measure_single rest h]

theorem covers_extensible {c : Char} {short long : Symbol} (rest : List Char)
    (h : extensible? c = some (short, long)) : Covers c rest 0 := by
  rw [Covers, measure_extensible rest h]
  split <;> simp

theorem covers_extended {c : Char} {short long : Symbol} {rest : List Char}
    (h : extensible? c = some (short, long)) (hrest : ['='] <+: rest) : Covers c rest 1 := by
  obtain ⟨tail, rfl⟩ := hrest
  simp [Covers, measure_extensible _ h]

theorem covers_slash (rest : List Char) : Covers '/' rest 0 := by
  rw [Covers, measure_slash]
  split <;> simp

theorem covers_symbol {c : Char} {t rest : List Char} {o : Symbol} (h : c :: t = o.text.toList)
    (ht : t <+: rest) : Covers c rest t.length := by
  cases o <;> simp only [Symbol.text] at h <;> obtain ⟨rfl, rfl⟩ := List.cons.inj h
  all_goals first
    | exact covers_single rest rfl
    | exact covers_extensible rest rfl
    | exact covers_extended rfl ht
    | exact covers_slash rest

theorem whole_le_numberTail (rest : List Char) :
    (rest.takeWhile Char.isDigit).length ≤ numberTail rest := by
  unfold numberTail
  dsimp only
  split
  · split <;> omega
  · exact Nat.le_refl _

theorem numberTail_decimal {ds : List Char} {d : Char} (hds : ∀ e ∈ ds, e.isDigit = true)
    (hd : d.isDigit = true) (more : List Char) :
    numberTail (ds ++ '.' :: d :: more) =
      ds.length + 2 + (more.takeWhile Char.isDigit).length := by
  have hwhole : (ds ++ '.' :: d :: more).takeWhile Char.isDigit = ds := by
    rw [List.takeWhile_append_of_pos hds, List.takeWhile_cons]
    simp
  simp only [numberTail, hwhole, List.drop_left, hd, if_true]

/-- No kind matches a longer prefix than the measured piece. -/
theorem Matches.covers {kind : PieceKind} {c : Char} {t rest : List Char}
    (h : Matches kind (c :: t)) (ht : t <+: rest) : Covers c rest t.length := by
  generalize htext : c :: t = text at h
  cases h with
  | blank hc =>
    obtain ⟨rfl, rfl⟩ := List.cons.inj htext
    simp [Covers, measure_blank rest (mem_blanks_iff.mp hc)]
  | @comment cs hcs =>
    obtain ⟨rfl, rfl⟩ := List.cons.inj htext
    have hlength := @length_le_takeWhile (· != '\n') _ _ ht (by simpa using hcs)
    obtain ⟨tail, rfl⟩ := ht
    rw [Covers, measure_slash]
    simpa using hlength
  | symbol o => exact covers_symbol htext ht
  | @string cs hcs =>
    obtain ⟨rfl, rfl⟩ := List.cons.inj htext
    obtain ⟨tail, rfl⟩ := ht
    have hinside : (cs ++ ['"'] ++ tail).takeWhile (· != '"') = cs := by
      rw [List.append_assoc, List.takeWhile_append_of_pos (by simpa using hcs)]
      simp
    rw [Covers, measure_quote, hinside]
    simp
  | @whole ds _ hds =>
    subst htext
    have hmore := length_le_takeWhile ht (fun d hd => hds d (List.mem_cons_of_mem c hd))
    rw [Covers, measure_digit rest (hds c (List.mem_cons_self ..))]
    exact ⟨by simp, by simp, Nat.le_trans hmore (whole_le_numberTail rest)⟩
  | @decimal ds fs hne hds hne' hfs =>
    obtain ⟨d, ds, rfl⟩ := List.exists_cons_of_ne_nil hne
    obtain ⟨f, fs, rfl⟩ := List.exists_cons_of_ne_nil hne'
    rw [List.cons_append] at htext
    obtain ⟨rfl, rfl⟩ := List.cons.inj htext
    obtain ⟨tail, rfl⟩ := ht
    have hmore := length_le_takeWhile (List.prefix_append fs tail)
      (fun e he => hfs e (List.mem_cons_of_mem f he))
    have htail := numberTail_decimal (fun e he => hds e (List.mem_cons_of_mem c he))
      (hfs f (List.mem_cons_self ..)) (fs ++ tail)
    rw [Covers, measure_digit _ (hds c (List.mem_cons_self ..))]
    rw [List.append_assoc, List.cons_append, List.cons_append, htail]
    refine ⟨by simp, by simp, ?_⟩
    simp only [List.length_append, List.length_cons]
    omega
  | @word d ds hc hcs =>
    obtain ⟨rfl, rfl⟩ := List.cons.inj htext
    have hstart : isWordStart c = true := by simpa [isWordStart] using hc
    have hmore := length_le_takeWhile ht (fun e he => isWordPart_iff.mpr (hcs e he))
    rw [Covers, measure_wordStart rest hstart]
    exact ⟨by simp, by simp, hmore⟩

theorem take_takeWhile_succ {test : Char → Bool} {cs more : List Char} {c : Char}
    (h : cs.dropWhile test = c :: more) :
    cs.take ((cs.takeWhile test).length + 1) = cs.takeWhile test ++ [c] := by
  have hsplit := @List.takeWhile_append_dropWhile _ test cs
  rw [h] at hsplit
  calc
    _ = (cs.takeWhile test ++ c :: more).take ((cs.takeWhile test).length + 1) :=
      congrArg (List.take _) hsplit.symm
    _ = _ := by
      rw [List.take_length_add_append]
      rfl

theorem matches_quote {rest : List Char}
    (h : (rest.takeWhile (· != '"')).length < rest.length) :
    Matches .string ('"' :: rest.take ((rest.takeWhile (· != '"')).length + 1)) := by
  cases hdrop : rest.dropWhile (· != '"') with
  | nil =>
    have hsplit := @List.takeWhile_append_dropWhile _ (· != '"') rest
    rw [hdrop, List.append_nil] at hsplit
    rw [hsplit] at h
    omega
  | cons d more =>
    have hd : d = '"' := by
      have hhead := List.head?_dropWhile_not (· != '"') rest
      simpa [hdrop] using hhead
    rw [take_takeWhile_succ hdrop, hd]
    refine .string ?_
    intro e he
    simpa using List.mem_takeWhile_imp he

theorem matches_number {c : Char} (hc : c.isDigit = true) (rest : List Char) :
    Matches .number (c :: rest.take (numberTail rest)) := by
  have hdigits : ∀ d ∈ c :: rest.takeWhile Char.isDigit, d.isDigit = true := by
    intro d hd
    rcases List.mem_cons.mp hd with rfl | hd
    · exact hc
    · exact List.mem_takeWhile_imp hd
  have hwhole : Matches .number (c :: rest.take (rest.takeWhile Char.isDigit).length) := by
    rw [take_length_takeWhile]
    exact .whole (by simp) hdigits
  unfold numberTail
  dsimp only
  split
  · next d more hdrop =>
    split
    · next hd =>
      have hsplit := List.take_append_drop (rest.takeWhile Char.isDigit).length rest
      rw [take_length_takeWhile, hdrop] at hsplit
      have htake : rest.take ((rest.takeWhile Char.isDigit).length + 2 +
          (more.takeWhile Char.isDigit).length) =
          rest.takeWhile Char.isDigit ++ '.' :: d :: more.takeWhile Char.isDigit := by
        calc
          _ = (rest.takeWhile Char.isDigit ++ '.' :: d :: more).take
              ((rest.takeWhile Char.isDigit).length + 2 +
                (more.takeWhile Char.isDigit).length) :=
            congrArg (List.take _) hsplit.symm
          _ = _ := by
            rw [Nat.add_assoc, List.take_length_add_append, Nat.add_comm 2, List.take_succ_cons,
              List.take_succ_cons, take_length_takeWhile]
      rw [htake]
      refine .decimal (by simp) hdigits (by simp) ?_
      intro e he
      rcases List.mem_cons.mp he with rfl | he
      · exact hd
      · exact List.mem_takeWhile_imp he
    · exact hwhole
  · exact hwhole

theorem matches_single {c : Char} {o : Symbol} (h : single? c = some o) :
    Matches (.symbol o) [c] := by
  unfold single? at h
  split at h <;> cases h <;> exact .symbol _

theorem matches_extensible {c : Char} {short long : Symbol}
    (h : extensible? c = some (short, long)) :
    Matches (.symbol short) [c] ∧ Matches (.symbol long) [c, '='] := by
  unfold extensible? at h
  split at h <;> cases h <;> exact ⟨.symbol _, .symbol _⟩

theorem take_one_of_head? {c : Char} {cs : List Char} (h : cs.head? = some c) :
    cs.take 1 = [c] := by
  cases cs with
  | nil => simp at h
  | cons d rest => simpa using h

/-- A measured piece matches its kind, or it is a fault. -/
theorem measure_cases (c : Char) (rest : List Char) :
    Matches (measure c rest).1 (c :: rest.take (measure c rest).2) ∨
      (c = '"' ∧ measure c rest = (.unclosed, rest.length)) ∨
      (c ≠ '"' ∧ measure c rest = (.stray, 0)) := by
  by_cases hblank : isBlank c = true
  · rw [measure_blank rest hblank]
    exact Or.inl (.blank (mem_blanks_iff.mpr hblank))
  by_cases hdigit : c.isDigit = true
  · rw [measure_digit rest hdigit]
    exact Or.inl (matches_number hdigit rest)
  by_cases hstart : isWordStart c = true
  · rw [measure_wordStart rest hstart, take_length_takeWhile]
    refine Or.inl (.word (by simpa [isWordStart] using hstart) ?_)
    intro d hd
    exact isWordPart_iff.mp (List.mem_takeWhile_imp hd)
  by_cases hquote : c = '"'
  · subst hquote
    rw [measure_quote]
    split
    · next hlt => exact Or.inl (matches_quote hlt)
    · next hge =>
      have hle := (List.takeWhile_prefix (l := rest) (· != '"')).length_le
      exact Or.inr (Or.inl ⟨rfl, by rw [Nat.le_antisymm hle (Nat.le_of_not_lt hge)]⟩)
  by_cases hslash : c = '/'
  · subst hslash
    rw [measure_slash]
    split
    · next hhead =>
      obtain ⟨more, rfl⟩ := List.head?_eq_some_iff.mp hhead
      rw [take_length_takeWhile, List.takeWhile_cons]
      refine Or.inl (.comment ?_)
      intro d hd
      simpa using List.mem_takeWhile_imp hd
    · exact Or.inl (.symbol .slash)
  cases hsingle : single? c with
  | some o =>
    rw [measure_single rest hsingle]
    exact Or.inl (matches_single hsingle)
  | none =>
    cases hext : extensible? c with
    | some pair =>
      obtain ⟨short, long⟩ := pair
      obtain ⟨hshort, hlong⟩ := matches_extensible hext
      rw [measure_extensible rest hext]
      split
      · next hhead =>
        rw [take_one_of_head? hhead]
        exact Or.inl hlong
      · exact Or.inl hshort
    | none =>
      refine Or.inr (Or.inr ⟨hquote, ?_⟩)
      simp [measure, hblank, hdigit, hstart, hquote, hslash, hsingle, hext]

/-- Whether a character may belong to a piece of the kind that it follows. -/
def mayExtend : PieceKind → Char → Bool
  | .comment, d => d != '\n'
  | .symbol .slash, d => d == '/'
  | .symbol .bang, d | .symbol .equal, d | .symbol .greater, d | .symbol .less, d => d == '='
  | .number, d => d.isDigit || d == '.'
  | .word, d => isWordPart d
  | _, _ => false

/-- Nothing that follows belongs to a piece of the kind. -/
def Ends (kind : PieceKind) (rest : List Char) : Prop :=
  ∀ d, rest.head? = some d → mayExtend kind d = false

theorem takeWhile_append_eq {test : Char → Bool} {cs rest : List Char}
    (hcs : ∀ d ∈ cs, test d = true) (hrest : ∀ d, rest.head? = some d → test d = false) :
    (cs ++ rest).takeWhile test = cs := by
  rw [List.takeWhile_append_of_pos hcs]
  cases rest with
  | nil => simp
  | cons d rest =>
    rw [List.takeWhile_cons, hrest d rfl]
    simp

theorem numberTail_whole {ds rest : List Char} (hds : ∀ d ∈ ds, d.isDigit = true)
    (hrest : Ends .number rest) : numberTail (ds ++ rest) = ds.length := by
  have hdigits : (ds ++ rest).takeWhile Char.isDigit = ds := by
    refine takeWhile_append_eq hds ?_
    intro d hd
    have hend := hrest d hd
    simp only [mayExtend, Bool.or_eq_false_iff] at hend
    exact hend.1
  simp only [numberTail, hdigits, List.drop_left]
  split
  · simp [Ends, mayExtend] at hrest
  · rfl

theorem measure_symbol {c : Char} {t rest : List Char} {o : Symbol} (h : c :: t = o.text.toList)
    (hrest : Ends (.symbol o) rest) : measure c (t ++ rest) = (.symbol o, t.length) := by
  have hnext : ∀ d, mayExtend (.symbol o) d = true → rest.head? ≠ some d := by
    intro d hd hhead
    rw [hrest d hhead] at hd
    contradiction
  cases o <;> simp only [Symbol.text] at h <;> obtain ⟨rfl, rfl⟩ := List.cons.inj h
  all_goals first
    | exact measure_single _ rfl
    | exact (measure_extensible _ rfl).trans (if_pos rfl)
    | exact (measure_extensible _ rfl).trans (if_neg (hnext '=' rfl))
    | exact (measure_slash _).trans (if_neg (hnext '/' rfl))

/-- A text of some kind is one piece if what follows it does not belong to the piece. -/
theorem Matches.measure_append {kind : PieceKind} {c : Char} {t rest : List Char}
    (h : Matches kind (c :: t)) (hrest : Ends kind rest) :
    measure c (t ++ rest) = (kind, t.length) := by
  generalize htext : c :: t = text at h
  cases h with
  | blank hc =>
    obtain ⟨rfl, rfl⟩ := List.cons.inj htext
    exact measure_blank _ (mem_blanks_iff.mp hc)
  | @comment cs hcs =>
    obtain ⟨rfl, rfl⟩ := List.cons.inj htext
    have hline : ('/' :: cs ++ rest).takeWhile (· != '\n') = '/' :: cs :=
      takeWhile_append_eq (by simpa using hcs) hrest
    rw [measure_slash, hline]
    simp
  | symbol o => exact measure_symbol htext hrest
  | @string cs hcs =>
    obtain ⟨rfl, rfl⟩ := List.cons.inj htext
    have hinside : (cs ++ ['"'] ++ rest).takeWhile (· != '"') = cs := by
      rw [List.append_assoc]
      exact takeWhile_append_eq (by simpa using hcs) (by simp)
    rw [measure_quote, hinside]
    simp
  | @whole ds _ hds =>
    subst htext
    rw [measure_digit _ (hds c (List.mem_cons_self ..))]
    rw [numberTail_whole (fun d hd => hds d (List.mem_cons_of_mem c hd)) hrest]
  | @decimal ds fs hne hds hne' hfs =>
    obtain ⟨d, ds, rfl⟩ := List.exists_cons_of_ne_nil hne
    obtain ⟨f, fs, rfl⟩ := List.exists_cons_of_ne_nil hne'
    rw [List.cons_append] at htext
    obtain ⟨rfl, rfl⟩ := List.cons.inj htext
    have hmore : (fs ++ rest).takeWhile Char.isDigit = fs := by
      refine takeWhile_append_eq (fun e he => hfs e (List.mem_cons_of_mem f he)) ?_
      intro e he
      have hend := hrest e he
      simp only [mayExtend, Bool.or_eq_false_iff] at hend
      exact hend.1
    have htail := numberTail_decimal (fun e he => hds e (List.mem_cons_of_mem c he))
      (hfs f (List.mem_cons_self ..)) (fs ++ rest)
    rw [measure_digit _ (hds c (List.mem_cons_self ..)), List.append_assoc, List.cons_append,
      List.cons_append, htail, hmore]
    simp only [List.length_append, List.length_cons]
    congr 1
    omega
  | @word d ds hc hcs =>
    obtain ⟨rfl, rfl⟩ := List.cons.inj htext
    have hstart : isWordStart c = true := by simpa [isWordStart] using hc
    rw [measure_wordStart _ hstart,
      takeWhile_append_eq (fun e he => isWordPart_iff.mpr (hcs e he)) hrest]

/-- The kind of a piece is known from its text. -/
theorem Matches.kind_unique {k k' : PieceKind} {text : List Char} (h : Matches k text)
    (h' : Matches k' text) : k = k' := by
  obtain ⟨c, t, rfl⟩ := List.exists_cons_of_ne_nil h.ne_nil
  have hk := h.measure_append (show Ends k [] by simp [Ends])
  have hk' := h'.measure_append (show Ends k' [] by simp [Ends])
  exact congrArg Prod.fst (hk.symm.trans hk')

/-- The measured piece is the first one. -/
theorem first_measure (c : Char) (rest : List Char) :
    First (c :: rest) ⟨(measure c rest).1, c :: rest.take (measure c rest).2⟩ := by
  have hcovers : ∀ kind text, text <+: c :: rest → Matches kind text →
      ∃ t, text = c :: t ∧ Covers c rest t.length := by
    intro kind text hstart hmatch
    obtain ⟨d, t, rfl⟩ := List.exists_cons_of_ne_nil hmatch.ne_nil
    obtain ⟨rfl, ht⟩ := List.cons_prefix_cons.mp hstart
    exact ⟨t, rfl, hmatch.covers ht⟩
  rcases measure_cases c rest with hmatch | ⟨hquote, hmeasure⟩ | ⟨hquote, hmeasure⟩
  · refine .longest ?_ hmatch fun kind text hstart htext => ?_
    · exact List.cons_prefix_cons.mpr ⟨rfl, List.take_prefix _ rest⟩
    · obtain ⟨t, rfl, _, _, hlength⟩ := hcovers kind text hstart htext
      obtain ⟨_, ht⟩ := List.cons_prefix_cons.mp hstart
      have hle := ht.length_le
      simp only [List.length_cons, List.length_take]
      omega
  · subst hquote
    rw [hmeasure, List.take_length]
    refine .unclosed ?_
    intro kind text hstart htext
    obtain ⟨t, _, hnot, _⟩ := hcovers kind text hstart htext
    exact hnot (congrArg Prod.fst hmeasure)
  · rw [hmeasure]
    refine .stray hquote ?_
    intro kind text hstart htext
    obtain ⟨t, _, _, hnot, _⟩ := hcovers kind text hstart htext
    exact hnot (congrArg Prod.fst hmeasure)

theorem First.unique {source : List Char} {p q : Piece} (hp : First source p)
    (hq : First source q) : p = q := by
  cases hp with
  | longest hstart hmatch hlongest =>
    cases hq with
    | longest hstart' hmatch' hlongest' =>
      have hlength := Nat.le_antisymm (hlongest' _ _ hstart hmatch)
        (hlongest _ _ hstart' hmatch')
      have htext : p.text = q.text := List.IsPrefix.eq_of_length
        (List.prefix_of_prefix_length_le hstart hstart' (Nat.le_of_eq hlength)) hlength
      have hkind := hmatch.kind_unique (htext ▸ hmatch')
      cases p
      cases q
      simp_all
    | unclosed hnone => exact absurd hmatch (hnone _ _ hstart)
    | stray _ hnone => exact absurd hmatch (hnone _ _ hstart)
  | unclosed hnone =>
    cases hq with
    | longest hstart hmatch _ => exact absurd hmatch (hnone _ _ hstart)
    | unclosed _ => rfl
    | stray hc _ => exact absurd rfl hc
  | stray hc hnone =>
    cases hq with
    | longest hstart hmatch _ => exact absurd hmatch (hnone _ _ hstart)
    | unclosed _ => exact absurd rfl hc
    | stray _ _ => rfl

theorem First.ne_nil {source : List Char} {p : Piece} (h : First source p) : p.text ≠ [] := by
  cases h with
  | longest _ hmatch _ => exact hmatch.ne_nil
  | unclosed _ => simp
  | stray _ _ => simp

theorem splits_cut (source : List Char) : Splits source (cut source) := by
  fun_induction cut source with
  | case1 => exact .nil
  | case2 c rest kind more hmeasure ih =>
    have hsource : c :: rest = (c :: rest.take more) ++ rest.drop more := by simp
    have hfirst := first_measure c rest
    rw [hmeasure] at hfirst
    rw [hsource] at hfirst ⊢
    exact .cons (p := ⟨kind, c :: rest.take more⟩) hfirst ih

/-- The first piece is cut off. -/
theorem First.cut_append {p : Piece} {rest : List Char} (h : First (p.text ++ rest) p) :
    cut (p.text ++ rest) = p :: cut rest := by
  obtain ⟨c, t, htext⟩ := List.exists_cons_of_ne_nil h.ne_nil
  rw [htext, List.cons_append] at h ⊢
  have hp := (first_measure c (t ++ rest)).unique h
  have ht : (t ++ rest).take (measure c (t ++ rest)).2 = t := by
    have hcons := congrArg Piece.text hp
    rw [htext] at hcons
    exact (List.cons.inj hcons).2
  have hrest : (t ++ rest).drop (measure c (t ++ rest)).2 = rest := by
    have hsplit := List.take_append_drop (measure c (t ++ rest)).2 (t ++ rest)
    rw [ht] at hsplit
    exact List.append_cancel_left hsplit
  rw [cut_cons, hp, hrest]

/-- A text splits into pieces in one way. -/
theorem splits_iff {source : List Char} {ps : List Piece} :
    Splits source ps ↔ ps = cut source := by
  constructor
  · intro h
    induction h with
    | nil => simp [cut]
    | cons hfirst _ ih => rw [hfirst.cut_append, ih]
  · intro h
    subst h
    exact splits_cut source

end Reckoner.Piece
