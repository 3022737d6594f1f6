import Reckoner.Proofs.LongestMatch

/-!
Scanning as longest match. A text splits into its pieces in one way, and the tokens and errors of a
scan are what these pieces stand for: each symbol, string, number and word is one token with the
text of the piece, each fault is one error, and blanks and comments leave nothing behind.
-/

namespace Reckoner.Piece

/-- The pieces that are tokens. -/
def isToken (p : Piece) : Bool :=
  match p.kind with
  | .symbol _ | .string | .number | .word => true
  | _ => false

def isFault (p : Piece) : Bool := p.kind == .unclosed || p.kind == .stray

/-- The token of a piece, up to its line. A word is a keyword only if the whole of it is one. -/
def TokenOf (p : Piece) (t : Token) : Prop :=
  t.lexeme.toList = p.text ∧
  match p.kind with
  | .symbol o => t.kind = .symbol o ∧ t.literal = none
  | .string => t.kind = .string ∧
      ∃ cs, p.text = '"' :: (cs ++ ['"']) ∧ t.literal = some (.string (String.ofList cs))
  | .number => t.kind = .number ∧
      ∃ x, Numeral.read? p.text = some x ∧ t.literal = some (.number x)
  | .word => t.literal = none ∧ (t.kind = .identifier ∨ ∃ w, t.kind = .keyword w) ∧
      ∀ w, t.kind = .keyword w ↔ w.text.toList = p.text
  | _ => False

/-- The error of a piece, up to its line. -/
def ErrorOf (p : Piece) (e : LexicalError) : Prop :=
  match p.kind with
  | .unclosed => e.fault = .unterminatedString
  | .stray => ∃ c, p.text = [c] ∧ e.fault = .unexpectedCharacter c
  | _ => False

theorem TokenOf.kind_cases {p : Piece} {t : Token} (h : TokenOf p t) :
    (∃ s, p.kind = .symbol s ∧ t.kind = .symbol s) ∨ t.kind = .string ∨ t.kind = .number ∨
      t.kind = .identifier ∨ ∃ w, t.kind = .keyword w := by
  obtain ⟨-, h⟩ := h
  split at h
  · next s hkind => exact .inl ⟨s, hkind, h.1⟩
  · exact .inr (.inl h.1)
  · exact .inr (.inr (.inl h.1))
  · exact .inr (.inr (.inr h.2.1))
  · exact h.elim

/-- A token of a piece is not the end of input. -/
theorem TokenOf.isEnd_eq_false {p : Piece} {t : Token} (h : TokenOf p t) : t.isEnd = false := by
  rcases h.kind_cases with ⟨s, -, h⟩ | h | h | h | ⟨w, h⟩ <;> simp [Token.isEnd, h]

/-- A piece that a text may start with. -/
def Sound (p : Piece) : Prop :=
  Matches p.kind p.text ∨ p.kind = .unclosed ∨ ∃ c, p = ⟨.stray, [c]⟩

theorem First.sound {source : List Char} {p : Piece} (h : First source p) : Sound p := by
  cases h with
  | longest _ hmatch _ => exact Or.inl hmatch
  | unclosed _ => exact Or.inr (Or.inl rfl)
  | stray _ _ => exact Or.inr (Or.inr ⟨_, rfl⟩)

theorem Splits.sound {source : List Char} {ps : List Piece} (h : Splits source ps) :
    ∀ p ∈ ps, Sound p := by
  induction h with
  | nil => simp
  | cons hfirst _ ih =>
    intro q hq
    rcases List.mem_cons.mp hq with rfl | hq
    · exact hfirst.sound
    · exact ih q hq

/-- An unclosed string takes the whole text that is left. -/
theorem First.rest_of_unclosed {p : Piece} {rest : List Char} (h : First (p.text ++ rest) p)
    (hkind : p.kind = .unclosed) : rest = [] := by
  generalize hsource : p.text ++ rest = source at h
  cases h with
  | longest _ hmatch _ =>
    rw [hkind] at hmatch
    cases hmatch
  | unclosed _ => simpa using hsource
  | stray _ _ => simp at hkind

theorem Splits.unclosed_last {source : List Char} {ps : List Piece} (h : Splits source ps) :
    ∀ p ∈ ps.dropLast, p.kind ≠ .unclosed := by
  induction h with
  | nil => simp
  | @cons p rest ps hfirst hrest ih =>
    cases hrest with
    | nil => simp
    | cons hfirst' hrest' =>
      intro q hq
      rw [List.dropLast_cons_of_ne_nil (by simp)] at hq
      rcases List.mem_cons.mp hq with rfl | hq
      · intro hkind
        have hnil := hfirst.rest_of_unclosed hkind
        simp [hfirst'.ne_nil] at hnil
      · exact ih q hq

theorem read?_whole {ds : List Char} (hne : ds ≠ []) (hds : ∀ d ∈ ds, d.isDigit = true) :
    Numeral.read? ds = some (Numeral.ofDigits ds []) := by
  have hwhole : ds.takeWhile Char.isDigit = ds := List.takeWhile_eq_self_iff.mpr hds
  have hnone : ds.dropWhile Char.isDigit = [] := List.dropWhile_eq_nil_iff.mpr hds
  simp [Numeral.read?, hwhole, hnone, hne]

theorem read?_decimal {ds fs : List Char} (hne : ds ≠ []) (hds : ∀ d ∈ ds, d.isDigit = true)
    (hne' : fs ≠ []) (hfs : ∀ d ∈ fs, d.isDigit = true) :
    Numeral.read? (ds ++ '.' :: fs) = some (Numeral.ofDigits ds fs) := by
  have hwhole : (ds ++ '.' :: fs).takeWhile Char.isDigit = ds := takeWhile_append_eq hds (by simp)
  have hfraction : (ds ++ '.' :: fs).dropWhile Char.isDigit = '.' :: fs := by
    rw [List.dropWhile_append_of_pos hds, List.dropWhile_cons]
    simp
  have hall : fs.all Char.isDigit = true := List.all_eq_true.mpr hfs
  simp [Numeral.read?, hwhole, hfraction, hne, hne', hall]

/-- Every number that matches is a numeral. -/
theorem read?_of_matches {text : List Char} (h : Matches .number text) :
    ∃ x, Numeral.read? text = some x := by
  cases h with
  | whole hne hds => exact ⟨_, read?_whole hne hds⟩
  | decimal hne hds hne' hfs => exact ⟨_, read?_decimal hne hds hne' hfs⟩

theorem wordKind_eq_keyword_iff (p : Piece) (w : Keyword) :
    p.wordKind = .keyword w ↔ w.text.toList = p.text := by
  have hlexeme : w.text.toList = p.text ↔ w.text = p.lexeme := by
    rw [lexeme, ← String.toList_inj, String.toList_ofList]
  rw [hlexeme, wordKind]
  constructor
  · intro h
    split at h
    · next w' hw =>
      cases h
      exact Keyword.text_of_ofText? hw
    · simp at h
  · intro h
    rw [← h, Keyword.ofText?_text]

theorem wordKind_cases (p : Piece) : p.wordKind = .identifier ∨ ∃ w, p.wordKind = .keyword w := by
  unfold wordKind
  split
  · exact Or.inr ⟨_, rfl⟩
  · exact Or.inl rfl

/-- What a piece leaves behind: a token, an error, or nothing. -/
theorem entry?_cases {p : Piece} (h : Sound p) (line : Nat) :
    (p.isToken = true ∧ p.isFault = false ∧ ∃ t, p.entry? line = some (.ok t) ∧ TokenOf p t) ∨
      (p.isToken = false ∧ p.isFault = true ∧
        ∃ e, p.entry? line = some (.error e) ∧ ErrorOf p e) ∨
      (p.isToken = false ∧ p.isFault = false ∧ p.entry? line = none) := by
  obtain ⟨kind, text⟩ := p
  rcases h with hmatch | hkind | ⟨c, hstray⟩
  · change Matches kind text at hmatch
    have hlexeme : (lexeme ⟨kind, text⟩).toList = text := String.toList_ofList
    cases kind with
    | blank => exact Or.inr (Or.inr ⟨rfl, rfl, rfl⟩)
    | comment => exact Or.inr (Or.inr ⟨rfl, rfl, rfl⟩)
    | symbol o => exact Or.inl ⟨rfl, rfl, _, rfl, hlexeme, rfl, rfl⟩
    | string =>
      cases hmatch with
      | @string cs _ =>
        refine Or.inl ⟨rfl, rfl, _, rfl, hlexeme, rfl, cs, rfl, ?_⟩
        simp [inside]
    | number =>
      obtain ⟨x, hx⟩ := read?_of_matches hmatch
      refine Or.inl ⟨rfl, rfl, ⟨.number, String.ofList text, some (.number x), line⟩, ?_,
        hlexeme, rfl, x, hx, rfl⟩
      simp [lexeme, hx, entry?]
    | word =>
      exact Or.inl ⟨rfl, rfl, _, rfl, hlexeme, rfl, wordKind_cases _, wordKind_eq_keyword_iff _⟩
    | unclosed => cases hmatch
    | stray => cases hmatch
  · change kind = .unclosed at hkind
    subst hkind
    exact Or.inr (Or.inl ⟨rfl, rfl, _, rfl, rfl⟩)
  · cases hstray
    exact Or.inr (Or.inl ⟨rfl, rfl, _, rfl, c, rfl, rfl⟩)

theorem entriesFrom_cons (line : Nat) (p : Piece) (ps : List Piece) :
    entriesFrom line (p :: ps) =
      (p.entry? (line + p.lineBreaks)).toList ++ entriesFrom (line + p.lineBreaks) ps := rfl

/-- The entries of pieces are their tokens and errors in order, and the end of input after them. -/
theorem entriesFrom_spec (line : Nat) {ps : List Piece} (h : ∀ p ∈ ps, Sound p) :
    ∃ found last, (Scan.ofEntries (entriesFrom line ps)).tokens = found ++ [.endOfInput last] ∧
      List.Forall₂ TokenOf (ps.filter isToken) found ∧
      List.Forall₂ ErrorOf (ps.filter isFault) (Scan.ofEntries (entriesFrom line ps)).errors := by
  induction ps generalizing line with
  | nil => exact ⟨[], line, rfl, .nil, .nil⟩
  | cons p ps ih =>
    obtain ⟨found, last, htokens, hfound, herrors⟩ :=
      ih (line + p.lineBreaks) (fun q hq => h q (List.mem_cons_of_mem p hq))
    rcases entry?_cases (h p (List.mem_cons_self ..)) (line + p.lineBreaks) with
      ⟨htoken, hfault, t, hentry, ht⟩ | ⟨htoken, hfault, e, hentry, he⟩ | ⟨htoken, hfault, hentry⟩
    · refine ⟨t :: found, last, ?_, ?_, ?_⟩
      · rw [entriesFrom_cons, hentry]
        exact congrArg (List.cons t) htokens
      · rw [List.filter_cons_of_pos htoken]
        exact .cons ht hfound
      · rw [List.filter_cons_of_neg (by simp [hfault]), entriesFrom_cons, hentry]
        exact herrors
    · refine ⟨found, last, ?_, ?_, ?_⟩
      · rw [entriesFrom_cons, hentry]
        exact htokens
      · rw [List.filter_cons_of_neg (by simp [htoken])]
        exact hfound
      · rw [List.filter_cons_of_pos hfault, entriesFrom_cons, hentry]
        exact .cons he herrors
    · refine ⟨found, last, ?_, ?_, ?_⟩
      · rw [entriesFrom_cons, hentry]
        exact htokens
      · rw [List.filter_cons_of_neg (by simp [htoken])]
        exact hfound
      · rw [List.filter_cons_of_neg (by simp [hfault]), entriesFrom_cons, hentry]
        exact herrors

theorem exists_of_forall₂ {α β : Type} {R : α → β → Prop} {l : List α} {l' : List β}
    (h : List.Forall₂ R l l') {i : Nat} {b : β} (hb : l'[i]? = some b) :
    ∃ a, l[i]? = some a ∧ R a b := by
  induction h generalizing i with
  | nil => simp at hb
  | @cons a b' l l' hR _ ih =>
    cases i with
    | zero =>
      cases hb
      exact ⟨a, rfl, hR⟩
    | succ i => exact ih hb

theorem exists_of_mem_forall₂ {α β : Type} {R : α → β → Prop} {l : List α} {l' : List β}
    (h : List.Forall₂ R l l') {b : β} (hb : b ∈ l') : ∃ a ∈ l, R a b := by
  obtain ⟨i, hi⟩ := List.mem_iff_getElem?.mp hb
  obtain ⟨a, ha, hR⟩ := exists_of_forall₂ h hi
  exact ⟨a, List.mem_of_getElem? ha, hR⟩

/-- A token of a scan is that of a piece of the text, or it is the end of input. -/
theorem exists_tokenOf_of_mem {source : String} {t : Token}
    (h : t ∈ (Scan.ofText source).tokens) :
    (∃ p, Sound p ∧ TokenOf p t) ∨ ∃ line, t = .endOfInput line := by
  have hsound := (splits_cut source.toList).sound
  obtain ⟨found, last, htokens, hfound, -⟩ := entriesFrom_spec 1 hsound
  rw [Scan.ofText, htokens] at h
  rcases List.mem_append.mp h with h | h
  · obtain ⟨p, hp, ht⟩ := exists_of_mem_forall₂ hfound h
    exact .inl ⟨p, hsound p (List.mem_of_mem_filter hp), ht⟩
  · exact .inr ⟨last, List.mem_singleton.mp h⟩

/-- An error of a scan is that of a piece of the text. -/
theorem exists_errorOf_of_mem {source : String} {e : LexicalError}
    (h : e ∈ (Scan.ofText source).errors) : ∃ p, Sound p ∧ ErrorOf p e := by
  have hsound := (splits_cut source.toList).sound
  obtain ⟨-, -, -, -, herrors⟩ := entriesFrom_spec 1 hsound
  obtain ⟨p, hp, he⟩ := exists_of_mem_forall₂ herrors h
  exact ⟨p, hsound p (List.mem_of_mem_filter hp), he⟩

/-- A scan is a longest match. The text splits in one way into pieces, none of them empty, which
make up the text, and of which only the last may be an unclosed string. The tokens are those of
the pieces, with one end of input after them, and the errors are those of the faults. -/
theorem scan_longest_match (source : String) :
    ∃ ps, (∀ qs, Splits source.toList qs ↔ qs = ps) ∧
      (∀ p ∈ ps, p.text ≠ []) ∧ ps.flatMap Piece.text = source.toList ∧
      (∀ p ∈ ps.dropLast, p.kind ≠ .unclosed) ∧
      (∃ found last, (Scan.ofText source).tokens = found ++ [⟨.endOfInput, "", none, last⟩] ∧
        List.Forall₂ TokenOf (ps.filter isToken) found) ∧
      List.Forall₂ ErrorOf (ps.filter isFault) (Scan.ofText source).errors := by
  have hsplits := splits_cut source.toList
  obtain ⟨found, last, htokens, hfound, herrors⟩ := entriesFrom_spec 1 hsplits.sound
  exact ⟨cut source.toList, fun qs => splits_iff, fun p => text_ne_nil, flatMap_text_cut _,
    hsplits.unclosed_last, ⟨found, last, htokens, hfound⟩, herrors⟩

end Reckoner.Piece
