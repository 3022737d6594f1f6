import Reckoner.Proofs.Tokenization

/-!
Pieces in their places. An occurrence is a piece together with the text that stands before it. The
entries of a scan are those of the occurrences, each on the line on which its occurrence ends, so
that lines are told from the text alone and never decrease.
-/

namespace Reckoner

/-- The number of the line on which a text ends. -/
def lineNumber (text : List Char) : Nat := 1 + text.count '\n'

theorem lineNumber_append (a b : List Char) :
    lineNumber (a ++ b) = lineNumber a + b.count '\n' := by
  unfold lineNumber
  rw [List.count_append, Nat.add_assoc]

theorem lineNumber_mono {a b : List Char} (h : a <+: b) : lineNumber a ≤ lineNumber b :=
  Nat.add_le_add_left (h.sublist.count_le '\n') 1

/-- A symbol or a stray character holds no line feed. -/
theorem Piece.First.count_lineFeed {source : List Char} {p : Piece} (h : Piece.First source p)
    (hkind : p.kind = .stray ∨ ∃ s, p.kind = .symbol s) : p.text.count '\n' = 0 := by
  cases h with
  | longest _ hmatch _ =>
    rcases hkind with hkind | ⟨s, hkind⟩
    · rw [hkind] at hmatch
      cases hmatch
    · rw [hkind] at hmatch
      generalize p.text = text at hmatch
      cases hmatch
      cases s <;> rfl
  | unclosed _ => simp at hkind
  | @stray c rest _ hnone =>
    have hc : c ≠ '\n' := by
      rintro rfl
      exact hnone .blank ['\n'] (by simp) (.blank (by simp))
    simp [hc]

/-- A piece and the text before it. -/
structure Occurrence where
  before : List Char
  piece : Piece

namespace Occurrence

open Piece (First Splits)

/-- The text up to the end of the piece. -/
def through (o : Occurrence) : List Char := o.before ++ o.piece.text

/-- The occurrences of pieces that follow some text. -/
def listFrom (before : List Char) : List Piece → List Occurrence
  | [] => []
  | p :: ps => ⟨before, p⟩ :: listFrom (before ++ p.text) ps

/-- The pieces of a text in their places. -/
def all (source : String) : List Occurrence := listFrom [] (Piece.cut source.toList)

def tokens (source : String) : List Occurrence := (all source).filter (·.piece.isToken)

def faults (source : String) : List Occurrence := (all source).filter (·.piece.isFault)

def entry? (o : Occurrence) : Option Entry := o.piece.entry? (lineNumber o.through)

/-- Pieces leave their entries, and the pieces behind them go on where their text ends. -/
theorem entriesFrom_append (before : List Char) (ps qs : List Piece) :
    entriesFrom (lineNumber before) (ps ++ qs) = (listFrom before ps).filterMap entry? ++
      entriesFrom (lineNumber (before ++ ps.flatMap Piece.text)) qs := by
  induction ps generalizing before with
  | nil => simp [listFrom]
  | cons p ps ih =>
    have hnext : lineNumber before + p.lineBreaks = lineNumber (before ++ p.text) :=
      (lineNumber_append before p.text).symm
    have hhead : entry? ⟨before, p⟩ = p.entry? (lineNumber (before ++ p.text)) := rfl
    rw [List.cons_append, Piece.entriesFrom_cons, hnext, ih, listFrom, List.filterMap_cons, hhead,
      List.flatMap_cons, List.append_assoc before]
    cases p.entry? (lineNumber (before ++ p.text)) <;> rfl

theorem entriesFrom_eq (before : List Char) (ps : List Piece) :
    entriesFrom (lineNumber before) ps = (listFrom before ps).filterMap entry? ++
      [.ok (.endOfInput (lineNumber (before ++ ps.flatMap Piece.text)))] := by
  have happend := entriesFrom_append before ps []
  rwa [List.append_nil] at happend

theorem prefix_of_mem {before : List Char} {ps : List Piece} {o : Occurrence}
    (ho : o ∈ listFrom before ps) : before <+: o.before := by
  induction ps generalizing before with
  | nil => simp [listFrom] at ho
  | cons p ps ih =>
    rcases List.mem_cons.mp ho with rfl | ho
    · exact List.prefix_refl _
    · exact (List.prefix_append _ _).trans (ih ho)

/-- No occurrence ends on a line before that of an earlier one. -/
theorem pairwise_listFrom (before : List Char) (ps : List Piece) :
    (listFrom before ps).Pairwise fun o o' => lineNumber o.through ≤ lineNumber o'.through := by
  induction ps generalizing before with
  | nil => exact .nil
  | cons p ps ih =>
    refine .cons ?_ (ih _)
    intro o ho
    exact lineNumber_mono ((prefix_of_mem ho).trans (List.prefix_append _ _))

theorem first_of_mem {before rest : List Char} {ps : List Piece} (h : Splits rest ps)
    {o : Occurrence} (ho : o ∈ listFrom before ps) :
    ∃ left, before ++ rest = o.through ++ left ∧ First (o.piece.text ++ left) o.piece := by
  induction h generalizing before with
  | nil => simp [listFrom] at ho
  | @cons p rest ps hfirst hrest ih =>
    rcases List.mem_cons.mp ho with rfl | ho
    · exact ⟨rest, by simp [through], hfirst⟩
    · obtain ⟨left, hleft, hpiece⟩ := ih ho
      exact ⟨left, by rw [← hleft, List.append_assoc], hpiece⟩

section Source

variable {source : String} {o : Occurrence}

/-- Each occurrence is the first piece of what is left of the text at its place. -/
theorem exists_left_of_mem (ho : o ∈ all source) :
    ∃ left, source.toList = o.through ++ left ∧ First (o.piece.text ++ left) o.piece := by
  obtain ⟨left, hleft, hfirst⟩ := first_of_mem (Piece.splits_cut _) ho
  exact ⟨left, by simpa using hleft, hfirst⟩

theorem through_prefix_of_mem (ho : o ∈ all source) : o.through <+: source.toList := by
  obtain ⟨left, hleft, -⟩ := exists_left_of_mem ho
  exact ⟨left, hleft.symm⟩

/-- An unclosed string reaches to the end of the text. -/
theorem through_of_unclosed (ho : o ∈ all source) (hkind : o.piece.kind = .unclosed) :
    o.through = source.toList := by
  obtain ⟨left, hleft, hfirst⟩ := exists_left_of_mem ho
  rw [hleft, hfirst.rest_of_unclosed hkind, List.append_nil]

/-- A symbol or a stray character holds no line feed. -/
theorem lineNumber_through (ho : o ∈ all source)
    (hkind : o.piece.kind = .stray ∨ ∃ s, o.piece.kind = .symbol s) :
    lineNumber o.through = lineNumber o.before := by
  obtain ⟨left, -, hfirst⟩ := exists_left_of_mem ho
  rw [through, lineNumber_append, hfirst.count_lineFeed hkind, Nat.add_zero]

end Source

def lineOf : Entry → Nat
  | .ok t => t.line
  | .error e => e.line

/-- An entry bears the line that it is made for. -/
theorem lineOf_eq_of_entry {p : Piece} {line : Nat} {x : Entry} (h : p.entry? line = some x) :
    lineOf x = line := by
  obtain ⟨kind, text⟩ := p
  cases kind with
  | blank => cases h
  | comment => cases h
  | number =>
    simp only [Piece.entry?] at h
    split at h <;> cases h <;> rfl
  | stray =>
    obtain ⟨c, -, rfl⟩ := Option.map_eq_some_iff.mp h
    rfl
  | _ =>
    cases h
    rfl

def token? (o : Occurrence) : Option Token := o.entry?.bind fun
  | .ok t => some t
  | .error _ => none

def error? (o : Occurrence) : Option LexicalError := o.entry?.bind fun
  | .ok _ => none
  | .error e => some e

theorem token?_eq_some_iff {o : Occurrence} {t : Token} :
    o.token? = some t ↔ o.entry? = some (.ok t) := by
  unfold token?
  cases o.entry? with
  | none => simp
  | some x => cases x <;> simp

theorem error?_eq_some_iff {o : Occurrence} {e : LexicalError} :
    o.error? = some e ↔ o.entry? = some (.error e) := by
  unfold error?
  cases o.entry? with
  | none => simp
  | some x => cases x <;> simp

theorem line_of_token {o : Occurrence} {t : Token} (h : o.token? = some t) :
    t.line = lineNumber o.through :=
  lineOf_eq_of_entry (token?_eq_some_iff.mp h)

theorem line_of_error {o : Occurrence} {e : LexicalError} (h : o.error? = some e) :
    e.line = lineNumber o.through :=
  lineOf_eq_of_entry (error?_eq_some_iff.mp h)

/-- A scan gives what the occurrences stand for, and the end of input on the last line. -/
theorem ofText_eq (source : String) : Scan.ofText source =
    ⟨(all source).filterMap token? ++ [.endOfInput (lineNumber source.toList)],
      (all source).filterMap error?⟩ := by
  have hentries : entriesFrom 1 (Piece.cut source.toList) =
      (all source).filterMap entry? ++ [.ok (.endOfInput (lineNumber source.toList))] := by
    have h := entriesFrom_eq [] (Piece.cut source.toList)
    rwa [Piece.flatMap_text_cut] at h
  rw [Scan.ofText, hentries]
  simp only [Scan.ofEntries, List.filterMap_append, List.filterMap_filterMap]
  exact congrArg (Scan.mk _) (List.append_nil _)

/-- The token of an occurrence, with its line. -/
def Gives (o : Occurrence) (t : Token) : Prop :=
  Piece.TokenOf o.piece t ∧ t.line = lineNumber o.through

/-- The error of an occurrence in a text, with its line. -/
def Breaks (source : String) (o : Occurrence) (e : LexicalError) : Prop :=
  Piece.ErrorOf o.piece e ∧
    (∀ c, e.fault = .unexpectedCharacter c → e.line = lineNumber o.before) ∧
    (e.fault = .unterminatedString → e.line = lineNumber source.toList)

theorem errorOf_cases {p : Piece} {e : LexicalError} (h : Piece.ErrorOf p e) :
    p.kind = .unclosed ∧ e.fault = .unterminatedString ∨
      p.kind = .stray ∧ ∃ c, e.fault = .unexpectedCharacter c := by
  unfold Piece.ErrorOf at h
  split at h
  · next hkind => exact .inl ⟨hkind, h⟩
  · next hkind =>
    obtain ⟨c, -, hfault⟩ := h
    exact .inr ⟨hkind, c, hfault⟩
  · exact h.elim

theorem breaks_of_errorOf {source : String} {o : Occurrence} {e : LexicalError}
    (ho : o ∈ all source) (he : Piece.ErrorOf o.piece e) (hline : e.line = lineNumber o.through) :
    Breaks source o e := by
  rcases errorOf_cases he with ⟨hkind, hfault⟩ | ⟨hkind, c, hfault⟩
  · refine ⟨he, ?_, fun _ => ?_⟩
    · intro c hc
      rw [hfault] at hc
      cases hc
    · rw [hline, through_of_unclosed ho hkind]
  · refine ⟨he, fun c' _ => ?_, ?_⟩
    · rw [hline, lineNumber_through ho (.inl hkind)]
    · intro hstring
      rw [hfault] at hstring
      cases hstring

/-- An occurrence gives a token, or it breaks off with an error, or it leaves nothing behind. -/
theorem cases_of_mem {source : String} {o : Occurrence} (ho : o ∈ all source) :
    (o.piece.isToken = true ∧ o.piece.isFault = false ∧ ∃ t, o.token? = some t ∧
      o.error? = none ∧ Gives o t) ∨
    (o.piece.isToken = false ∧ o.piece.isFault = true ∧ ∃ e, o.error? = some e ∧
      o.token? = none ∧ Breaks source o e) ∨
    (o.piece.isToken = false ∧ o.piece.isFault = false ∧ o.token? = none ∧ o.error? = none) := by
  obtain ⟨left, -, hfirst⟩ := exists_left_of_mem ho
  rcases Piece.entry?_cases hfirst.sound (lineNumber o.through) with
    ⟨htoken, hfault, t, hentry, ht⟩ | ⟨htoken, hfault, e, hentry, he⟩ | ⟨htoken, hfault, hentry⟩
  · refine .inl ⟨htoken, hfault, t, ?_, ?_, ht, lineOf_eq_of_entry hentry⟩
    · simp [token?, entry?, hentry]
    · simp [error?, entry?, hentry]
  · refine .inr (.inl ⟨htoken, hfault, e, ?_, ?_, ?_⟩)
    · simp [error?, entry?, hentry]
    · simp [token?, entry?, hentry]
    · exact breaks_of_errorOf ho he (lineOf_eq_of_entry hentry)
  · refine .inr (.inr ⟨htoken, hfault, ?_, ?_⟩)
    · simp [token?, entry?, hentry]
    · simp [error?, entry?, hentry]

theorem forall₂_filter {α β : Type} {R : α → β → Prop} {keep : α → Bool} {f : α → Option β}
    {l : List α} (h : ∀ a ∈ l, (keep a = true ∧ ∃ b, f a = some b ∧ R a b) ∨
      (keep a = false ∧ f a = none)) : List.Forall₂ R (l.filter keep) (l.filterMap f) := by
  induction l with
  | nil => exact .nil
  | cons a l ih =>
    have hrest := ih fun b hb => h b (List.mem_cons_of_mem a hb)
    rcases h a List.mem_cons_self with ⟨hkeep, b, hb, hR⟩ | ⟨hkeep, hnone⟩
    · rw [List.filter_cons_of_pos hkeep, List.filterMap_cons_some hb]
      exact .cons hR hrest
    · rw [List.filter_cons_of_neg (by simp [hkeep]), List.filterMap_cons_none hnone]
      exact hrest

theorem forall₂_tokens (source : String) :
    List.Forall₂ Gives (tokens source) ((all source).filterMap token?) := by
  apply forall₂_filter
  intro o ho
  rcases cases_of_mem ho with ⟨htoken, _, t, ht, _, hgives⟩ | ⟨htoken, _, _, _, hnone, _⟩ |
    ⟨htoken, _, hnone, _⟩
  · exact .inl ⟨htoken, t, ht, hgives⟩
  · exact .inr ⟨htoken, hnone⟩
  · exact .inr ⟨htoken, hnone⟩

/-- The tokens of a text are those of its occurrences, and then the end of input on its last
line. -/
theorem tokens_eq (source : String) : ∃ found,
    (Scan.ofText source).tokens = found ++ [.endOfInput (lineNumber source.toList)] ∧
      List.Forall₂ Gives (tokens source) found :=
  ⟨_, by rw [ofText_eq], forall₂_tokens source⟩

theorem isEnd_of_gives {os : List Occurrence} {found : List Token}
    (h : List.Forall₂ Gives os found) : ∀ t ∈ found, t.isEnd = false := by
  induction h with
  | nil => simp
  | cons hgives _ ih => exact List.forall_mem_cons.mpr ⟨hgives.1.isEnd_eq_false, ih⟩

theorem forall₂_faults (source : String) :
    List.Forall₂ (Breaks source) (faults source) (Scan.ofText source).errors := by
  rw [ofText_eq]
  apply forall₂_filter
  intro o ho
  rcases cases_of_mem ho with ⟨_, hfault, _, _, hnone, _⟩ | ⟨_, hfault, e, he, _, hbreaks⟩ |
    ⟨_, hfault, _, hnone⟩
  · exact .inr ⟨hfault, hnone⟩
  · exact .inl ⟨hfault, e, he, hbreaks⟩
  · exact .inr ⟨hfault, hnone⟩

/-- The lines of the tokens do not decrease, and the end of input is on the last line. -/
theorem pairwise_tokens (source : String) :
    (Scan.ofText source).tokens.Pairwise fun t t' => t.line ≤ t'.line := by
  rw [ofText_eq]
  refine List.pairwise_append.mpr ⟨?_, List.pairwise_singleton _ _, ?_⟩
  · refine (pairwise_listFrom [] _).filterMap token? ?_
    intro o o' hle t ht t' ht'
    rw [line_of_token ht, line_of_token ht']
    exact hle
  · intro t ht last hlast
    obtain ⟨o, ho, hot⟩ := List.mem_filterMap.mp ht
    rw [line_of_token hot, List.mem_singleton.mp hlast]
    exact lineNumber_mono (through_prefix_of_mem ho)

-- A string that goes over two lines is a token of the second one.
example : (Scan.ofText "nil\n== \"a\nb\"").tokens.map Token.line = [1, 2, 3, 3] := by
  cbv

theorem pairwise_errors (source : String) :
    (Scan.ofText source).errors.Pairwise fun e e' => e.line ≤ e'.line := by
  rw [ofText_eq]
  refine (pairwise_listFrom [] _).filterMap error? ?_
  intro o o' hle e he e' he'
  rw [line_of_error he, line_of_error he']
  exact hle

end Occurrence

end Reckoner
