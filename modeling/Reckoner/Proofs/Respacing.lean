import Reckoner.Proofs.LeadingLayout
import Reckoner.Proofs.Occurrences

/-!
Texts that are laid out anew. No token goes on behind a blank, so the lexemes of a text with other
layout between them are cut into the same lexemes again, and each of them gives the same token, on
the line on which it then ends.
-/

namespace Reckoner

open Layout

/-- Layout that starts with a blank. -/
structure Separator where
  text : String
  starts_blank : ∃ c rest, text.toList = c :: rest ∧ isBlank c = true ∧ IsLayout rest

namespace Separator

def space : Separator := ⟨" ", ' ', [], rfl, rfl, .nil⟩

theorem isLayout (s : Separator) : IsLayout s.text.toList := by
  obtain ⟨c, rest, htext, hc, hrest⟩ := s.starts_blank
  rw [htext]
  exact .blank (Piece.mem_blanks_iff.mpr hc) hrest

end Separator

namespace Respacing

open Piece Rendering

/-- Texts in a row, each of them behind its separator. -/
def behind (sep : Nat → Separator) : List String → String
  | [] => ""
  | s :: rest => (sep 0).text ++ s ++ behind (fun i => sep (i + 1)) rest

/-- Texts in a row with separators between them. -/
def joined (sep : Nat → Separator) : List String → String
  | [] => ""
  | s :: rest => s ++ behind sep rest

/-- The lexemes of a text in order, without the end of input. -/
def lexemes (source : String) : List String :=
  (Scan.ofText source).tokens.dropLast.map Token.lexeme

/-- The lexemes of a text with a space between each two of them. -/
def respaced (source : String) : String := String.intercalate " " (lexemes source)

theorem behind_space_cons (s : String) (rest : List String) :
    s ++ behind (fun _ => .space) rest = String.intercalate " " (s :: rest) := by
  induction rest generalizing s with
  | nil => simp [behind]
  | cons t rest ih =>
    rw [behind, String.append_assoc, ih, ← String.append_assoc, String.intercalate_cons_cons]
    rfl

theorem joined_space (texts : List String) :
    joined (fun _ => .space) texts = String.intercalate " " texts := by
  cases texts with
  | nil => rfl
  | cons s rest => exact behind_space_cons s rest

/-- Whether nothing or a blank comes next. -/
def Parts (rest : List Char) : Prop := ∀ d, rest.head? = some d → isBlank d = true

/-- A blank belongs to a comment in front of it and to no other piece. -/
theorem Parts.ends {kind : PieceKind} {rest : List Char} (h : Parts rest)
    (hkind : kind ≠ .comment) : Ends kind rest := by
  intro d hd
  have hblank := mem_blanks_iff.mpr (h d hd)
  simp only [List.mem_cons, List.not_mem_nil, or_false] at hblank
  rcases hblank with rfl | rfl | rfl | rfl
  all_goals
    cases kind with
    | comment => exact absurd rfl hkind
    | symbol o => cases o <;> decide
    | _ => decide

theorem parts_behind (sep : Nat → Separator) (texts : List String) :
    Parts (behind sep texts).toList := by
  cases texts with
  | nil =>
    intro d hd
    cases hd
  | cons s rest =>
    obtain ⟨c, more, htext, hc, -⟩ := (sep 0).starts_blank
    intro d hd
    simp only [behind, String.toList_append, htext, List.cons_append, List.head?_cons,
      Option.some.injEq] at hd
    rwa [← hd]

/-- A token that its lexeme is read as on every line. -/
def Rereads (t : Token) : Prop :=
  ∃ kind, kind ≠ .comment ∧ Matches kind t.lexeme.toList ∧
    ∀ line, Piece.entry? ⟨kind, t.lexeme.toList⟩ line = some (.ok (t.mapLine fun _ => line))

theorem matches_of_isToken {p : Piece} (h : Sound p) (htoken : p.isToken = true) :
    Matches p.kind p.text := by
  rcases h with hmatch | hkind | ⟨c, rfl⟩
  · exact hmatch
  · simp [isToken, hkind] at htoken
  · simp [isToken] at htoken

/-- The tokens of a scan are read from their lexemes alone. -/
theorem rereads_of_token {source : String} {o : Occurrence} (ho : o ∈ Occurrence.all source)
    {t : Token} (ht : o.token? = some t) : Rereads t := by
  obtain ⟨left, -, hfirst⟩ := Occurrence.exists_left_of_mem ho
  have hentry : o.piece.entry? (lineNumber o.through) = some (.ok t) :=
    Occurrence.token?_eq_some_iff.mp ht
  rcases Occurrence.cases_of_mem ho with ⟨htoken, -, t', ht', -, hgives⟩ | ⟨-, -, e, -, hnone, -⟩ |
    ⟨-, -, hnone, -⟩
  · cases ht.symm.trans ht'
    have hlexeme : t.lexeme.toList = o.piece.text := hgives.1.1
    rw [Rereads, hlexeme]
    refine ⟨o.piece.kind, ?_, matches_of_isToken hfirst.sound htoken, ?_⟩
    · intro hkind
      simp [isToken, hkind] at htoken
    · intro line
      exact (entry?_mapEntry (fun _ => line) o.piece _).trans (by rw [hentry]; rfl)
  · cases ht.symm.trans hnone
  · cases ht.symm.trans hnone

/-- The tokens of a text are read from their lexemes, and the end of input follows them. -/
theorem exists_tokens (source : String) : ∃ own last,
    (Scan.ofText source).tokens = own ++ [.endOfInput last] ∧
      (∀ t ∈ own, t.isEnd = false) ∧ ∀ t ∈ own, Rereads t := by
  refine ⟨_, _, congrArg Scan.tokens (Occurrence.ofText_eq source),
    Occurrence.isEnd_of_gives (Occurrence.forall₂_tokens source), ?_⟩
  intro t ht
  obtain ⟨o, ho, hot⟩ := List.mem_filterMap.mp ht
  exact rereads_of_token ho hot

theorem entriesAt_lexeme {t : Token} (ht : Rereads t) (line : Nat) {rest : List Char}
    (hrest : Parts rest) : ∃ next,
      entriesAt line (t.lexeme.toList ++ rest) =
        .ok (t.mapLine fun _ => next) :: entriesAt next rest := by
  obtain ⟨kind, hkind, hmatch, hentry⟩ := ht
  refine ⟨line + t.lexeme.toList.count '\n', ?_⟩
  rw [entriesAt_append line hmatch (hrest.ends hkind), hentry]
  rfl

/-- Behind its separator each lexeme is read as its token. -/
theorem entriesAt_behind {ts : List Token} (hts : ∀ t ∈ ts, Rereads t) (sep : Nat → Separator)
    (line : Nat) : ∃ found last,
      entriesAt line (behind sep (ts.map Token.lexeme)).toList =
        (found ++ [Token.endOfInput last]).map .ok ∧
      found.map Token.unplaced = ts.map Token.unplaced := by
  induction ts generalizing sep line with
  | nil => exact ⟨[], line, entriesAt_nil line, rfl⟩
  | cons t ts ih =>
    obtain ⟨ht, hts⟩ := List.forall_mem_cons.mp hts
    have hparts := parts_behind (fun i => sep (i + 1)) (ts.map Token.lexeme)
    obtain ⟨next, hnext⟩ := entriesAt_lexeme ht (line + (sep 0).text.toList.count '\n') hparts
    obtain ⟨found, last, hfound, hsame⟩ := ih hts (fun i => sep (i + 1)) next
    refine ⟨t.mapLine (fun _ => next) :: found, last, ?_, ?_⟩
    · rw [List.map_cons, behind, String.toList_append, String.toList_append, List.append_assoc,
        entriesAt_layout (sep 0).isLayout, hnext, hfound]
      rfl
    · rw [List.map_cons, List.map_cons, hsame]
      rfl

/-- Lexemes with separators between them are scanned as the same tokens, without an error. -/
theorem ofText_joined {ts : List Token} (hts : ∀ t ∈ ts, Rereads t) (sep : Nat → Separator) :
    ∃ found last, Scan.ofText (joined sep (ts.map Token.lexeme)) =
        ⟨found ++ [.endOfInput last], []⟩ ∧
      found.map Token.unplaced = ts.map Token.unplaced := by
  suffices hentries : ∃ found last, entriesAt 1 (joined sep (ts.map Token.lexeme)).toList =
      (found ++ [Token.endOfInput last]).map .ok ∧
        found.map Token.unplaced = ts.map Token.unplaced by
    obtain ⟨found, last, hentries, hsame⟩ := hentries
    unfold entriesAt at hentries
    exact ⟨found, last, by rw [Scan.ofText, hentries, ofEntries_map_ok], hsame⟩
  cases ts with
  | nil => exact ⟨[], 1, entriesAt_nil 1, rfl⟩
  | cons t ts =>
    obtain ⟨ht, hts⟩ := List.forall_mem_cons.mp hts
    obtain ⟨next, hnext⟩ := entriesAt_lexeme ht 1 (parts_behind sep (ts.map Token.lexeme))
    obtain ⟨found, last, hfound, hsame⟩ := entriesAt_behind hts sep next
    refine ⟨t.mapLine (fun _ => next) :: found, last, ?_, ?_⟩
    · rw [List.map_cons, joined, String.toList_append, hnext, hfound]
      rfl
    · rw [List.map_cons, List.map_cons, hsame]
      rfl

theorem lexemes_eq {source : String} {own : List Token} {last : Nat}
    (h : (Scan.ofText source).tokens = own ++ [.endOfInput last]) :
    lexemes source = own.map Token.lexeme := by
  rw [lexemes, h, List.dropLast_concat]

theorem lexemes_of_unplaced {ts ts' : List Token}
    (h : ts.map Token.unplaced = ts'.map Token.unplaced) :
    ts.map Token.lexeme = ts'.map Token.lexeme := by
  have hlexeme : Token.lexeme ∘ Token.unplaced = Token.lexeme := rfl
  rw [← hlexeme, ← List.map_map, h, List.map_map]

/-- A text that is laid out with spaces has the lexemes of the text that it was made from. -/
theorem lexemes_respaced (source : String) : lexemes (respaced source) = lexemes source := by
  obtain ⟨own, last, htokens, -, hown⟩ := exists_tokens source
  obtain ⟨found, last', hscan, hsame⟩ := ofText_joined hown fun _ => .space
  rw [joined_space, ← lexemes_eq htokens] at hscan
  have hfound : lexemes (respaced source) = found.map Token.lexeme :=
    lexemes_eq (congrArg Scan.tokens hscan)
  rw [hfound, lexemes_eq htokens, lexemes_of_unplaced hsame]

theorem map_lexeme_eq {ps : List Piece} {ts : List Token} (h : List.Forall₂ TokenOf ps ts) :
    (ts.map Token.lexeme).map String.toList = ps.map Piece.text := by
  induction h with
  | nil => rfl
  | cons hgives _ ih => rw [List.map_cons, List.map_cons, List.map_cons, ih, hgives.1]

/-- The lexemes of a text are the texts of the pieces that are tokens. -/
theorem lexemes_eq_texts (source : String) : (lexemes source).map String.toList =
    ((cut source.toList).filter isToken).map Piece.text := by
  obtain ⟨found, last, htokens, hfound, -⟩ := entriesFrom_spec 1 (splits_cut source.toList).sound
  rw [lexemes_eq htokens, map_lexeme_eq hfound]

theorem kind_of_not_isToken {p : Piece} (h : p.isToken = false) :
    p.kind ∈ [.blank, .comment, .unclosed, .stray] := by
  obtain ⟨kind, text⟩ := p
  cases kind with
  | symbol | string | number | word => cases h
  | _ => simp

/-- The lexemes of any text with separators between them are scanned without an error as the same
tokens in the same order, up to their lines. Laid out with spaces, a text keeps all that is neither
a blank nor a comment nor in error, and nothing is left to change in it. -/
theorem relaid_text_scans_same (source : String) :
    ∃ own last, (Scan.ofText source).tokens = own ++ [.endOfInput last] ∧
      (∀ t ∈ own, t.isEnd = false) ∧
      lexemes source = own.map Token.lexeme ∧
      (∀ sep : Nat → Separator, ∃ found last',
        Scan.ofText (joined sep (lexemes source)) = ⟨found ++ [.endOfInput last'], []⟩ ∧
        found.map Token.unplaced = own.map Token.unplaced) ∧
      respaced source = joined (fun _ => .space) (lexemes source) ∧
      respaced (respaced source) = respaced source ∧
      ∃ ps, Splits source.toList ps ∧
        (lexemes (respaced source)).map String.toList = (ps.filter isToken).map Piece.text ∧
        ∀ p ∈ ps, p.isToken = false → p.kind ∈ [.blank, .comment, .unclosed, .stray] := by
  obtain ⟨own, last, htokens, hend, hown⟩ := exists_tokens source
  have hlexemes := lexemes_eq htokens
  have hagain := lexemes_respaced source
  refine ⟨own, last, htokens, hend, hlexemes, ?_, (joined_space _).symm, ?_, cut source.toList,
    splits_cut _, ?_, fun p _ => kind_of_not_isToken⟩
  · intro sep
    rw [hlexemes]
    exact ofText_joined hown sep
  · rw [respaced, hagain]
    rfl
  · rw [hagain]
    exact lexemes_eq_texts source

-- The comment and the stray character are gone, and the string keeps its line feed.
example : respaced "!===\"a\nb\"@or// nil\nnot" = "!= == \"a\nb\" or not" := by
  cbv

end Respacing

end Reckoner
