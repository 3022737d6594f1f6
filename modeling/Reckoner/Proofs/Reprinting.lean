import Reckoner.Proofs.FreshRuns
import Reckoner.Proofs.RoundTrip
import Reckoner.Proofs.SignedNumerals

/-!
Running what a run has written. The text of a boolean, of `nil` or of a number that is written
positionally is an expression with this very value, so that it is written again. The text of any
other number stops the parser at a word, which is no operator and no operand.
-/

namespace Reckoner.Reprinting

open Piece Rendering
open Numeral (Positional exponential)

/-- A text that a line feed follows is scanned as the tokens, without an error. -/
def ScansAs (text : List Char) (ts : List Token) : Prop :=
  entriesAt 1 (text ++ ['\n']) = (ts ++ [Token.endOfInput 2]).map .ok

theorem entriesAt_lineFeed : entriesAt 1 ['\n'] = [.ok (.endOfInput 2)] := by
  have hblank : Matches .blank ['\n'] := .blank (by decide)
  have hends : Ends .blank [] := by
    intro d hd
    cases hd
  have happend := entriesAt_append 1 hblank hends
  rw [List.append_nil, entriesAt_nil] at happend
  exact happend

theorem entriesAt_token {kind : PieceKind} {text rest : List Char} {t : Token}
    (h : Matches kind text) (hrest : Ends kind rest) (hline : text.count '\n' = 0)
    (ht : Piece.entry? ⟨kind, text⟩ 1 = some (.ok t)) :
    entriesAt 1 (text ++ rest) = .ok t :: entriesAt 1 rest := by
  rw [entriesAt_append 1 h hrest, hline, ht]
  rfl

/-- Characters that may not be a line feed are none. -/
theorem count_lineFeed {test : Char → Prop} {cs : List Char} (h : ∀ c ∈ cs, test c)
    (hline : ¬ test '\n') : cs.count '\n' = 0 :=
  List.count_eq_zero.mpr fun hmem => hline (h _ hmem)

theorem count_lineFeed_number {text : List Char} (h : Matches .number text) :
    text.count '\n' = 0 := by
  have hdigit : ¬ '\n'.isDigit = true := by decide
  cases h with
  | whole _ hds => exact count_lineFeed hds hdigit
  | decimal _ hds _ hfs => simp [count_lineFeed hds hdigit, count_lineFeed hfs hdigit]

theorem count_lineFeed_word {text : List Char} (h : Matches .word text) :
    text.count '\n' = 0 := by
  cases h with
  | @word c cs hc hcs =>
    have hstart : ¬ ('\n'.isAlpha = true ∨ '\n' = '_') := by decide
    have hpart : ¬ ('\n'.isAlpha = true ∨ '\n' = '_' ∨ '\n'.isDigit = true) := by decide
    have hne : c ≠ '\n' := by
      rintro rfl
      exact hstart hc
    rw [List.count_cons_of_ne hne]
    exact count_lineFeed hcs hpart

theorem entriesAt_number {text rest : List Char} {x : Float} (h : Matches .number text)
    (hread : Numeral.read? text = some x) (hrest : Ends .number rest) :
    entriesAt 1 (text ++ rest) =
      .ok ⟨.number, String.ofList text, some (.number x), 1⟩ :: entriesAt 1 rest := by
  apply entriesAt_token h hrest (count_lineFeed_number h)
  simp [Piece.entry?, hread, lexeme]

theorem entriesAt_word {text rest : List Char} (h : Matches .word text)
    (hrest : Ends .word rest) :
    entriesAt 1 (text ++ rest) =
      .ok ⟨wordKind ⟨.word, text⟩, String.ofList text, none, 1⟩ :: entriesAt 1 rest :=
  entriesAt_token h hrest (count_lineFeed_word h) rfl

theorem ends_lineFeed {kind : PieceKind} (h : mayExtend kind '\n' = false) : Ends kind ['\n'] := by
  intro d hd
  cases hd
  exact h

theorem scansAs_number {text : List Char} {x : Float} (h : Matches .number text)
    (hread : Numeral.read? text = some x) :
    ScansAs text [⟨.number, String.ofList text, some (.number x), 1⟩] := by
  unfold ScansAs
  rw [entriesAt_number h hread (ends_lineFeed rfl), entriesAt_lineFeed]
  rfl

theorem scansAs_word {text : List Char} (h : Matches .word text) :
    ScansAs text [⟨wordKind ⟨.word, text⟩, String.ofList text, none, 1⟩] := by
  unfold ScansAs
  rw [entriesAt_word h (ends_lineFeed rfl), entriesAt_lineFeed]
  rfl

theorem ScansAs.minus {text : List Char} {ts : List Token} (h : ScansAs text ts) :
    ScansAs ('-' :: text) (Symbol.minus.token 1 :: ts) := by
  have hends : Ends (.symbol .minus) (text ++ ['\n']) := by
    intro d _
    rfl
  have hminus := entriesAt_symbol 1 hends
  rw [h] at hminus
  exact hminus

theorem ScansAs.write_minus {x : Float} {ts : List Token}
    (h : ScansAs (Numeral.write x.abs).toList ts)
    (hminus : Numeral.write x = "-" ++ Numeral.write x.abs) :
    ScansAs (Numeral.write x).toList (Symbol.minus.token 1 :: ts) := by
  rw [hminus, String.toList_append]
  exact h.minus

/-- The text with an exponent is scanned as a number and a word, then a sign and a number. -/
theorem scansAs_exponential (d : Decimal) : ∃ x text sign exponent,
    ScansAs (exponential d) [⟨.number, text, some (.number x), 1⟩, ⟨.identifier, "e", none, 1⟩,
      Symbol.token sign 1, exponent] := by
  have hmantissa : Matches .number (Decimal.mantissaText d.digits) :=
    Numeral.matches_mantissaText Nat.toDigits_ne_nil (Numeral.isDigit_of_mem_digits d)
  obtain ⟨x, hread⟩ := read?_of_matches hmantissa
  obtain ⟨sign, ds, hsign, hds, htext⟩ := Numeral.exists_exponentText (d.point - 1)
  obtain ⟨y, hread'⟩ := read?_of_matches hds
  refine ⟨x, String.ofList (Decimal.mantissaText d.digits), sign,
    ⟨.number, String.ofList ds, some (.number y), 1⟩, ?_⟩
  have hword : Matches .word ['e'] := matches_word (by decide) (by decide)
  have hends : Ends .number ('e' :: (sign.text.toList ++ (ds ++ ['\n']))) := by
    intro c hc
    cases hc
    rfl
  have hendsWord : Ends .word (sign.text.toList ++ (ds ++ ['\n'])) := by
    intro c hc
    rcases hsign with rfl | rfl <;> cases hc <;> rfl
  have hendsSign : Ends (.symbol sign) (ds ++ ['\n']) := by
    intro c _
    rcases hsign with rfl | rfl <;> rfl
  have hkind : wordKind ⟨.word, ['e']⟩ = .identifier := by decide
  have hlexeme : String.ofList ['e'] = "e" := rfl
  have hfirst := entriesAt_number hmantissa hread hends
  have hsecond := entriesAt_word hword hendsWord
  have hlast : entriesAt 1 (ds ++ ['\n']) = _ := scansAs_number hds hread'
  rw [hkind, hlexeme, List.singleton_append] at hsecond
  unfold ScansAs exponential
  rw [htext, List.append_assoc, List.cons_append, List.append_assoc, hfirst, hsecond,
    entriesAt_symbol 1 hendsSign, hlast]
  rfl

theorem ScansAs.ofText {text : String} {ts : List Token} (h : ScansAs text.toList ts) :
    Scan.ofText (text ++ "\n") = ⟨ts ++ [.endOfInput 2], []⟩ := by
  have htoList : (text ++ "\n").toList = text.toList ++ ['\n'] := String.toList_append
  have hentries : entriesFrom 1 (cut (text ++ "\n").toList) =
      (ts ++ [Token.endOfInput 2]).map .ok := by
    rw [htoList]
    exact h
  rw [Scan.ofText, hentries, ofEntries_map_ok]

section Runs

variable {text : String} {ts : List Token} {s : Session}

/-- A line whose value has the text of the line is written again. -/
theorem run_eq_write (h : ScansAs text.toList ts) {e : Expr} {v : Value}
    (he : Expr.ofTokens (ts ++ [.endOfInput 2]) = .ok e) (hv : e.evaluate = .ok v)
    (htext : v.text = text) (hs : s.Fresh) : s.run (text ++ "\n") = s.write (text ++ "\n") := by
  have hscan := h.ofText
  rw [hs.run_of_no_errors (congrArg Scan.errors hscan), hscan, he]
  simp only
  rw [Session.interpret_ok hv, htext]

theorem run_eq_report (h : ScansAs text.toList ts) {err : SyntaxError}
    (he : Expr.ofTokens (ts ++ [.endOfInput 2]) = .error err) (hs : s.Fresh) :
    s.run (text ++ "\n") = (s.report err.diagnostic, .completed) := by
  have hscan := h.ofText
  rw [hs.run_of_no_errors (congrArg Scan.errors hscan), hscan, he]

theorem run_keyword {w : Keyword} {v : Value} (he : Expr.ofTokens
      [⟨.keyword w, w.text, none, 1⟩, .endOfInput 2] = .ok (.literal v))
    (htext : v.text = w.text) (hs : s.Fresh) :
    s.run (w.text ++ "\n") = s.write (w.text ++ "\n") := by
  have hscans := scansAs_word (matches_keyword w)
  have hkind : wordKind ⟨.word, w.text.toList⟩ = .keyword w := (wordKind_eq_keyword_iff _ w).mpr rfl
  rw [hkind, String.ofList_toList] at hscans
  exact run_eq_write hscans he rfl htext hs

/-- A number that is written positionally is written again. A minus sign before it negates it. -/
theorem run_positional {x : Float} (h : Positional x) (hs : s.Fresh) :
    s.run (Numeral.write x ++ "\n") = s.write (Numeral.write x ++ "\n") := by
  obtain ⟨hmatch, hread⟩ := Numeral.read?_write (Numeral.plain_abs_iff.mpr h)
  have hscans := scansAs_number hmatch hread
  rcases Numeral.write_cases x with ⟨hsame, -⟩ | ⟨hminus, hneg⟩
  · rw [hsame]
    exact run_eq_write (v := .number x.abs) hscans rfl rfl rfl hs
  · have hscans' := hscans.write_minus hminus
    refine run_eq_write (v := .number x) hscans' rfl ?_ rfl hs
    exact congrArg (fun y => Except.ok (Value.number y)) hneg

/-- The tokens stop the parser, with a minus sign before them or without. -/
def Refused (ts : List Token) : Prop :=
  (∃ err, Expr.ofTokens (ts ++ [.endOfInput 2]) = .error err) ∧
    ∃ err, Expr.ofTokens (Symbol.minus.token 1 :: ts ++ [.endOfInput 2]) = .error err

theorem exists_refused_of_word {cs : List Char} (h : Matches .word cs)
    (hkind : wordKind ⟨.word, cs⟩ = .identifier) : ∃ ts, ScansAs cs ts ∧ Refused ts := by
  have hscans := scansAs_word h
  rw [hkind] at hscans
  exact ⟨_, hscans, ⟨_, rfl⟩, _, rfl⟩

/-- What is not written positionally is scanned as tokens that stop the parser. -/
theorem exists_refused {x : Float} (h : ¬ Positional x) :
    ∃ ts, ScansAs (Numeral.write x.abs).toList ts ∧ Refused ts := by
  rcases Numeral.write_abs_cases h with hnan | hinfinity | ⟨d, hexponential⟩
  · rw [hnan]
    exact exists_refused_of_word (matches_word (by decide) (by decide)) (by decide)
  · rw [hinfinity]
    exact exists_refused_of_word (matches_word (by decide) (by decide)) (by decide)
  · obtain ⟨y, lexeme, sign, exponent, hscans⟩ := scansAs_exponential d
    rw [hexponential, String.toList_ofList]
    exact ⟨_, hscans, ⟨_, rfl⟩, _, rfl⟩

theorem run_not_positional {x : Float} (h : ¬ Positional x) : ∃ d : Diagnostic,
    d.isRuntime = false ∧
      ∀ s : Session, s.Fresh → s.run (Numeral.write x ++ "\n") = (s.report d, .completed) := by
  obtain ⟨ts, hscans, ⟨err, herr⟩, err', herr'⟩ := exists_refused h
  rcases Numeral.write_cases x with ⟨hsame, -⟩ | ⟨hminus, -⟩
  · rw [hsame]
    exact ⟨err.diagnostic, rfl, fun s hs => run_eq_report hscans herr hs⟩
  · have hscans' := hscans.write_minus hminus
    exact ⟨err'.diagnostic, rfl, fun s hs => run_eq_report hscans' herr' hs⟩

/-- The values other than strings that are written again. -/
def Stable : Value → Prop
  | .number x => Positional x
  | .string _ => False
  | .bool _ | .nil => True

theorem run_stable {v : Value} (h : Stable v) (hs : s.Fresh) :
    s.run (v.text ++ "\n") = s.write (v.text ++ "\n") := by
  cases v with
  | number x => exact run_positional h hs
  | string t => exact h.elim
  | bool b =>
    cases b with
    | false => exact run_keyword (w := .falseWord) (v := .bool false) rfl rfl hs
    | true => exact run_keyword (w := .trueWord) (v := .bool true) rfl rfl hs
  | nil => exact run_keyword (w := .nilWord) (v := .nil) rfl rfl hs

/-- A run that writes something writes the value of an expression and a line feed. -/
theorem exists_value_of_output_ne {source : String} (hs : s.Fresh)
    (h : (s.run source).1.output ≠ s.output) : ∃ e v,
      Expr.ofTokens (Scan.ofText source).tokens = .ok e ∧ e.evaluate = .ok v ∧
        s.run source = s.write (v.text ++ "\n") := by
  obtain ⟨act, hcourse, hrun⟩ := Session.exists_course source
  rw [hrun s hs] at h ⊢
  cases hcourse with
  | written _ he hv => exact ⟨_, _, he, hv, rfl⟩
  | lexical _ => exact absurd rfl h
  | refused _ _ => exact absurd rfl h
  | failed _ _ _ => exact absurd rfl h
  | foreign _ _ _ => exact absurd rfl h

end Runs

end Reckoner.Reprinting
