import Reckoner.Proofs.Acceptance
import Reckoner.Proofs.PositionalNumerals
import Reckoner.Proofs.Skeleton

/-!
Rendering trees as expressions. Every operator is written in parentheses together with its operands,
so that a tree is read back whatever its operators are. The text of a tree is scanned as the tokens
of a primary expression whose tree has the same skeleton, wherever in a longer text it stands.
-/

namespace Reckoner

open Grammar Piece

/-- How a value is written in an expression. -/
def Value.source : Value → String
  | string s => "\"" ++ s ++ "\""
  | v => v.text

/-- The values whose text is read back as the same value. -/
def Value.Writable : Value → Prop
  | number x => Numeral.Plain x
  | string s => ∀ c ∈ s.toList, c ≠ '"'
  | _ => True

/-- A token that the scanner could have read from the text of one of the symbols. -/
def Token.Spells (t : Token) (os : List Symbol) : Prop :=
  ∃ o ∈ os, t.kind = .symbol o ∧ t.lexeme = o.text ∧ t.literal = none

namespace Expr

def source : Expr → String
  | literal v => v.source
  | group e => "(" ++ e.source ++ ")"
  | unary op e => "(" ++ op.lexeme ++ e.source ++ ")"
  | binary l op r => "(" ++ l.source ++ " " ++ op.lexeme ++ " " ++ r.source ++ ")"

/-- The trees whose literals can be written and whose operators are spelled as they are scanned. -/
def Writable : Expr → Prop
  | literal v => v.Writable
  | group e => e.Writable
  | unary op e => op.Spells prefixes ∧ e.Writable
  | binary l op r => l.Writable ∧ op.Spells binaryOperators ∧ r.Writable

end Expr

/-- A token of a symbol alone. -/
def Symbol.token (o : Symbol) (line : Nat) : Token := ⟨.symbol o, o.text, none, line⟩

namespace Rendering

/-- The entries of a text that starts on the given line. -/
def entriesAt (line : Nat) (text : List Char) : List Entry := entriesFrom line (cut text)

theorem cut_append {kind : PieceKind} {text rest : List Char} (h : Matches kind text)
    (hrest : Ends kind rest) : cut (text ++ rest) = ⟨kind, text⟩ :: cut rest := by
  obtain ⟨c, t, rfl⟩ := List.exists_cons_of_ne_nil h.ne_nil
  rw [List.cons_append, cut_cons, h.measure_append hrest, List.take_left, List.drop_left]

theorem entriesAt_append {kind : PieceKind} {text rest : List Char} (line : Nat)
    (h : Matches kind text) (hrest : Ends kind rest) :
    entriesAt line (text ++ rest) =
      (Piece.entry? ⟨kind, text⟩ (line + text.count '\n')).toList ++
        entriesAt (line + text.count '\n') rest := by
  unfold entriesAt
  rw [cut_append h hrest, entriesFrom_cons]
  rfl

theorem entriesAt_symbol {o : Symbol} {rest : List Char} (line : Nat)
    (hrest : Ends (.symbol o) rest) :
    entriesAt line (o.text.toList ++ rest) = .ok (o.token line) :: entriesAt line rest := by
  have hline : o.text.toList.count '\n' = 0 := by
    cases o <;> rfl
  rw [entriesAt_append line (.symbol o) hrest, hline]
  simp [Piece.entry?, lexeme, Symbol.token]

theorem entriesAt_opening (line : Nat) (rest : List Char) :
    entriesAt line ('(' :: rest) = .ok (Symbol.leftParen.token line) :: entriesAt line rest := by
  have hends : Ends (.symbol .leftParen) rest := by
    intro d _
    rfl
  exact entriesAt_symbol line hends

theorem entriesAt_closing (line : Nat) (rest : List Char) :
    entriesAt line (')' :: rest) = .ok (Symbol.rightParen.token line) :: entriesAt line rest := by
  have hends : Ends (.symbol .rightParen) rest := by
    intro d _
    rfl
  exact entriesAt_symbol line hends

theorem entriesAt_space (line : Nat) (rest : List Char) :
    entriesAt line (' ' :: rest) = entriesAt line rest := by
  have hblank : Matches .blank [' '] := .blank (by decide)
  have hends : Ends .blank rest := by
    intro d _
    rfl
  exact entriesAt_append line hblank hends

/-- What may follow the text of a tree. -/
def Closes (rest : List Char) : Prop := ∀ d, rest.head? = some d → d = ' ' ∨ d = ')'

theorem closes_nil : Closes [] := by
  intro d hd
  cases hd

theorem closes_space (rest : List Char) : Closes (' ' :: rest) := by
  intro d hd
  exact .inl (Option.some.inj hd).symm

theorem closes_paren (rest : List Char) : Closes (')' :: rest) := by
  intro d hd
  exact .inr (Option.some.inj hd).symm

theorem Closes.ends {kind : PieceKind} {rest : List Char} (h : Closes rest)
    (hkind : kind ≠ .comment) : Ends kind rest := by
  intro d hd
  have hblank : mayExtend kind ' ' = false ∧ mayExtend kind ')' = false := by
    cases kind with
    | comment => exact absurd rfl hkind
    | symbol o => cases o <;> decide
    | _ => decide
  rcases h d hd with rfl | rfl
  · exact hblank.1
  · exact hblank.2

/-- Wherever the text stands, it is scanned as tokens that a rule derives, and their tree has the
skeleton of the given one. -/
def ReadsAs (r : Rule) (text : List Char) (e : Expr) : Prop :=
  ∀ line rest, Closes rest → ∃ ts after e',
    entriesAt line (text ++ rest) = ts.map .ok ++ entriesAt after rest ∧
      Derives (.rule r) ts e' ∧ e'.skeleton = e.skeleton

theorem ReadsAs.loosen {m n : Nat} {text : List Char} {e : Expr} (hn : n ≤ m) (hm : m ≤ 4)
    (h : ReadsAs (.ofLevel m) text e) : ReadsAs (.ofLevel n) text e := by
  intro line rest hrest
  obtain ⟨ts, after, e', hentries, hderives, hskeleton⟩ := h line rest hrest
  exact ⟨ts, after, e', hentries, hderives.loosen hn hm, hskeleton⟩

theorem ReadsAs.single {r s : Rule} {text : List Char} {e : Expr} (hs : r.operand? = some s)
    (h : ReadsAs s text e) : ReadsAs r text e := by
  intro line rest hrest
  obtain ⟨ts, after, e', hentries, hderives, hskeleton⟩ := h line rest hrest
  exact ⟨ts, after, e', hentries, hderives.single hs, hskeleton⟩

/-- A piece that is a token and an operand by itself. -/
theorem readsAs_piece {kind : PieceKind} {text : List Char} {v : Value} (h : Matches kind text)
    (hkind : kind ≠ .comment)
    (hentry : ∀ line, ∃ t, Piece.entry? ⟨kind, text⟩ line = some (.ok t) ∧ t.operand? = some v) :
    ReadsAs .primary text (.literal v) := by
  intro line rest hrest
  obtain ⟨t, ht, hv⟩ := hentry (line + text.count '\n')
  refine ⟨[t], line + text.count '\n', .literal v, ?_, derives_operand hv, rfl⟩
  rw [entriesAt_append line h (hrest.ends hkind), ht]
  rfl

theorem readsAs_number {x : Float} (h : Numeral.Plain x) :
    ReadsAs .primary (Numeral.write x).toList (.literal (.number x)) := by
  obtain ⟨hmatch, hread⟩ := Numeral.read?_write h
  apply readsAs_piece hmatch (by decide)
  intro line
  refine ⟨⟨.number, Numeral.write x, some (.number x), line⟩, ?_, rfl⟩
  simp [Piece.entry?, hread, lexeme]

theorem readsAs_string {s : String} (h : ∀ c ∈ s.toList, c ≠ '"') :
    ReadsAs .primary ('"' :: (s.toList ++ ['"'])) (.literal (.string s)) := by
  apply readsAs_piece (.string h) (by decide)
  intro line
  have hinside : inside ⟨.string, '"' :: (s.toList ++ ['"'])⟩ = s := by
    simp [inside]
  refine ⟨⟨.string, lexeme ⟨.string, '"' :: (s.toList ++ ['"'])⟩, some (.string s), line⟩, ?_, rfl⟩
  simp only [Piece.entry?, hinside]

theorem matches_word {c : Char} {cs : List Char} (hc : isWordStart c = true)
    (hcs : cs.all isWordPart = true) : Matches .word (c :: cs) := by
  refine .word (isWordStart_iff.mp hc) ?_
  intro d hd
  exact isWordPart_iff.mp (List.all_eq_true.mp hcs d hd)

theorem matches_keyword (w : Keyword) : Matches .word w.text.toList := by
  cases w <;> exact matches_word (by decide) (by decide)

theorem readsAs_keyword {w : Keyword} {v : Value}
    (hv : ∀ line, Token.operand? ⟨.keyword w, w.text, none, line⟩ = some v) :
    ReadsAs .primary w.text.toList (.literal v) := by
  apply readsAs_piece (matches_keyword w) (by decide)
  intro line
  refine ⟨_, ?_, hv line⟩
  have hkind : wordKind ⟨.word, w.text.toList⟩ = .keyword w := (wordKind_eq_keyword_iff _ w).mpr rfl
  simp [Piece.entry?, hkind, lexeme]

theorem toList_source_string (s : String) :
    (Value.source (.string s)).toList = '"' :: (s.toList ++ ['"']) := by
  simp [Value.source, String.toList_append]

theorem readsAs_value {v : Value} (h : v.Writable) :
    ReadsAs .primary v.source.toList (.literal v) := by
  cases v with
  | number x => exact readsAs_number h
  | string s =>
    rw [toList_source_string]
    exact readsAs_string h
  | bool b =>
    cases b with
    | false => exact @readsAs_keyword .falseWord (.bool false) fun _ => rfl
    | true => exact @readsAs_keyword .trueWord (.bool true) fun _ => rfl
  | nil => exact @readsAs_keyword .nilWord .nil fun _ => rfl

/-- Parentheses around an expression make a primary expression with the same skeleton. -/
theorem readsAs_parens {text : List Char} {e : Expr} (h : ReadsAs .expression text e) :
    ReadsAs .primary ('(' :: (text ++ [')'])) e := by
  intro line rest hrest
  obtain ⟨ts, after, e', hentries, hderives, hskeleton⟩ := h line (')' :: rest) (closes_paren rest)
  refine ⟨Symbol.leftParen.token line :: (ts ++ [Symbol.rightParen.token after]), after, .group e',
    ?_, .group rfl rfl hderives, hskeleton⟩
  rw [List.cons_append, List.append_assoc, List.singleton_append, entriesAt_opening, hentries,
    entriesAt_closing]
  simp

/-- The token that is read from the text of an operator has the skeleton of the operator. -/
theorem unplaced_of_spells {op : Token} {o : Symbol} (hkind : op.kind = .symbol o)
    (hlexeme : op.lexeme = o.text) (hliteral : op.literal = none) (line : Nat) :
    (o.token line).unplaced = op.unplaced := by
  simp only [Symbol.token, Token.unplaced, hkind, hlexeme, hliteral]

/-- An operator in front of an operand that does not start with an equals sign. -/
theorem readsAs_unary {op : Token} {text : List Char} {e : Expr} (hop : op.Spells prefixes)
    (hhead : ∃ c cs, text = c :: cs ∧ c ≠ '=') (h : ReadsAs .unary text e) :
    ReadsAs .unary (op.lexeme.toList ++ text) (.unary op e) := by
  obtain ⟨o, ho, hkind, hlexeme, hliteral⟩ := hop
  intro line rest hrest
  obtain ⟨ts, after, e', hentries, hderives, hskeleton⟩ := h line rest hrest
  have hends : Ends (.symbol o) (text ++ rest) := by
    obtain ⟨c, cs, rfl, hc⟩ := hhead
    intro d hd
    have hcd : c = d := Option.some.inj hd
    have hd' : (d == '=') = false := by
      rw [← hcd]
      exact beq_false_of_ne hc
    unfold prefixes at ho
    simp only [List.mem_cons, List.not_mem_nil, or_false] at ho
    rcases ho with rfl | rfl
    · exact hd'
    · rfl
  refine ⟨o.token line :: ts, after, .unary (o.token line) e', ?_, .unary rfl ho hderives, ?_⟩
  · rw [hlexeme, List.append_assoc, entriesAt_symbol line hends, hentries]
    rfl
  · simp only [Expr.skeleton, hskeleton, unplaced_of_spells hkind hlexeme hliteral line]

/-- An operator between two operands, one blank on each side. -/
theorem readsAs_chain {m : Nat} {op : Token} {o : Symbol} {left right : List Char} {l r : Expr}
    (hm : m ≤ 3) (ho : o ∈ (Rule.ofLevel m).operators) (hkind : op.kind = .symbol o)
    (hlexeme : op.lexeme = o.text) (hliteral : op.literal = none)
    (hl : ReadsAs (.ofLevel m) left l) (hr : ReadsAs (.ofLevel (m + 1)) right r) :
    ReadsAs (.ofLevel m) (left ++ ' ' :: (op.lexeme.toList ++ ' ' :: right)) (.binary l op r) := by
  intro line rest hrest
  obtain ⟨ts, middle, l', hleft, hderivesLeft, hskeletonLeft⟩ :=
    hl line (' ' :: (o.text.toList ++ ' ' :: (right ++ rest))) (closes_space _)
  obtain ⟨us, after, r', hright, hderivesRight, hskeletonRight⟩ := hr middle rest hrest
  have hends : Ends (.symbol o) (' ' :: (right ++ rest)) := (closes_space _).ends (by simp)
  refine ⟨ts ++ o.token middle :: us, after, .binary l' (o.token middle) r', ?_, ?_, ?_⟩
  · rw [hlexeme, List.append_assoc, List.cons_append, List.append_assoc, List.cons_append, hleft,
      entriesAt_space, entriesAt_symbol middle hends, entriesAt_space, hright]
    simp
  · exact .snoc rfl ho (Rule.operand?_ofLevel hm) hderivesLeft hderivesRight
  · simp only [Expr.skeleton, hskeletonLeft, hskeletonRight,
      unplaced_of_spells hkind hlexeme hliteral middle]

theorem ReadsAs.ofPrimary {m : Nat} {text : List Char} {e : Expr} (hm : m ≤ 4)
    (h : ReadsAs .primary text e) : ReadsAs (.ofLevel m) text e := by
  have hunary : ReadsAs (.ofLevel 4) text e := h.single rfl
  exact hunary.loosen hm (by omega)

theorem ReadsAs.expression {m : Nat} {text : List Char} {e : Expr} (hm : m ≤ 4)
    (h : ReadsAs (.ofLevel m) text e) : ReadsAs .expression text e := by
  have hequality : ReadsAs (.ofLevel 0) text e := h.loosen (by omega) hm
  exact hequality.single rfl

theorem readsAs_binary {op : Token} {left right : List Char} {l r : Expr}
    (hop : op.Spells binaryOperators) (hl : ReadsAs .primary left l)
    (hr : ReadsAs .primary right r) :
    ReadsAs .expression (left ++ ' ' :: (op.lexeme.toList ++ ' ' :: right)) (.binary l op r) := by
  obtain ⟨o, ho, hkind, hlexeme, hliteral⟩ := hop
  obtain ⟨m, hm, hmem⟩ := exists_level_of_binary ho
  have hchain := readsAs_chain hm hmem hkind hlexeme hliteral (hl.ofPrimary (by omega))
    (hr.ofPrimary (by omega))
  exact hchain.expression (by omega)

theorem toList_source_group (e : Expr) :
    (Expr.group e).source.toList = '(' :: (e.source.toList ++ [')']) := by
  simp [Expr.source, String.toList_append]

theorem toList_source_unary (op : Token) (e : Expr) :
    (Expr.unary op e).source.toList =
      '(' :: ((op.lexeme.toList ++ e.source.toList) ++ [')']) := by
  simp [Expr.source, String.toList_append]

theorem toList_source_binary (l : Expr) (op : Token) (r : Expr) :
    (Expr.binary l op r).source.toList =
      '(' :: ((l.source.toList ++ ' ' :: (op.lexeme.toList ++ ' ' :: r.source.toList)) ++
        [')']) := by
  simp [Expr.source, String.toList_append]

theorem exists_digit_of_matches {text : List Char} (h : Matches .number text) :
    ∃ c cs, text = c :: cs ∧ c.isDigit = true := by
  cases h with
  | whole hne hds =>
    obtain ⟨c, cs, rfl⟩ := List.exists_cons_of_ne_nil hne
    exact ⟨c, cs, rfl, hds c List.mem_cons_self⟩
  | @decimal ds fs hne hds _ _ =>
    obtain ⟨c, cs, rfl⟩ := List.exists_cons_of_ne_nil hne
    exact ⟨c, cs ++ '.' :: fs, rfl, hds c List.mem_cons_self⟩

/-- The text of a tree does not start with an equals sign. -/
theorem exists_head_source {e : Expr} (h : e.Writable) :
    ∃ c cs, e.source.toList = c :: cs ∧ c ≠ '=' := by
  have hparen : '(' ≠ '=' := by decide
  cases e with
  | literal v =>
    cases v with
    | number x =>
      obtain ⟨c, cs, htext, hdigit⟩ := exists_digit_of_matches (Numeral.read?_write h).1
      refine ⟨c, cs, htext, ?_⟩
      intro hequals
      rw [hequals] at hdigit
      exact absurd hdigit (by decide)
    | string s => exact ⟨'"', _, toList_source_string s, by decide⟩
    | bool b => cases b <;> exact ⟨_, _, rfl, by decide⟩
    | nil => exact ⟨_, _, rfl, by decide⟩
  | group e => exact ⟨'(', _, toList_source_group e, hparen⟩
  | unary op e => exact ⟨'(', _, toList_source_unary op e, hparen⟩
  | binary l op r => exact ⟨'(', _, toList_source_binary l op r, hparen⟩

/-- The text of a tree is read as a primary expression with the skeleton of the tree. -/
theorem readsAs_source {e : Expr} (h : e.Writable) : ReadsAs .primary e.source.toList e := by
  induction e with
  | literal v => exact readsAs_value h
  | group e ih =>
    have hinner : ReadsAs .expression e.source.toList e :=
      ((ih h).ofPrimary (by omega)).expression (Nat.zero_le 4)
    rw [toList_source_group]
    exact readsAs_parens hinner
  | unary op e ih =>
    obtain ⟨hop, he⟩ := h
    have hoperand : ReadsAs .unary e.source.toList e := (ih he).single rfl
    have hunary : ReadsAs (.ofLevel 4) (op.lexeme.toList ++ e.source.toList) (.unary op e) :=
      readsAs_unary hop (exists_head_source he) hoperand
    rw [toList_source_unary]
    exact readsAs_parens (hunary.expression (by omega))
  | binary l op r ihl ihr =>
    obtain ⟨hl, hop, hr⟩ := h
    rw [toList_source_binary]
    exact readsAs_parens (readsAs_binary hop (ihl hl) (ihr hr))

end Rendering

end Reckoner
