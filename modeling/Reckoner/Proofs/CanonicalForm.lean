import Reckoner.Proofs.ChangedLines
import Reckoner.Proofs.ScannedTrees

/-!
The canonical form as a code for trees. Its words hold no blank and no parenthesis, so that the
first word of a text is known from the text alone. The word behind an opening parenthesis and the
character behind the first operand tell what node it is. So a text starts with the canonical form of
one tree only, up to what the form does not show, which is the lines of the operators.
-/

namespace Reckoner

open Binary64 Grammar Rendering

/-- The tree holds no string. The canonical form shows a string without its quotes, and it may look
like any other text. -/
def Expr.NoString : Expr → Prop
  | literal v => ∀ s, v ≠ .string s
  | group e => e.NoString
  | unary _ e => e.NoString
  | binary l _ r => l.NoString ∧ r.NoString

theorem Symbol.text_inj {o o' : Symbol} (h : o.text = o'.text) : o = o' := by
  have hmatch : Piece.Matches (.symbol o') o.text.toList := by
    rw [h]
    exact .symbol o'
  exact PieceKind.symbol.inj ((Piece.Matches.symbol o).kind_unique hmatch)

namespace CanonicalForm

/-- The characters between the words of a canonical form. -/
def delimits (c : Char) : Bool := c == ' ' || c == '(' || c == ')'

/-- A word of a canonical form. -/
structure IsWord (w : List Char) : Prop where
  ne_nil : w ≠ []
  plain : ∀ c ∈ w, delimits c = false

/-- A word ends where the text goes on with what may follow a tree. -/
theorem IsWord.append_inj {w w' rest rest' : List Char} (hw : IsWord w) (hw' : IsWord w')
    (hrest : Closes rest) (hrest' : Closes rest') (h : w ++ rest = w' ++ rest') :
    w = w' ∧ rest = rest' := by
  have hplain {w : List Char} (hw : IsWord w) : ∀ c ∈ w, (!delimits c) = true := by
    intro c hc
    rw [hw.plain c hc]
    rfl
  have hends {rest : List Char} (hrest : Closes rest) :
      ∀ c, rest.head? = some c → (!delimits c) = false := by
    intro c hc
    rcases hrest c hc with rfl | rfl
    · rfl
    · rfl
  exact Numeral.append_inj_of_test (hplain hw) (hplain hw') (hends hrest) (hends hrest') h

theorem IsWord.append_ne_paren {w : List Char} (hw : IsWord w) (rest rest' : List Char) :
    w ++ rest ≠ '(' :: rest' := by
  obtain ⟨c, cs, rfl⟩ := List.exists_cons_of_ne_nil hw.ne_nil
  intro h
  have hc : c = '(' := (List.cons.inj h).1
  have hplain := hw.plain c List.mem_cons_self
  rw [hc] at hplain
  exact absurd hplain (by decide)

theorem IsWord.append {w w' : List Char} (hw : IsWord w) (hw' : IsWord w') : IsWord (w ++ w') where
  ne_nil := List.append_ne_nil_of_left_ne_nil hw.ne_nil w'
  plain := List.forall_mem_append.mpr ⟨hw.plain, hw'.plain⟩

theorem isWord_group : IsWord "group".toList := ⟨by simp, by simp [delimits]⟩

theorem isWord_symbol {o : Symbol} (hleft : o ≠ .leftParen) (hright : o ≠ .rightParen) :
    IsWord o.text.toList := by
  cases o with
  | leftParen => exact absurd rfl hleft
  | rightParen => exact absurd rfl hright
  | _ => exact ⟨by simp [Symbol.text], by simp [Symbol.text, delimits]⟩

theorem isWord_of_matches {text : List Char} (h : Piece.Matches .number text) : IsWord text := by
  refine ⟨h.ne_nil, ?_⟩
  intro c hc
  rcases Numeral.mem_of_matches h c hc with hdigit | rfl
  · by_cases hdelimits : delimits c = true
    · have hcases : (c = ' ' ∨ c = '(') ∨ c = ')' := by simpa [delimits] using hdelimits
      rcases hcases with (rfl | rfl) | rfl <;> exact absurd hdigit (by decide)
    · exact Bool.eq_false_of_not_eq_true hdelimits
  · rfl

theorem isWord_exponential (d : Decimal) : IsWord (Numeral.exponential d) := by
  obtain ⟨o, ds, ho, hmatch, htext⟩ := Numeral.exists_exponentText (d.point - 1)
  have hsign : IsWord o.text.toList := by
    rcases ho with rfl | rfl <;> exact isWord_symbol (by decide) (by decide)
  have hmark : IsWord ['e'] := ⟨List.cons_ne_nil _ _, by simp [delimits]⟩
  unfold Numeral.exponential
  rw [htext]
  exact (isWord_of_matches (Numeral.matches_mantissa d)).append
    (hmark.append (hsign.append (isWord_of_matches hmatch)))

theorem isWord_of_written {m : Nat} {text : List Char} (h : Numeral.Written m text) :
    IsWord text := by
  cases h with
  | positional _ hmatch _ => exact isWord_of_matches hmatch
  | exponential _ htext =>
    rw [htext]
    exact isWord_exponential _
  | infinite _ htext =>
    rw [htext]
    exact ⟨by simp, by simp [delimits]⟩

/-- The text of a magnitude starts with a digit or is the word for infinity. -/
theorem exists_head_of_written {m : Nat} {text : List Char} (h : Numeral.Written m text) :
    ∃ c cs, text = c :: cs ∧ (c.isDigit = true ∨ c = 'I') := by
  cases h with
  | positional _ hmatch _ =>
    obtain ⟨c, cs, htext, hc⟩ := exists_digit_of_matches hmatch
    exact ⟨c, cs, htext, .inl hc⟩
  | exponential _ htext =>
    obtain ⟨c, cs, hmantissa, hc⟩ := exists_digit_of_matches
      (Numeral.matches_mantissa (Decimal.shortest m))
    refine ⟨c, cs ++ 'e' :: Decimal.exponentText ((Decimal.shortest m).point - 1), ?_, .inl hc⟩
    rw [htext, Numeral.exponential, hmantissa, List.cons_append]
  | infinite _ htext => exact ⟨'I', "nfinity".toList, by simp [htext], .inr rfl⟩

theorem isWord_keyword (w : Keyword) : IsWord w.text.toList := by
  cases w <;> exact ⟨by simp [Keyword.text], by simp [Keyword.text, delimits]⟩

theorem exists_head_keyword (w : Keyword) :
    ∃ c cs, w.text.toList = c :: cs ∧ c.isDigit = false ∧ c ≠ 'I' := by
  cases w <;> exact ⟨_, _, rfl, by decide, by decide⟩

theorem write_ne_keyword {x : Float} (h : x.toBits.toNat ≤ infinity) (w : Keyword) :
    Numeral.write x ≠ w.text := by
  intro hsame
  obtain ⟨c, cs, hwritten, hc⟩ := exists_head_of_written (Numeral.written_writeMagnitude h)
  obtain ⟨d, ds, hword, hdigit, hletter⟩ := exists_head_keyword w
  have htext := congrArg String.toList hsame
  rw [Numeral.write_of_le_infinity h, String.toList_ofList, hwritten, hword] at htext
  have hcd : c = d := (List.cons.inj htext).1
  rw [hcd, hdigit] at hc
  rcases hc with hc | hc
  · cases hc
  · exact hletter hc

theorem isWord_value {v : Value} (h : v.Scanned) (hs : ∀ s, v ≠ .string s) :
    IsWord v.text.toList := by
  cases v with
  | number x =>
    change IsWord (Numeral.write x).toList
    rw [Numeral.write_of_le_infinity h, String.toList_ofList]
    exact isWord_of_written (Numeral.written_writeMagnitude h)
  | string s => exact absurd rfl (hs s)
  | bool b =>
    cases b with
    | false => exact isWord_keyword .falseWord
    | true => exact isWord_keyword .trueWord
  | nil => exact isWord_keyword .nilWord

/-- A value that is no string is known from its text, a number bit for bit. -/
theorem value_text_inj {v v' : Value} (hv : v.Scanned) (hv' : v'.Scanned)
    (hs : ∀ s, v ≠ .string s) (hs' : ∀ s, v' ≠ .string s) (h : v.text = v'.text) : v = v' := by
  have hbool (b : Bool) :
      (Value.bool b).text = (if b then Keyword.trueWord else .falseWord).text := by
    cases b <;> rfl
  cases v with
  | number x =>
    cases v' with
    | number y => exact congrArg Value.number (Numeral.write_inj hv hv' h)
    | string s => exact absurd rfl (hs' s)
    | bool b => exact absurd (h.trans (hbool b)) (write_ne_keyword hv _)
    | nil => exact absurd h (write_ne_keyword hv .nilWord)
  | string s => exact absurd rfl (hs s)
  | bool b =>
    cases v' with
    | number y => exact absurd (h.symm.trans (hbool b)) (write_ne_keyword hv' _)
    | string s => exact absurd rfl (hs' s)
    | bool b' => cases b <;> cases b' <;> first | rfl | simp [Value.text] at h
    | nil => cases b <;> simp [Value.text] at h
  | nil =>
    cases v' with
    | number y => exact absurd h.symm (write_ne_keyword hv' .nilWord)
    | string s => exact absurd rfl (hs' s)
    | bool b => cases b <;> simp [Value.text] at h
    | nil => rfl

section Operators

variable {op op' : Token} {os os' : List Symbol}

theorem isWord_lexeme (h : op.Spells os) (hos : ∀ o ∈ os, o ≠ .leftParen ∧ o ≠ .rightParen) :
    IsWord op.lexeme.toList := by
  obtain ⟨o, ho, -, hlexeme, -⟩ := h
  rw [hlexeme]
  exact isWord_symbol (hos o ho).1 (hos o ho).2

theorem lexeme_ne_group (h : op.Spells os) : op.lexeme.toList ≠ "group".toList := by
  obtain ⟨o, -, -, hlexeme, -⟩ := h
  rw [hlexeme]
  cases o <;> simp [Symbol.text]

/-- An operator is known from its lexeme, up to its line. -/
theorem mapLine_eq_of_lexeme (h : op.Spells os) (h' : op'.Spells os')
    (hlexeme : op.lexeme.toList = op'.lexeme.toList) :
    op.mapLine (fun _ => 0) = op'.mapLine (fun _ => 0) := by
  obtain ⟨o, -, hkind, htext, hliteral⟩ := h
  obtain ⟨o', -, hkind', htext', hliteral'⟩ := h'
  have hsame : o = o' := by
    apply Symbol.text_inj
    rw [← htext, ← htext']
    exact String.toList_inj.mp hlexeme
  simp only [Token.mapLine, hkind, hkind', htext, htext', hliteral, hliteral', hsame]

end Operators

/-- The first word of the canonical form. -/
def firstWord : Expr → List Char
  | .literal v => v.text.toList
  | .group _ => "group".toList
  | .unary op _ => op.lexeme.toList
  | .binary _ op _ => op.lexeme.toList

/-- What stands behind the first word in a text that goes on with `rest` behind the tree. -/
def behind (rest : List Char) : Expr → List Char
  | .literal _ => rest
  | .group e => ' ' :: (e.text.toList ++ ')' :: rest)
  | .unary _ e => ' ' :: (e.text.toList ++ ')' :: rest)
  | .binary l _ r => ' ' :: (l.text.toList ++ ' ' :: (r.text.toList ++ ')' :: rest))

/-- A parenthesis stands before the first word, except that of a literal. -/
def isNode : Expr → Bool
  | .literal _ => false
  | _ => true

theorem text_append_literal {e : Expr} (h : isNode e = false) (rest : List Char) :
    e.text.toList ++ rest = firstWord e ++ behind rest e := by
  cases e with
  | literal v => rfl
  | _ => cases h

theorem text_append_node {e : Expr} (h : isNode e = true) (rest : List Char) :
    e.text.toList ++ rest = '(' :: (firstWord e ++ behind rest e) := by
  cases e with
  | literal v => cases h
  | _ => simp [Expr.text, firstWord, behind]

theorem isWord_firstWord {e : Expr} (he : e.Scanned) (hs : e.NoString) : IsWord (firstWord e) := by
  cases e with
  | literal v => exact isWord_value he hs
  | group e => exact isWord_group
  | unary op e => exact isWord_lexeme he.1 (by decide)
  | binary l op r => exact isWord_lexeme he.2.1 (by decide)

theorem closes_behind {rest : List Char} (hrest : Closes rest) (e : Expr) :
    Closes (behind rest e) := by
  cases e with
  | literal v => exact hrest
  | _ => exact closes_space _

section Decoding

variable {e e' : Expr} {rest rest' : List Char}

/-- A text that starts with a canonical form shows whether it is that of a literal, its first word
and what stands behind. -/
theorem firstWord_inj (h : e.text.toList ++ rest = e'.text.toList ++ rest')
    (hrest : Closes rest) (hrest' : Closes rest') (he : e.Scanned) (he' : e'.Scanned)
    (hs : e.NoString) (hs' : e'.NoString) :
    isNode e = isNode e' ∧ firstWord e = firstWord e' ∧ behind rest e = behind rest' e' := by
  have hword := isWord_firstWord he hs
  have hword' := isWord_firstWord he' hs'
  have hcloses := closes_behind hrest e
  have hcloses' := closes_behind hrest' e'
  cases hnode : isNode e <;> cases hnode' : isNode e'
  · rw [text_append_literal hnode, text_append_literal hnode'] at h
    exact ⟨rfl, hword.append_inj hword' hcloses hcloses' h⟩
  · rw [text_append_literal hnode, text_append_node hnode'] at h
    exact absurd h (hword.append_ne_paren _ _)
  · rw [text_append_node hnode, text_append_literal hnode'] at h
    exact absurd h.symm (hword'.append_ne_paren _ _)
  · rw [text_append_node hnode, text_append_node hnode'] at h
    exact ⟨rfl, hword.append_inj hword' hcloses hcloses' (List.cons.inj h).2⟩

/-- Two trees whose canonical forms start a text are the same up to lines and leave the same
rest. -/
theorem text_append_inj (h : e.text.toList ++ rest = e'.text.toList ++ rest')
    (hrest : Closes rest) (hrest' : Closes rest') (he : e.Scanned) (he' : e'.Scanned)
    (hs : e.NoString) (hs' : e'.NoString) :
    e.mapLine (fun _ => 0) = e'.mapLine (fun _ => 0) ∧ rest = rest' := by
  induction e generalizing e' rest rest' with
  | literal v =>
    obtain ⟨hnode, hword, hbehind⟩ := firstWord_inj h hrest hrest' he he' hs hs'
    cases e' with
    | literal v' =>
      have hv := value_text_inj he he' hs hs' (String.toList_inj.mp hword)
      exact ⟨congrArg Expr.literal hv, hbehind⟩
    | _ => cases hnode
  | group e ih =>
    obtain ⟨hnode, hword, hbehind⟩ := firstWord_inj h hrest hrest' he he' hs hs'
    cases e' with
    | literal v' => cases hnode
    | group e' =>
      obtain ⟨hinner, hclosing⟩ :=
        ih (List.cons.inj hbehind).2 (closes_paren _) (closes_paren _) he he' hs hs'
      exact ⟨congrArg Expr.group hinner, (List.cons.inj hclosing).2⟩
    | unary op' e' => exact absurd hword.symm (lexeme_ne_group he'.1)
    | binary l' op' r' => exact absurd hword.symm (lexeme_ne_group he'.2.1)
  | unary op e ih =>
    obtain ⟨hnode, hword, hbehind⟩ := firstWord_inj h hrest hrest' he he' hs hs'
    cases e' with
    | literal v' => cases hnode
    | group e' => exact absurd hword (lexeme_ne_group he.1)
    | unary op' e' =>
      obtain ⟨hoperand, hclosing⟩ :=
        ih (List.cons.inj hbehind).2 (closes_paren _) (closes_paren _) he.2 he'.2 hs hs'
      have hop := mapLine_eq_of_lexeme he.1 he'.1 hword
      exact ⟨congrArg₂ Expr.unary hop hoperand, (List.cons.inj hclosing).2⟩
    | binary l' op' r' =>
      -- The operators may be the same, but a parenthesis follows the operand of the one node and a
      -- blank that of the other.
      obtain ⟨-, hafter⟩ :=
        ih (List.cons.inj hbehind).2 (closes_paren _) (closes_space _) he.2 he'.1 hs hs'.1
      exact absurd (List.cons.inj hafter).1 (by decide)
  | binary l op r ihl ihr =>
    obtain ⟨hnode, hword, hbehind⟩ := firstWord_inj h hrest hrest' he he' hs hs'
    cases e' with
    | literal v' => cases hnode
    | group e' => exact absurd hword (lexeme_ne_group he.2.1)
    | unary op' e' =>
      obtain ⟨-, hafter⟩ :=
        ihl (List.cons.inj hbehind).2 (closes_space _) (closes_paren _) he.1 he'.2 hs.1 hs'
      exact absurd (List.cons.inj hafter).1 (by decide)
    | binary l' op' r' =>
      obtain ⟨hleft, hafter⟩ :=
        ihl (List.cons.inj hbehind).2 (closes_space _) (closes_space _) he.1 he'.1 hs.1 hs'.1
      obtain ⟨hright, hclosing⟩ := ihr (List.cons.inj hafter).2 (closes_paren _) (closes_paren _)
        he.2.2 he'.2.2 hs.2 hs'.2
      have hop := mapLine_eq_of_lexeme he.2.1 he'.2.1 hword
      refine ⟨?_, (List.cons.inj hclosing).2⟩
      simp only [Expr.mapLine, hleft, hop, hright]

end Decoding

/-- The canonical form tells trees that were read from texts apart, if they hold no string. It is
the same for two of them exactly if they are the same tree up to the lines of their operators, with
each number the same bit for bit. -/
theorem canonical_form_faithful {source source' : String} {e e' : Expr}
    (he : Expr.ofTokens (Scan.ofText source).tokens = .ok e)
    (he' : Expr.ofTokens (Scan.ofText source').tokens = .ok e') (hs : e.NoString)
    (hs' : e'.NoString) :
    e.text = e'.text ↔ e.mapLine (fun _ => 0) = e'.mapLine (fun _ => 0) := by
  constructor
  · intro h
    have htext : e.text.toList ++ [] = e'.text.toList ++ [] := by rw [h]
    exact (text_append_inj htext closes_nil closes_nil (Expr.scanned_of_text he)
      (Expr.scanned_of_text he') hs hs').1
  · intro h
    rw [← Expr.text_mapLine (fun _ => 0) e, h, Expr.text_mapLine]

/-- The opposite of one, with its operator on the given line. -/
def negation (line : Nat) : Expr :=
  .unary (Symbol.minus.token line) (.literal (.number 1))

/-- One may be written with a fraction, and the operator may stand on another line. -/
theorem canonical_form_faithful_negation :
    Expr.ofTokens (Scan.ofText "-1").tokens = .ok (negation 1) ∧
      Expr.ofTokens (Scan.ofText "\n-1.0").tokens = .ok (negation 2) ∧
      (negation 1).text = (negation 2).text := by
  have hparse (line : Nat) (lexeme : String) :
      Expr.ofTokens [Symbol.minus.token line, ⟨.number, lexeme, some (.number 1), line⟩,
        .endOfInput line] = .ok (negation line) := rfl
  have hplain : Expr.ofTokens (Scan.ofText "-1").tokens = .ok (negation 1) := by
    have hcut : Piece.cut "-1".toList = [⟨.symbol .minus, ['-']⟩, ⟨.number, ['1']⟩] := by cbv
    have hread : Numeral.read? ['1'] = some 1 := by decide +kernel
    rw [Scan.ofText, hcut, ← hparse 1 "1"]
    simp [entriesFrom, Piece.entry?, hread, Piece.lineBreaks, Scan.ofEntries, Piece.lexeme,
      Symbol.token, Symbol.text]
  have hfraction : Expr.ofTokens (Scan.ofText "\n-1.0").tokens = .ok (negation 2) := by
    have hcut : Piece.cut "\n-1.0".toList =
        [⟨.blank, ['\n']⟩, ⟨.symbol .minus, ['-']⟩, ⟨.number, ['1', '.', '0']⟩] := by cbv
    have hread : Numeral.read? ['1', '.', '0'] = some 1 := by decide +kernel
    rw [Scan.ofText, hcut, ← hparse 2 "1.0"]
    simp [entriesFrom, Piece.entry?, hread, Piece.lineBreaks, Scan.ofEntries, Piece.lexeme,
      Symbol.token, Symbol.text]
  have hs (line : Nat) : (negation line).NoString := by
    intro s h
    cases h
  exact ⟨hplain, hfraction, (canonical_form_faithful hplain hfraction (hs 1) (hs 2)).mpr rfl⟩

end CanonicalForm

end Reckoner
