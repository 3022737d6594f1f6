import Reckoner.Expr.Reading

/-!
The grammar of expressions. Every rule but the last is a chain of operands, read by the next rule,
with operators of the rule between them; a chain is joined from the left, so that an operator
takes all that stands before it as its left operand. A derivation gives the tree of its tokens.
-/

namespace Reckoner.Grammar

/-- The rules from the loosest to the tightest. -/
inductive Rule
  | expression
  | equality
  | comparison
  | term
  | factor
  | unary
  | primary
  deriving DecidableEq

namespace Rule

/-- The operators between the operands of a chain. -/
def operators : Rule → List Symbol
  | equality => [.bangEqual, .equalEqual]
  | comparison => [.greater, .greaterEqual, .less, .lessEqual]
  | term => [.minus, .plus]
  | factor => [.slash, .star]
  | _ => []

/-- The rule of the operands of a chain. -/
def operand? : Rule → Option Rule
  | expression => some equality
  | equality => some comparison
  | comparison => some term
  | term => some factor
  | factor => some unary
  | unary => some primary
  | primary => none

/-- How tightly the operators of a rule bind. -/
def level : Rule → Nat
  | expression | equality => 0
  | comparison => 1
  | term => 2
  | factor => 3
  | unary | primary => 4

/-- The tightest chain of a level, and above the levels of binary operators a unary expression. -/
def ofLevel : Nat → Rule
  | 0 => equality
  | 1 => comparison
  | 2 => term
  | 3 => factor
  | _ => unary

theorem operand?_ofLevel {l : Nat} (hl : l ≤ 3) :
    (ofLevel l).operand? = some (ofLevel (l + 1)) := by
  have hcases : l = 0 ∨ l = 1 ∨ l = 2 ∨ l = 3 := by omega
  rcases hcases with rfl | rfl | rfl | rfl <;> rfl

/-- The operands of a chain with operators bind more tightly than the chain. -/
theorem level_lt_of_operand? {r s : Rule} (hs : r.operand? = some s) (hr : r.operators ≠ []) :
    r.level < s.level := by
  cases r <;> cases hs <;> simp_all [level, operators]

theorem level_le_of_operand? {r s : Rule} (hs : r.operand? = some s) : r.level ≤ s.level := by
  cases r <;> cases hs <;> simp [level]

theorem level_le_of_operators {r : Rule} (hr : r.operators ≠ []) : r.level ≤ 3 := by
  cases r <;> simp_all [level, operators]

/-- The operators of a rule are those whose level is the level of the rule. -/
theorem level?_of_mem_operators {r : Rule} {o : Symbol} (ho : o ∈ r.operators) :
    o.level? = some r.level := by
  cases r <;> simp only [operators, List.mem_cons, List.not_mem_nil, or_false] at ho <;>
    rcases ho with rfl | rfl | rfl | rfl <;> rfl

theorem mem_operators_ofLevel {o : Symbol} {l : Nat} (h : o.level? = some l) :
    o ∈ (ofLevel l).operators ∧ l ≤ 3 := by
  cases o <;> simp only [Symbol.level?, Option.some.injEq, reduceCtorEq] at h <;> subst h <;>
    simp [ofLevel, operators]

end Rule

/-- The operators in front of a unary expression. -/
def prefixes : List Symbol := [.bang, .minus]

/-- The operators between two operands. -/
def binaryOperators : List Symbol :=
  [.equalEqual, .bangEqual, .greater, .greaterEqual, .less, .lessEqual, .minus, .plus, .slash,
    .star]

/-- What a derivation is of: a rule, or the rest of a chain whose operands so far are joined. -/
inductive Phrase
  | rule (r : Rule)
  | more (r : Rule) (joined : Expr)

/-- The tokens that a phrase derives, and their tree. -/
inductive Derives : Phrase → List Token → Expr → Prop
  | chain {r s : Rule} {ts us : List Token} {first e : Expr} (hs : r.operand? = some s)
      (hfirst : Derives (.rule s) ts first) (hmore : Derives (.more r first) us e) :
      Derives (.rule r) (ts ++ us) e
  | done {r : Rule} {e : Expr} : Derives (.more r e) [] e
  | more {r s : Rule} {o : Symbol} {op : Token} {ts us : List Token} {left right e : Expr}
      (hop : op.kind = .symbol o) (ho : o ∈ r.operators) (hs : r.operand? = some s)
      (hright : Derives (.rule s) ts right)
      (hmore : Derives (.more r (.binary left op right)) us e) :
      Derives (.more r left) (op :: (ts ++ us)) e
  | unary {o : Symbol} {op : Token} {ts : List Token} {e : Expr} (hop : op.kind = .symbol o)
      (ho : o ∈ prefixes) (he : Derives (.rule .unary) ts e) :
      Derives (.rule .unary) (op :: ts) (.unary op e)
  | number {t : Token} {l : Literal} (ht : t.kind = .number) (hl : t.literal = some l) :
      Derives (.rule .primary) [t] (.literal l.value)
  | string {t : Token} {l : Literal} (ht : t.kind = .string) (hl : t.literal = some l) :
      Derives (.rule .primary) [t] (.literal l.value)
  | trueWord {t : Token} (ht : t.kind = .keyword .trueWord) :
      Derives (.rule .primary) [t] (.literal (.bool true))
  | falseWord {t : Token} (ht : t.kind = .keyword .falseWord) :
      Derives (.rule .primary) [t] (.literal (.bool false))
  | nilWord {t : Token} (ht : t.kind = .keyword .nilWord) :
      Derives (.rule .primary) [t] (.literal .nil)
  | group {opening closing : Token} {ts : List Token} {e : Expr}
      (hopening : opening.kind = .symbol .leftParen)
      (hclosing : closing.kind = .symbol .rightParen) (he : Derives (.rule .expression) ts e) :
      Derives (.rule .primary) (opening :: (ts ++ [closing])) (.group e)

/-- What a token adds to an expression. -/
inductive Item
  | value (v : Value)
  | operator (op : Token)
  | opening
  | closing

def itemOf (t : Token) : Item :=
  match t.operand? with
  | some v => .value v
  | none => if t.opensGroup then .opening else if t.closesGroup then .closing else .operator t

/-- The items of a tree in the order in which they are written. -/
def items : Expr → List Item
  | .literal v => [.value v]
  | .group e => .opening :: (items e ++ [.closing])
  | .unary op e => .operator op :: items e
  | .binary left op right => items left ++ .operator op :: items right

/-- Each of them belongs to a chain. -/
theorem exists_level_of_binary {o : Symbol} (ho : o ∈ binaryOperators) :
    ∃ l, l ≤ 3 ∧ o ∈ (Rule.ofLevel l).operators := by
  have hlevels : ∀ o ∈ binaryOperators, o.level?.isSome = true := by decide
  obtain ⟨l, hl⟩ := Option.isSome_iff_exists.mp (hlevels o ho)
  obtain ⟨hmem, hle⟩ := Rule.mem_operators_ofLevel hl
  exact ⟨l, hle, hmem⟩

/-- A symbol that is no parenthesis counts as an operator. -/
theorem itemOf_operator {op : Token} {o : Symbol} (hop : op.kind = .symbol o)
    (hleft : o ≠ .leftParen) (hright : o ≠ .rightParen) : itemOf op = .operator op := by
  simp [itemOf, Token.operand?, Token.opensGroup, Token.closesGroup, hop, hleft, hright]

theorem itemOf_opening {t : Token} (h : t.kind = .symbol .leftParen) : itemOf t = .opening := by
  simp [itemOf, Token.operand?, Token.opensGroup, h]

theorem itemOf_closing {t : Token} (h : t.kind = .symbol .rightParen) : itemOf t = .closing := by
  simp [itemOf, Token.operand?, Token.opensGroup, Token.closesGroup, h]

theorem isUnary_iff {t : Token} :
    t.isUnary = true ↔ ∃ o, t.kind = .symbol o ∧ o ∈ prefixes := by
  simp only [Token.isUnary, prefixes, Bool.or_eq_true, beq_iff_eq, List.mem_cons,
    List.not_mem_nil, or_false]
  constructor
  · intro h
    rcases h with hbang | hminus
    · exact ⟨_, hbang, Or.inl rfl⟩
    · exact ⟨_, hminus, Or.inr rfl⟩
  · intro h
    obtain ⟨o, hkind, rfl | rfl⟩ := h
    · exact Or.inl hkind
    · exact Or.inr hkind

theorem level?_of_operator {r : Rule} {o : Symbol} {op : Token} (hop : op.kind = .symbol o)
    (ho : o ∈ r.operators) : op.level? = some r.level := by
  simp only [Token.level?, hop, Rule.level?_of_mem_operators ho]

theorem operator_of_level? {op : Token} {l : Nat} (h : op.level? = some l) :
    ∃ o, op.kind = .symbol o ∧ o ∈ (Rule.ofLevel l).operators ∧ l ≤ 3 := by
  unfold Token.level? at h
  split at h
  · next o hop => exact ⟨o, hop, Rule.mem_operators_ofLevel h⟩
  · simp at h

theorem itemOf_chain {r : Rule} {o : Symbol} {op : Token} (hop : op.kind = .symbol o)
    (ho : o ∈ r.operators) : itemOf op = .operator op := by
  have hlevel := Rule.level?_of_mem_operators ho
  refine itemOf_operator hop ?_ ?_
  · intro h
    subst h
    simp [Symbol.level?] at hlevel
  · intro h
    subst h
    simp [Symbol.level?] at hlevel

theorem itemOf_prefix {o : Symbol} {op : Token} (hop : op.kind = .symbol o)
    (ho : o ∈ prefixes) : itemOf op = .operator op := by
  refine itemOf_operator hop ?_ ?_
  · intro h
    subst h
    simp [prefixes] at ho
  · intro h
    subst h
    simp [prefixes] at ho

/-- A token that is an operand by itself is derived with its value. -/
theorem derives_operand {t : Token} {v : Value} (h : t.operand? = some v) :
    Derives (.rule .primary) [t] (.literal v) := by
  unfold Token.operand? at h
  split at h
  · next ht => cases h; exact .falseWord ht
  · next ht => cases h; exact .trueWord ht
  · next ht => cases h; exact .nilWord ht
  · next ht =>
    obtain ⟨l, hl, rfl⟩ := Option.map_eq_some_iff.mp h
    exact .number ht hl
  · next ht =>
    obtain ⟨l, hl, rfl⟩ := Option.map_eq_some_iff.mp h
    exact .string ht hl
  · simp at h

namespace Derives

/-- A chain may have a single operand. -/
theorem single {r s : Rule} {ts : List Token} {e : Expr} (hs : r.operand? = some s)
    (he : Derives (.rule s) ts e) : Derives (.rule r) ts e := by
  have h : Derives (.rule r) (ts ++ []) e := .chain hs he .done
  rwa [List.append_nil] at h

theorem more_snoc {r s : Rule} {o : Symbol} {op : Token} {joined left right : Expr}
    {ts us : List Token} (hop : op.kind = .symbol o) (ho : o ∈ r.operators)
    (hs : r.operand? = some s) (hright : Derives (.rule s) us right)
    (hleft : Derives (.more r joined) ts left) :
    Derives (.more r joined) (ts ++ op :: us) (.binary left op right) := by
  generalize hp : Phrase.more r joined = p at hleft
  induction hleft generalizing joined with
  | done =>
    cases hp
    simpa using Derives.more hop ho hs hright .done
  | more hop' ho' hs' hright' _ _ ih =>
    cases hp
    simpa using Derives.more hop' ho' hs' hright' (ih rfl)
  | _ => cases hp

/-- A chain may be continued by an operator and one more operand. -/
theorem snoc {r s : Rule} {o : Symbol} {op : Token} {left right : Expr} {ts us : List Token}
    (hop : op.kind = .symbol o) (ho : o ∈ r.operators) (hs : r.operand? = some s)
    (hleft : Derives (.rule r) ts left) (hright : Derives (.rule s) us right) :
    Derives (.rule r) (ts ++ op :: us) (.binary left op right) := by
  cases hleft with
  | chain hs' hfirst hmore =>
    rw [List.append_assoc]
    exact .chain hs' hfirst (more_snoc hop ho hs hright hmore)
  | _ => simp [Rule.operators] at ho

/-- What a tight rule derives is derived by every looser one. -/
theorem loosen {m n : Nat} {ts : List Token} {e : Expr} (hn : n ≤ m) (hm : m ≤ 4)
    (h : Derives (.rule (.ofLevel m)) ts e) : Derives (.rule (.ofLevel n)) ts e := by
  induction m with
  | zero =>
    have hzero : n = 0 := by omega
    exact hzero ▸ h
  | succ m ih =>
    rcases Nat.eq_or_lt_of_le hn with rfl | hlt
    · exact h
    · exact ih (by omega) (by omega) (.single (Rule.operand?_ofLevel (by omega)) h)

/-- No token of an expression is the end of input. -/
theorem isEnd_eq_false {p : Phrase} {ts : List Token} {e : Expr} (h : Derives p ts e) :
    ∀ t ∈ ts, t.isEnd = false := by
  induction h with
  | chain _ _ _ ihfirst ihmore =>
    intro t ht
    rcases List.mem_append.mp ht with ht | ht
    · exact ihfirst t ht
    · exact ihmore t ht
  | done => simp
  | more hop _ _ _ _ ihright ihmore =>
    intro t ht
    rcases List.mem_cons.mp ht with rfl | ht
    · simp [Token.isEnd, hop]
    rcases List.mem_append.mp ht with ht | ht
    · exact ihright t ht
    · exact ihmore t ht
  | unary hop _ _ ih => simpa [Token.isEnd, hop] using ih
  | group hopening hclosing _ ih =>
    intro t ht
    rcases List.mem_cons.mp ht with rfl | ht
    · simp [Token.isEnd, hopening]
    rcases List.mem_append.mp ht with ht | ht
    · exact ih t ht
    · simp [Token.isEnd, List.mem_singleton.mp ht, hclosing]
  | number ht _ => simp [Token.isEnd, ht]
  | string ht _ => simp [Token.isEnd, ht]
  | trueWord ht => simp [Token.isEnd, ht]
  | falseWord ht => simp [Token.isEnd, ht]
  | nilWord ht => simp [Token.isEnd, ht]

/-- The items that a phrase starts with. -/
def before : Phrase → List Item
  | .rule _ => []
  | .more _ joined => items joined

theorem before_append_map_itemOf {p : Phrase} {ts : List Token} {e : Expr} (h : Derives p ts e) :
    before p ++ ts.map itemOf = items e := by
  induction h with
  | chain _ _ _ ihfirst ihmore =>
    simp only [before, List.nil_append] at ihfirst ihmore ⊢
    rw [List.map_append, ihfirst, ihmore]
  | done => simp [before]
  | more hop ho _ _ _ ihright ihmore =>
    simp only [before, List.nil_append, items] at ihright ihmore ⊢
    rw [List.map_cons, List.map_append, itemOf_chain hop ho, ihright, ← ihmore]
    simp
  | unary hop ho _ ih =>
    simp only [before, List.nil_append, items, List.map_cons, itemOf_prefix hop ho] at ih ⊢
    rw [ih]
  | group hopening hclosing _ ih =>
    simp only [before, List.nil_append, items, List.map_cons, List.map_append, List.map_nil,
      itemOf_opening hopening, itemOf_closing hclosing] at ih ⊢
    rw [ih]
  | number ht hl => simp [before, items, itemOf, Token.operand?, ht, hl]
  | string ht hl => simp [before, items, itemOf, Token.operand?, ht, hl]
  | trueWord ht => simp [before, items, itemOf, Token.operand?, ht]
  | falseWord ht => simp [before, items, itemOf, Token.operand?, ht]
  | nilWord ht => simp [before, items, itemOf, Token.operand?, ht]

/-- The tree of an expression holds what its tokens add to it, all of it and in their order. -/
theorem map_itemOf {r : Rule} {ts : List Token} {e : Expr} (h : Derives (.rule r) ts e) :
    ts.map itemOf = items e :=
  before_append_map_itemOf h

end Derives

end Reckoner.Grammar
