import Reckoner.Proofs.ByteOffsets
import Reckoner.Proofs.Occurrences

/-!
Positions that a walk through a text reaches. Whatever a walk does, each position that it holds
stands some whole characters behind the start of the text. So its offset is the length in bytes of
the text that was passed, its line is the one on which that text ends, and the slice between two
positions is the text that lies between them.
-/

namespace Reckoner

namespace Position

/-- The text before a position. -/
def passed (p : Position) : List Char := p.source.take (p.source.length - p.rest.length)

/-- Passes a number of characters, as far as there are any. -/
def skip (p : Position) (n : Nat) : Position :=
  ⟨p.source, p.rest.drop n, lineAfter p.line (p.rest.take n)⟩

theorem lineAfter_append (line : Nat) (a b : List Char) :
    lineAfter line (a ++ b) = lineAfter (lineAfter line a) b := List.foldl_append ..

theorem lineAfter_eq (line : Nat) (cs : List Char) :
    lineAfter line cs = line + cs.count '\n' := by
  induction cs generalizing line with
  | nil => rfl
  | cons c cs ih =>
    have hnext : lineAfter line (c :: cs) = lineAfter (if c = '\n' then line + 1 else line) cs :=
      rfl
    rw [hnext, ih, List.count_cons]
    by_cases hc : c = '\n'
    · simp only [hc, if_true, BEq.rfl]
      omega
    · simp [hc]

theorem skip_zero (p : Position) : p.skip 0 = p := rfl

theorem skip_skip (p : Position) (m n : Nat) : (p.skip m).skip n = p.skip (m + n) := by
  simp only [skip, List.drop_drop, List.take_add, lineAfter_append]

/-- There is nothing to pass at the end of the text. -/
theorem skip_of_rest_eq_nil {p : Position} (h : p.rest = []) (n : Nat) : p.skip n = p := by
  obtain ⟨source, rest, line⟩ := p
  obtain rfl : rest = [] := h
  simp [skip, lineAfter]

/-!
Each way to move on passes a number of characters.
-/

theorem next_eq (p : Position) : p.next = (p.rest[0]?, p.skip 1) := by
  obtain ⟨source, rest, line⟩ := p
  cases rest with
  | nil => rfl
  | cons c rest => rfl

theorem nth_eq (p : Position) (n : Nat) : p.nth n = (p.rest[n]?, p.skip (n + 1)) := by
  induction n generalizing p with
  | zero => exact p.next_eq
  | succ n ih =>
    rw [nth, next_eq]
    cases hrest : p.rest with
    | nil => simp [skip_of_rest_eq_nil hrest]
    | cons c rest =>
      simp only [List.getElem?_cons_zero, List.getElem?_cons_succ, ih, skip_skip, Nat.add_comm 1]
      simp [skip, hrest]

theorem nextIf_eq (p : Position) (c : Char) :
    p.nextIf c = (decide (p.rest[0]? = some c), p.skip (if p.rest[0]? = some c then 1 else 0)) := by
  rw [nextIf, peek?, next_eq]
  by_cases hc : p.rest[0]? = some c
  · simp [hc]
  · simp [hc, skip_zero]

theorem advanceWhile_eq (p : Position) (test : Char → Bool) :
    p.advanceWhile test = p.skip (p.rest.takeWhile test).length := by
  have hdrop : p.rest.drop (p.rest.takeWhile test).length = p.rest.dropWhile test := by
    calc p.rest.drop (p.rest.takeWhile test).length
        = (p.rest.takeWhile test ++ p.rest.dropWhile test).drop (p.rest.takeWhile test).length := by
          rw [List.takeWhile_append_dropWhile]
      _ = p.rest.dropWhile test := List.drop_left
  rw [advanceWhile, skip, hdrop, Piece.take_length_takeWhile]

/-!
Positions some characters behind the start of a text.
-/

section

variable {source : String} {p q : Position}

/-- Whether a position stands some characters behind the start of a text. -/
def In (source : String) (p : Position) : Prop := ∃ n, p = (ofText source).skip n

theorem In.skip (h : In source p) (n : Nat) : In source (p.skip n) := by
  obtain ⟨m, rfl⟩ := h
  exact ⟨m + n, skip_skip ..⟩

theorem In.source_eq (h : In source p) : p.source = source.toList := by
  obtain ⟨n, rfl⟩ := h
  rfl

theorem passed_of_append {a : List Char} (h : p.source = a ++ p.rest) : p.passed = a := by
  rw [passed, h, List.length_append, Nat.add_sub_cancel, List.take_left]

theorem passed_skip_ofText (source : String) (n : Nat) :
    ((ofText source).skip n).passed = source.toList.take n :=
  passed_of_append (List.take_append_drop n source.toList).symm

theorem In.passed_append_rest (h : In source p) : p.passed ++ p.rest = source.toList := by
  obtain ⟨n, rfl⟩ := h
  rw [passed_skip_ofText]
  exact List.take_append_drop n source.toList

theorem In.line_eq (h : In source p) : p.line = lineNumber p.passed := by
  obtain ⟨n, rfl⟩ := h
  rw [passed_skip_ofText]
  exact lineAfter_eq 1 (source.toList.take n)

theorem In.byteLength_passed (h : In source p) : byteLength p.passed = p.offset := by
  rw [offset, h.source_eq, ← h.passed_append_rest, byteLength_append, Nat.add_sub_cancel]

theorem In.passed_prefix (h : In source p) : p.passed <+: source.toList :=
  ⟨p.rest, h.passed_append_rest⟩

theorem In.isValid_offset (h : In source p) : String.Pos.Raw.IsValid source ⟨p.offset⟩ := by
  apply String.Pos.Raw.isValid_iff_exists_take_toList.mpr
  refine ⟨p.passed.length, ?_⟩
  rw [← List.prefix_iff_eq_take.mp h.passed_prefix, utf8ByteSize_ofList, h.byteLength_passed]

theorem In.drop_offset (h : In source p) :
    (Utf8.encode source).drop p.offset = Utf8.encode (String.ofList p.rest) := by
  have hsource : source = String.ofList (p.passed ++ p.rest) := by
    rw [h.passed_append_rest, String.ofList_toList]
  have hlength : (Utf8.encode (String.ofList p.passed)).length = p.offset := by
    rw [Utf8.length_encode_ofList, h.byteLength_passed]
  rw [hsource, Utf8.encode_ofList_append, ← hlength, List.drop_left]

/-- The text that a position passes. -/
theorem In.passed_skip (h : In source p) (n : Nat) :
    (p.skip n).passed = p.passed ++ p.rest.take n := by
  apply passed_of_append
  have hrest : (p.skip n).rest = p.rest.drop n := rfl
  rw [(h.skip n).source_eq, hrest, List.append_assoc, List.take_append_drop, h.passed_append_rest]

theorem In.passed_prefix_iff (hp : In source p) (hq : In source q) :
    p.passed <+: q.passed ↔ p.offset ≤ q.offset := by
  rw [← hp.byteLength_passed, ← hq.byteLength_passed]
  constructor
  · rintro ⟨t, ht⟩
    rw [← ht, byteLength_append]
    exact Nat.le_add_right _ _
  · exact prefix_of_byteLength_le hp.passed_prefix hq.passed_prefix

theorem In.eq_passed (h : In source p) {a : List Char} (ha : a ++ p.rest = source.toList) :
    a = p.passed := List.append_cancel_right (ha.trans h.passed_append_rest.symm)

/-- A slice joins the text before its start and the text behind its end to the whole. -/
theorem In.sliceTo?_eq_some_iff (hp : In source p) (hq : In source q) {text : List Char} :
    p.sliceTo? q = some text ↔ p.passed ++ text ++ q.rest = source.toList := by
  rw [sliceTo?, if_pos (hp.source_eq.trans hq.source_eq.symm), slice?_eq_some_iff, hp.source_eq]
  constructor
  · rintro ⟨a, b, hsplit, hstart, hstop⟩
    have ha : a = p.passed := by
      apply eq_of_byteLength_eq _ hp.passed_prefix (hstart.trans hp.byteLength_passed.symm)
      exact ⟨text ++ b, by rw [hsplit, List.append_assoc]⟩
    have hat : a ++ text = q.passed := by
      apply eq_of_byteLength_eq _ hq.passed_prefix (hstop.trans hq.byteLength_passed.symm)
      exact ⟨b, hsplit.symm⟩
    rw [← ha, hat, hq.passed_append_rest]
  · intro hsplit
    refine ⟨p.passed, q.rest, hsplit.symm, hp.byteLength_passed, ?_⟩
    rw [hq.eq_passed hsplit, hq.byteLength_passed]

theorem In.sliceTo?_eq_none_iff (hp : In source p) (hq : In source q) :
    p.sliceTo? q = none ↔ q.offset < p.offset := by
  rw [← Nat.not_le, ← hp.passed_prefix_iff hq]
  constructor
  · rintro hnone ⟨text, htext⟩
    have hsome : p.sliceTo? q = some text := by
      rw [hp.sliceTo?_eq_some_iff hq, htext, hq.passed_append_rest]
    rw [hnone] at hsome
    cases hsome
  · intro hbehind
    cases hslice : p.sliceTo? q with
    | none => rfl
    | some text =>
      have hsplit := (hp.sliceTo?_eq_some_iff hq).mp hslice
      exact absurd ⟨text, hq.eq_passed hsplit⟩ hbehind

end

end Position

/-- A position that moves on, and positions that were kept to go back to. -/
structure Walk where
  current : Position
  kept : List Position

namespace Walk

/-- What may be done on a walk. A kept position is named by its index. -/
inductive Operation
  | next
  | nth (n : Nat)
  | nextIf (c : Char)
  | advanceWhile (test : Char → Bool)
  | peek
  | peekNext
  | isAtEnd
  | keep
  | goBack (i : Nat)
  | compare (i : Nat)
  | sliceFrom (i : Nat)
  | sliceTo (i : Nat)

/-- What an operation answers. -/
inductive Answer
  | moved
  | character (c : Option Char)
  | decided (b : Bool)
  | text (t : Option (List Char))
  | notKept

def start (source : String) : Walk := ⟨.ofText source, []⟩

def moveTo (w : Walk) (p : Position) : Walk := ⟨p, w.kept⟩

/-- An answer about a kept position. -/
def about (w : Walk) (i : Nat) (answer : Position → Answer) : Answer :=
  match w.kept[i]? with
  | some p => answer p
  | none => .notKept

def perform (w : Walk) : Operation → Answer × Walk
  | .next => (.character w.current.next.1, w.moveTo w.current.next.2)
  | .nth n => (.character (w.current.nth n).1, w.moveTo (w.current.nth n).2)
  | .nextIf c => (.decided (w.current.nextIf c).1, w.moveTo (w.current.nextIf c).2)
  | .advanceWhile test => (.moved, w.moveTo (w.current.advanceWhile test))
  | .peek => (.character w.current.peek?, w)
  | .peekNext => (.character w.current.peekNext?, w)
  | .isAtEnd => (.decided w.current.isAtEnd, w)
  | .keep => (.moved, ⟨w.current, w.kept ++ [w.current]⟩)
  | .goBack i => (w.about i fun _ => .moved, w.moveTo (w.kept[i]?.getD w.current))
  | .compare i => (w.about i fun p => .decided (p == w.current), w)
  | .sliceFrom i => (w.about i fun p => .text (p.sliceTo? w.current), w)
  | .sliceTo i => (w.about i fun p => .text (w.current.sliceTo? p), w)

/-- The walk after some operations. -/
def after (w : Walk) (ops : List Operation) : Walk :=
  ops.foldl (fun w op => (w.perform op).2) w

/-- The positions that a walk holds. -/
def held (w : Walk) : List Position := w.current :: w.kept

variable {w : Walk} {p : Position}

theorem current_mem_held (w : Walk) : w.current ∈ w.held := List.mem_cons_self ..

theorem exists_skip_of_mem_moveTo {q : Position} (hq : ∃ r ∈ w.held, ∃ n, q = r.skip n)
    (h : p ∈ (w.moveTo q).held) : ∃ r ∈ w.held, ∃ n, p = r.skip n := by
  rcases List.mem_cons.mp h with rfl | hkept
  · exact hq
  · exact ⟨p, List.mem_cons_of_mem _ hkept, 0, rfl⟩

/-- Each position held after an operation is one that was held before, some characters on. -/
theorem exists_skip_of_mem_perform {op : Operation} (h : p ∈ (w.perform op).2.held) :
    ∃ q ∈ w.held, ∃ n, p = q.skip n := by
  have hmove : ∀ n, ∃ q ∈ w.held, ∃ m, w.current.skip n = q.skip m :=
    fun n => ⟨w.current, w.current_mem_held, n, rfl⟩
  cases op with
  | next =>
    rw [perform, Position.next_eq] at h
    exact exists_skip_of_mem_moveTo (hmove _) h
  | nth n =>
    rw [perform, Position.nth_eq] at h
    exact exists_skip_of_mem_moveTo (hmove _) h
  | nextIf c =>
    rw [perform, Position.nextIf_eq] at h
    exact exists_skip_of_mem_moveTo (hmove _) h
  | advanceWhile test =>
    rw [perform, Position.advanceWhile_eq] at h
    exact exists_skip_of_mem_moveTo (hmove _) h
  | keep =>
    have hheld : p ∈ w.held := by
      rcases List.mem_append.mp (show p ∈ w.held ++ [w.current] from h) with hheld | hlast
      · exact hheld
      · rw [List.mem_singleton.mp hlast]
        exact w.current_mem_held
    exact ⟨p, hheld, 0, rfl⟩
  | goBack i =>
    have hback : w.kept[i]?.getD w.current ∈ w.held := by
      cases hi : w.kept[i]? with
      | none => exact w.current_mem_held
      | some q => exact List.mem_cons_of_mem _ (List.mem_of_getElem? hi)
    exact exists_skip_of_mem_moveTo ⟨_, hback, 0, rfl⟩ h
  | peek => exact ⟨p, h, 0, rfl⟩
  | peekNext => exact ⟨p, h, 0, rfl⟩
  | isAtEnd => exact ⟨p, h, 0, rfl⟩
  | compare i => exact ⟨p, h, 0, rfl⟩
  | sliceFrom i => exact ⟨p, h, 0, rfl⟩
  | sliceTo i => exact ⟨p, h, 0, rfl⟩

theorem exists_skip_of_mem_after {ops : List Operation} (h : p ∈ (w.after ops).held) :
    ∃ q ∈ w.held, ∃ n, p = q.skip n := by
  induction ops generalizing w with
  | nil => exact ⟨p, h, 0, rfl⟩
  | cons op rest ih =>
    obtain ⟨q, hq, n, rfl⟩ := ih h
    obtain ⟨r, hr, m, rfl⟩ := exists_skip_of_mem_perform hq
    exact ⟨r, hr, m + n, Position.skip_skip ..⟩

theorem in_current_after_start (source : String) (ops : List Operation) :
    Position.In source ((start source).after ops).current := by
  obtain ⟨q, hq, n, heq⟩ := exists_skip_of_mem_after ((start source).after ops).current_mem_held
  obtain rfl := List.mem_singleton.mp hq
  exact ⟨n, heq⟩

end Walk

/-- The longest part in front of a text whose characters all pass a test. -/
structure Longest (test : Char → Bool) (text part : List Char) : Prop where
  front : part <+: text
  passes : ∀ c ∈ part, test c = true
  greatest : ∀ other, other <+: text → (∀ c ∈ other, test c = true) → other <+: part

theorem longest_takeWhile (test : Char → Bool) (text : List Char) :
    Longest test text (text.takeWhile test) where
  front := List.takeWhile_prefix test
  passes _ hc := List.mem_takeWhile_imp hc
  greatest other hother hall := by
    obtain ⟨rest, rfl⟩ := hother
    rw [List.takeWhile_append_of_pos hall]
    exact List.prefix_append ..

namespace Walk

open Position (In)

/-- After any operations the position stands between two characters of the text, what is left is
the text from its offset on, and its line counts the line feeds that were passed. Advancing passes
the longest part that passes the test. A slice from one such position to another fails exactly if
their texts differ or the end stands before the start, and else it is the text between them. -/
theorem walks_stay_between_characters :
    (∀ (source : String) (ops : List Operation),
      let p := ((start source).after ops).current
      p.source = source.toList ∧
        p.passed ++ p.rest = source.toList ∧
        byteLength p.passed = p.offset ∧
        String.Pos.Raw.IsValid source ⟨p.offset⟩ ∧
        (Utf8.encode source).drop p.offset = Utf8.encode (String.ofList p.rest) ∧
        p.line = 1 + p.passed.count '\n' ∧
        ∀ test, ∃ part, Longest test p.rest part ∧
          (p.advanceWhile test).passed = p.passed ++ part ∧
          part ++ (p.advanceWhile test).rest = p.rest) ∧
    ∀ (source other : String) (ops others : List Operation),
      let p := ((start source).after ops).current
      let q := ((start other).after others).current
      (p.sliceTo? q = none ↔ source ≠ other ∨ q.offset < p.offset) ∧
        ∀ text, p.sliceTo? q = some text ↔
          source = other ∧ p.passed ++ text ++ q.rest = source.toList := by
  constructor
  · intro source ops p
    have h : In source p := in_current_after_start source ops
    refine ⟨h.source_eq, h.passed_append_rest, h.byteLength_passed, h.isValid_offset,
      h.drop_offset, h.line_eq, fun test => ?_⟩
    refine ⟨p.rest.takeWhile test, longest_takeWhile test p.rest, ?_, ?_⟩
    · rw [p.advanceWhile_eq, h.passed_skip, Piece.take_length_takeWhile]
    · exact List.takeWhile_append_dropWhile
  · intro source other ops others p q
    have hp : In source p := in_current_after_start source ops
    have hq : In other q := in_current_after_start other others
    by_cases hsame : source = other
    · subst hsame
      exact ⟨by simpa using hp.sliceTo?_eq_none_iff hq,
        fun text => by simpa using hp.sliceTo?_eq_some_iff hq⟩
    · have hne : p.source ≠ q.source := by
        rw [hp.source_eq, hq.source_eq]
        exact fun htexts => hsame (String.toList_inj.mp htexts)
      have hnone : p.sliceTo? q = none := if_neg hne
      simp [hnone, hsame]

/-- The line feed between the position that was kept and the one that moved on. -/
example : (((start "é\nx").after [.next, .keep, .next]).perform (.sliceFrom 0)).1 =
    .text (some ['\n']) := rfl

end Walk

end Reckoner
