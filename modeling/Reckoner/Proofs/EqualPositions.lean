import Reckoner.Proofs.ReachedPositions

/-!
Equal positions. The comparison of positions leaves out their lines, and so does every answer to an
operation. So walks that hold equal positions answer alike and go on to hold equal positions. A
position that was reached stands on the line that its text and its offset decide, hence nothing that
can be done tells two equal ones apart.
-/

namespace Reckoner

namespace Position

variable {p p' q q' : Position}

theorem beq_iff : (p == q) = true ↔ p.source = q.source ∧ p.rest = q.rest := by
  have hdef : (p == q) = (p.source == q.source && p.rest == q.rest) := rfl
  rw [hdef, Bool.and_eq_true, beq_iff_eq, beq_iff_eq]

theorem beq_skip (h : (p == q) = true) (n : Nat) : (p.skip n == q.skip n) = true := by
  obtain ⟨hsource, hrest⟩ := beq_iff.mp h
  exact beq_iff.mpr ⟨hsource, congrArg (List.drop n) hrest⟩

theorem beq_congr (hp : (p == p') = true) (hq : (q == q') = true) : (p == q) = (p' == q') := by
  obtain ⟨hsource, hrest⟩ := beq_iff.mp hp
  obtain ⟨hsource', hrest'⟩ := beq_iff.mp hq
  rw [Bool.eq_iff_iff, beq_iff, beq_iff, hsource, hrest, hsource', hrest']

theorem offset_congr (h : (p == q) = true) : p.offset = q.offset := by
  obtain ⟨hsource, hrest⟩ := beq_iff.mp h
  rw [offset, offset, hsource, hrest]

theorem sliceTo?_congr (hp : (p == p') = true) (hq : (q == q') = true) :
    p.sliceTo? q = p'.sliceTo? q' := by
  rw [sliceTo?, sliceTo?, offset_congr hp, offset_congr hq, (beq_iff.mp hp).1, (beq_iff.mp hq).1]

/-- Whether some operations on some text lead to a position. -/
def Reachable (p : Position) : Prop :=
  ∃ source ops, p = ((Walk.start source).after ops).current

theorem reachable_iff : p.Reachable ↔ ∃ source, In source p := by
  constructor
  · rintro ⟨source, ops, rfl⟩
    exact ⟨source, Walk.in_current_after_start source ops⟩
  · rintro ⟨source, n, rfl⟩
    cases n with
    | zero => exact ⟨source, [], rfl⟩
    | succ n => exact ⟨source, [.nth n], (congrArg Prod.snd ((ofText source).nth_eq n)).symm⟩

theorem Reachable.skip (h : p.Reachable) (n : Nat) : (p.skip n).Reachable := by
  obtain ⟨source, hin⟩ := reachable_iff.mp h
  exact reachable_iff.mpr ⟨source, hin.skip n⟩

theorem Reachable.line_eq (h : p.Reachable) : p.line = lineNumber p.passed := by
  obtain ⟨source, hin⟩ := reachable_iff.mp h
  exact hin.line_eq

theorem line_congr (hp : p.Reachable) (hq : q.Reachable) (h : (p == q) = true) :
    p.line = q.line := by
  obtain ⟨hsource, hrest⟩ := beq_iff.mp h
  rw [hp.line_eq, hq.line_eq, passed, passed, hsource, hrest]

/-- In one text the offset decides what is left. -/
theorem Reachable.beq_iff_offset (hp : p.Reachable) (hq : q.Reachable) :
    (p == q) = true ↔ p.source = q.source ∧ p.offset = q.offset := by
  constructor
  · intro h
    exact ⟨(beq_iff.mp h).1, offset_congr h⟩
  · rintro ⟨hsource, hoffset⟩
    obtain ⟨source, hp⟩ := reachable_iff.mp hp
    obtain ⟨other, hq⟩ := reachable_iff.mp hq
    have htexts : source.toList = other.toList := by
      rw [← hp.source_eq, ← hq.source_eq, hsource]
    obtain rfl := String.toList_inj.mp htexts
    have hpassed : p.passed = q.passed := by
      apply eq_of_byteLength_eq hp.passed_prefix hq.passed_prefix
      rw [hp.byteLength_passed, hq.byteLength_passed, hoffset]
    have hrest : p.passed ++ p.rest = p.passed ++ q.rest := by
      rw [hp.passed_append_rest, hpassed, hq.passed_append_rest]
    exact beq_iff.mpr ⟨hsource, List.append_cancel_left hrest⟩

end Position

namespace Walk

variable {w v : Walk} {p q : Position}

/-- Walks that hold equal positions. -/
structure Alike (w v : Walk) : Prop where
  current : (w.current == v.current) = true
  kept : List.Forall₂ (fun p q => (p == q) = true) w.kept v.kept

theorem Alike.moveTo (h : w.Alike v) (hpq : (p == q) = true) :
    (w.moveTo p).Alike (v.moveTo q) := ⟨hpq, h.kept⟩

theorem Alike.skip (h : w.Alike v) (n : Nat) :
    (w.moveTo (w.current.skip n)).Alike (v.moveTo (v.current.skip n)) :=
  h.moveTo (Position.beq_skip h.current n)

theorem Alike.rest_eq (h : w.Alike v) : w.current.rest = v.current.rest :=
  (Position.beq_iff.mp h.current).2

theorem Alike.getElem?_kept (h : w.Alike v) (i : Nat) :
    Option.Rel (fun p q => (p == q) = true) w.kept[i]? v.kept[i]? := by
  have hkept := h.kept
  generalize w.kept = ps, v.kept = qs at hkept
  induction hkept generalizing i with
  | nil => exact .none
  | cons hpq _ ih =>
    cases i with
    | zero => exact .some hpq
    | succ i => exact ih i

theorem Alike.about_eq (h : w.Alike v) (i : Nat) {answer answer' : Position → Answer}
    (hanswer : ∀ p q, (p == q) = true → answer p = answer' q) :
    w.about i answer = v.about i answer' := by
  have hkept := h.getElem?_kept i
  unfold about
  generalize w.kept[i]? = a, v.kept[i]? = b at hkept ⊢
  cases hkept with
  | none => rfl
  | some hpq => exact hanswer _ _ hpq

/-- An operation is answered alike on walks that are alike, and leaves them so. Nothing is assumed
of their lines. -/
theorem Alike.perform (h : w.Alike v) (op : Operation) :
    (w.perform op).1 = (v.perform op).1 ∧ (w.perform op).2.Alike (v.perform op).2 := by
  cases op with
  | next =>
    simp only [Walk.perform, Position.next_eq, h.rest_eq, true_and]
    exact h.skip _
  | nth n =>
    simp only [Walk.perform, Position.nth_eq, h.rest_eq, true_and]
    exact h.skip _
  | nextIf c =>
    simp only [Walk.perform, Position.nextIf_eq, h.rest_eq, true_and]
    exact h.skip _
  | advanceWhile test =>
    simp only [Walk.perform, Position.advanceWhile_eq, h.rest_eq, true_and]
    exact h.skip _
  | peek => exact ⟨by simp only [Walk.perform, Position.peek?, h.rest_eq], h⟩
  | peekNext => exact ⟨by simp only [Walk.perform, Position.peekNext?, h.rest_eq], h⟩
  | isAtEnd => exact ⟨by simp only [Walk.perform, Position.isAtEnd, h.rest_eq], h⟩
  | keep => exact ⟨rfl, h.current, List.rel_append h.kept (.cons h.current .nil)⟩
  | goBack i =>
    refine ⟨h.about_eq i fun _ _ _ => rfl, h.moveTo ?_⟩
    have hkept := h.getElem?_kept i
    generalize w.kept[i]? = a, v.kept[i]? = b at hkept ⊢
    cases hkept with
    | none => exact h.current
    | some hpq => exact hpq
  | compare i =>
    exact ⟨h.about_eq i fun p q hpq => congrArg _ (Position.beq_congr hpq h.current), h⟩
  | sliceFrom i =>
    exact ⟨h.about_eq i fun p q hpq => congrArg _ (Position.sliceTo?_congr hpq h.current), h⟩
  | sliceTo i =>
    exact ⟨h.about_eq i fun p q hpq => congrArg _ (Position.sliceTo?_congr h.current hpq), h⟩

/-- What is seen of an operation: its answer, and the line and the offset after it. -/
structure Observation where
  answer : Answer
  line : Nat
  offset : Nat

def observe (w : Walk) : List Operation → List Observation
  | [] => []
  | op :: rest =>
    let (answer, next) := w.perform op
    ⟨answer, next.current.line, next.current.offset⟩ :: next.observe rest

/-- Whether all positions that a walk holds are reachable. -/
def Reachable (w : Walk) : Prop := ∀ p ∈ w.held, p.Reachable

theorem Reachable.perform (h : w.Reachable) (op : Operation) : (w.perform op).2.Reachable := by
  intro p hp
  obtain ⟨q, hq, n, rfl⟩ := exists_skip_of_mem_perform hp
  exact (h q hq).skip n

/-- The lines follow from what walks that are alike have in common, at every step anew. -/
theorem Alike.observe (h : w.Alike v) (hw : w.Reachable) (hv : v.Reachable)
    (ops : List Operation) :
    w.observe ops = v.observe ops ∧ (w.after ops).Alike (v.after ops) := by
  induction ops generalizing w v with
  | nil => exact ⟨rfl, h⟩
  | cons op rest ih =>
    obtain ⟨hanswer, hnext⟩ := h.perform op
    have hw' := hw.perform op
    have hv' := hv.perform op
    have hline := Position.line_congr (hw' _ (current_mem_held _)) (hv' _ (current_mem_held _))
      hnext.current
    obtain ⟨hobserve, hafter⟩ := ih hnext hw' hv'
    refine ⟨?_, hafter⟩
    simp only [Walk.observe, hanswer, hline, Position.offset_congr hnext.current, hobserve]

/-- Reachable positions are equal exactly if they stand at one offset of one text. Then they stand
on one line. Whatever is done to the one is answered in the same way as if it is done to the other,
also where it is about other positions that were kept, with the same lines and offsets at every
step, and leaves them equal. -/
theorem equal_positions_are_indistinguishable (hp : p.Reachable) (hq : q.Reachable) :
    ((p == q) = true ↔ p.source = q.source ∧ p.offset = q.offset) ∧
      ((p == q) = true → p.line = q.line ∧
        ∀ kept : List Position, (∀ r ∈ kept, r.Reachable) → ∀ ops,
          observe ⟨p, kept⟩ ops = observe ⟨q, kept⟩ ops ∧
            Alike (after ⟨p, kept⟩ ops) (after ⟨q, kept⟩ ops)) := by
  refine ⟨hp.beq_iff_offset hq, fun heq => ⟨Position.line_congr hp hq heq, ?_⟩⟩
  intro kept hkept ops
  have hsame : List.Forall₂ (fun r r' : Position => (r == r') = true) kept kept :=
    List.forall₂_same.mpr fun r _ => Position.beq_iff.mpr ⟨rfl, rfl⟩
  have halike : Alike ⟨p, kept⟩ ⟨q, kept⟩ := ⟨heq, hsame⟩
  exact halike.observe (List.forall_mem_cons.mpr ⟨hp, hkept⟩)
    (List.forall_mem_cons.mpr ⟨hq, hkept⟩) ops

/-- Two ways to the place behind a line feed, with a position in another text kept beside them. -/
theorem equal_positions_are_indistinguishable_line_feed :
    let p := ((start "é\nx").after [.next, .next]).current
    let q := ((start "é\nx").after [.keep, .nth 2, .goBack 0, .nth 1]).current
    let other := Position.ofText "é"
    p.Reachable ∧ q.Reachable ∧ other.Reachable ∧ (p == q) = true ∧ p.line = q.line ∧
      ∀ ops, observe ⟨p, [other]⟩ ops = observe ⟨q, [other]⟩ ops ∧
        Alike (after ⟨p, [other]⟩ ops) (after ⟨q, [other]⟩ ops) := by
  intro p q other
  have hp : p.Reachable := ⟨_, _, rfl⟩
  have hq : q.Reachable := ⟨_, _, rfl⟩
  have hother : other.Reachable := ⟨"é", [], rfl⟩
  obtain ⟨hiff, himp⟩ := equal_positions_are_indistinguishable hp hq
  have heq : (p == q) = true := hiff.mpr ⟨rfl, rfl⟩
  obtain ⟨hline, hobserve⟩ := himp heq
  exact ⟨hp, hq, hother, heq, hline, hobserve [other] (by simpa using hother)⟩

end Walk

end Reckoner
