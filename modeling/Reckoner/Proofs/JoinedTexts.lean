import Reckoner.Proofs.LeadingLayout
import Reckoner.Proofs.Occurrences

/-!
Texts with a line feed between them. Only a string may go on behind a line feed, and a string that
is closed ends at its second quote whatever follows it. So the pieces of the first text stay as they
are, the line feed is a piece of its own, and the second text is cut as it is cut alone. Scanning
goes through the first text and then through the second one, on later lines.
-/

namespace Reckoner

namespace Piece

/-- Only a string may go on behind a line feed. -/
theorem Matches.string_of_lineFeed {kind : PieceKind} {c : Char} {t : List Char}
    (h : Matches kind (c :: t)) (hmem : '\n' ∈ t) : kind = .string := by
  generalize htext : c :: t = text at h
  have hmem' : '\n' ∈ text := htext ▸ List.mem_cons_of_mem c hmem
  cases h with
  | string _ => rfl
  | blank _ =>
    cases htext
    cases hmem
  | comment hcs =>
    simp only [List.mem_cons, Char.reduceEq, false_or] at hmem'
    exact absurd rfl (hcs _ hmem')
  | symbol o => cases o <;> simp [Symbol.text] at hmem'
  | whole _ hds => exact absurd (hds _ hmem') (by decide)
  | decimal _ hds _ hfs =>
    simp only [List.mem_append, List.mem_cons, Char.reduceEq, false_or] at hmem'
    rcases hmem' with hd | hf
    · exact absurd (hds _ hd) (by decide)
    · exact absurd (hfs _ hf) (by decide)
  | word _ hcs =>
    cases htext
    exact absurd (hcs _ hmem) (by decide)

theorem Matches.string_of_quote {kind : PieceKind} {t : List Char}
    (h : Matches kind ('"' :: t)) : kind = .string := by
  generalize htext : '"' :: t = text at h
  cases h with
  | string _ => rfl
  | blank hc =>
    cases htext
    simp at hc
  | comment _ => cases htext
  | symbol o => cases o <;> simp [Symbol.text] at htext
  | whole _ hds =>
    subst htext
    exact absurd (hds _ List.mem_cons_self) (by decide)
  | decimal hne hds _ _ =>
    obtain ⟨d, ds, rfl⟩ := List.exists_cons_of_ne_nil hne
    obtain ⟨rfl, -⟩ := List.cons.inj htext
    exact absurd (hds _ List.mem_cons_self) (by decide)
  | word hc _ =>
    cases htext
    exact absurd hc (by decide)

/-- A string ends at its second quote, whatever follows it. -/
theorem Matches.eq_of_prefix_string {kind : PieceKind} {s text : List Char} (h : Matches kind s)
    (htext : Matches .string text) (hp : s <+: text) : s = text := by
  obtain ⟨rest, rfl⟩ := hp
  obtain ⟨c, t, rfl⟩ := List.exists_cons_of_ne_nil h.ne_nil
  have hquote : c = '"' := by
    generalize hwhole : c :: t ++ rest = whole at htext
    cases htext
    exact (List.cons.inj hwhole).1
  subst hquote
  cases h.string_of_quote
  have hends (more : List Char) : Ends .string more := fun _ _ => rfl
  have hlong := htext.measure_append (hends [])
  rw [List.append_nil] at hlong
  have hshort := h.measure_append (hends rest)
  have hlength : t.length = (t ++ rest).length :=
    congrArg Prod.snd (hshort.symm.trans hlong)
  have hrest : rest = [] := by simpa using hlength
  rw [hrest, List.append_nil]

/-- A match that starts in front of a line feed ends there, unless it is a string. -/
theorem Matches.prefix_or_string {kind : PieceKind} {text before after : List Char}
    (h : Matches kind text) (hne : before ≠ []) (hp : text <+: before ++ '\n' :: after) :
    text <+: before ∨ kind = .string ∧ before <+: text := by
  rcases List.prefix_or_prefix_of_prefix hp (List.prefix_append before _) with hin | hout
  · exact .inl hin
  · obtain ⟨more, rfl⟩ := hout
    cases more with
    | nil => exact .inl (by simp)
    | cons d more =>
      rw [List.prefix_append_right_inj, List.cons_prefix_cons] at hp
      obtain ⟨rfl, -⟩ := hp
      obtain ⟨c, t, rfl⟩ := List.exists_cons_of_ne_nil hne
      exact .inr ⟨h.string_of_lineFeed (by simp), List.prefix_append _ _⟩

/-- The first piece of a text stays the first one if a line feed and another text follow, unless it
is an unclosed string. -/
theorem First.append_lineFeed {source : List Char} {p : Piece} (h : First source p)
    (hclosed : p.kind ≠ .unclosed) (after : List Char) : First (source ++ '\n' :: after) p := by
  cases h with
  | longest hstart hmatch hlongest =>
    have hne : source ≠ [] := by
      rintro rfl
      exact hmatch.ne_nil (List.prefix_nil.mp hstart)
    refine .longest (hstart.trans (List.prefix_append _ _)) hmatch ?_
    intro kind text hp htext
    rcases htext.prefix_or_string hne hp with hin | ⟨rfl, hout⟩
    · exact hlongest kind text hin htext
    · rw [hmatch.eq_of_prefix_string htext (hstart.trans hout)]
  | unclosed _ => exact absurd rfl hclosed
  | stray hc hnone =>
    refine .stray hc ?_
    intro kind text hp htext
    rcases htext.prefix_or_string (List.cons_ne_nil _ _) hp with hin | ⟨rfl, hout⟩
    · exact hnone kind text hin htext
    · cases htext with
      | string _ => exact hc (List.cons_prefix_cons.mp hout).1

theorem first_lineFeed (rest : List Char) : First ('\n' :: rest) ⟨.blank, ['\n']⟩ := by
  have hfirst := first_measure '\n' rest
  rwa [measure_blank rest rfl] at hfirst

/-- Two texts with a line feed between them split into the pieces of both. -/
theorem Splits.append_lineFeed {a b : List Char} {ps qs : List Piece} (ha : Splits a ps)
    (hclosed : ∀ p ∈ ps, p.kind ≠ .unclosed) (hb : Splits b qs) :
    Splits (a ++ '\n' :: b) (ps ++ ⟨.blank, ['\n']⟩ :: qs) := by
  induction ha with
  | nil => exact .cons (p := ⟨.blank, ['\n']⟩) (first_lineFeed b) hb
  | @cons p rest ps hfirst _ ih =>
    obtain ⟨hp, hps⟩ := List.forall_mem_cons.mp hclosed
    have hlonger := hfirst.append_lineFeed hp b
    rw [List.append_assoc] at hlonger ⊢
    exact .cons hlonger (ih hps)

end Piece

namespace Scan

/-- What is found in the entries of two texts in a row. -/
theorem ofEntries_append (entries more : List Entry) :
    ofEntries (entries ++ more) = ⟨(ofEntries entries).tokens ++ (ofEntries more).tokens,
      (ofEntries entries).errors ++ (ofEntries more).errors⟩ := by
  simp only [ofEntries, List.filterMap_append]

end Scan

namespace JoinedTexts

open Layout

/-- A piece that is an unclosed string is reported. -/
theorem unterminated_of_unclosed {source : String} {p : Piece} (hp : p ∈ Piece.cut source.toList)
    (hkind : p.kind = .unclosed) :
    ∃ e ∈ (Scan.ofText source).errors, e.fault = .unterminatedString := by
  have hsound := (Piece.splits_cut source.toList).sound
  obtain ⟨found, last, -, -, herrors⟩ := Piece.entriesFrom_spec 1 hsound
  have hfault : p ∈ (Piece.cut source.toList).filter Piece.isFault :=
    List.mem_filter.mpr ⟨hp, by simp [Piece.isFault, hkind]⟩
  obtain ⟨i, hi, rfl⟩ := List.getElem_of_mem hfault
  have hi' := herrors.length_eq ▸ hi
  have he := herrors.get hi hi'
  refine ⟨_, List.getElem_mem hi', ?_⟩
  simpa [Piece.ErrorOf, hkind] using he

theorem cut_append_lineFeed {a : List Char} (hclosed : ∀ p ∈ Piece.cut a, p.kind ≠ .unclosed)
    (b : List Char) :
    Piece.cut (a ++ '\n' :: b) = Piece.cut a ++ ⟨.blank, ['\n']⟩ :: Piece.cut b :=
  (Piece.splits_iff.mp
    ((Piece.splits_cut a).append_lineFeed hclosed (Piece.splits_cut b))).symm

/-- The second text starts on the line behind the last one of the first text. -/
theorem entriesFrom_lineFeed (a : List Char) (qs : List Piece) :
    entriesFrom 1 (Piece.cut a ++ ⟨.blank, ['\n']⟩ :: qs) =
      (Occurrence.listFrom [] (Piece.cut a)).filterMap Occurrence.entry? ++
        (entriesFrom 1 qs).map (mapEntry (· + (1 + a.count '\n'))) := by
  have happend := Occurrence.entriesFrom_append [] (Piece.cut a) (⟨.blank, ['\n']⟩ :: qs)
  rw [List.nil_append, Piece.flatMap_text_cut] at happend
  have hnext : lineNumber a + Piece.lineBreaks ⟨.blank, ['\n']⟩ = 1 + (1 + a.count '\n') :=
    Nat.add_comm _ 1
  have hblank : Piece.entry? ⟨.blank, ['\n']⟩ (1 + (1 + a.count '\n')) = none := rfl
  rw [Piece.entriesFrom_cons, hnext, hblank, entriesFrom_add] at happend
  exact happend

theorem ofText_append_lineFeed {a : String}
    (ha : ∀ e ∈ (Scan.ofText a).errors, e.fault ≠ .unterminatedString) (b : String) :
    ∃ found, (Scan.ofText a).tokens = found ++ [.endOfInput (1 + a.toList.count '\n')] ∧
      Scan.ofText (a ++ "\n" ++ b) =
        ⟨found ++ (Scan.ofText b).tokens.map (Token.mapLine (· + (1 + a.toList.count '\n'))),
          (Scan.ofText a).errors ++
            (Scan.ofText b).errors.map (LexicalError.mapLine (· + (1 + a.toList.count '\n')))⟩ := by
  have hclosed : ∀ p ∈ Piece.cut a.toList, p.kind ≠ .unclosed := by
    intro p hp hkind
    obtain ⟨e, he, hfault⟩ := unterminated_of_unclosed hp hkind
    exact ha e he hfault
  have htext : (a ++ "\n" ++ b).toList = a.toList ++ '\n' :: b.toList := by simp
  have halone : Scan.ofText a =
      ⟨(Scan.ofEntries ((Occurrence.all a).filterMap Occurrence.entry?)).tokens ++
          [.endOfInput (1 + a.toList.count '\n')],
        (Scan.ofEntries ((Occurrence.all a).filterMap Occurrence.entry?)).errors⟩ := by
    have hentries := Occurrence.entriesFrom_eq [] (Piece.cut a.toList)
    rw [List.nil_append, Piece.flatMap_text_cut] at hentries
    have happend := Scan.ofEntries_append ((Occurrence.all a).filterMap Occurrence.entry?)
      [.ok (.endOfInput (lineNumber a.toList))]
    exact (congrArg Scan.ofEntries hentries).trans
      (happend.trans (congrArg (Scan.mk _) (List.append_nil _)))
  refine ⟨_, congrArg Scan.tokens halone, ?_⟩
  rw [halone, Scan.ofText, htext, cut_append_lineFeed hclosed, entriesFrom_lineFeed,
    Scan.ofEntries_append, ofEntries_mapEntry]
  rfl

/-- A text with no unclosed string and any other text behind a line feed are scanned one after the
other. The tokens and the diagnostics are those of the first text, without its end of input, and
then those of the second one, as many lines later as the line feeds before it. -/
theorem line_feed_separates_scans {a : String}
    (ha : ∀ e ∈ (Scan.ofText a).errors, e.fault ≠ .unterminatedString) (b : String) :
    ∃ found last, (Scan.ofText a).tokens = found ++ [⟨.endOfInput, "", none, last⟩] ∧
      ∀ s : Session, s.scan (a ++ "\n" ++ b) =
        (s.reportAll (Scan.diagnostics a ++
            (Scan.diagnostics b).map (Diagnostic.mapLine (· + (1 + a.toList.count '\n')))),
          found ++ (Scan.ofText b).tokens.map
            (Token.mapLine (· + (1 + a.toList.count '\n')))) := by
  obtain ⟨found, htokens, hjoined⟩ := ofText_append_lineFeed ha b
  refine ⟨found, _, htokens, ?_⟩
  intro s
  rw [Session.scan_eq, hjoined]
  simp only [Scan.diagnostics, List.map_append, List.map_map]
  rfl

/-- The `!` at the end of a text is not joined with the `=` that starts the next line. -/
theorem line_feed_separates_scans_bang :
    let s : Session := ⟨.empty none, .ofReporter .collecting⟩
    (∀ e ∈ (Scan.ofText "@\n!").errors, e.fault ≠ .unterminatedString) ∧
      (s.scan ("@\n!" ++ "\n" ++ "= \"")).2 =
        [Symbol.bang.token 2, Symbol.equal.token 3, .endOfInput 3] ∧
      (s.scan ("@\n!" ++ "\n" ++ "= \"")).1.journal.reporter.kept =
        [.static 1 .nowhere "Unexpected character.",
          .static 3 .nowhere "Unterminated string."] := by
  intro s
  have herrors : (Scan.ofText "@\n!").errors = [⟨.unexpectedCharacter '@', 1⟩] := by cbv
  have ha : ∀ e ∈ (Scan.ofText "@\n!").errors, e.fault ≠ .unterminatedString := by
    simp [herrors]
  obtain ⟨found, last, htokens, hscan⟩ := line_feed_separates_scans ha "= \""
  have hfound : [Symbol.bang.token 2] = found := by
    have hfirst : (Scan.ofText "@\n!").tokens = [Symbol.bang.token 2, .endOfInput 2] := by cbv
    rw [hfirst] at htokens
    simpa using congrArg List.dropLast htokens
  refine ⟨ha, ?_, ?_⟩
  · rw [hscan, ← hfound]
    cbv
  · rw [hscan]
    cbv

end JoinedTexts

end Reckoner
