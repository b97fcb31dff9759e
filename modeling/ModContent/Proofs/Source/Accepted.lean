import ModContent.Proofs.Source.Progress

/-!
# The language of the scanner

A text is accepted exactly if its braces are balanced and its headers and statements can be read
(`scanFile_accepts_iff`). The counts of an accepted text are those of the text, so neither they nor
acceptance depend on the content that the scan is started with.
-/

namespace ModContent

variable {text place : List Char} {fault : ScanFault}

/-! ### A fault keeps a text from being accepted -/

/-- No header of a legible text is refused. -/
theorem Legible.not_refused_header (h : Legible text) {header : List Char}
    (hmem : header ∈ headerTexts text) {fault : GrammarFault} :
    Header.read header ≠ .error fault := by
  obtain ⟨read, hread⟩ := h.headers header hmem
  rw [hread]
  exact fun heq ↦ nomatch heq

/-- No statement of a legible text is refused. -/
theorem Legible.not_refused_statement (h : Legible text) {statement : List Char}
    (hmem : statement ∈ statementTexts text) {fault : GrammarFault} :
    Statement.read statement none ≠ .error fault := by
  obtain ⟨read, hread⟩ := h.statements statement hmem
  rw [hread]
  exact fun heq ↦ nomatch heq

/-- A text with a fault is not legible, or its braces are not balanced. -/
theorem FaultAt.not_balanced_of_legible (h : FaultAt text fault place) (hlegible : Legible text) :
    ¬ Balanced text := by
  intro hbalanced
  cases h with
  | @header place header rest fault legible nested closed free refused =>
    refine hlegible.not_refused_header ?_ refused
    rw [List.append_assoc, headerTexts_append closed, headerTexts_open free]
    exact List.mem_append_right _ List.mem_cons_self
  | @statement place statement rest fault legible nested closed free nonempty ends refused =>
    refine hlegible.not_refused_statement ?_ refused
    rw [List.append_assoc, statementTexts_append closed]
    refine List.mem_append_right _ ?_
    have hself : statementText? statement = [statement] := if_neg nonempty
    rcases rest with - | ⟨d, rest⟩
    · rw [List.append_nil, statementTexts_of_free free, hself]
      exact List.mem_cons_self
    · have hends : d = '}' ∨ d = ';' := ends d rfl
      have hopen : d ≠ '{' := by
        rintro rfl
        simp at hends
      rw [statementTexts_end free (.inr hends) hopen, hself]
      exact List.mem_cons_self
  | @unmatchedClose place rest legible nested equal =>
    have hprefix : place ++ ['}'] <+: place ++ '}' :: rest := by
      rw [List.append_cons place '}' rest]
      exact List.prefix_append _ _
    have hle := hbalanced.nested _ hprefix
    simp at hle
    omega
  | @neverClosed text place block outer legible encloses =>
    have hcount := encloses.count
    have hequal := hbalanced.equal
    rw [List.length_cons] at hcount
    omega

/-! ### Acceptance -/

/-- The counts of a text are determined by it. -/
theorem Tally.unique {stats stats' : ScanStats} (h : Tally text stats) (h' : Tally text stats') :
    stats = stats' := by
  rcases stats with ⟨blocks, properties, references, maxDepth⟩
  rcases stats' with ⟨blocks', properties', references', maxDepth'⟩
  obtain rfl : blocks = blocks' := h.blocks.trans h'.blocks.symm
  obtain rfl : properties = properties' := h.properties.trans h'.properties.symm
  obtain rfl : references = references' := h.references.trans h'.references.symm
  obtain rfl : maxDepth = maxDepth' := h.maxDepth.unique h'.maxDepth
  rfl

/-- A file is scanned to its end exactly if its text is balanced and legible. -/
theorem scanFile_isOk_iff (content : Content) (file : String) (source : NormalizedSource) :
    (∃ stats, (scanFile content file source).2 = .ok stats) ↔
      Balanced source.text ∧ Legible source.text := by
  constructor
  · rintro ⟨stats, hok⟩
    obtain ⟨hlegible, hbalanced, -⟩ := scanFile_ok hok
    exact ⟨hbalanced, hlegible⟩
  · rintro ⟨hbalanced, hlegible⟩
    cases hscan : (scanFile content file source).2 with
    | ok stats => exact ⟨stats, rfl⟩
    | error e =>
      obtain ⟨fault, place, -, hfault, -⟩ := scanFile_error hscan
      exact absurd hbalanced (hfault.not_balanced_of_legible hlegible)

/-- **A text is accepted** exactly if its braces are balanced and all its headers and statements can
be read; the counts are then those of the text. So a text has the same counts, or none, whatever
the content is that it is scanned into. -/
theorem scanFile_accepts_iff (content : Content) (file : String) (source : NormalizedSource) :
    ((∃ stats, (scanFile content file source).2 = .ok stats) ↔
      Balanced source.text ∧ Legible source.text) ∧
    (∀ stats, (scanFile content file source).2 = .ok stats → Tally source.text stats) ∧
    ∀ (content' : Content) (file' : String), (scanFile content' file' source).2.toOption =
      (scanFile content file source).2.toOption := by
  refine ⟨scanFile_isOk_iff content file source, fun stats hok ↦ (scanFile_ok hok).2.2,
    fun content' file' ↦ ?_⟩
  have hiff : (∃ stats, (scanFile content' file' source).2 = .ok stats) ↔
      ∃ stats, (scanFile content file source).2 = .ok stats :=
    (scanFile_isOk_iff content' file' source).trans (scanFile_isOk_iff content file source).symm
  cases hscan : (scanFile content file source).2 with
  | ok stats =>
    obtain ⟨stats', hscan'⟩ := hiff.2 ⟨stats, hscan⟩
    rw [hscan', (scanFile_ok hscan').2.2.unique (scanFile_ok hscan).2.2]
  | error e =>
    cases hscan' : (scanFile content' file' source).2 with
    | ok stats' =>
      obtain ⟨stats, hstats⟩ := hiff.1 ⟨stats', hscan'⟩
      cases hscan.symm.trans hstats
    | error e' => rfl

example : (scanFile (Content.start ContentTree.new []) "units.txt"
    (normalizeText "unit:archer(cost=3) \x7b hp = @soldier.hp; bow \x7b\x7d \x7d")).2 =
      .ok ⟨2, 2, 1, 2⟩ := by
  decide +kernel

end ModContent
