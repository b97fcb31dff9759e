import ModContent.Proofs.Grammar.Written

/-!
# Vocabularies

How much is known of the keys and the statements of a file depends on the characters of its text. A
**vocabulary** names what the characters are like, and what is read from them. Texts without blanks
and comments give what can be written again (`Vocabulary.plain`), and any text at all still gives
keys with the parts of labels (`Vocabulary.any`).
-/

namespace ModContent

/-- What the characters of a text are like, and the keys and statements that are read from it. -/
structure Vocabulary where
  char : Char → Prop
  key : Key → Prop
  statement : Statement → Prop
  read_statement : ∀ {text : List Char} {s : Statement}, Statement.read text none = .ok s →
    (∀ c ∈ text, char c) → statement s
  read_header : ∀ {text : List Char} {header : Header}, Header.read text = .ok header →
    (∀ c ∈ text, char c) → key header.key ∧ ∀ p ∈ header.parameters, statement p

namespace Vocabulary

/-- Texts without blanks and comments, and what can be written again. -/
def plain : Vocabulary where
  char := IsPlain
  key := Key.Grammatical
  statement := Statement.Written
  read_statement h htext := Statement.written_of_read h htext
    fun name hname ↦ absurd hname.symm (Option.some_ne_none name)
  read_header := Header.written_of_read

/-- All texts, and keys with the parts of labels. -/
def any : Vocabulary where
  char _ := True
  key := Key.Labelled
  statement s := s.key.Labelled
  read_statement h _ := (Statement.read_eq_ok_iff.1 h).1
  read_header h _ := by
    obtain ⟨hkey, parts, -, -, hread⟩ := Header.read_eq_ok_iff.1 h
    refine ⟨hkey, fun p hp ↦ ?_⟩
    obtain ⟨part, -, hp⟩ := exists_of_mem_mapM (mapM_eq_ok_iff.2 hread) hp
    obtain ⟨s, hs, rfl⟩ := Statement.read_default_eq_ok_iff.1 hp
    obtain ⟨hs, -⟩ := Statement.read_eq_ok_iff.1 hs
    refine Statement.labelled_withDefault hs ?_
    rintro name ⟨⟩
    decide +kernel

end Vocabulary

end ModContent
