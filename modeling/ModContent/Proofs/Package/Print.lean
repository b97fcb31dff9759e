import Mathlib.Data.List.Pairwise
import ModContent.Proofs.Package.Load
import ModContent.Proofs.Tree.Outline

/-!
# Printed outlines

The outlines of loaded trees are **tidy**: every label and every property in them can be written
down, and no child is hidden behind an earlier one (`tidy_outlineOf?`). A tidy outline is printed
line by line, each line with its delimiter at the end, so normalizing the printed text just takes
the blanks out (`normalize_body`). What is left is the `compact` text.
-/

namespace ModContent

namespace Outline

/-! ### Tidy outlines -/

/-- An outline whose properties are written and computed, each under a key of its own, and whose
children are tidy, labelled, and not hidden behind earlier ones. -/
inductive Tidy : Outline → Prop
  | node {key : Key} {properties : List Property} {children : List Outline}
      (written : ∀ p ∈ properties, p.Written ∧ p.isComputed)
      (keys : (properties.map Property.key).Nodup)
      (labels : ∀ child ∈ children, child.key.Grammatical)
      (apart : children.Pairwise fun a b ↦ b.key.accepts a.key = false)
      (tidy : ∀ child ∈ children, child.Tidy) : Tidy (.node key properties children)

end Outline

namespace ContentTree.Loadable

variable {t : ContentTree}

/-- A child's outline carries its label. -/
theorem node?_of_outlineOf? (ht : t.Loadable) {id : NodeId} {o : Outline}
    (ho : t.outlineOf? id = some o) : ∃ n, t.node? id = some n ∧ o.key = n.key := by
  rw [ht.grown.linked.outlineOf?_eq] at ho
  obtain ⟨n, hn, rfl⟩ := Option.map_eq_some_iff.1 ho
  exact ⟨n, hn, rfl⟩

/-- The outlines of a loaded tree are tidy. -/
theorem tidy_outlineOf? (ht : t.Loadable) {id : NodeId} {o : Outline}
    (ho : t.outlineOf? id = some o) : o.Tidy := by
  induction id using ht.grown.linked.induction generalizing o with | step id ih => ?_
  obtain ⟨n, hn, -⟩ := ht.node?_of_outlineOf? ho
  rw [ht.grown.linked.outlineOf?_of_node? hn] at ho
  obtain rfl := Option.some.inj ho
  refine .node (fun p hp ↦ ⟨ht.tidy.written hn hp, ?_⟩) (ht.tidy.keys hn) (fun o ho ↦ ?_) ?_
    fun o ho ↦ ?_
  · obtain ⟨i, hi⟩ := List.mem_iff_getElem?.1 hp
    exact ht.computed (slot?_eq_some_iff.2 ⟨n, hn, hi⟩)
  · obtain ⟨child, hmem, hout⟩ := List.mem_filterMap.1 ho
    obtain ⟨m, hm, hkey⟩ := ht.node?_of_outlineOf? hout
    rw [hkey]
    exact ht.tidy.label hm (ht.grown.ne_root_of_mem hn hmem)
  · refine List.pairwise_filterMap.2 ((ht.tidy.apart hn).imp fun {a b} hab o ho o' ho' ↦ ?_)
    obtain ⟨m, hm, hkey⟩ := ht.node?_of_outlineOf? ho
    obtain ⟨m', hm', hkey'⟩ := ht.node?_of_outlineOf? ho'
    rw [hkey, hkey']
    exact hab m m' hm hm'
  · obtain ⟨child, hmem, hout⟩ := List.mem_filterMap.1 ho
    exact ih child ((ht.grown.linked.mem_children_iff hn).1 hmem) hout

/-- The outline of a loaded tree is tidy, and its root has no name. -/
theorem tidy_outline (ht : t.Loadable) : t.outline.Tidy ∧ t.outline.key = Key.named "" := by
  have hroot := ht.grown.linked.outlineOf?_root
  obtain ⟨n, hn, hkey⟩ := ht.node?_of_outlineOf? hroot
  obtain ⟨r, hr, hname⟩ := ht.grown.root
  obtain rfl := Option.some.inj (hr.symm.trans hn)
  exact ⟨ht.tidy_outlineOf? hroot, hkey.trans hname⟩

end ContentTree.Loadable

/-! ### Compact texts -/

/-- A property as a statement without blanks. -/
def Property.compact (p : Property) : List Char := p.key.chars ++ '=' :: valueChars p.values

namespace Outline

mutual

/-- An outline as a block without blanks. -/
def compact : Outline → List Char
  | node key properties children =>
    key.chars ++ ['{'] ++ properties.flatMap (fun p ↦ p.compact ++ [';']) ++
      compactAll children ++ ['}']

def compactAll : List Outline → List Char
  | [] => []
  | outline :: rest => compact outline ++ compactAll rest

end

/-- What stands inside an outline, without blanks. -/
def compactBody (o : Outline) : List Char :=
  o.properties.flatMap (fun p ↦ p.compact ++ [';']) ++ compactAll o.children

end Outline

/-- The text that a source is normalized to. -/
def condensed (text : List Char) : List Char := (normalize (Text.lines text)).text

@[simp] theorem condensed_nil : condensed [] = [] := rfl

section Lines

/-- A plain character neither begins a comment nor ends a line. -/
theorem IsPlain.ne_lineEnd {c : Char} (h : IsPlain c) : c ≠ '#' ∧ c ≠ '\n' ∧ c ≠ '\r' := by
  refine ⟨h.2.1, ?_, ?_⟩
  · rintro rfl
    exact absurd h.1 (by decide)
  · rintro rfl
    exact absurd h.1 (by decide)

/-- An indented line of plain text and blanks that ends in a delimiter is taken without its
blanks. -/
theorem condensed_line (depth : Nat) {line : List Char} {last : Char}
    (hline : ∀ c ∈ line, IsPlain c ∨ c = ' ') (hlast : Text.isBlank last = false)
    (hends : NormalizedSource.endsStatement last = true) (hsign : last ≠ '#') (rest : List Char) :
    condensed (Outline.indent depth ++ line ++ [last, '\n'] ++ rest) =
      unblank line ++ [last] ++ condensed rest := by
  have hindent : ∀ c ∈ Outline.indent depth, c = ' ' := fun c hc ↦ List.eq_of_mem_replicate hc
  have hunblank : unblank (Outline.indent depth ++ line ++ [last]) = unblank line ++ [last] := by
    have hnone : unblank (Outline.indent depth) = [] := by
      refine List.filter_eq_nil_iff.2 fun c hc ↦ ?_
      rw [hindent c hc]
      decide
    rw [unblank_append, unblank_append, hnone, List.nil_append]
    simp [unblank, hlast]
  have htext : Outline.indent depth ++ line ++ [last, '\n'] ++ rest =
      (Outline.indent depth ++ line ++ [last]) ++ '\n' :: rest := by simp
  rw [htext, condensed, normalize_line _ (by rw [hunblank, List.getLast?_concat]) hends, hunblank]
  · rfl
  · -- no character before the line feed ends the line or starts a comment
    intro c hc
    rcases List.mem_append.1 hc with hc | hc
    · rcases List.mem_append.1 hc with hc | hc
      · rw [hindent c hc]
        decide
      · rcases hline c hc with hplain | rfl
        · exact hplain.ne_lineEnd
        · decide
    · obtain rfl := List.mem_singleton.1 hc
      refine ⟨hsign, ?_, ?_⟩
      · rintro rfl
        exact absurd hlast (by decide)
      · rintro rfl
        exact absurd hlast (by decide)

/-- A printed property is taken as a statement. -/
theorem condensed_statementLine {p : Property} (hp : p.Written) (depth : Nat) (rest : List Char) :
    condensed (Outline.statementLine depth p ++ rest) =
      p.compact ++ [';'] ++ condensed rest := by
  have hline : ∀ c ∈ p.key.chars ++ " = ".toList ++ valueChars p.values,
      IsPlain c ∨ c = ' ' := by
    intro c hc
    rcases List.mem_append.1 hc with hc | hc
    · rcases List.mem_append.1 hc with hc | hc
      · exact .inl (hp.key.isPlain c hc)
      · have hequals : ∀ c ∈ " = ".toList, IsPlain c ∨ c = ' ' := by
          simp [IsPlain, Text.isBlank]
        exact hequals c hc
    · exact .inl (hp.values.isPlain c hc)
  have hunblank : unblank (p.key.chars ++ " = ".toList ++ valueChars p.values) = p.compact := by
    have hequals : unblank " = ".toList = ['='] := by decide
    rw [unblank_append, unblank_append, hequals,
      unblank_eq_self fun c hc ↦ (hp.key.isPlain c hc).1,
      unblank_eq_self fun c hc ↦ (hp.values.isPlain c hc).1, Property.compact]
    simp
  rw [← hunblank, ← condensed_line depth hline rfl rfl (by decide), Outline.statementLine]
  simp only [valueChars, List.append_assoc]

/-- A printed header is taken as a header. -/
theorem condensed_header {key : Key} (hkey : key.Grammatical) (depth : Nat) (rest : List Char) :
    condensed (Outline.indent depth ++ key.chars ++ [' ', '{', '\n'] ++ rest) =
      key.chars ++ ['{'] ++ condensed rest := by
  have hline : ∀ c ∈ key.chars ++ [' '], IsPlain c ∨ c = ' ' := by
    intro c hc
    rcases List.mem_append.1 hc with hc | hc
    · exact .inl (hkey.isPlain c hc)
    · exact .inr (List.mem_singleton.1 hc)
  have hunblank : unblank (key.chars ++ [' ']) = key.chars := by
    have hblank : unblank [' '] = [] := by decide
    rw [unblank_append, hblank, List.append_nil,
      unblank_eq_self fun c hc ↦ (hkey.isPlain c hc).1]
  have hcondensed := condensed_line depth hline rfl rfl (by decide : '{' ≠ '#') rest
  rw [hunblank] at hcondensed
  simpa using hcondensed

/-- The line of a closing brace condenses to the brace. -/
theorem condensed_close (depth : Nat) (rest : List Char) :
    condensed (Outline.indent depth ++ ['}', '\n'] ++ rest) = ['}'] ++ condensed rest := by
  have hnone : ∀ c ∈ ([] : List Char), IsPlain c ∨ c = ' ' := nofun
  have hcondensed := condensed_line depth hnone rfl rfl (by decide : '}' ≠ '#') rest
  simpa [unblank] using hcondensed

/-- The lines of statements condense to the statements. -/
theorem condensed_statementLines {properties : List Property}
    (h : ∀ p ∈ properties, p.Written) (depth : Nat) (rest : List Char) :
    condensed (properties.flatMap (Outline.statementLine depth) ++ rest) =
      properties.flatMap (fun p ↦ p.compact ++ [';']) ++ condensed rest := by
  induction properties with
  | nil => rfl
  | cons p properties ih =>
    obtain ⟨hp, hproperties⟩ := List.forall_mem_cons.1 h
    rw [List.flatMap_cons, List.flatMap_cons, List.append_assoc, condensed_statementLine hp,
      ih hproperties, List.append_assoc, List.append_assoc, List.append_assoc]

end Lines

namespace Outline

theorem condensed_blocks {children : List Outline} (depth : Nat)
    (h : ∀ child ∈ children, ∀ depth rest,
      condensed (child.block depth ++ rest) = child.compact ++ condensed rest)
    (rest : List Char) :
    condensed (blocks depth children ++ rest) = compactAll children ++ condensed rest := by
  induction children with
  | nil => rfl
  | cons child children ih =>
    obtain ⟨hchild, hchildren⟩ := List.forall_mem_cons.1 h
    rw [blocks, compactAll, List.append_assoc, hchild, ih hchildren, List.append_assoc]

/-- A printed block is taken without its blanks. -/
theorem Tidy.condensed_block {o : Outline} (ho : o.Tidy) (hkey : o.key.Grammatical) (depth : Nat)
    (rest : List Char) :
    condensed (o.block depth ++ rest) = o.compact ++ condensed rest := by
  -- for any text behind the block, since the blocks that follow it stand there
  induction ho generalizing depth rest with
  | @node key properties children written keys labels apart tidy ih =>
    have hchildren := condensed_blocks (depth + 1) fun child hchild depth rest ↦
      ih child hchild (labels child hchild) depth rest
    have hlabel : key.Grammatical := hkey
    have htext : (Outline.node key properties children).block depth ++ rest =
        indent depth ++ key.chars ++ [' ', '{', '\n'] ++
          (properties.flatMap (statementLine (depth + 1)) ++ (blocks (depth + 1) children ++
            (indent depth ++ ['}', '\n'] ++ rest))) := by
      rw [block]
      simp only [List.append_assoc]
    rw [htext, condensed_header hlabel, condensed_statementLines fun p hp ↦ (written p hp).1,
      hchildren, condensed_close, compact]
    simp only [List.append_assoc]

/-- **A printed tidy outline** is normalized to its compact text. -/
theorem Tidy.normalize_body {o : Outline} (ho : o.Tidy) :
    condensed (o.body 0) = o.compactBody := by
  cases ho with
  | @node key properties children written keys labels apart tidy =>
    show condensed (properties.flatMap (statementLine 0) ++ blocks 0 children) =
      properties.flatMap (fun p ↦ p.compact ++ [';']) ++ compactAll children
    have hchildren := condensed_blocks 0 (fun child hchild depth rest ↦
      (tidy child hchild).condensed_block (labels child hchild) depth rest) []
    rw [condensed_nil, List.append_nil, List.append_nil] at hchildren
    rw [condensed_statementLines fun p hp ↦ (written p hp).1, hchildren]

end Outline

end ModContent
