import ModContent.Proofs.Source.Recorded
import ModContent.Proofs.Source.Waiting
import ModContent.Proofs.Tree.Extension

/-!
# Redeclarations

The scanner warns of a declaration when its slot is recorded and a property was replaced there. In
terms of the log of a package this is simpler: a declaration is a redeclaration when one before it
in the log has the same node and exactly the same key (`redeclarations`). The slots recorded are
those of the log, so the warnings of a package are one for each redeclaration, in order
(`Content.Logs.warned`). What stood in the tree before the package plays no part in it.
-/

namespace ModContent

open Content (Logs Placed)

namespace Declaration

/-- Two declarations of the same key in one node. -/
def Same (e d : Declaration) : Prop := e.node = d.node ∧ e.statement.key = d.statement.key

instance (e d : Declaration) : Decidable (e.Same d) := inferInstanceAs (Decidable (_ ∧ _))

/-- The warning that a declaration is not the first, with the key that its node has in a tree. -/
def warning (t : ContentTree) (d : Declaration) : Diagnostic :=
  Content.redeclared d.statement.key (t.keyText d.node) d.location

end Declaration

/-- The declarations of a log that come after one of the same key in the same node. -/
def redeclarations (log : List Declaration) : List Declaration :=
  (log.zipIdx.filter fun (d, i) ↦ ∃ e ∈ log.take i, e.Same d).map Prod.fst

/-- The last declaration is one more if there was one like it. -/
theorem redeclarations_concat (log : List Declaration) (d : Declaration) :
    redeclarations (log ++ [d]) =
      redeclarations log ++ if ∃ e ∈ log, e.Same d then [d] else [] := by
  rw [redeclarations, List.zipIdx_append, List.filter_append, List.map_append]
  congr 1
  · refine congrArg (List.map Prod.fst) (List.filter_congr ?_)
    rintro ⟨c, i⟩ hentry
    have hlt : i < 0 + log.length := List.snd_lt_add_of_mem_zipIdx hentry
    have htake : (log ++ [d]).take i = log.take i :=
      List.take_append_of_le_length (by omega)
    simp only [htake]
  · have htake : (log ++ [d]).take log.length = log := List.take_left
    simp only [List.zipIdx_singleton, Nat.zero_add, List.filter_singleton, htake]
    by_cases h : ∃ e ∈ log, e.Same d
    · rw [if_pos h, decide_eq_true h]
      rfl
    · rw [if_neg h, decide_eq_false h]
      rfl

theorem mem_of_mem_redeclarations {log : List Declaration} {d : Declaration}
    (h : d ∈ redeclarations log) : d ∈ log := by
  obtain ⟨⟨d, i⟩, hmem, rfl⟩ := List.mem_map.1 h
  exact List.fst_mem_of_mem_zipIdx (List.mem_filter.1 hmem).1

/-- The warnings for a log, with the keys that nodes have in a tree. -/
def warnings (t : ContentTree) (log : List Declaration) : List Diagnostic :=
  (redeclarations log).map (Declaration.warning t)

theorem warnings_concat (t : ContentTree) (log : List Declaration) (d : Declaration) :
    warnings t (log ++ [d]) =
      warnings t log ++ if ∃ e ∈ log, e.Same d then [d.warning t] else [] := by
  rw [warnings, redeclarations_concat, List.map_append]
  congr 1
  split
  · rfl
  · rfl

/-- The warnings are the same in a tree that continues the one of the declarations. -/
theorem warnings_of_continues {t t' : ContentTree} (h : t.Continues t') {log : List Declaration}
    (hlive : ∀ d ∈ log, t.isLive d.node) : warnings t' log = warnings t log := by
  refine List.map_congr_left fun d hd ↦ ?_
  rw [Declaration.warning, h.keyText_eq (hlive d (mem_of_mem_redeclarations hd)),
    Declaration.warning]

theorem ContentTree.isLive_of_mem_keys {t : ContentTree} {id : NodeId} {key : Key}
    (h : key ∈ t.keys id) : t.isLive id = true := by
  rw [isLive_iff]
  cases hn : t.node? id with
  | some n => exact ⟨n, rfl⟩
  | none =>
    rw [keys, properties, hn] at h
    exact absurd h List.not_mem_nil

/-! ### The invariant -/

namespace Content

variable {log : List Declaration} {start content : Content} {d : Declaration}

/-- What a package has recorded and warned of by some declarations. -/
structure Warned (log : List Declaration) (start content : Content) : Prop where
  recorded : content.Recorded
  placed : Placed log start content
  declared : ∀ place, place ∈ content.declared ↔
    ∃ d ∈ log, content.tree.placeOf d.node d.statement.key = place
  diagnostics : content.diagnostics = start.diagnostics ++ warnings content.tree log

theorem warned_start (t : ContentTree) (diagnostics : List Diagnostic) :
    Warned [] (Content.start t diagnostics) (Content.start t diagnostics) where
  recorded := recorded_start t diagnostics
  placed := placed_start t diagnostics
  declared _ := ⟨fun h ↦ absurd h List.not_mem_nil, fun ⟨_, h, _⟩ ↦ absurd h List.not_mem_nil⟩
  diagnostics := (List.append_nil _).symm

namespace Warned

theorem isLive (h : Warned log start content) (hd : d ∈ log) :
    content.tree.isLive d.node = true :=
  ContentTree.isLive_of_mem_keys (h.placed.named d hd)

/-- The slot of a declaration is recorded if and only if its key was declared in its node. -/
theorem mem_declared_iff (h : Warned log start content) (d : Declaration) :
    content.tree.placeOf d.node d.statement.key ∈ content.declared ↔ ∃ e ∈ log, e.Same d := by
  rw [h.declared]
  refine exists_congr fun e ↦ and_congr_right fun he ↦ ?_
  constructor
  · intro hplace
    by_contra hne
    refine placeOf_ne (h.placed.named e he) (d := d) (fun hsame ↦ hne ?_) hplace
    exact ⟨hsame.1.symm, hsame.2.symm⟩
  · rintro ⟨hnode, hkey⟩
    rw [hnode, hkey]

/-- Later changes that keep the nodes do not change what the warnings say. -/
theorem diagnostics_of_continues (h : Warned log start content) {t : ContentTree}
    (ht : content.tree.Continues t) :
    content.diagnostics = start.diagnostics ++ warnings t log := by
  rw [h.diagnostics, warnings_of_continues ht fun _ ↦ h.isLive]

/-- Entering a block declares nothing. -/
theorem enter (h : Warned log start content) (ht : content.tree.Linked) {id : NodeId}
    (hlive : content.tree.isLive id) (key : Key) :
    Warned log start { content with tree := (content.tree.childOrCreate id key).2 } := by
  have hproperties := ht.properties_childOrCreate hlive key
  refine ⟨h.recorded.congr fun place ↦ ht.slot?_childOrCreate hlive key place,
    h.placed.congr hproperties, fun place ↦ ?_,
    h.diagnostics_of_continues (.childOrCreate ht hlive key)⟩
  have hkeys : ∀ j, (content.tree.childOrCreate id key).2.keys j = content.tree.keys j :=
    fun j ↦ congrArg (List.map Property.key) (hproperties j)
  simp only [ContentTree.placeOf, hkeys]
  exact h.declared place

/-! #### A declaration more -/

section Declare

variable (h : Warned log start content) (hd : content.tree.isLive d.node)
include h hd

/-- Its slot is recorded. -/
theorem declared_concat (place : NodeId × Nat) :
    place ∈ (content.declare d.node d.statement d.location).declared ↔
      ∃ e ∈ log ++ [d], (content.declare d.node d.statement d.location).tree.placeOf e.node
        e.statement.key = place := by
  obtain ⟨n, hn⟩ := ContentTree.isLive_iff.1 hd
  have hold : ∀ e ∈ log, (content.declare d.node d.statement d.location).tree.placeOf e.node
      e.statement.key = content.tree.placeOf e.node e.statement.key :=
    fun e he ↦ placeOf_declare hd (.inl (h.placed.named e he))
  have hnew := placeOf_declare hd (.inr ⟨rfl, rfl⟩)
  rw [mem_declared_declare hn, h.declared, ← ContentTree.placeOf_eq hn]
  constructor
  · rintro (rfl | ⟨e, he, rfl⟩)
    · exact ⟨d, List.mem_append_right _ (List.mem_singleton_self d), hnew⟩
    · exact ⟨e, List.mem_append_left _ he, hold e he⟩
  · rintro ⟨e, he, rfl⟩
    rcases List.mem_append.1 he with he | he
    · exact .inr ⟨e, he, (hold e he).symm⟩
    · obtain rfl := List.mem_singleton.1 he
      exact .inl hnew

/-- It warns if its key was declared in its node before. -/
theorem diagnostics_concat :
    (content.declare d.node d.statement d.location).diagnostics = start.diagnostics ++
      warnings (content.declare d.node d.statement d.location).tree (log ++ [d]) := by
  obtain ⟨n, hn⟩ := ContentTree.isLive_iff.1 hd
  have hcontinues : content.tree.Continues
      (content.declare d.node d.statement d.location).tree := by
    rw [tree_declare]
    exact .modify _ fun n ↦ .insert n _
  have hkey : (content.declare d.node d.statement d.location).tree.keyText d.node =
      n.key.text := by
    rw [hcontinues.keyText_eq hd, ContentTree.keyText, hn]
    rfl
  have hplace := h.mem_declared_iff d
  rw [ContentTree.placeOf_eq hn] at hplace
  rw [h.recorded.diagnostics_declare hn, warnings_concat, ← List.append_assoc,
    ← h.diagnostics_of_continues hcontinues]
  by_cases hsame : ∃ e ∈ log, e.Same d
  · rw [if_pos (hplace.2 hsame), if_pos hsame, Declaration.warning, hkey]
  · rw [if_neg fun hmem ↦ hsame (hplace.1 hmem), if_neg hsame, List.append_nil]

/-- A declaration is warned of if there was one like it. -/
theorem declare : Warned (log ++ [d]) start (content.declare d.node d.statement d.location) := by
  obtain ⟨n, hn⟩ := ContentTree.isLive_iff.1 hd
  exact ⟨h.recorded.declare hn, h.placed.declare hd, h.declared_concat hd, h.diagnostics_concat hd⟩

end Declare

end Warned

/-- **Whatever a log leads to** has warned of its redeclarations. -/
theorem Logs.warned {t : ContentTree} {diagnostics : List Diagnostic}
    (h : Logs (Content.start t diagnostics) log content) (ht : t.Linked) :
    Warned log (Content.start t diagnostics) content := by
  induction h with
  | refl => exact warned_start t diagnostics
  | enter before live key ih => exact ih.enter (before.linked ht) live key
  | declare _ live ih => exact ih.declare live

end Content

end ModContent
