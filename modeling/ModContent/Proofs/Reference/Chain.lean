import Mathlib.Data.List.Chain
import Mathlib.Data.List.Nodup
import Mathlib.Logic.Relation
import ModContent.Reference
import ModContent.Proofs.Tree.Shape

/-!
# Chains of references

The slot of a queued reference **leads** to the slot found at its path. When that slot is queued
too it leads on, so each queued slot begins a chain; a chain ends at the first slot that is not
queued, where the slot **settles**. This is a statement about a tree and a queue alone, with no
order among the references: it is what resolving a queue is measured against.

As long as no two references wait in one slot, a slot leads to one slot at most (`Leads.unique`).
Everything below rests on that: chains have no branches, so a slot settles in one place at most
(`Settles.unique`), and a slot that settles lies on no cycle (`Settles.not_transGen`).
-/

namespace ModContent

open Relation

/-- The slot of a queued reference leads to the slot found at its path. -/
def Leads (t : ContentTree) (queue : List Reference) (p q : NodeId × Nat) : Prop :=
  ∃ r ∈ queue, r.place = p ∧ t.locate? r.path = some q

/-- The chain that begins at a slot ends at this one, the first that is not queued. -/
def Settles (t : ContentTree) (queue : List Reference) (p q : NodeId × Nat) : Prop :=
  ReflTransGen (Leads t queue) p q ∧ q ∉ queue.map Reference.place

/-- No walk along the references passes a slot twice. -/
def NeverReturns (t : ContentTree) (queue : List Reference) : Prop :=
  ∀ walk : List (NodeId × Nat), walk.IsChain (Leads t queue) → walk.Nodup

variable {t t' : ContentTree} {queue queue' : List Reference} {p q s : NodeId × Nat}

/-! ### What chains depend on -/

/-- Where references lead is a matter of the shape of a tree and of which references are queued. -/
theorem leads_congr (hshape : t.SameShape t') (hmem : ∀ r, r ∈ queue' ↔ r ∈ queue) :
    Leads t' queue' = Leads t queue := by
  funext p q
  simp only [Leads, hmem, hshape.locate?_eq]

theorem settles_congr (hshape : t.SameShape t') (hmem : ∀ r, r ∈ queue' ↔ r ∈ queue) :
    Settles t' queue' = Settles t queue := by
  funext p q
  simp only [Settles, leads_congr hshape hmem, List.mem_map, hmem]

theorem neverReturns_congr (hshape : t.SameShape t') (hmem : ∀ r, r ∈ queue' ↔ r ∈ queue) :
    NeverReturns t' queue' ↔ NeverReturns t queue := by
  simp only [NeverReturns, leads_congr hshape hmem]

/-! ### Chains have no branches -/

theorem Leads.mem (h : Leads t queue p q) : p ∈ queue.map Reference.place := by
  obtain ⟨r, hr, rfl, -⟩ := h
  exact List.mem_map_of_mem hr

/-- Two queued references that wait in one slot are the same. -/
theorem eq_of_place_eq (hdistinct : (queue.map Reference.place).Nodup) {r r' : Reference}
    (hr : r ∈ queue) (hr' : r' ∈ queue) (h : r.place = r'.place) : r = r' :=
  List.inj_on_of_nodup_map hdistinct hr hr' h

/-- With different places every place leads to one place at most. -/
theorem Leads.unique (hdistinct : (queue.map Reference.place).Nodup)
    (h : Leads t queue p q) (h' : Leads t queue p s) : q = s := by
  obtain ⟨r, hr, rfl, hq⟩ := h
  obtain ⟨r', hr', hplace, hs⟩ := h'
  obtain rfl := eq_of_place_eq hdistinct hr' hr hplace
  exact Option.some.inj (hq.symm.trans hs)

/-- A slot that is not queued settles where it is. -/
theorem settles_self (h : p ∉ queue.map Reference.place) : Settles t queue p p :=
  ⟨.refl, h⟩

/-- A place settles where the next one does. -/
theorem Leads.settles (h : Leads t queue p q) (hq : Settles t queue q s) :
    Settles t queue p s :=
  ⟨.head h hq.1, hq.2⟩

/-- The rest of a chain settles where the whole chain does. -/
theorem Settles.of_leads (hdistinct : (queue.map Reference.place).Nodup)
    (hp : Settles t queue p s) (h : Leads t queue p q) : Settles t queue q s := by
  refine ⟨?_, hp.2⟩
  rcases hp.1.cases_head with rfl | ⟨q', hq', hrest⟩
  · exact absurd h.mem hp.2
  · rwa [h.unique hdistinct hq']

/-- A place settles in one place at most. -/
theorem Settles.unique (hdistinct : (queue.map Reference.place).Nodup)
    (hp : Settles t queue p q) (hp' : Settles t queue p s) : q = s := by
  obtain ⟨hreach, hq⟩ := hp
  -- along the first chain, from its end back to its start; the second one has the same start
  induction hreach using ReflTransGen.head_induction_on with
  | refl =>
    rcases hp'.1.cases_head with rfl | ⟨q', hlead, -⟩
    · rfl
    · exact absurd hlead.mem hq
  | head hlead _ ih => exact ih (hp'.of_leads hdistinct hlead)

/-! ### Cycles -/

/-- A slot that settles lies on no cycle: the chain would pass it again before it ends. -/
theorem Settles.not_transGen (hdistinct : (queue.map Reference.place).Nodup)
    (hp : Settles t queue p q) : ¬ TransGen (Leads t queue) p p := by
  obtain ⟨hreach, hq⟩ := hp
  induction hreach using ReflTransGen.head_induction_on with
  | refl =>
    intro hcycle
    obtain ⟨r, hlead, -⟩ := TransGen.head'_iff.1 hcycle
    exact hq hlead.mem
  | head hlead _ ih =>
    intro hcycle
    obtain ⟨r, hlead', hrest⟩ := TransGen.head'_iff.1 hcycle
    obtain rfl := hlead.unique hdistinct hlead'
    exact ih (TransGen.tail' hrest hlead)

/-- Walks never return exactly when no slot lies on a cycle. -/
theorem neverReturns_iff : NeverReturns t queue ↔ ∀ p, ¬ TransGen (Leads t queue) p p := by
  constructor
  · -- a cycle is a walk that has its first slot again at the end
    intro h p hcycle
    obtain ⟨q, hlead, hrest⟩ := TransGen.head'_iff.1 hcycle
    obtain ⟨walk, hwalk, hlast⟩ := List.exists_isChain_cons_of_relationReflTransGen hrest
    have hmem : p ∈ q :: walk := hlast ▸ List.getLast_mem _
    exact (List.nodup_cons.1 (h (p :: q :: walk) (.cons_cons hlead hwalk))).1 hmem
  · -- every slot of a walk leads on to each later one
    intro h walk hwalk
    have hpairs : walk.Pairwise (TransGen (Leads t queue)) :=
      List.isChain_iff_pairwise.1 (hwalk.imp fun _ _ ↦ .single)
    refine hpairs.imp fun {p q} hreach ↦ ?_
    rintro rfl
    exact h p hreach

end ModContent
