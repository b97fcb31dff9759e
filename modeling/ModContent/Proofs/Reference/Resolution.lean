import Mathlib.Data.List.Perm.Subperm
import ModContent.Resolve
import ModContent.Proofs.Reference.Chain

/-!
# What resolving a queue does

Resolving follows one chain after the other and copies the settled values back along it. The state
between two chains is described by `Filled`: the slots of the references that are done hold the
values of the slot where they settle, and nothing else differs from the tree before. Chains are
followed in the changed tree, but its shape is that of the tree before, so `Leads` and `Settles`
always speak of the tree before.

* `follow_cases` says what one step along a chain can do. `follow_ok` and `fails_of_follow` come
  from it by induction; they rest on `Trail`, the chain walked so far. A trail repeats no link, so
  it is no longer than the queue and the fuel never runs out.
* `slot?_copyBack` says what copying does: every slot of the chain gets the values that the settled
  slot had.
* `run_spec` puts one chain after the other, and `resolve_spec` starts from nothing done. For these
  no two references of the queue may wait in one slot, and every slot must be there.
* `fails_of_resolve` says how any queue fails, whatever it is like (`Fails`).
-/

namespace ModContent

open Relation

namespace Resolve

variable {t cur : ContentTree} {queue : List Reference} {done : List Nat} {chain full : List Link}
  {link other : Link} {p q place settled : NodeId × Nat} {fuel : Nat}

/-! ### The links of a queue -/

/-- The links are the references by their numbers. -/
theorem mem_links : link ∈ links queue ↔ queue[link.number]? = some link.reference := by
  rcases link with ⟨i, r⟩
  simp only [links, List.mem_reverse, List.mem_map, Prod.exists, Link.mk.injEq]
  constructor
  · rintro ⟨r', i', hmem, rfl, rfl⟩
    exact List.mem_zipIdx_iff_getElem?.1 hmem
  · intro h
    exact ⟨r, i, List.mem_zipIdx_iff_getElem?.2 h, rfl, rfl⟩

theorem reference_mem (h : link ∈ links queue) : link.reference ∈ queue :=
  List.mem_of_getElem? (mem_links.1 h)

theorem exists_link {r : Reference} (h : r ∈ queue) :
    ∃ link ∈ links queue, link.reference = r := by
  obtain ⟨i, hi⟩ := List.mem_iff_getElem?.1 h
  exact ⟨⟨i, r⟩, mem_links.2 hi, rfl⟩

theorem length_links : (links queue).length = queue.length := by
  simp [links]

/-- A link is given by its slot: no other reference waits there. -/
theorem link_eq_of_place_eq (hdistinct : (queue.map Reference.place).Nodup)
    (hlink : link ∈ links queue) (hother : other ∈ links queue)
    (h : link.reference.place = other.reference.place) : link = other := by
  have href := eq_of_place_eq hdistinct (reference_mem hlink) (reference_mem hother) h
  rcases link with ⟨i, r⟩
  rcases other with ⟨j, r'⟩
  obtain rfl : r = r' := href
  have hi := mem_links.1 hlink
  have hj := mem_links.1 hother
  obtain ⟨hlt, -⟩ := List.getElem?_eq_some_iff.1 hi
  rw [Link.mk.injEq]
  exact ⟨(List.getElem?_inj hlt (hdistinct.of_map Reference.place)).1 (hi.trans hj.symm), rfl⟩

/-- The link that is found at a place waits there. -/
theorem mem_of_linkAt? (h : linkAt? (links queue) p = some link) :
    link ∈ links queue ∧ link.reference.place = p := by
  refine ⟨List.mem_of_find?_eq_some h, ?_⟩
  simpa using List.find?_some h

theorem linkAt?_eq_none (h : linkAt? (links queue) p = none) :
    p ∉ queue.map Reference.place := by
  intro hp
  obtain ⟨r, hr, rfl⟩ := List.mem_map.1 hp
  obtain ⟨link, hlink, rfl⟩ := exists_link hr
  simpa using List.find?_eq_none.1 h link hlink

/-! ### The chain walked so far -/

/-- The links of a chain, the latest first, lead from slot to slot and at last to `place`. -/
def Chained (t : ContentTree) : List Link → NodeId × Nat → Prop
  | [], _ => True
  | link :: chain, place =>
    t.locate? link.reference.path = some place ∧ Chained t chain link.reference.place

/-- A chain of links that are still to be done, none of them twice, which has come to `place`. -/
structure Trail (t : ContentTree) (queue : List Reference) (done : List Nat) (chain : List Link)
    (place : NodeId × Nat) : Prop where
  chained : Chained t chain place
  nodup : chain.Nodup
  mem : ∀ link ∈ chain, link ∈ links queue
  notDone : ∀ link ∈ chain, link.number ∉ done

/-- A trail may start with any link that is not done. -/
theorem Trail.single (hlink : link ∈ links queue) (hdone : link.number ∉ done)
    (h : t.locate? link.reference.path = some place) : Trail t queue done [link] place := by
  refine ⟨⟨h, trivial⟩, List.nodup_singleton link, ?_, ?_⟩
  · intro link' hlink'
    rwa [List.mem_singleton.1 hlink']
  · intro link' hlink'
    rwa [List.mem_singleton.1 hlink']

/-- A trail goes on with the link that waits where it has come. -/
theorem Trail.cons (h : Trail t queue done chain link.reference.place) (hlink : link ∈ links queue)
    (hdone : link.number ∉ done) (hnew : link ∉ chain)
    (hlocate : t.locate? link.reference.path = some place) :
    Trail t queue done (link :: chain) place where
  chained := ⟨hlocate, h.chained⟩
  nodup := List.nodup_cons.2 ⟨hnew, h.nodup⟩
  mem := List.forall_mem_cons.2 ⟨hlink, h.mem⟩
  notDone := List.forall_mem_cons.2 ⟨hdone, h.notDone⟩

/-- Every slot of a trail leads on to where the trail has come. -/
theorem Trail.transGen (h : Trail t queue done chain place) :
    ∀ link ∈ chain, TransGen (Leads t queue) link.reference.place place := by
  obtain ⟨hchained, -, hmem, -⟩ := h
  induction chain generalizing place with
  | nil => intro link hlink; exact absurd hlink List.not_mem_nil
  | cons latest chain ih =>
    obtain ⟨hlocate, hrest⟩ := hchained
    have hlead : Leads t queue latest.reference.place place :=
      ⟨latest.reference, reference_mem (hmem latest List.mem_cons_self), rfl, hlocate⟩
    intro link hlink
    rcases List.mem_cons.1 hlink with rfl | hlink
    · exact .single hlead
    · exact .tail (ih hrest (fun l hl ↦ hmem l (List.mem_cons_of_mem _ hl)) link hlink) hlead

theorem Trail.length_le (h : Trail t queue done chain place) : chain.length ≤ queue.length := by
  rw [← length_links]
  exact (h.nodup.subperm fun link hlink ↦ h.mem link hlink).length_le

/-- With different places a trail visits none twice. -/
theorem Trail.nodup_places (hdistinct : (queue.map Reference.place).Nodup)
    (h : Trail t queue done chain place) :
    (chain.map fun link ↦ link.reference.place).Nodup :=
  h.nodup.map_on fun link hlink other hother ↦
    link_eq_of_place_eq hdistinct (h.mem link hlink) (h.mem other hother)

/-! ### Following a chain -/

/-- No reference waits in the slot, or one that is done. -/
def IsSettled (queue : List Reference) (done : List Nat) (place : NodeId × Nat) : Prop :=
  place ∉ queue.map Reference.place ∨
    ∃ link ∈ links queue, link.number ∈ done ∧ link.reference.place = place

/-- One more step along a chain that has come to `place`: the chain ends there, or the link that
waits there closes a cycle, leads nowhere, or leads on. -/
theorem follow_cases (t : ContentTree) (queue : List Reference) (done : List Nat) (fuel : Nat)
    (chain : List Link) (place : NodeId × Nat) :
    (IsSettled queue done place ∧
        follow t (links queue) done (fuel + 1) chain place = .ok (chain, place)) ∨
      ∃ next ∈ links queue, next.reference.place = place ∧ next.number ∉ done ∧
        ((next ∈ chain ∧ follow t (links queue) done (fuel + 1) chain place =
            .error (cycleFailure chain next)) ∨
          (t.locate? next.reference.path = none ∧
            follow t (links queue) done (fuel + 1) chain place =
              .error ⟨next.reference, t.missingAt next.reference.path⟩) ∨
          ∃ further, next ∉ chain ∧ t.locate? next.reference.path = some further ∧
            follow t (links queue) done (fuel + 1) chain place =
              follow t (links queue) done fuel (next :: chain) further) := by
  rw [follow]
  cases hnext : linkAt? (links queue) place with
  | none => exact .inl ⟨.inl (linkAt?_eq_none hnext), rfl⟩
  | some next =>
    obtain ⟨hmem, hplace⟩ := mem_of_linkAt? hnext
    dsimp only
    by_cases hdone : next.number ∈ done
    · exact .inl ⟨.inr ⟨next, hmem, hdone, hplace⟩, if_pos hdone⟩
    · refine .inr ⟨next, hmem, hplace, hdone, ?_⟩
      rw [if_neg hdone]
      by_cases hcycle : next ∈ chain
      · exact .inl ⟨hcycle, if_pos hcycle⟩
      · rw [if_neg hcycle, target]
        cases hlocate : t.locate? next.reference.path with
        | none => exact .inr (.inl ⟨rfl, rfl⟩)
        | some further => exact .inr (.inr ⟨further, hcycle, rfl, rfl⟩)

/-- A chain that is followed to its end is a trail to a settled slot. -/
theorem follow_ok (htrail : Trail t queue done chain place)
    (hfuel : queue.length < fuel + chain.length)
    (h : follow t (links queue) done fuel chain place = .ok (full, settled)) :
    Trail t queue done full settled ∧ chain ⊆ full ∧ IsSettled queue done settled := by
  induction fuel generalizing chain place with
  | zero =>
    have := htrail.length_le
    omega
  | succ fuel ih =>
    obtain ⟨hend, heq⟩ | ⟨next, hmem, rfl, hdone, hstep⟩ :=
      follow_cases t queue done fuel chain place
    · obtain ⟨rfl, rfl⟩ := Prod.mk.inj (Except.ok.inj (heq.symm.trans h))
      exact ⟨htrail, List.Subset.refl _, hend⟩
    · obtain ⟨-, heq⟩ | ⟨-, heq⟩ | ⟨further, hnew, hlocate, heq⟩ := hstep
      · cases heq.symm.trans h
      · cases heq.symm.trans h
      · have hlength : queue.length < fuel + (next :: chain).length := by
          rw [List.length_cons]
          omega
        obtain ⟨hfull, hsub, hend⟩ :=
          ih (htrail.cons hmem hdone hnew hlocate) hlength (heq.symm.trans h)
        exact ⟨hfull, List.Subset.trans (List.subset_cons_self _ _) hsub, hend⟩

/-- Why a chain is not followed to its end, and what is reported then: a link leads nowhere, or the
chain has come back to one of its links. -/
inductive Fails (t : ContentTree) (queue : List Reference) : ReferenceFailure → Prop
  | nowhere {link : Link} (queued : link ∈ links queue)
      (missing : t.locate? link.reference.path = none) :
      Fails t queue ⟨link.reference, t.missingAt link.reference.path⟩
  | back {done : List Nat} {chain : List Link} {next : Link}
      (trail : Trail t queue done chain next.reference.place) (walked : next ∈ chain) :
      Fails t queue (cycleFailure chain next)

/-- Following a trail fails only as the relation says. -/
theorem fails_of_follow {failure : ReferenceFailure} (htrail : Trail t queue done chain place)
    (h : follow t (links queue) done fuel chain place = .error failure) :
    Fails t queue failure := by
  induction fuel generalizing chain place with
  | zero => cases h
  | succ fuel ih =>
    obtain ⟨-, heq⟩ | ⟨next, hmem, rfl, hdone, hstep⟩ :=
      follow_cases t queue done fuel chain place
    · cases heq.symm.trans h
    · obtain ⟨hcycle, heq⟩ | ⟨hnone, heq⟩ | ⟨further, hnew, hlocate, heq⟩ := hstep
      · obtain rfl := Except.error.inj (heq.symm.trans h)
        exact .back htrail hcycle
      · obtain rfl := Except.error.inj (heq.symm.trans h)
        exact .nowhere hmem hnone
      · exact ih (htrail.cons hmem hdone hnew hlocate) (heq.symm.trans h)

/-! ### Copying back -/

/-- Copying back changes no shape. -/
theorem sameShape_copyBack (cur : ContentTree) (settled : NodeId × Nat) (chain : List Link) :
    cur.SameShape (copyBack cur settled chain) := by
  induction chain generalizing cur settled with
  | nil => exact .refl cur
  | cons latest chain ih => exact (ContentTree.sameShape_assignSlot cur _ _).trans (ih _ _)

/-- Copying back gives every slot of a chain the values of the slot that the chain leads to, and
leaves the other slots as they were. -/
theorem slot?_copyBack (cur : ContentTree) (settled : NodeId × Nat)
    (hlive : ∀ link ∈ chain, (cur.slot? link.reference.place).isSome)
    (hnodup : (chain.map fun link ↦ link.reference.place).Nodup) (p : NodeId × Nat) :
    (copyBack cur settled chain).slot? p =
      if p ∈ chain.map fun link ↦ link.reference.place then
        (cur.slot? p).map fun property ↦ property.assign (valuesAt cur settled)
      else cur.slot? p := by
  induction chain generalizing cur settled with
  | nil => simp [copyBack]
  | cons latest chain ih =>
    rw [List.map_cons, List.nodup_cons] at hnodup
    obtain ⟨hnew, hnodup⟩ := hnodup
    set next := cur.assignSlot latest.reference.place (valuesAt cur settled) with hnext
    have hshape : cur.SameShape next := ContentTree.sameShape_assignSlot _ _ _
    -- the slot just filled hands on the values that it got
    have hvalues : valuesAt next latest.reference.place = valuesAt cur settled := by
      obtain ⟨property, hproperty⟩ :=
        Option.isSome_iff_exists.1 (hlive latest List.mem_cons_self)
      rw [valuesAt, hnext, ContentTree.slot?_assignSlot, if_pos rfl, hproperty]
      rfl
    have hslots := ih next latest.reference.place
      (fun link hlink ↦ by
        rw [hshape.slot?_isSome]
        exact hlive link (List.mem_cons_of_mem _ hlink)) hnodup
    rw [copyBack, ← hnext, hslots, hvalues, hnext, ContentTree.slot?_assignSlot, List.map_cons]
    by_cases hp : p = latest.reference.place
    · subst hp
      rw [if_neg hnew, if_pos rfl, if_pos List.mem_cons_self]
    · rw [if_neg hp]
      simp only [List.mem_cons, hp, false_or]

/-! ### The state between two chains -/

/-- The slots of the references that are done hold what their chains settle at; nothing else
differs from the tree before. -/
structure Filled (t : ContentTree) (queue : List Reference) (done : List Nat)
    (cur : ContentTree) : Prop where
  shape : t.SameShape cur
  filled : ∀ link ∈ links queue, link.number ∈ done →
    ∃ q, Settles t queue link.reference.place q ∧
      cur.slot? link.reference.place =
        (t.slot? link.reference.place).map fun property ↦ property.assign (valuesAt t q)
  kept : ∀ p, (∀ link ∈ links queue, link.number ∈ done → link.reference.place ≠ p) →
    cur.slot? p = t.slot? p

theorem filled_nil (t : ContentTree) (queue : List Reference) : Filled t queue [] t where
  shape := .refl t
  filled _ _ h := absurd h List.not_mem_nil
  kept _ _ := rfl

/-- A trail in the tree so far is one in the tree before. -/
theorem Filled.trail (h : Filled t queue done cur) (htrail : Trail cur queue done chain place) :
    Trail t queue done chain place := by
  refine ⟨?_, htrail.nodup, htrail.mem, htrail.notDone⟩
  have hchained := htrail.chained
  clear htrail
  induction chain generalizing place with
  | nil => trivial
  | cons link chain ih =>
    obtain ⟨hlocate, hrest⟩ := hchained
    rw [h.shape.locate?_eq] at hlocate
    exact ⟨hlocate, ih hrest⟩

/-- A settled slot holds the values of the slot where its own chain settles. -/
theorem Filled.exists_settles (h : Filled t queue done cur)
    (hlive : ∀ r ∈ queue, (t.slot? r.place).isSome) (hsettled : IsSettled queue done settled) :
    ∃ q, Settles t queue settled q ∧ valuesAt cur settled = valuesAt t q := by
  rcases hsettled with hfree | ⟨link, hlink, hdone, rfl⟩
  · refine ⟨settled, settles_self hfree, ?_⟩
    rw [valuesAt, h.kept settled, valuesAt]
    rintro link hlink - rfl
    exact hfree (List.mem_map_of_mem (reference_mem hlink))
  · obtain ⟨q, hq, hslot⟩ := h.filled link hlink hdone
    obtain ⟨property, hproperty⟩ :=
      Option.isSome_iff_exists.1 (hlive link.reference (reference_mem hlink))
    refine ⟨q, hq, ?_⟩
    rw [valuesAt, hslot, hproperty]
    rfl

/-- One more chain is done. -/
theorem Filled.copyBack (hdistinct : (queue.map Reference.place).Nodup)
    (hlive : ∀ r ∈ queue, (t.slot? r.place).isSome) (h : Filled t queue done cur)
    (htrail : Trail t queue done chain settled) (hsettled : IsSettled queue done settled) :
    Filled t queue (chain.map Link.number ++ done) (copyBack cur settled chain) := by
  obtain ⟨q, hq, hvalues⟩ := h.exists_settles hlive hsettled
  have hslots := slot?_copyBack cur settled
    (fun link hlink ↦ by
      rw [h.shape.slot?_isSome]
      exact hlive link.reference (reference_mem (htrail.mem link hlink)))
    (htrail.nodup_places hdistinct)
  -- a link with a number of the chain is in the chain
  have hchain : ∀ link ∈ links queue, link.number ∈ chain.map Link.number → link ∈ chain := by
    intro link hlink hnumber
    obtain ⟨other, hother, hnumber⟩ := List.mem_map.1 hnumber
    have hreference : other.reference = link.reference := by
      have := mem_links.1 (htrail.mem other hother)
      rw [hnumber, mem_links.1 hlink] at this
      exact (Option.some.inj this).symm
    rwa [← link_eq_of_place_eq hdistinct (htrail.mem other hother) hlink (by rw [hreference])]
  refine ⟨h.shape.trans (sameShape_copyBack cur settled chain), fun link hlink hnumber ↦ ?_,
    fun p hp ↦ ?_⟩
  · by_cases hmem : link ∈ chain
    · refine ⟨q, ⟨(htrail.transGen link hmem).to_reflTransGen.trans hq.1, hq.2⟩, ?_⟩
      rw [hslots, if_pos (List.mem_map_of_mem hmem), hvalues, h.kept]
      intro other hother hdone hplace
      obtain rfl := link_eq_of_place_eq hdistinct hother hlink hplace
      exact htrail.notDone other hmem hdone
    · have hdone : link.number ∈ done :=
        (List.mem_append.1 hnumber).resolve_left fun hn ↦ hmem (hchain link hlink hn)
      rw [hslots, if_neg]
      · exact h.filled link hlink hdone
      · rintro hplace
        obtain ⟨other, hother, hplace⟩ := List.mem_map.1 hplace
        obtain rfl := link_eq_of_place_eq hdistinct (htrail.mem other hother) hlink hplace
        exact hmem hother
  · rw [hslots, if_neg]
    · exact h.kept p fun link hlink hdone ↦ hp link hlink (List.mem_append_right _ hdone)
    · intro hmem
      obtain ⟨link, hlink, hplace⟩ := List.mem_map.1 hmem
      exact hp link (htrail.mem link hlink)
        (List.mem_append_left _ (List.mem_map_of_mem hlink)) hplace

/-! ### A whole run -/

/-- A path of the queue leads nowhere, or a slot lies on a cycle. -/
def Blocked (t : ContentTree) (queue : List Reference) : Prop :=
  (∃ r ∈ queue, t.locate? r.path = none) ∨ ∃ p, TransGen (Leads t queue) p p

/-- Only a blocked queue fails. -/
theorem Fails.blocked {failure : ReferenceFailure} (h : Fails t queue failure) :
    Blocked t queue := by
  cases h with
  | nowhere queued missing => exact .inl ⟨_, reference_mem queued, missing⟩
  | back trail walked => exact .inr ⟨_, trail.transGen _ walked⟩

/-- One chain: either it is followed to its end and copied, or the queue is blocked. -/
theorem follow_spec (hdistinct : (queue.map Reference.place).Nodup)
    (hlive : ∀ r ∈ queue, (t.slot? r.place).isSome) (h : Filled t queue done cur)
    (hlink : link ∈ links queue) (hdone : link.number ∉ done) :
    (∃ failure, target cur link.reference >>=
        follow cur (links queue) done (links queue).length [link] = .error failure ∧
        Blocked t queue) ∨
      ∃ chain settled, target cur link.reference >>=
        follow cur (links queue) done (links queue).length [link] = .ok (chain, settled) ∧
        Filled t queue (chain.map Link.number ++ done) (Resolve.copyBack cur settled chain) ∧
        link ∈ chain := by
  have hleads : Leads cur queue = Leads t queue := leads_congr h.shape fun _ ↦ Iff.rfl
  cases hlocate : cur.locate? link.reference.path with
  | none =>
    refine .inl ⟨_, by rw [target, hlocate]; rfl, .inl ⟨link.reference, reference_mem hlink, ?_⟩⟩
    rwa [h.shape.locate?_eq] at hlocate
  | some place =>
    have htrail : Trail cur queue done [link] place := .single hlink hdone hlocate
    have htarget : target cur link.reference = .ok place := by rw [target, hlocate]
    rw [htarget]
    cases hfollow : follow cur (links queue) done (links queue).length [link] place with
    | error failure =>
      refine .inl ⟨failure, hfollow, ?_⟩
      rcases (fails_of_follow htrail hfollow).blocked with ⟨r, hr, hnone⟩ | ⟨p, hcycle⟩
      · exact .inl ⟨r, hr, by rwa [h.shape.locate?_eq] at hnone⟩
      · exact .inr ⟨p, by rwa [hleads] at hcycle⟩
    | ok result =>
      obtain ⟨chain, settled⟩ := result
      obtain ⟨hfull, hsub, hsettled⟩ :=
        follow_ok htrail (by simp [length_links]) hfollow
      exact .inr ⟨chain, settled, hfollow,
        h.copyBack hdistinct hlive (h.trail hfull) hsettled, hsub List.mem_cons_self⟩

/-- A run that fails does so at one chain, in the tree as far as it is filled. -/
theorem fails_of_run {rest : List Link} {failure : ReferenceFailure}
    (hrest : ∀ link ∈ rest, link ∈ links queue)
    (h : (run (links queue) rest done cur).2 = .error failure) :
    ∃ reached, cur.SameShape reached ∧ Fails reached queue failure := by
  induction rest generalizing done cur with
  | nil => cases h
  | cons link rest ih =>
    obtain ⟨hlink, hrest⟩ := List.forall_mem_cons.1 hrest
    rw [run] at h
    by_cases hdone : link.number ∈ done
    · rw [if_pos hdone] at h
      exact ih hrest h
    rw [if_neg hdone, target] at h
    cases hlocate : cur.locate? link.reference.path with
    | none =>
      rw [hlocate] at h
      obtain rfl := Except.error.inj h
      exact ⟨cur, .refl cur, .nowhere hlink hlocate⟩
    | some place =>
      rw [hlocate] at h
      cases hfollow : follow cur (links queue) done (links queue).length [link] place with
      | error failed =>
        simp only [bind, Except.bind, hfollow] at h
        obtain rfl := Except.error.inj h
        exact ⟨cur, .refl cur, fails_of_follow (.single hlink hdone hlocate) hfollow⟩
      | ok found =>
        simp only [bind, Except.bind, hfollow] at h
        obtain ⟨reached, hshape, hfails⟩ := ih hrest h
        exact ⟨reached, (sameShape_copyBack ..).trans hshape, hfails⟩

/-- Resolving some links after those already done: the slots of all that are done are filled, and
if a failure ends the run the queue is blocked. -/
theorem run_spec (hdistinct : (queue.map Reference.place).Nodup)
    (hlive : ∀ r ∈ queue, (t.slot? r.place).isSome) {rest : List Link}
    (hrest : ∀ link ∈ rest, link ∈ links queue) (h : Filled t queue done cur) :
    ∃ done', Filled t queue done' (run (links queue) rest done cur).1 ∧ done ⊆ done' ∧
      (((run (links queue) rest done cur).2 = .ok () ∧ ∀ link ∈ rest, link.number ∈ done') ∨
        ∃ failure, (run (links queue) rest done cur).2 = .error failure ∧ Blocked t queue) := by
  induction rest generalizing done cur with
  | nil =>
    exact ⟨done, h, List.Subset.refl _, .inl ⟨rfl, fun _ hl ↦ absurd hl List.not_mem_nil⟩⟩
  | cons link rest ih =>
    obtain ⟨hlink, hrest⟩ := List.forall_mem_cons.1 hrest
    rw [run]
    by_cases hdone : link.number ∈ done
    · rw [if_pos hdone]
      obtain ⟨done', hfilled, hsub, hend⟩ := ih hrest h
      refine ⟨done', hfilled, hsub, hend.imp_left fun ⟨hok, hall⟩ ↦ ⟨hok, ?_⟩⟩
      exact List.forall_mem_cons.2 ⟨hsub hdone, hall⟩
    · rw [if_neg hdone]
      rcases follow_spec hdistinct hlive h hlink hdone with
        ⟨failure, hfollow, hblocked⟩ | ⟨chain, settled, hfollow, hfilled, hmem⟩
      · rw [hfollow]
        exact ⟨done, h, List.Subset.refl _, .inr ⟨failure, rfl, hblocked⟩⟩
      · rw [hfollow]
        obtain ⟨done', hfilled', hsub, hend⟩ := ih hrest hfilled
        refine ⟨done', hfilled', List.Subset.trans (List.subset_append_right _ _) hsub,
          hend.imp_left fun ⟨hok, hall⟩ ↦ ⟨hok, ?_⟩⟩
        exact List.forall_mem_cons.2
          ⟨hsub (List.mem_append_left _ (List.mem_map_of_mem hmem)), hall⟩

end Resolve

open Resolve

variable {t : ContentTree} {queue : List Reference}

/-- Resolving a whole queue: every slot is filled, or the queue is blocked and some are. -/
theorem resolve_spec (hdistinct : (queue.map Reference.place).Nodup)
    (hlive : ∀ r ∈ queue, (t.slot? r.place).isSome) :
    ∃ done, Filled t queue done (resolve t queue).1 ∧
      (((resolve t queue).2 = .ok queue.length ∧ ∀ link ∈ links queue, link.number ∈ done) ∨
        ∃ failure, (resolve t queue).2 = .error failure ∧ Blocked t queue) := by
  obtain ⟨done, hfilled, -, hend⟩ := run_spec hdistinct hlive
    (fun link hlink ↦ List.mem_reverse.1 hlink) (filled_nil t queue)
  refine ⟨done, hfilled, hend.imp (fun ⟨hok, hall⟩ ↦ ⟨?_, ?_⟩) fun ⟨failure, herror, hblocked⟩ ↦
    ⟨failure, ?_, hblocked⟩⟩
  · show Except.map _ (run (links queue) (links queue).reverse [] t).2 = _
    rw [hok]
    rfl
  · exact fun link hlink ↦ hall link (List.mem_reverse.2 hlink)
  · show Except.map _ (run (links queue) (links queue).reverse [] t).2 = _
    rw [herror]
    rfl

/-- A queue that is not resolved fails at one chain, in a tree of the shape of the one before. -/
theorem fails_of_resolve {failure : ReferenceFailure} (h : (resolve t queue).2 = .error failure) :
    ∃ reached, t.SameShape reached ∧ Fails reached queue failure := by
  have hrun : (run (links queue) (links queue).reverse [] t).2 = .error failure := by
    change Except.map _ (run (links queue) (links queue).reverse [] t).2 = .error failure at h
    cases hrun : (run (links queue) (links queue).reverse [] t).2 with
    | error failed => rw [hrun] at h; exact congrArg _ (Except.error.inj h)
    | ok done => rw [hrun] at h; cases h
  exact fails_of_run (fun link hlink ↦ List.mem_reverse.1 hlink) hrun

/-- A resolved queue: the slot of each reference holds the values of the slot where it settles, and
the other slots are as they were. -/
theorem resolve_ok (hdistinct : (queue.map Reference.place).Nodup)
    (hlive : ∀ r ∈ queue, (t.slot? r.place).isSome) {n : Nat}
    (h : (resolve t queue).2 = .ok n) :
    t.SameShape (resolve t queue).1 ∧
      (∀ r ∈ queue, ∃ q, Settles t queue r.place q ∧
        (resolve t queue).1.slot? r.place =
          (t.slot? r.place).map fun property ↦ property.assign (valuesAt t q)) ∧
      ∀ p ∉ queue.map Reference.place, (resolve t queue).1.slot? p = t.slot? p := by
  obtain ⟨done, hfilled, ⟨-, hall⟩ | ⟨failure, herror, -⟩⟩ := resolve_spec hdistinct hlive
  · refine ⟨hfilled.shape, fun r hr ↦ ?_, fun p hp ↦ hfilled.kept p ?_⟩
    · obtain ⟨link, hlink, rfl⟩ := exists_link hr
      exact hfilled.filled link hlink (hall link hlink)
    · rintro link hlink - rfl
      exact hp (List.mem_map_of_mem (reference_mem hlink))
  · rw [h] at herror
    cases herror

end ModContent
