import ModContent.Proofs.Grammar.Path
import ModContent.Proofs.Reference.Resolution
import ModContent.Proofs.Tree.Lookup

/-!
# What a failure to resolve says

A failure names a reference of the queue and a fault. What it says is so in the tree before
(`Tells`): the fault names the first key of the path that leads nowhere (`ContentTree.Stops`), or it
lists references that lead round in a circle, into which the chain of the named one runs (`Circle`).

A missing target is looked for a second time to name the key, with other look-ups than those that
did not find it; `stops_missingAt` says that the two agree. The circle is the part of the trail from
the link met twice; the trail before it is left out (`Trail.circle`). Both are found in the tree as
far as it is filled, which has the shape of the tree before (`Tells.of_sameShape`).

Only a path that is no path at all is not looked up: the fault then says just that, and it says so
of no other path (`Fails.not_pathText`).
-/

namespace ModContent

open Relation Resolve

/-- The keys that the segments of a path text stand for, empty ones included. -/
def segmentKeys (path : String) : List Key := (Text.splitOn '.' path.toList).map Key.ofChars

/-! ### Missing targets -/

/-- A node lacks a property if it has no slot for it. -/
theorem Node.property?_eq_none_iff {n : Node} {key : Key} :
    n.property? key = none ↔ n.slot? key = none := by
  rw [Node.property?, Node.slot?, List.find?_eq_none, List.findIdx?_eq_none_iff]
  simp

namespace ContentTree

variable {t t' : ContentTree} {before keys : List Key} {last : Key} {scope : NodeId}
  {fault : ReferenceFault}

/-- The fault names the first of the keys that cannot be followed from the root: one before the last
that no child of the node reached is accepted by, or else the last one, with the node reached that
has no such property. -/
inductive Stops (t : ContentTree) : List Key → ReferenceFault → Prop
  | node {before after : List Key} {key : Key} {owner : NodeId} (inside : after ≠ [])
      (reached : t.follow? root before = some owner) (missing : t.child? owner key = none) :
      Stops t (before ++ key :: after) (.noNode key)
  | topLevelProperty {nodes : List Key} {last : Key} (reached : t.follow? root nodes = some root)
      (missing : ∀ node, t.node? root = some node → node.property? last = none) :
      Stops t (nodes ++ [last]) (.noTopLevelProperty last)
  | property {nodes : List Key} {last : Key} {owner : NodeId} {node : Node} (below : owner ≠ root)
      (reached : t.follow? root nodes = some owner) (live : t.node? owner = some node)
      (missing : node.property? last = none) :
      Stops t (nodes ++ [last]) (.noProperty node.key last)

/-- The second walk stops where the first one did. -/
theorem stops_go (hreached : t.follow? root before = some scope)
    (hmissing : ∀ owner node, t.follow? scope keys = some owner → t.node? owner = some node →
      node.property? last = none) :
    t.Stops (before ++ (keys ++ [last])) (missingAt.go t scope keys last) := by
  induction keys generalizing before scope with
  | nil =>
    have hmissing := fun node ↦ hmissing scope node rfl
    rw [missingAt.go]
    split
    · next hroot =>
      subst hroot
      exact .topLevelProperty hreached hmissing
    · next hroot =>
      obtain ⟨node, hnode⟩ := exists_node?_of_follow? hreached hroot
      rw [hnode]
      exact .property hroot hreached hnode (hmissing node hnode)
  | cons key keys ih =>
    rw [missingAt.go]
    cases hchild : t.child? scope key with
    | none =>
      have hinside : keys ++ [last] ≠ [] :=
        List.append_ne_nil_of_right_ne_nil _ (List.cons_ne_nil _ _)
      exact .node hinside hreached hchild
    | some child =>
      rw [follow?, List.foldlM_cons, hchild] at hmissing
      have hnext : t.follow? root (before ++ [key]) = some child := by
        rw [follow?_concat, hreached, Option.bind_some, hchild]
      have hstops := ih hnext hmissing
      rwa [List.append_assoc] at hstops

/-- A path that is not found is one that stops at the key which the fault names. -/
theorem stops_missingAt {path : String} (hpath : PathText path.toList)
    (h : t.locate? path = none) : t.Stops (segmentKeys path) (t.missingAt path) := by
  cases hparse : DottedPath.parse path with
  | none => exact absurd hpath (DottedPath.parse_eq_none_iff.1 hparse)
  | some parsed =>
    have hkeys : segmentKeys path = [] ++ (parsed.nodes ++ [parsed.last]) :=
      (DottedPath.parse_eq_some_iff.1 hparse).2.symm
    rw [missingAt, hparse, hkeys]
    refine stops_go rfl fun owner node howner hnode ↦ ?_
    rw [follow?_eq] at howner
    rw [Node.property?_eq_none_iff]
    cases hslot : node.slot? parsed.last with
    | none => rfl
    | some slot => simp [locate?, hparse, howner, hnode, hslot] at h

theorem not_stops_malformedPath : ¬ t.Stops keys .malformedPath := nofun

/-- Where a path stops depends on the shape of the tree only. -/
theorem Stops.of_sameShape (hshape : t.SameShape t') (h : t'.Stops keys fault) :
    t.Stops keys fault := by
  have hchild : t'.child? = t.child? := by
    rw [funext₂ t'.child?_eq_findChild?, hshape.findChild?_eq, funext₂ t.child?_eq_findChild?]
  have hfollow : t'.follow? = t.follow? := by
    unfold follow?
    rw [hchild]
  have hmissing : ∀ {n n' : Node} {key : Key}, n'.shape = n.shape →
      (n'.property? key = none ↔ n.property? key = none) := fun heq ↦ by
    rw [Node.property?_eq_none_iff, Node.property?_eq_none_iff, Node.slot?_eq_shape, heq,
      ← Node.slot?_eq_shape]
  cases h with
  | node inside reached missing =>
    rw [hfollow] at reached
    rw [hchild] at missing
    exact .node inside reached missing
  | topLevelProperty reached missing =>
    rw [hfollow] at reached
    refine .topLevelProperty reached fun n hn ↦ ?_
    obtain ⟨n', hn', heq⟩ := hshape.exists_node? hn
    exact (hmissing heq).1 (missing n' hn')
  | @property nodes last owner n' below reached live missing =>
    rw [hfollow] at reached
    obtain ⟨n, hn, heq⟩ := hshape.symm.exists_node? live
    have hkey : n.key = n'.key := congrArg NodeShape.key heq
    rw [← hkey]
    exact .property below reached hn ((hmissing heq.symm).1 missing)

end ContentTree

/-! ### Malformed paths -/

/-- A text that begins with another character is another text. -/
theorem append_ne_of_head?_ne {lead text : String} (hlead : lead ≠ "")
    (h : lead.toList.head? ≠ text.toList.head?) (rest : String) : lead ++ rest ≠ text := by
  rintro rfl
  refine h ?_
  rw [String.toList_append, List.head?_append_of_ne_nil _ (by simpa using hlead)]

/-- Only one fault has this wording. -/
theorem ReferenceFault.message_eq_malformed_iff {fault : ReferenceFault} :
    fault.message = "malformed path" ↔ fault = .malformedPath := by
  refine ⟨fun h ↦ ?_, fun h ↦ h ▸ rfl⟩
  cases fault with
  | malformedPath => rfl
  | noNode key =>
    have h : "no node '" ++ key.text ++ "'" = "malformed path" := h
    rw [String.append_assoc] at h
    exact absurd h (append_ne_of_head?_ne (by decide) (by decide) _)
  | noTopLevelProperty key =>
    have h : "no top-level property '" ++ key.text ++ "'" = "malformed path" := h
    rw [String.append_assoc] at h
    exact absurd h (append_ne_of_head?_ne (by decide) (by decide) _)
  | noProperty owner key =>
    have h : "node '" ++ owner.text ++ "' has no property '" ++ key.text ++ "'" =
      "malformed path" := h
    rw [String.append_assoc, String.append_assoc, String.append_assoc] at h
    exact absurd h (append_ne_of_head?_ne (by decide) (by decide) _)
  | refersToItself => exact absurd h (by decide)
  | cycle paths => exact absurd h (append_ne_of_head?_ne (by decide) (by decide) _)

namespace ContentTree

variable {t : ContentTree}

/-- Following segments never ends with a malformed path. -/
theorem missingAt_go_ne (scope : NodeId) (keys : List Key) (last : Key) :
    missingAt.go t scope keys last ≠ .malformedPath := by
  induction keys generalizing scope with
  | nil =>
    rw [missingAt.go]
    split
    · exact nofun
    · exact nofun
  | cons key keys ih =>
    rw [missingAt.go]
    split
    · exact ih _
    · exact nofun

/-- A path that is not found is called malformed exactly if it is no path. -/
theorem missingAt_eq_malformedPath_iff {path : String} :
    t.missingAt path = .malformedPath ↔ ¬ PathText path.toList := by
  constructor
  · intro h hpath
    obtain ⟨p, hp⟩ := DottedPath.exists_parse_iff.2 hpath
    rw [missingAt, hp] at h
    exact missingAt_go_ne root p.nodes p.last h
  · intro hpath
    rw [missingAt, DottedPath.parse_eq_none_iff.2 hpath]

end ContentTree

/-! ### Circles -/

/-- References of a queue that lead round: each to the slot of the next, and the last one to that of
the first. None is listed twice. -/
structure Circle (t : ContentTree) (queue : List Reference) (first : Reference)
    (rest : List Reference) : Prop where
  queued : ∀ r ∈ first :: rest, r ∈ queue
  distinct : (first :: rest).Nodup
  closed : (first :: rest ++ [first]).IsChain fun r s ↦ t.locate? r.path = some s.place

/-- What a failure says is so. -/
inductive Tells (t : ContentTree) (queue : List Reference) : ReferenceFailure → Prop
  /-- The target of a path is missing, and the fault names the first key that leads nowhere. -/
  | missing {r : Reference} {fault : ReferenceFault} (queued : r ∈ queue)
      (path : PathText r.path.toList) (stops : t.Stops (segmentKeys r.path) fault) :
      Tells t queue ⟨r, fault⟩
  /-- The paths listed lead round in a circle, and the chain of the reference runs into it. -/
  | cycle {r first : Reference} {rest : List Reference} (queued : r ∈ queue)
      (circle : Circle t queue first rest)
      (enters : ReflTransGen (Leads t queue) r.place first.place) :
      Tells t queue ⟨r, .cycle ((first :: rest ++ [first]).map Reference.path)⟩
  /-- The reference waits in the slot that it leads to. -/
  | itself {r : Reference} (queued : r ∈ queue) (own : t.locate? r.path = some r.place) :
      Tells t queue ⟨r, .refersToItself⟩

/-- The path of the reference is empty or has an empty segment, and that is what the failure
says. -/
structure Malformed (queue : List Reference) (failure : ReferenceFailure) : Prop where
  queued : failure.reference ∈ queue
  path : ¬ PathText failure.reference.path.toList
  fault : failure.fault = .malformedPath

variable {t t' cur : ContentTree} {queue : List Reference} {done : List Nat}
  {chain rest : List Link}
  {link next : Link} {place : NodeId × Nat} {fuel : Nat} {failure : ReferenceFailure}

theorem Tells.of_sameShape (hshape : t.SameShape t') (h : Tells t' queue failure) :
    Tells t queue failure := by
  have hlocate : t'.locate? = t.locate? := funext hshape.locate?_eq
  cases h with
  | missing queued path stops => exact .missing queued path (stops.of_sameShape hshape)
  | cycle queued circle enters =>
    rw [leads_congr hshape fun _ ↦ Iff.rfl] at enters
    exact .cycle queued ⟨circle.queued, circle.distinct, hlocate ▸ circle.closed⟩ enters
  | itself queued own => exact .itself queued (hlocate ▸ own)

namespace Resolve

/-- The references of a chain in the order walked, with one that waits where it has come. -/
theorem Chained.isChain {r : Reference} (h : Chained t chain r.place) :
    (chain.reverse.map Link.reference ++ [r]).IsChain fun r s ↦
      t.locate? r.path = some s.place := by
  induction chain generalizing r with
  | nil => exact List.isChain_singleton r
  | cons latest chain ih =>
    obtain ⟨hlocate, hrest⟩ := h
    rw [List.reverse_cons, List.map_append]
    exact (ih hrest).append_overlap (.cons_cons hlocate (.singleton r)) (List.cons_ne_nil _ _)

/-- The references of a trail in the order walked, none of them twice. -/
theorem Trail.nodup_references (hdistinct : (queue.map Reference.place).Nodup)
    (h : Trail t queue done chain place) : (chain.reverse.map Link.reference).Nodup := by
  have hplaces : ((chain.map Link.reference).map Reference.place).Nodup := by
    rw [List.map_map]
    exact h.nodup_places hdistinct
  rw [List.map_reverse, List.nodup_reverse]
  exact hplaces.of_map Reference.place

/-- From a link of the trail that waits where it has come, the trail is a circle. -/
theorem Trail.circle {later earlier : List Link} (hdistinct : (queue.map Reference.place).Nodup)
    (h : Trail t queue done (later ++ next :: earlier) next.reference.place) :
    Circle t queue next.reference (later.reverse.map Link.reference) := by
  have hwalked : (later ++ next :: earlier).reverse.map Link.reference =
      earlier.reverse.map Link.reference ++
        (next.reference :: later.reverse.map Link.reference) := by simp
  have hdistinct := h.nodup_references hdistinct
  have hclosed := h.chained.isChain
  rw [hwalked] at hdistinct hclosed
  rw [List.append_assoc] at hclosed
  refine ⟨fun r hr ↦ ?_, hdistinct.of_append_right, hclosed.right_of_append⟩
  have hwaits : r ∈ (later ++ next :: earlier).reverse.map Link.reference :=
    hwalked ▸ List.mem_append_right _ hr
  obtain ⟨link, hlink, rfl⟩ := List.mem_map.1 hwaits
  exact reference_mem (h.mem link (List.mem_reverse.1 hlink))

/-- A trail that has come to a slot where one of its links waits: what is said of it is so. -/
theorem Trail.tells_cycleFailure (hdistinct : (queue.map Reference.place).Nodup)
    (h : Trail t queue done chain next.reference.place) (hmem : next ∈ chain) :
    Tells t queue (cycleFailure chain next) := by
  obtain ⟨first, hfirst⟩ : ∃ first, chain.getLast? = some first :=
    ⟨_, List.getLast?_eq_some_getLast (List.ne_nil_of_mem hmem)⟩
  have hfirstmem : first ∈ chain := List.mem_of_getLast? hfirst
  have hqueued := reference_mem (h.mem first hfirstmem)
  simp only [cycleFailure, hfirst, Option.getD_some]
  split
  · next hself =>
    -- the trail is the one link, which leads to its own slot
    obtain ⟨hlength, rfl⟩ := hself
    obtain ⟨link, rfl⟩ := List.length_eq_one_iff.1 hlength
    obtain rfl := List.mem_singleton.1 hmem
    exact .itself hqueued h.chained.1
  · obtain ⟨later, earlier, rfl⟩ := List.append_of_mem hmem
    have hearlier : ∀ link ∈ earlier.reverse, decide (link ≠ next) = true := by
      intro link hlink
      rw [decide_eq_true_iff]
      rintro rfl
      exact (List.nodup_cons.1 h.nodup.of_append_right).1 (List.mem_reverse.1 hlink)
    have hloop : (later ++ next :: earlier).reverse.dropWhile (· ≠ next) =
        next :: later.reverse := by
      rw [List.reverse_append, List.reverse_cons, List.append_assoc,
        List.dropWhile_append_of_pos hearlier]
      simp
    have htells := Tells.cycle hqueued (h.circle hdistinct)
      (h.transGen first hfirstmem).to_reflTransGen
    rw [hloop]
    simpa [Function.comp_def] using htells

/-! ### Following and resolving -/

/-- What is said of a link whose path is not found. -/
theorem tells_of_locate?_eq_none (hlink : link ∈ links queue)
    (h : t.locate? link.reference.path = none) :
    Tells t queue ⟨link.reference, t.missingAt link.reference.path⟩ ∨
      Malformed queue ⟨link.reference, t.missingAt link.reference.path⟩ := by
  have hqueued := reference_mem hlink
  by_cases hpath : PathText link.reference.path.toList
  · exact .inl (.missing hqueued hpath (ContentTree.stops_missingAt hpath h))
  · exact .inr ⟨hqueued, hpath, ContentTree.missingAt_eq_malformedPath_iff.2 hpath⟩

/-- What is said of a chain that is not followed to its end. -/
theorem Fails.tells (hdistinct : (queue.map Reference.place).Nodup) (h : Fails t queue failure) :
    Tells t queue failure ∨ Malformed queue failure := by
  cases h with
  | nowhere queued missing => exact tells_of_locate?_eq_none queued missing
  | back trail walked => exact .inl (trail.tells_cycleFailure hdistinct walked)

/-- A failure names a reference of the queue. -/
theorem Fails.reference_mem_queue (h : Fails t queue failure) : failure.reference ∈ queue := by
  cases h with
  | nowhere queued missing => exact reference_mem queued
  | @back _ chain next trail walked =>
    have hlast := List.getLast?_eq_some_getLast (List.ne_nil_of_mem walked)
    show (chain.getLast?.getD next).reference ∈ queue
    rw [hlast, Option.getD_some]
    exact reference_mem (trail.mem _ (List.mem_of_getLast? hlast))

/-- A failure calls a path malformed only if it is no path. -/
theorem Fails.not_pathText (h : Fails t queue failure) (hfault : failure.fault = .malformedPath) :
    ¬ PathText failure.reference.path.toList := by
  cases h with
  | nowhere queued missing => exact ContentTree.missingAt_eq_malformedPath_iff.1 hfault
  | back trail walked =>
    simp only [cycleFailure] at hfault
    split at hfault
    · cases hfault
    · cases hfault

/-- What is said when a run fails, in a tree of the shape of the one before. -/
theorem run_tells (hdistinct : (queue.map Reference.place).Nodup)
    (hrest : ∀ link ∈ rest, link ∈ links queue) (hshape : t.SameShape cur)
    (h : (run (links queue) rest done cur).2 = .error failure) :
    Tells t queue failure ∨ Malformed queue failure := by
  obtain ⟨reached, hreached, hfails⟩ := fails_of_run hrest h
  exact (hfails.tells hdistinct).imp_left (·.of_sameShape (hshape.trans hreached))

end Resolve

/-- A root with three statements: `c = @a`, and `a` and `b` that refer to one another. -/
def circleTree : ContentTree :=
  ⟨Arena.empty.push
    { Node.bare (Key.named "") with
      properties :=
        [Property.pending (Key.named "c"), Property.pending (Key.named "a"),
          Property.pending (Key.named "b")] }⟩

/-- The references of `circleTree`; the first of them is not in the circle. -/
def circleQueue : List Reference :=
  [⟨ContentTree.root, 0, "a", Location.inline 1⟩, ⟨ContentTree.root, 1, "b", Location.inline 2⟩,
    ⟨ContentTree.root, 2, "a", Location.inline 3⟩]

end ModContent
