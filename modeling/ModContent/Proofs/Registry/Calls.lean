import Mathlib.Data.List.Induction
import Mathlib.Data.List.Nodup
import ModContent.Proofs.Registry.Build
import ModContent.Proofs.Registry.Together
import ModContent.Registry.Record

/-!
# Registries through their calls

The calls on a registry may come in any order: ids and policy are replaced between builds, contents
are staged over others, and a commit or a discard may find nothing staged. What readers see changes
in one way only, by a call that publishes a build (`Call.apply_cases`). So what is said here rests
on two facts:

* in every build the entries and the name index are two views of the same names
  (`Build.Coherent`), whatever the id table was: a name that stands in it twice has its entry under
  the last of its ids, and a name that the tree does not have has none;
* a registry is built if and only if one of its calls published (`built_run_iff`), and it is locked
  only then.

Main statement: `reads_agree_after_calls`.
-/

namespace ModContent

variable {α : Type}

/-! ### The indices of a build -/

namespace Build

/-- Each entry stands under its own id and is found by its name, and what the index finds is
there. -/
structure Coherent (b : Build α) : Prop where
  entries : ∀ id entry, b.entries[id]?.join = some entry →
    entry.id = some id ∧ b.ids.lookup entry.name = some id
  ids : ∀ name id, b.ids.lookup name = some id →
    ∃ entry, b.entries[id]?.join = some entry ∧ entry.name = name
  nodup : (b.ids.map Prod.fst).Nodup

/-- Only the indices count, not the table. -/
theorem Coherent.congr {b c : Build α} (h : b.Coherent) (hentries : c.entries = b.entries)
    (hids : c.ids = b.ids) : c.Coherent := by
  refine ⟨fun id entry ↦ ?_, fun name id ↦ ?_, ?_⟩
  · rw [hentries, hids]
    exact h.entries id entry
  · rw [hentries, hids]
    exact h.ids name id
  · rw [hids]
    exact h.nodup

/-- The indices while definitions are put in place: the index follows the table, which has room for
each of its ids. -/
structure Filling (b : Build α) : Prop extends b.Coherent where
  named : ∀ name id, b.ids.lookup name = some id → b.table.nameOf? id = some name
  length : b.entries.length = b.table.idSpace

theorem coherent_bare (table : IdTable) : (bare table : Build α).Coherent where
  entries _ _ h := nomatch h
  ids _ _ h := nomatch h
  nodup := List.nodup_nil

theorem filling_vacated (table : IdTable) : (vacated table : Build α).Filling where
  entries id entry h := by
    simp only [vacated, List.getElem?_replicate] at h
    split at h <;> cases h
  ids _ _ h := nomatch h
  nodup := List.nodup_nil
  named _ _ h := nomatch h
  length := List.length_replicate

variable {b built : Build α} {name : String} {id : Nat}

theorem lookup_eq_none_of_not_mem (h : name ∉ b.ids.map Prod.fst) : b.ids.lookup name = none := by
  rw [List.lookup_eq_none_iff]
  intro pair hpair
  refine bne_iff_ne.2 ?_
  rintro rfl
  exact h (List.mem_map_of_mem hpair)

/-- A name that is placed is found at its id, and the others are found as before. -/
theorem lookup_ids_place (h : name ∉ b.ids.map Prod.fst) (id : Nat) (definition : α)
    (other : String) :
    (b.place id name definition).ids.lookup other =
      if other = name then some id else b.ids.lookup other := by
  show (b.ids ++ [(name, id)]).lookup other = _
  rw [List.lookup_append]
  by_cases hother : other = name
  · rw [hother, lookup_eq_none_of_not_mem h, if_pos rfl]
    simp
  · have hbeq : (other == name) = false := beq_eq_false_iff_ne.2 hother
    simp [hother, List.lookup_cons, hbeq]

/-- An entry that is placed stands at its id, and the others stay. -/
theorem getElem?_entries_place (h : id < b.entries.length) (name : String) (definition : α)
    (other : Nat) :
    (b.place id name definition).entries[other]?.join =
      if other = id then some ⟨some id, name, definition⟩ else b.entries[other]?.join := by
  show (b.entries.set id _)[other]?.join = _
  rw [List.getElem?_set]
  by_cases hother : id = other
  · rw [if_pos hother, if_pos h, if_pos hother.symm]
    rfl
  · rw [if_neg hother, if_neg (Ne.symm hother)]

/-- Under the id of a name that is not placed yet there is no entry, so nothing is lost by putting
one there. -/
theorem Filling.place (hb : b.Filling) (hnew : name ∉ b.ids.map Prod.fst)
    (hid : b.table.nameOf? id = some name) (definition : α) :
    (b.place id name definition).Filling := by
  have hlt : id < b.entries.length := by
    rw [hb.length]
    exact (List.getElem?_eq_some_iff.1 (IdTable.nameOf?_eq_some_iff.1 hid)).1
  have hlookup := lookup_ids_place hnew id definition
  have hentries := getElem?_entries_place hlt name definition
  refine ⟨⟨fun other entry hentry ↦ ?_, fun other i hother ↦ ?_, ?_⟩, fun other i hother ↦ ?_, ?_⟩
  · rw [hentries] at hentry
    rw [hlookup]
    split at hentry
    · next heq =>
      obtain rfl := Option.some.inj hentry
      rw [heq]
      exact ⟨rfl, if_pos rfl⟩
    · obtain ⟨hself, hfound⟩ := hb.entries other entry hentry
      have hne : entry.name ≠ name := by
        rintro rfl
        rw [lookup_eq_none_of_not_mem hnew] at hfound
        cases hfound
      rw [if_neg hne]
      exact ⟨hself, hfound⟩
  · rw [hlookup] at hother
    rw [hentries]
    split at hother
    · next heq =>
      obtain rfl := Option.some.inj hother
      exact ⟨_, if_pos rfl, heq.symm⟩
    · next hne =>
      -- another name has another id, as the table tells
      have hi : i ≠ id := by
        rintro rfl
        exact hne (Option.some.inj ((hb.named other i hother).symm.trans hid))
      obtain ⟨entry, hentry, hname⟩ := hb.ids other i hother
      exact ⟨entry, (if_neg hi).trans hentry, hname⟩
  · show ((b.ids ++ [(name, id)]).map Prod.fst).Nodup
    rw [List.map_append]
    refine hb.nodup.append (List.nodup_singleton name) fun other hold hother ↦ hnew ?_
    obtain rfl : other = name := List.mem_singleton.1 hother
    exact hold
  · rw [hlookup] at hother
    split at hother
    · next heq =>
      obtain rfl := Option.some.inj hother
      rw [heq]
      exact hid
    · exact hb.named other i hother
  · show (b.entries.set id _).length = b.table.idSpace
    rw [List.length_set, hb.length]

variable [Definition α] {t : ContentTree} {source : NodeId × Node}

/-- Adding a node under a new name goes on filling in. -/
theorem Filling.addNode (hb : b.Filling) (hnew : source.2.key.name ∉ b.ids.map Prod.fst)
    (h : addNode t b source = .ok built) :
    built.Filling ∧ ∀ name ∈ built.ids.map Prod.fst,
      name = source.2.key.name ∨ name ∈ b.ids.map Prod.fst := by
  rcases addNode_cases h with ⟨-, rfl⟩ | ⟨id, definition, hlast, -, rfl⟩
  · exact ⟨hb, fun _ ↦ .inr⟩
  · refine ⟨hb.place hnew (IdTable.nameOf?_of_lastIdOf? hlast) definition, fun name hname ↦ ?_⟩
    have hmem : name ∈ (b.ids ++ [(source.2.key.name, id)]).map Prod.fst := hname
    rw [List.map_append] at hmem
    exact (List.mem_append.1 hmem).symm.imp_left List.mem_singleton.1

/-- Nodes with different names fill the indices one after the other. -/
theorem Filling.foldlM_addNode {sources : List (NodeId × Node)} (hb : b.Filling)
    (hnodup : (sources.map fun source ↦ source.2.key.name).Nodup)
    (hnew : ∀ name ∈ sources.map fun source ↦ source.2.key.name, name ∉ b.ids.map Prod.fst)
    (h : sources.foldlM (Build.addNode t) b = .ok built) : built.Filling := by
  obtain ⟨shown, ⟨hfilling, -⟩, -⟩ :=
    foldlM_addNode_induction
      (motive := fun names built ↦ built.Filling ∧ ∀ name ∈ built.ids.map Prod.fst, name ∈ names)
      (fun ⟨hnext, hnames⟩ hnew hadd ↦ by
        obtain ⟨hbuilt, hold⟩ := hnext.addNode (fun hmem ↦ hnew (hnames _ hmem)) hadd
        exact ⟨hbuilt, fun name hname ↦ List.mem_cons.2 ((hold name hname).imp_right (hnames name))⟩)
      ⟨hb, fun _ ↦ id⟩ hnodup hnew h
  exact hfilling

end Build

open Build

theorem Registry.filling_of_build [Definition α] {r : Registry α} {t : ContentTree}
    {contents : Build α} {report : RebuildReport} (h : r.build t = .ok (contents, report)) :
    contents.Filling := by
  obtain ⟨a, -, hfold, -⟩ := Registry.build_ok h
  exact (filling_vacated a.table).foldlM_addNode (nodup_sources t r.category)
    (fun _ _ ↦ List.not_mem_nil) hfold

/-- **The indices of a build agree**, whatever the id table was. -/
theorem Registry.coherent_of_build [Definition α] {r : Registry α} {t : ContentTree}
    {contents : Build α} {report : RebuildReport} (h : r.build t = .ok (contents, report)) :
    contents.Coherent :=
  (Registry.filling_of_build h).toCoherent

namespace Registry

/-! ### What is read -/

variable {r : Registry α}

theorem mem_all_iff {entry : Entry α} : entry ∈ r.all ↔ ∃ id, r.byId? id = some entry := by
  rw [all, List.mem_filterMap]
  simp only [byId?, List.mem_iff_getElem?, id_eq, Option.join_eq_some_iff, exists_eq_right]

section Coherent

variable (h : r.contents.Coherent)
include h

/-- The entries come in the order of their ids. -/
theorem pairwise_all : r.all.Pairwise fun a b ↦ ∃ i j, a.id = some i ∧ b.id = some j ∧ i < j := by
  rw [all, List.pairwise_filterMap, List.pairwise_iff_getElem]
  intro i j hi hj hij a ha b hb
  have hat : ∀ (k : Nat) (hk : k < r.contents.entries.length) (entry : Entry α),
      id r.contents.entries[k] = some entry → entry.id = some k := by
    intro k hk entry hentry
    refine (h.entries k entry ?_).1
    rw [List.getElem?_eq_getElem hk]
    exact hentry
  exact ⟨i, j, hat i hi a ha, hat j hj b hb, hij⟩

theorem nodup_all : r.all.Nodup := by
  refine (pairwise_all h).imp ?_
  rintro a b ⟨i, j, hi, hj, hij⟩ rfl
  obtain rfl := Option.some.inj (hi.symm.trans hj)
  exact Nat.lt_irrefl i hij

/-- A name is in the index if and only if an entry has it. -/
theorem mem_names_iff (name : String) :
    name ∈ r.contents.ids.map Prod.fst ↔ name ∈ r.all.map Entry.name := by
  constructor
  · intro hname
    cases hlookup : r.contents.ids.lookup name with
    | none =>
      obtain ⟨pair, hpair, rfl⟩ := List.mem_map.1 hname
      simpa using List.lookup_eq_none_iff.1 hlookup pair hpair
    | some id =>
      obtain ⟨entry, hentry, rfl⟩ := h.ids name id hlookup
      exact List.mem_map_of_mem (mem_all_iff.2 ⟨id, hentry⟩)
  · intro hname
    obtain ⟨entry, hentry, rfl⟩ := List.mem_map.1 hname
    obtain ⟨id, hid⟩ := mem_all_iff.1 hentry
    by_contra hnone
    have hlookup := (h.entries id entry hid).2
    rw [lookup_eq_none_of_not_mem hnone] at hlookup
    cases hlookup

/-- No two entries have one name. -/
theorem nodup_names_all : (r.all.map Entry.name).Nodup := by
  refine (nodup_all h).map_on fun a ha b hb heq ↦ ?_
  obtain ⟨i, hi⟩ := mem_all_iff.1 ha
  obtain ⟨j, hj⟩ := mem_all_iff.1 hb
  -- one name has one id, and one id has one entry
  have hsame := (h.entries i a hi).2.symm.trans (heq ▸ (h.entries j b hj).2)
  obtain rfl := Option.some.inj hsame
  exact Option.some.inj (hi.symm.trans hj)

/-- There are as many names as entries. -/
theorem size_eq_length_all : r.size = r.all.length := by
  have hperm := (List.perm_ext_iff_of_nodup h.nodup (nodup_names_all h)).2 (mem_names_iff h)
  rw [size, ← List.length_map, hperm.length_eq, List.length_map]

/-- What is got for an id is the entry with that id, or the fallback if there is none. -/
theorem get_cases (id : Int) :
    (∃ entry ∈ r.all, entry.id.map Int.ofNat = some id ∧ r.get id = entry) ∨
      (∀ entry ∈ r.all, entry.id.map Int.ofNat ≠ some id) ∧ r.get id = r.fallback := by
  -- an entry with this id stands where it is looked for
  have hfound : ∀ entry ∈ r.all, entry.id.map Int.ofNat = some id →
      0 ≤ id ∧ r.byId? id.toNat = some entry := by
    intro entry hentry hid
    obtain ⟨i, hi⟩ := mem_all_iff.1 hentry
    rw [(h.entries i entry hi).1] at hid
    obtain rfl := Option.some.inj hid
    exact ⟨Int.natCast_nonneg i, hi⟩
  rw [get]
  by_cases hneg : id < 0
  · rw [if_pos hneg]
    refine .inr ⟨fun entry hentry hid ↦ ?_, rfl⟩
    have hnonneg := (hfound entry hentry hid).1
    omega
  · rw [if_neg hneg]
    cases hat : r.byId? id.toNat with
    | none =>
      refine .inr ⟨fun entry hentry hid ↦ ?_, rfl⟩
      have hthere := (hfound entry hentry hid).2
      rw [hat] at hthere
      cases hthere
    | some entry =>
      refine .inl ⟨entry, mem_all_iff.2 ⟨_, hat⟩, ?_, rfl⟩
      rw [(h.entries _ entry hat).1, Option.map_some]
      exact congrArg some (Int.toNat_of_nonneg (Int.not_lt.1 hneg))

/-- What is got for a name is the entry with that name, or the fallback if there is none. -/
theorem getNamed_cases (name : String) :
    (∃ entry ∈ r.all, entry.name = name ∧ r.getNamed name = entry) ∨
      (∀ entry ∈ r.all, entry.name ≠ name) ∧ r.getNamed name = r.fallback := by
  rw [getNamed]
  cases hid : r.idOf? name with
  | none =>
    refine .inr ⟨?_, rfl⟩
    rintro entry hentry rfl
    obtain ⟨i, hi⟩ := mem_all_iff.1 hentry
    rw [idOf?, (h.entries i entry hi).2] at hid
    cases hid
  | some id =>
    obtain ⟨entry, hentry, hname⟩ := h.ids name id hid
    have hat : r.byId? id = some entry := hentry
    rw [Option.bind_some, hat]
    exact .inl ⟨entry, mem_all_iff.2 ⟨id, hat⟩, hname, rfl⟩

end Coherent

/-- What is read from a registry in different ways agrees. -/
structure ReadsAgree (r : Registry α) : Prop where
  /-- An entry stands under its own id, and its name is indexed there. -/
  entries : ∀ id entry, r.byId? id = some entry →
    entry.id = some id ∧ r.idOf? entry.name = some id
  /-- An indexed name has such an entry. -/
  ids : ∀ name id, r.idOf? name = some id → ∃ entry, r.byId? id = some entry ∧ entry.name = name
  size : r.size = r.all.length
  /-- All entries come in the order of their ids. -/
  order : r.all.Pairwise fun a b ↦ ∃ i j, a.id = some i ∧ b.id = some j ∧ i < j
  /-- An id of any sign and size gets the entry that has it, or else the fallback. -/
  get : ∀ id : Int, (∃ entry ∈ r.all, entry.id.map Int.ofNat = some id ∧ r.get id = entry) ∨
    (∀ entry ∈ r.all, entry.id.map Int.ofNat ≠ some id) ∧ r.get id = r.fallback
  getNamed : ∀ name, (∃ entry ∈ r.all, entry.name = name ∧ r.getNamed name = entry) ∨
    (∀ entry ∈ r.all, entry.name ≠ name) ∧ r.getNamed name = r.fallback

/-- Reads agree as long as the contents do with themselves. -/
theorem readsAgree_of_coherent (h : r.contents.Coherent) : r.ReadsAgree where
  entries := h.entries
  ids := h.ids
  size := size_eq_length_all h
  order := pairwise_all h
  get := get_cases h
  getNamed := getNamed_cases h

/-- The same is read from two registries. -/
structure ReadsAlike (r next : Registry α) : Prop where
  all : next.all = r.all
  size : next.size = r.size
  get : ∀ id, next.get id = r.get id
  getNamed : ∀ name, next.getNamed name = r.getNamed name

/-! ### One call -/

/-- A call on a registry. -/
inductive Call
  | withIds (table : IdTable)
  | withPolicy (policy : SlotPolicy)
  | unlock
  | stage (tree : ContentTree)
  | commit
  | discard
  | rebuild (tree : ContentTree)

variable [Definition α]

namespace Call

/-- The registry after the call. -/
def apply (r : Registry α) : Call → Registry α
  | withIds table => r.withIds table
  | withPolicy policy => r.withPolicy policy
  | unlock => r.unlock
  | stage t => (r.stage t).1
  | commit => r.commit
  | discard => r.discard
  | rebuild t => (r.rebuild t).1

/-- The contents that the call publishes: a commit those that are staged, and a rebuild those that
it builds. -/
def published? (r : Registry α) : Call → Option (Build α)
  | commit => r.staged
  | rebuild t => (r.build t).toOption.map Prod.fst
  | _ => none

/-- The contents were staged before, or are built by the registry for some tree. -/
def Comes (r : Registry α) (contents : Build α) : Prop :=
  contents ∈ r.staged ∨ ∃ t report, r.build t = .ok (contents, report)

/-- What readers see stays, the table apart, and so does whether the registry was ever built. -/
structure Keeps (r next : Registry α) : Prop where
  entries : next.contents.entries = r.contents.entries
  ids : next.contents.ids = r.contents.ids
  fallback : next.fallback = r.fallback
  built : next.built = r.built
  locked : next.locked = true → r.locked = true ∨ r.built = true
  staged : ∀ contents ∈ next.staged, Comes r contents

/-- **A call publishes, or keeps** what is seen. -/
theorem apply_cases (r : Registry α) (call : Call) :
    (∃ contents, call.published? r = some contents ∧ Comes r contents ∧
      call.apply r = r.committed contents) ∨
    (call.published? r = none ∧ Keeps r (call.apply r)) := by
  have hnone : ∀ contents ∈ (none : Option (Build α)), Comes r contents :=
    fun _ h ↦ absurd h (Option.not_mem_none _)
  cases call with
  | withIds table => exact .inr ⟨rfl, rfl, rfl, rfl, rfl, .inl, fun _ ↦ .inl⟩
  | withPolicy policy => exact .inr ⟨rfl, rfl, rfl, rfl, rfl, .inl, fun _ ↦ .inl⟩
  | unlock => exact .inr ⟨rfl, rfl, rfl, rfl, rfl, nofun, fun _ ↦ .inl⟩
  | stage t =>
    rw [apply, Registry.stage]
    cases hbuild : r.build t with
    | error error => exact .inr ⟨rfl, rfl, rfl, rfl, rfl, .inl, fun _ ↦ .inl⟩
    | ok pair =>
      refine .inr ⟨rfl, rfl, rfl, rfl, rfl, .inl, fun contents hcontents ↦ ?_⟩
      obtain rfl := Option.mem_some_iff.1 hcontents
      exact .inr ⟨t, pair.2, hbuild⟩
  | commit =>
    rw [apply, Registry.commit, published?]
    cases hstaged : r.staged with
    | none => exact .inr ⟨rfl, rfl, rfl, rfl, rfl, .inr, hnone⟩
    | some contents => exact .inl ⟨contents, rfl, .inl hstaged, rfl⟩
  | discard => exact .inr ⟨rfl, rfl, rfl, rfl, rfl, .inr, hnone⟩
  | rebuild t =>
    rw [apply, published?]
    cases hbuild : r.build t with
    | error error =>
      rw [rebuild_of_build_error hbuild]
      exact .inr ⟨rfl, rfl, rfl, rfl, rfl, .inr, hnone⟩
    | ok pair =>
      rw [rebuild_of_build_ok hbuild]
      exact .inl ⟨pair.1, rfl, .inr ⟨t, pair.2, hbuild⟩, rfl⟩

/-- A call that publishes nothing keeps what readers see. -/
theorem keeps_of_published? {call : Call} (h : call.published? r = none) :
    Keeps r (call.apply r) := by
  obtain ⟨contents, hsome, -, -⟩ | ⟨-, hkeeps⟩ := call.apply_cases r
  · cases h.symm.trans hsome
  · exact hkeeps

/-- What is kept is read alike. -/
theorem Keeps.reads {next : Registry α} (h : Keeps r next) : ReadsAlike r next := by
  have hbyId : next.byId? = r.byId? := by
    funext id
    rw [byId?, h.entries, byId?]
  refine ⟨?_, ?_, fun id ↦ ?_, fun name ↦ ?_⟩
  · rw [all, h.entries, all]
  · rw [size, h.ids, size]
  · rw [Registry.get, hbyId, h.fallback, Registry.get]
  · rw [getNamed, idOf?, h.ids, hbyId, h.fallback, getNamed, idOf?]

/-- A registry was built if some call has published. -/
theorem built_apply (r : Registry α) (call : Call) :
    (call.apply r).built = true ↔ r.built = true ∨ (call.published? r).isSome := by
  obtain ⟨contents, hsome, -, h⟩ | ⟨hnone, hkeeps⟩ := call.apply_cases r
  · rw [h, hsome]
    exact ⟨fun _ ↦ .inr rfl, fun _ ↦ rfl⟩
  · rw [hkeeps.built, hnone]
    exact ⟨.inl, fun h ↦ h.resolve_right nofun⟩

/-- What comes from coherent staged contents, or from a build, is coherent. -/
theorem Comes.coherent {contents : Build α} (h : Comes r contents)
    (hstaged : ∀ b ∈ r.staged, b.Coherent) : contents.Coherent := by
  obtain hmem | ⟨t, report, hbuild⟩ := h
  · exact hstaged contents hmem
  · exact coherent_of_build hbuild

end Call

/-! ### All calls -/

/-- The registry after some calls, in order. -/
def run (r : Registry α) (calls : List Call) : Registry α := calls.foldl Call.apply r

/-- One of the calls published contents. -/
def EverPublished (r : Registry α) (calls : List Call) : Prop :=
  ∃ before call after, calls = before ++ call :: after ∧ (call.published? (r.run before)).isSome

theorem run_concat (r : Registry α) (calls : List Call) (call : Call) :
    r.run (calls ++ [call]) = call.apply (r.run calls) := by
  rw [run, List.foldl_append]
  rfl

/-- Something was published by the last call or before. -/
theorem everPublished_concat (r : Registry α) (calls : List Call) (call : Call) :
    r.EverPublished (calls ++ [call]) ↔
      r.EverPublished calls ∨ (call.published? (r.run calls)).isSome := by
  constructor
  · rintro ⟨before, found, after, heq, hpublished⟩
    rcases List.eq_nil_or_concat after with rfl | ⟨after, last, rfl⟩
    · obtain ⟨rfl, hlast⟩ := List.append_inj' heq rfl
      obtain rfl := List.singleton_inj.1 hlast
      exact .inr hpublished
    · rw [List.concat_eq_append, ← List.cons_append, ← List.append_assoc] at heq
      exact .inl ⟨before, found, after, (List.append_inj' heq rfl).1, hpublished⟩
  · rintro (⟨before, found, after, rfl, hpublished⟩ | hpublished)
    · exact ⟨before, found, after ++ [call], by simp, hpublished⟩
    · exact ⟨calls, call, [], rfl, hpublished⟩

/-- A registry is built if it was so, or once a call has published. -/
theorem built_run_iff (r : Registry α) (calls : List Call) :
    (r.run calls).built = true ↔ r.built = true ∨ r.EverPublished calls := by
  induction calls using List.reverseRecOn with
  | nil =>
    refine ⟨.inl, fun h ↦ h.resolve_right ?_⟩
    rintro ⟨before, call, after, heq, -⟩
    simp at heq
  | append_singleton calls call ih =>
    rw [run_concat, Call.built_apply, ih, everPublished_concat, or_assoc]

/-- What is seen is coherent, as is what is staged, the fallback is that of the definitions, and a
registry that is locked is built. -/
structure Sound (r : Registry α) : Prop where
  contents : r.contents.Coherent
  fallback : r.fallback = Entry.fallback α
  staged : ∀ b ∈ r.staged, b.Coherent
  built : r.locked = true → r.built = true

/-- A new registry is sound. -/
theorem sound_new (category : String) (policy : SlotPolicy) :
    (new category policy : Registry α).Sound :=
  ⟨coherent_bare _, rfl, nofun, nofun⟩

/-- One call keeps a registry sound. -/
theorem Sound.apply (hr : r.Sound) (call : Call) : (call.apply r).Sound := by
  obtain ⟨contents, -, hcomes, h⟩ | ⟨-, hkeeps⟩ := call.apply_cases r
  · rw [h]
    exact ⟨hcomes.coherent hr.staged, rfl, fun _ hb ↦ absurd hb (Option.not_mem_none _),
      fun _ ↦ rfl⟩
  · refine ⟨hr.contents.congr hkeeps.entries hkeeps.ids, hkeeps.fallback.trans hr.fallback,
      fun b hb ↦ (hkeeps.staged b hb).coherent hr.staged, fun hlocked ↦ ?_⟩
    rw [hkeeps.built]
    exact (hkeeps.locked hlocked).elim hr.built id

/-- So does any number of calls. -/
theorem Sound.run (hr : r.Sound) (calls : List Call) : (r.run calls).Sound := by
  induction calls generalizing r with
  | nil => exact hr
  | cons call rest ih => exact ih (hr.apply call)

end Registry

open Registry

/-- **What a registry shows after any calls.** Its indices agree, and what they do not have gets the
fallback, which has no id and no name. The next call changes nothing of what is read unless it
publishes, and the registry is locked only after a call that did. -/
theorem reads_agree_after_calls (α : Type) [Definition α] (category : String) (policy : SlotPolicy)
    (calls : List Call) :
    let r := (Registry.new category policy : Registry α).run calls
    r.ReadsAgree ∧
      (r.fallback = Entry.fallback α ∧ r.fallback.id = none ∧ r.fallback.name = "") ∧
      (∀ call : Call, call.published? r = none → ReadsAlike r (call.apply r)) ∧
      (r.locked = true → (Registry.new category policy : Registry α).EverPublished calls) := by
  intro r
  have hsound : r.Sound := (sound_new category policy).run calls
  refine ⟨readsAgree_of_coherent hsound.contents, ⟨hsound.fallback, ?_, ?_⟩,
    fun call hnone ↦ (Call.keeps_of_published? hnone).reads, fun hlocked ↦ ?_⟩
  · rw [hsound.fallback]
    rfl
  · rw [hsound.fallback]
    rfl
  · exact ((built_run_iff _ calls).1 (hsound.built hlocked)).resolve_left nofun

/-- A name that stands in the table twice has its entry under the second id. -/
example :
    let t := (ContentTree.new.childOrCreate ContentTree.root ⟨"archer", some "unit"⟩).2
    let r := (Registry.new "unit" .grow : Registry Record).run
      [.withIds (.ofNames ["archer", "archer", "gone"]), .rebuild t]
    r.all.map (fun entry ↦ (entry.id, entry.name)) = [(some 1, "archer")] ∧
      r.snapshot = ⟨[some "archer", some "archer", none]⟩ := by
  decide

end ModContent
