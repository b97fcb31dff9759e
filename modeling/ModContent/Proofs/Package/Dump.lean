import ModContent.Proofs.Package.Print

/-!
# Dumping undoes loading

Scanning the compact text of a tidy outline adds just that outline below the scope: a block makes a
new last child, for no child there is accepted by its key, and a statement makes a new last
property, for no property there has its key. What scanning adds is described by one relation between
two states (`Scan.Built`), and the induction is on the outline.

Normalizing the dump of a loaded tree gives the compact text of its outline, so scanning the dump
into a new tree builds the same outline again.
-/

namespace ModContent

variable {locate : Nat → Location}

/-! ### New properties -/

/-- A computed property is the one that is made of its key and its values. -/
theorem Property.of_eq_self {p : Property} (hp : p.Written) (hcomputed : p.isComputed) :
    Property.of p.key p.values = p := by
  rcases p with ⟨key, values, derived⟩
  rcases hp.fresh with hnone | hsome
  · simp only at hnone
    subst hnone
    cases hcomputed
  · simp only at hsome
    subst hsome
    rfl

/-- Declaring values under a new key leaves the queue alone. -/
theorem Content.queue_declare_of_new {content : Content} {id : NodeId} {node : Node} {key : Key}
    {values : List String} {location : Location} (hnode : content.tree.node? id = some node)
    (hkey : key ∉ node.properties.map Property.key) :
    (content.declare id ⟨key, .values values⟩ location).queue = content.queue := by
  have hnew : node.replaced? key = none :=
    List.getElem?_eq_none (Nat.le_of_not_lt fun hlt ↦ hkey (Node.slotFor_lt_iff.1 hlt))
  simp only [Content.declare, hnode, hnew]
  rfl

namespace Scan

/-! ### What a text adds -/

/-- From one state to another content was added in the scope only, which is now this node. -/
structure Built (s s' : Scan) (node : Node) : Prop where
  pending : s'.pending = []
  blocks : s'.blocks = s.blocks
  queue : s'.content.queue = s.content.queue
  grown : s'.content.tree.Grown
  scope : s'.content.tree.node? s.scope = some node
  kept : ∀ j, j ≠ s.scope → s.content.tree.isLive j →
    s'.content.tree.node? j = s.content.tree.node? j

variable {s s' s'' : Scan} {n m : Node}

theorem Built.refl (hs : s.pending = []) (hgrown : s.content.tree.Grown)
    (hn : s.content.tree.node? s.scope = some n) : Built s s n :=
  ⟨hs, rfl, rfl, hgrown, hn, fun _ _ _ ↦ rfl⟩

theorem Built.isLive (h : Built s s' m) {j : NodeId} (hj : s.content.tree.isLive j) :
    s'.content.tree.isLive j = true := by
  by_cases hscope : j = s.scope
  · exact ContentTree.isLive_iff.2 ⟨m, hscope ▸ h.scope⟩
  · rw [ContentTree.isLive, h.kept j hscope hj]
    exact hj

theorem Built.trans (h : Built s s' m) (h' : Built s' s'' n) : Built s s'' n := by
  have hscope : s'.scope = s.scope := scope_eq h.blocks
  refine ⟨h'.pending, h'.blocks.trans h.blocks, h'.queue.trans h.queue, h'.grown,
    hscope ▸ h'.scope, fun j hj hlive ↦ ?_⟩
  rw [h'.kept j (hscope.symm ▸ hj) (h.isLive hlive), h.kept j hj hlive]

/-! ### Statements -/

theorem not_isDelimiter_of_isPlain {c : Char} (h : IsPlain c) : ¬ IsDelimiter c := by
  rintro (rfl | rfl | rfl)
  · exact h.2.2.1 rfl
  · exact h.2.2.2.1 rfl
  · exact h.2.2.2.2 rfl

/-- A new property as a statement becomes the last one of the scope. -/
theorem built_statement (locate : Nat → Location) {p : Property} (hp : p.Written)
    (hcomputed : p.isComputed) (hs : s.pending = []) (hgrown : s.content.tree.Grown)
    (hn : s.content.tree.node? s.scope = some n) (hkey : p.key ∉ n.properties.map Property.key) :
    ∃ s', (p.compact ++ [';']).foldlM (step locate) s = .ok s' ∧
      Built s s' { n with properties := n.properties ++ [p] } := by
  have hplain : ∀ c ∈ p.compact, ¬ IsDelimiter c := by
    intro c hc
    rw [Property.compact, List.mem_append, List.mem_cons] at hc
    rcases hc with hc | rfl | hc
    · exact not_isDelimiter_of_isPlain (hp.key.isPlain c hc)
    · decide
    · exact not_isDelimiter_of_isPlain (hp.values.isPlain c hc)
  have htree : (s.content.declare s.scope ⟨p.key, .values p.values⟩ (locate s.offset)).tree =
      s.content.tree.modify s.scope fun node ↦ node.insert p := by
    have hdeclared : Content.declaredProperty ⟨p.key, .values p.values⟩ = p :=
      Property.of_eq_self hp hcomputed
    rw [Content.tree_declare, hdeclared]
  refine ⟨_, foldlM_statement hs hplain (Statement.read_written hp.key hp.values), rfl, rfl,
    Content.queue_declare_of_new hn hkey, ?_, ?_, fun j hj _ ↦ ?_⟩
  · rw [htree]
    exact hgrown.congr (.modify _ _ fun n ↦ n.stem_insert p)
  · rw [htree, ContentTree.node?_modify_self, hn, Option.map_some, Node.insert_of_not_mem hkey]
  · rw [htree, ContentTree.node?_modify_of_ne _ _ hj]

/-- New properties as statements become the last ones of the scope. -/
theorem built_statements (locate : Nat → Location) {properties : List Property}
    (hproperties : ∀ p ∈ properties, p.Written ∧ p.isComputed)
    (hs : s.pending = []) (hgrown : s.content.tree.Grown)
    (hn : s.content.tree.node? s.scope = some n)
    (hkeys : ((n.properties ++ properties).map Property.key).Nodup) :
    ∃ s', (properties.flatMap fun p ↦ p.compact ++ [';']).foldlM (step locate) s = .ok s' ∧
      Built s s' { n with properties := n.properties ++ properties } := by
  induction properties generalizing s n with
  | nil => exact ⟨s, rfl, (List.append_nil n.properties).symm ▸ .refl hs hgrown hn⟩
  | cons p rest ih =>
    obtain ⟨⟨hp, hcomputed⟩, hrest⟩ := List.forall_mem_cons.1 hproperties
    have hkey : p.key ∉ n.properties.map Property.key := by
      rw [List.map_append, List.map_cons] at hkeys
      exact fun hmem ↦ (List.nodup_append.1 hkeys).2.2 _ hmem _ List.mem_cons_self rfl
    obtain ⟨s₁, hscan, hbuilt⟩ := built_statement locate hp hcomputed hs hgrown hn hkey
    have hscope : s₁.scope = s.scope := scope_eq hbuilt.blocks
    obtain ⟨s₂, hscan', hbuilt'⟩ := ih hrest hbuilt.pending hbuilt.grown
      (hscope.symm ▸ hbuilt.scope) (by simpa using hkeys)
    refine ⟨s₂, ?_, ?_⟩
    · rw [List.flatMap_cons, foldlM_append_of_ok hscan]
      exact hscan'
    · have happend : n.properties ++ [p] ++ rest = n.properties ++ p :: rest := by simp
      exact happend ▸ hbuilt.trans hbuilt'

/-! ### Blocks -/

/-- No child of a node is accepted by the key. -/
def Unseen (t : ContentTree) (n : Node) (key : Key) : Prop :=
  ∀ child ∈ n.children, ∀ node, t.node? child = some node → key.accepts node.key = false

/-- Wherever its key is not seen, the compact text of the outline makes a new last child with this
outline. -/
def Builds (locate : Nat → Location) (o : Outline) : Prop :=
  ∀ {s : Scan} {n : Node}, s.pending = [] → s.content.tree.Grown →
    s.content.tree.node? s.scope = some n → Unseen s.content.tree n o.key →
    ∃ s' child, o.compact.foldlM (step locate) s = .ok s' ∧
      Built s s' { n with children := n.children ++ [child] } ∧
      s'.content.tree.outlineOf? child = some o

/-- What is added later leaves the outline of a child of the scope as it was. -/
theorem Built.outlineOf?_eq (h : Built s s' m) (hgrown : s.content.tree.Grown)
    (hn : s.content.tree.node? s.scope = some n) {child : NodeId} (hchild : child ∈ n.children) :
    s'.content.tree.outlineOf? child = s.content.tree.outlineOf? child := by
  have hafter := hgrown.index_lt_of_mem hn hchild
  -- of the nodes that were there only the scope changed, and the child comes after it
  refine hgrown.linked.outlineOf?_congr h.grown.linked fun j hj ↦ h.kept j ?_ ?_
  · rintro rfl
    have hle := hgrown.index_le_of_below hj
    omega
  · exact hj.isLive (ContentTree.isLive_of_parent? ((hgrown.linked.mem_children_iff hn).1 hchild))

/-- The children of an outline that is being built, one after the other. -/
theorem built_blocks {children : List Outline} (hbuilds : ∀ o ∈ children, Builds locate o)
    (hapart : children.Pairwise fun a b ↦ b.key.accepts a.key = false)
    (hs : s.pending = []) (hgrown : s.content.tree.Grown)
    (hn : s.content.tree.node? s.scope = some n)
    (hunseen : ∀ o ∈ children, Unseen s.content.tree n o.key) :
    ∃ s' ids, (Outline.compactAll children).foldlM (step locate) s = .ok s' ∧
      Built s s' { n with children := n.children ++ ids } ∧
      ids.filterMap s'.content.tree.outlineOf? = children := by
  induction children generalizing s n with
  | nil => exact ⟨s, [], rfl, (List.append_nil n.children).symm ▸ .refl hs hgrown hn, rfl⟩
  | cons o rest ih =>
    obtain ⟨hbuild, hbuilds⟩ := List.forall_mem_cons.1 hbuilds
    obtain ⟨hunseen, hunseenRest⟩ := List.forall_mem_cons.1 hunseen
    obtain ⟨hapartFirst, hapart⟩ := List.pairwise_cons.1 hapart
    obtain ⟨s₁, child, hscan, hbuilt, houtline⟩ := hbuild hs hgrown hn hunseen
    have hscope : s₁.scope = s.scope := scope_eq hbuilt.blocks
    have hn₁ := hscope.symm ▸ hbuilt.scope
    -- the child just made is not seen by the keys to come, and the old ones keep their labels
    have hunseen₁ : ∀ o' ∈ rest, Unseen s₁.content.tree
        { n with children := n.children ++ [child] } o'.key := by
      intro o' ho' c hc node hnode
      rcases List.mem_append.1 hc with hc | hc
      · obtain ⟨old, hold, -⟩ := hgrown.child hn hc
        have hne : c ≠ s.scope := by
          rintro rfl
          exact absurd (hgrown.index_lt_of_mem hn hc) (Nat.lt_irrefl _)
        rw [hbuilt.kept c hne (ContentTree.isLive_iff.2 ⟨old, hold⟩)] at hnode
        exact hunseenRest o' ho' c hc node hnode
      · obtain rfl := List.mem_singleton.1 hc
        rw [hbuilt.grown.linked.outlineOf?_of_node? hnode] at houtline
        have hkey : o.key = node.key := (congrArg Outline.key (Option.some.inj houtline)).symm
        rw [← hkey]
        exact hapartFirst o' ho'
    obtain ⟨s₂, ids, hscan', hbuilt', houtlines⟩ :=
      ih hbuilds hapart hbuilt.pending hbuilt.grown hn₁ hunseen₁
    refine ⟨s₂, child :: ids, ?_, ?_, ?_⟩
    · rw [Outline.compactAll, foldlM_append_of_ok hscan]
      exact hscan'
    · have happend : n.children ++ [child] ++ ids = n.children ++ child :: ids := by simp
      exact happend ▸ hbuilt.trans hbuilt'
    · have hchild : child ∈ n.children ++ [child] := List.mem_append_right _ List.mem_cons_self
      rw [List.filterMap_cons, hbuilt'.outlineOf?_eq hbuilt.grown hn₁ hchild, houtline, houtlines]

/-- From one state to another a new last child of the scope was made, and its block entered. -/
structure Entered (s s' : Scan) (key : Key) : Prop where
  pending : s'.pending = []
  blocks : s'.blocks = ⟨(s.content.tree.create key).1, s.offset⟩ :: s.blocks
  queue : s'.content.queue = s.content.queue
  tree : s'.content.tree = s.content.tree.sprout s.scope key

/-- A header with its brace enters a new last child of the scope. -/
theorem entered_of_unseen (locate : Nat → Location) {key : Key} (hkey : key.Grammatical)
    (hs : s.pending = []) (hgrown : s.content.tree.Grown)
    (hn : s.content.tree.node? s.scope = some n) (hunseen : Unseen s.content.tree n key) :
    ∃ s', (key.chars ++ ['{']).foldlM (step locate) s = .ok s' ∧ Entered s s' key := by
  have hplain : ∀ c ∈ key.chars, ¬ IsDelimiter c :=
    fun c hc ↦ not_isDelimiter_of_isPlain (hkey.isPlain c hc)
  have hsprout : s.content.tree.childOrCreate s.scope key =
      ((s.content.tree.create key).1, s.content.tree.sprout s.scope key) := by
    refine hgrown.linked.childOrCreate_eq_sprout hn ?_
    rw [ContentTree.findChild?_eq_none_iff, ContentTree.childIds_eq hn]
    exact hunseen
  refine ⟨_, foldlM_header hs hplain (Header.read_chars hkey), rfl, ?_, rfl, ?_⟩
  · show (⟨(s.content.tree.childOrCreate s.scope key).1, s.offset⟩ : OpenBlock) :: s.blocks = _
    rw [hsprout]
  · show (s.content.tree.childOrCreate s.scope key).2 = _
    rw [hsprout]

namespace Entered

variable {key : Key}

theorem scope_eq (h : Entered s s' key) : s'.scope = (s.content.tree.create key).1 := by
  rw [Scan.scope, h.blocks]
  rfl

theorem grown (h : Entered s s' key) (hgrown : s.content.tree.Grown)
    (hn : s.content.tree.node? s.scope = some n) : s'.content.tree.Grown := by
  rw [h.tree]
  exact hgrown.sprout hn key

/-- The scope is a node without properties and children. -/
theorem node?_scope (h : Entered s s' key) (hn : s.content.tree.node? s.scope = some n) :
    s'.content.tree.node? s'.scope = some { Node.bare key with parent := some s.scope } := by
  rw [h.scope_eq, h.tree, ContentTree.node?_sprout hn, if_pos rfl]

/-- What is built inside a block is a new last child once the block is left. -/
theorem step_close (h : Entered s s' key) (hn : s.content.tree.node? s.scope = some n)
    (hbuilt : Built s' s'' m) (locate : Nat → Location) :
    ∃ s₁, step locate s'' '}' = .ok s₁ ∧ s₁.content.tree = s''.content.tree ∧
      Built s s₁ { n with children := n.children ++ [s'.scope] } := by
  have hclose : step locate s'' '}' =
      .ok { s'' with blocks := s.blocks, offset := s''.offset + 1 } :=
    step_close_of_pending_eq_nil hbuilt.pending (hbuilt.blocks.trans h.blocks)
  -- nodes of the tree before the block are not the new one, and so were not touched inside
  have hkept : ∀ {j k}, s.content.tree.node? j = some k → s'.content.tree.isLive j →
      s''.content.tree.node? j = s'.content.tree.node? j := by
    intro j k hk hlive
    exact hbuilt.kept j (h.scope_eq.symm ▸ ContentTree.ne_create_of_node? hk key) hlive
  have hparent := ContentTree.node?_sprout_parent hn key
  rw [← h.tree, ← h.scope_eq] at hparent
  refine ⟨_, hclose, rfl, hbuilt.pending, rfl, hbuilt.queue.trans h.queue, hbuilt.grown, ?_,
    fun j hj hlive ↦ ?_⟩
  · show s''.content.tree.node? s.scope = _
    rw [hkept hn (ContentTree.isLive_iff.2 ⟨_, hparent⟩), hparent]
  · obtain ⟨k, hk⟩ := ContentTree.isLive_iff.1 hlive
    have hsame : s'.content.tree.node? j = s.content.tree.node? j := by
      rw [h.tree, ContentTree.node?_sprout hn, if_neg (ContentTree.ne_create_of_node? hk key),
        if_neg hj]
    show s''.content.tree.node? j = _
    rw [hkept hk (ContentTree.isLive_iff.2 ⟨k, hsame.trans hk⟩), hsame]

end Entered

/-- **A tidy outline is built** by scanning its compact text. -/
theorem builds_of_tidy (locate : Nat → Location) {o : Outline} (ho : o.Tidy)
    (hlabel : o.key.Grammatical) :
    Builds locate o := by
  induction ho with
  | @node key properties children written keys labels apart tidy ih =>
    intro s n hs hgrown hn hunseen
    have hkey : key.Grammatical := hlabel
    obtain ⟨s₁, hscan₁, hentered⟩ := entered_of_unseen locate hkey hs hgrown hn hunseen
    have hgrown₁ := hentered.grown hgrown hn
    have hn₁ := hentered.node?_scope hn
    -- inside the new node, statements and blocks are built below it
    obtain ⟨s₂, hscan₂, hbuilt₂⟩ := built_statements locate written hentered.pending hgrown₁ hn₁
      (by simpa [Node.bare] using keys)
    have hn₂ := (scope_eq hbuilt₂.blocks).symm ▸ hbuilt₂.scope
    obtain ⟨s₃, ids, hscan₃, hbuilt₃, houtlines⟩ := built_blocks
      (fun o ho ↦ ih o ho (labels o ho)) apart hbuilt₂.pending hbuilt₂.grown hn₂
      fun o ho c hc ↦ absurd hc List.not_mem_nil
    have hbuilt := hbuilt₂.trans hbuilt₃
    obtain ⟨s₄, hclose, htree₄, hbuilt₄⟩ := hentered.step_close hn hbuilt locate
    refine ⟨s₄, s₁.scope, ?_, hbuilt₄, ?_⟩
    · have hcompact : (Outline.node key properties children).compact =
          (key.chars ++ ['{']) ++ ((properties.flatMap fun p ↦ p.compact ++ [';']) ++
            (Outline.compactAll children ++ ['}'])) := by
        rw [Outline.compact]
        simp only [List.append_assoc]
      rw [hcompact, foldlM_append_of_ok hscan₁, foldlM_append_of_ok hscan₂,
        foldlM_append_of_ok hscan₃, List.foldlM_cons, hclose]
      rfl
    · rw [htree₄, hbuilt.grown.linked.outlineOf?_of_node? hbuilt.scope]
      show some (Outline.node key properties (ids.filterMap s₃.content.tree.outlineOf?)) = _
      rw [houtlines]

end Scan

/-! ### Dumps -/

open Scan

/-- Scanning the dump of a tidy outline into a new tree builds the outline at the root, with nothing
left to resolve. -/
theorem scanText_body {o : Outline} (ho : o.Tidy) (hkey : o.key = Key.named "") :
    ∃ content stats, ContentTree.new.scanText (String.ofList (o.body 0)) = (content, .ok stats) ∧
      content.queue = [] ∧ content.tree.Grown ∧ content.tree.outline = o := by
  have hnormal := ho.normalize_body
  cases ho with
  | @node key properties children written keys labels apart tidy =>
    obtain rfl : key = Key.named "" := hkey
    -- the root is the scope from the start, and what stands in it is built there
    set source := normalizeText (String.ofList
      ((Outline.node (Key.named "") properties children).body 0)) with hsource
    set start := Scan.start (Content.start ContentTree.new []) with hstart
    have hroot : start.content.tree.node? start.scope = some (Node.bare (Key.named "")) := rfl
    have htext : source.text =
        (properties.flatMap fun p ↦ p.compact ++ [';']) ++ Outline.compactAll children := by
      rw [condensed] at hnormal
      rw [hsource, normalizeText, String.toList_ofList, hnormal]
      rfl
    obtain ⟨s₁, hscan₁, hbuilt₁⟩ := built_statements
      (source.locate (Location.inline 0).file) written rfl ContentTree.grown_new hroot
      (by simpa [Node.bare] using keys)
    have hn₁ := (scope_eq hbuilt₁.blocks).symm ▸ hbuilt₁.scope
    obtain ⟨s₂, ids, hscan₂, hbuilt₂, houtlines⟩ := built_blocks
      (fun o ho ↦ builds_of_tidy (source.locate (Location.inline 0).file) (tidy o ho)
        (labels o ho))
      apart hbuilt₁.pending hbuilt₁.grown hn₁ fun o ho c hc ↦ absurd hc List.not_mem_nil
    have hbuilt := hbuilt₁.trans hbuilt₂
    have hrun : start.run (source.locate (Location.inline 0).file) source.text = .ok s₂ := by
      rw [Scan.run, htext, foldlM_append_of_ok hscan₁, hscan₂]
      exact finish_of_pending_eq_nil hbuilt.pending hbuilt.blocks
    refine ⟨s₂.content, s₂.stats, ?_, hbuilt.queue, hbuilt.grown, ?_⟩
    · rw [ContentTree.scanText, scanFile, ← hsource, ← hstart, hrun]
    · have houtline := hbuilt.grown.linked.outlineOf?_root
      have hnode : s₂.content.tree.outlineOf? ContentTree.root = some (.node (Key.named "")
          properties (ids.filterMap s₂.content.tree.outlineOf?)) :=
        hbuilt.grown.linked.outlineOf?_of_node? hbuilt.scope
      rw [houtlines, houtline] at hnode
      exact Option.some.inj hnode

/-- **Dumping undoes loading.** The dump of a loaded tree is read into a new tree without failure.
What it gives has as many nodes as the loaded tree and the same outline, with the same readings, and
its dump is the same text. -/
theorem dump_undoes_load (packages : List Package) (loaded : Loaded)
    (h : load packages = .ok loaded) :
    ∃ stats, (ContentTree.new.parse loaded.tree.dump).2 = .ok stats ∧
      (ContentTree.new.parse loaded.tree.dump).1.outline = loaded.tree.outline ∧
      (ContentTree.new.parse loaded.tree.dump).1.size = loaded.tree.size ∧
      (ContentTree.new.parse loaded.tree.dump).1.dump = loaded.tree.dump := by
  have hloaded := loadable_of_load h
  obtain ⟨htidy, hkey⟩ := hloaded.tidy_outline
  obtain ⟨content, stats, hscan, hqueue, hgrown, houtline⟩ := scanText_body htidy hkey
  have hparse : ContentTree.new.parse loaded.tree.dump = (content.tree, .ok stats) := by
    rw [ContentTree.parse, ContentTree.dump, hscan]
    simp only [Content.resolveAll, hqueue]
    rfl
  rw [hparse]
  refine ⟨stats, rfl, houtline, ?_, ?_⟩
  · rw [hgrown.size_eq, hloaded.grown.size_eq, houtline]
  · rw [ContentTree.dump, houtline, ContentTree.dump]

/-- Two packages: the second reopens a block of the first through its bare name, and copies a value
from it. -/
def unitPackages : List Package :=
  [⟨"core", [⟨"units.def", ["unit:infantry(hp=10) { arms = rifle,bayonet } # in this order"]⟩]⟩,
    ⟨"mod", [⟨"guard.def", ["infantry { rank = 2 }", "unit:guard { hp = @infantry.hp; }"]⟩]⟩]

/-- A package of units, printed and parsed again. -/
theorem dump_undoes_load_of_units : ∃ loaded, load unitPackages = .ok loaded ∧
    ∃ stats, (ContentTree.new.parse loaded.tree.dump).2 = .ok stats ∧
      (ContentTree.new.parse loaded.tree.dump).1.outline = loaded.tree.outline ∧
      (ContentTree.new.parse loaded.tree.dump).1.size = loaded.tree.size ∧
      (ContentTree.new.parse loaded.tree.dump).1.dump = loaded.tree.dump := by
  have hloads : (load unitPackages).isOk = true := rfl
  cases hload : load unitPackages with
  | error error => rw [hload] at hloads; cases hloads
  | ok loaded => exact ⟨loaded, rfl, dump_undoes_load unitPackages loaded hload⟩

end ModContent
