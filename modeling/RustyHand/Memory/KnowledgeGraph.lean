import RustyHand.Lib.Float64
import RustyHand.Lib.HopSearch
import RustyHand.Lib.Table
import RustyHand.Types.Json
import Mathlib.Data.List.Perm.Subperm

/-!
# The knowledge graph

`query_graph` of `rusty-hand-memory/src/knowledge.rs` with `fetch_hop`, on tables that can be read.
A match is the rows of a relation and of its two entities.

* `KnowledgeStore`, `joined`, `fetchHop`: the tables, and one query;
* `Search`, `expand`, `hops`, `queryGraph`: the function;
* `mem_queryGraph`: what it returns, where an id is taken for a name as well;
* `OnWalk`, `Asked`: edges on a walk from the source;
* `queryGraph_walks`.
-/

namespace RustyHand
namespace KnowledgeGraph

open Float64 HopSearch

/-! ### The tables -/

/-- A row of `entities`. -/
structure EntityRow where
  id : String
  entityType : String
  name : String
  properties : String
  createdAt : String
  updatedAt : String
  deriving DecidableEq

/-- A row of `relations`. -/
structure RelationRow where
  id : String
  sourceEntity : String
  relationType : String
  targetEntity : String
  properties : String
  confidence : F64
  createdAt : String
  deriving DecidableEq

/-- `RawGraphRow`. -/
structure GraphMatch where
  source : EntityRow
  relation : RelationRow
  target : EntityRow
  deriving DecidableEq

/-- `RelationType`. -/
inductive RelationType
  | worksAt
  | knowsAbout
  | relatedTo
  | dependsOn
  | ownedBy
  | createdBy
  | locatedIn
  | partOf
  | uses
  | produces
  | custom (name : String)

namespace RelationType

/-- The column of a relation type. -/
def json : RelationType → String
  | worksAt => (Json.string "works_at").toString
  | knowsAbout => (Json.string "knows_about").toString
  | relatedTo => (Json.string "related_to").toString
  | dependsOn => (Json.string "depends_on").toString
  | ownedBy => (Json.string "owned_by").toString
  | createdBy => (Json.string "created_by").toString
  | locatedIn => (Json.string "located_in").toString
  | partOf => (Json.string "part_of").toString
  | uses => (Json.string "uses").toString
  | produces => (Json.string "produces").toString
  | custom name => (Json.object [("custom", .string name)]).toString

end RelationType

/-- `GraphPattern`. -/
structure GraphPattern where
  source : Option String
  relation : Option RelationType
  target : Option String
  maxDepth : ℕ

/-- The column that the relation filter asks for. -/
def GraphPattern.relationJson (pattern : GraphPattern) : Option String :=
  pattern.relation.map RelationType.json

/-- The tables, whose `id` columns are primary keys.  The rows of a query are in an order of the
database's own. -/
structure KnowledgeStore where
  entities : List EntityRow
  relations : List RelationRow
  order : List GraphMatch → List GraphMatch
  uniqueEntities : Table.UniqueKeys EntityRow.id entities
  uniqueRelations : Table.UniqueKeys RelationRow.id relations
  order_perm : ∀ rows, (order rows).Perm rows

/-- `MAX_GRAPH_MATCHES`. -/
def maxGraphMatches : ℕ := 500

/-- `id = ?1 OR name = ?1`, if there is such a filter. -/
def EntityRow.Meets (e : EntityRow) (filter : Option String) : Prop :=
  ∀ text ∈ filter, e.id = text ∨ e.name = text

/-- `relation_type = ?1`, if there is such a filter. -/
def RelationRow.Meets (r : RelationRow) (filter : Option String) : Prop :=
  ∀ text ∈ filter, r.relationType = text

instance (e : EntityRow) : DecidablePred e.Meets := fun filter =>
  inferInstanceAs (Decidable (∀ text ∈ filter, _))

instance (r : RelationRow) : DecidablePred r.Meets := fun filter =>
  inferInstanceAs (Decidable (∀ text ∈ filter, _))

namespace KnowledgeStore

variable (store : KnowledgeStore)

/-- The relations with their entities. -/
def joined : List GraphMatch :=
  store.relations.flatMap fun r =>
    (store.entities.filter fun s => s.id = r.sourceEntity).flatMap fun s =>
      (store.entities.filter fun t => t.id = r.targetEntity).map fun t => ⟨s, r, t⟩

/-- The rows that meet three filters. -/
def selected (source relationJson target : Option String) : List GraphMatch :=
  store.joined.filter fun m =>
    m.source.Meets source ∧ m.relation.Meets relationJson ∧ m.target.Meets target

/-- `fetch_hop`. -/
def fetchHop (source relationJson target : Option String) (limit : ℕ) : List GraphMatch :=
  (store.order (store.selected source relationJson target)).take limit

end KnowledgeStore

/-! ### The search -/

/-- The sets and lists of the search; `found` is `matches`. -/
structure Search where
  seenEdges : List String := []
  visitedNodes : List String := []
  found : List GraphMatch := []
  nextFrontier : List String := []

namespace Search

/-- An edge that is not seen yet is a match, and its target is to be visited. -/
def push (search : Search) (m : GraphMatch) : Search :=
  if m.relation.id ∈ search.seenEdges then search
  else { search with seenEdges := m.relation.id :: search.seenEdges, found := search.found ++ [m]
                     nextFrontier := search.nextFrontier ++ [m.target.id] }

/-- The loop over the edges of a node. -/
def takeEdges : List GraphMatch → Search → Search
  | [], search => search
  | m :: edges, search =>
    if maxGraphMatches ≤ search.found.length then search else takeEdges edges (search.push m)

/-- A node is visited. -/
def visit (search : Search) (node : String) : Search :=
  { search with visitedNodes := node :: search.visitedNodes }

end Search

open Search

section

variable (store : KnowledgeStore) (relationJson : Option String)

/-- The loop over a frontier. -/
def expand : List String → Search → Search
  | [], search => search
  | node :: frontier, search =>
    if node ∈ search.visitedNodes then expand frontier search
    else if maxGraphMatches ≤ search.found.length then search.visit node
    else expand frontier
      (takeEdges (store.fetchHop (some node) relationJson none maxGraphMatches) (search.visit node))

/-- The loop over the hops that are left. -/
def hops : ℕ → List String → Search → Search
  | 0, _, search => search
  | left + 1, frontier, search =>
    if maxGraphMatches ≤ search.found.length then search
    else
      let search := expand store relationJson frontier { search with nextFrontier := [] }
      if search.nextFrontier = [] then search else hops left search.nextFrontier search

/-- The search from a source, before the filter for the targets. -/
def searchFrom (source : String) (maxDepth : ℕ) : Search :=
  let seed := (store.fetchHop (some source) relationJson none maxGraphMatches).foldl push
    { visitedNodes := [source] }
  hops store relationJson (maxDepth - 1) seed.nextFrontier seed

end

/-- `query_graph`. -/
def queryGraph (store : KnowledgeStore) (pattern : GraphPattern) : List GraphMatch :=
  let relationJson := pattern.relationJson
  let maxDepth := max pattern.maxDepth 1
  match pattern.source with
  | none => store.fetchHop none relationJson pattern.target maxGraphMatches
  | some source =>
    if maxDepth ≤ 1 then store.fetchHop (some source) relationJson pattern.target maxGraphMatches
    else (searchFrom store relationJson source maxDepth).found.filter fun m =>
      m.target.Meets pattern.target

variable {store : KnowledgeStore} {relationJson : Option String} {search : Search}
  {m m' : GraphMatch} {edges : List GraphMatch} {frontier : List String} {node : String}

/-! ### The rows of a query -/

theorem Meets_none (e : EntityRow) : e.Meets none := fun _ h => by cases h

theorem mem_joined : m ∈ store.joined ↔ m.relation ∈ store.relations ∧
    (m.source ∈ store.entities ∧ m.source.id = m.relation.sourceEntity) ∧
      m.target ∈ store.entities ∧ m.target.id = m.relation.targetEntity := by
  simp only [KnowledgeStore.joined, List.mem_flatMap, List.mem_map, List.mem_filter,
    decide_eq_true_iff]
  constructor
  · rintro ⟨r, hr, s, hs, t, ht, rfl⟩
    exact ⟨hr, hs, ht⟩
  · rintro ⟨hr, hs, ht⟩
    exact ⟨_, hr, _, hs, _, ht, rfl⟩

/-- The id of a relation tells the whole match. -/
theorem joined_inj (hm : m ∈ store.joined) (hm' : m' ∈ store.joined)
    (hid : m.relation.id = m'.relation.id) : m = m' := by
  obtain ⟨hr, ⟨hs, hsid⟩, ht, htid⟩ := mem_joined.1 hm
  obtain ⟨hr', ⟨hs', hsid'⟩, ht', htid'⟩ := mem_joined.1 hm'
  obtain ⟨source, relation, target⟩ := m
  obtain ⟨source', relation', target'⟩ := m'
  obtain rfl : relation = relation' := store.uniqueRelations.eq hr hr' hid
  obtain rfl : source = source' := store.uniqueEntities.eq hs hs' (hsid.trans hsid'.symm)
  obtain rfl : target = target' := store.uniqueEntities.eq ht ht' (htid.trans htid'.symm)
  rfl

theorem nodup_joined (store : KnowledgeStore) : store.joined.Nodup := by
  have hentities : store.entities.Nodup := store.uniqueEntities.of_map _
  have hrelations : store.relations.Nodup := store.uniqueRelations.of_map _
  refine List.nodup_flatMap.2 ⟨fun r _ => List.nodup_flatMap.2 ⟨fun s _ => ?_, ?_⟩, ?_⟩
  · exact (hentities.filter _).map fun t t' h => (GraphMatch.mk.inj h).2.2
  · refine (hentities.filter _).imp fun hne m hm hm' => ?_
    obtain ⟨t, -, rfl⟩ := List.mem_map.1 hm
    obtain ⟨t', -, h⟩ := List.mem_map.1 hm'
    exact hne (GraphMatch.mk.inj h).1.symm
  · refine hrelations.imp fun hne m hm hm' => ?_
    obtain ⟨s, -, hm⟩ := List.mem_flatMap.1 hm
    obtain ⟨t, -, rfl⟩ := List.mem_map.1 hm
    obtain ⟨s', -, hm'⟩ := List.mem_flatMap.1 hm'
    obtain ⟨t', -, h⟩ := List.mem_map.1 hm'
    exact hne (GraphMatch.mk.inj h).2.1.symm

theorem mem_selected {source target : Option String} :
    m ∈ store.selected source relationJson target ↔
      m ∈ store.joined ∧ m.source.Meets source ∧ m.relation.Meets relationJson ∧
        m.target.Meets target := by
  rw [KnowledgeStore.selected, List.mem_filter, decide_eq_true_iff]

/-- The limit cuts nothing off. -/
theorem fetchHop_perm {source target : Option String} {limit : ℕ}
    (h : (store.selected source relationJson target).length ≤ limit) :
    (store.fetchHop source relationJson target limit).Perm
      (store.selected source relationJson target) := by
  have hperm := store.order_perm (store.selected source relationJson target)
  rw [KnowledgeStore.fetchHop, List.take_of_length_le (hperm.length_eq.trans_le h)]
  exact hperm

/-- The edges of the relation filter. -/
def relationEdges (store : KnowledgeStore) (relationJson : Option String) : List GraphMatch :=
  store.selected none relationJson none

theorem mem_relationEdges :
    m ∈ relationEdges store relationJson ↔ m ∈ store.joined ∧ m.relation.Meets relationJson := by
  rw [relationEdges, mem_selected]
  exact ⟨fun h => ⟨h.1, h.2.2.1⟩, fun h => ⟨h.1, Meets_none _, h.2, Meets_none _⟩⟩

/-- The edges that a node is asked for. -/
def edgesOf (store : KnowledgeStore) (relationJson : Option String) (node : String) :
    List GraphMatch :=
  store.fetchHop (some node) relationJson none maxGraphMatches

theorem selected_subperm (source target : Option String) :
    (store.selected source relationJson target).Subperm (relationEdges store relationJson) := by
  refine List.subperm_of_subset ((nodup_joined store).filter _) fun m hm => ?_
  have := mem_selected.1 hm
  exact mem_relationEdges.2 ⟨this.1, this.2.2.1⟩

variable (hfew : (relationEdges store relationJson).length < maxGraphMatches)

include hfew in
theorem mem_edgesOf : m ∈ edgesOf store relationJson node ↔
    m ∈ relationEdges store relationJson ∧ m.source.Meets (some node) := by
  have hperm := @fetchHop_perm store relationJson (some node) none maxGraphMatches
    ((selected_subperm _ _).length_le.trans hfew.le)
  rw [edgesOf, hperm.mem_iff, mem_selected, mem_relationEdges]
  exact ⟨fun h => ⟨⟨h.1, h.2.2.1⟩, h.2.1⟩, fun h => ⟨h.1.1, h.2, h.1.2, Meets_none _⟩⟩

/-! ### The loops -/

/-- What the lists of a search are of. -/
structure Kept (store : KnowledgeStore) (relationJson : Option String) (search : Search) :
    Prop where
  seen : ∀ m ∈ store.joined, m.relation.id ∈ search.seenEdges ↔ m ∈ search.found
  nodup : search.found.Nodup
  edges : ∀ m ∈ search.found, m ∈ relationEdges store relationJson
  frontier : ∀ node ∈ search.nextFrontier, ∃ m ∈ search.found, m.target.id = node

/-- New matches are found, and their targets are to be visited. -/
structure Grows (new : GraphMatch → Prop) (search search' : Search) : Prop where
  found : ∀ m, m ∈ search'.found ↔ m ∈ search.found ∨ new m
  fresh : ∀ m ∈ search'.found, m ∈ search.found ∨ m.target.id ∈ search'.nextFrontier
  kept : ∀ node ∈ search.nextFrontier, node ∈ search'.nextFrontier

theorem Grows.refl {new : GraphMatch → Prop} (h : ∀ m, new m → m ∈ search.found) :
    Grows new search search :=
  ⟨fun m => ⟨.inl, fun hm => hm.elim id (h m)⟩, fun _ => .inl, fun _ => id⟩

theorem Grows.trans {new new' : GraphMatch → Prop} {search' search'' : Search}
    (h : Grows new search search') (h' : Grows new' search' search'') :
    Grows (fun m => new m ∨ new' m) search search'' := by
  refine ⟨fun m => ?_, fun m hm => ?_, fun node hnode => h'.kept node (h.kept node hnode)⟩
  · rw [h'.found, h.found, or_assoc]
  · rcases h'.fresh m hm with hm | hm
    · exact (h.fresh m hm).imp_right (h'.kept _)
    · exact .inr hm

/-- What is found fits in below the limit. -/
theorem Kept.length_lt (h : Kept store relationJson search)
    (hfew : (relationEdges store relationJson).length < maxGraphMatches) :
    search.found.length < maxGraphMatches :=
  (List.subperm_of_subset h.nodup h.edges).length_le.trans_lt hfew

theorem Kept.visit (h : Kept store relationJson search) (node : String) :
    Kept store relationJson (search.visit node) :=
  ⟨h.seen, h.nodup, h.edges, h.frontier⟩

theorem push_spec (h : Kept store relationJson search) (hm : m ∈ relationEdges store relationJson) :
    Kept store relationJson (search.push m) ∧ Grows (· = m) search (search.push m) ∧
      (search.push m).visitedNodes = search.visitedNodes := by
  have hjoined := (mem_relationEdges.1 hm).1
  unfold push
  split_ifs with hseen
  · refine ⟨h, .refl ?_, rfl⟩
    rintro m rfl
    exact (h.seen m hjoined).1 hseen
  · have hnew : m ∉ search.found := fun hfound => hseen ((h.seen m hjoined).2 hfound)
    refine ⟨⟨fun m' hm' => ?_, ?_, ?_, ?_⟩, ⟨fun m' => ?_, fun m' hm' => ?_, fun node hnode => ?_⟩,
      rfl⟩
    · rw [List.mem_cons, List.mem_append, List.mem_singleton, h.seen m' hm', or_comm]
      exact or_congr_right ⟨joined_inj hm' hjoined, fun hmm => by rw [hmm]⟩
    · exact h.nodup.append (List.nodup_singleton m) (List.disjoint_singleton.2 hnew)
    · exact List.forall_mem_append.2 ⟨h.edges, List.forall_mem_singleton.2 hm⟩
    · refine List.forall_mem_append.2 ⟨fun node hnode => ?_, List.forall_mem_singleton.2 ?_⟩
      · obtain ⟨m', hm', hid⟩ := h.frontier node hnode
        exact ⟨m', List.mem_append_left _ hm', hid⟩
      · exact ⟨m, List.mem_append_right _ List.mem_cons_self, rfl⟩
    · rw [List.mem_append, List.mem_singleton]
    · rcases List.mem_append.1 hm' with hm' | hm'
      · exact .inl hm'
      · rw [List.mem_singleton.1 hm']
        exact .inr (List.mem_append_right _ List.mem_cons_self)
    · exact List.mem_append_left _ hnode

theorem foldl_push_spec (h : Kept store relationJson search)
    (hedges : ∀ m ∈ edges, m ∈ relationEdges store relationJson) :
    Kept store relationJson (edges.foldl push search) ∧
      Grows (· ∈ edges) search (edges.foldl push search) ∧
      (edges.foldl push search).visitedNodes = search.visitedNodes := by
  induction edges generalizing search with
  | nil => exact ⟨h, .refl fun m hm => absurd hm List.not_mem_nil, rfl⟩
  | cons m edges ih =>
    obtain ⟨hm, hedges⟩ := List.forall_mem_cons.1 hedges
    obtain ⟨hkept, hgrows, hvisited⟩ := push_spec h hm
    obtain ⟨hkept', hgrows', hvisited'⟩ := ih hkept hedges
    rw [List.foldl_cons]
    refine ⟨hkept', ?_, hvisited'.trans hvisited⟩
    simpa only [List.mem_cons] using hgrows.trans hgrows'

/-- The loop over the edges of a node does not end early. -/
theorem takeEdges_eq_foldl (h : Kept store relationJson search)
    (hedges : ∀ m ∈ edges, m ∈ relationEdges store relationJson)
    (hfew : (relationEdges store relationJson).length < maxGraphMatches) :
    takeEdges edges search = edges.foldl push search := by
  induction edges generalizing search with
  | nil => rfl
  | cons m edges ih =>
    obtain ⟨hm, hedges⟩ := List.forall_mem_cons.1 hedges
    rw [takeEdges, if_neg (Nat.not_le.2 (h.length_lt hfew)), List.foldl_cons,
      ih (push_spec h hm).1 hedges]

/-- The edges of all visited nodes are found. -/
def Closed (store : KnowledgeStore) (relationJson : Option String) (search : Search) : Prop :=
  ∀ node ∈ search.visitedNodes, ∀ m ∈ edgesOf store relationJson node, m ∈ search.found

/-- A frontier: the edges of its nodes are found. -/
theorem expand_spec (h : Kept store relationJson search)
    (hclosed : Closed store relationJson search)
    (hfew : (relationEdges store relationJson).length < maxGraphMatches) :
    Kept store relationJson (expand store relationJson frontier search) ∧
      Closed store relationJson (expand store relationJson frontier search) ∧
      Grows (fun m => ∃ node ∈ frontier, m ∈ edgesOf store relationJson node) search
        (expand store relationJson frontier search) := by
  induction frontier generalizing search with
  | nil => exact ⟨h, hclosed, .refl fun m hm => by simp at hm⟩
  | cons node frontier ih =>
    rw [expand]
    have hnew : (fun m => ∃ n ∈ node :: frontier, m ∈ edgesOf store relationJson n) =
        fun m => m ∈ edgesOf store relationJson node ∨
          ∃ n ∈ frontier, m ∈ edgesOf store relationJson n := by
      funext m
      simp only [List.mem_cons, exists_eq_or_imp]
    rw [hnew]
    split_ifs with hvisited hfull
    · obtain ⟨hkept, hclosed', hgrows⟩ := ih h hclosed
      exact ⟨hkept, hclosed', (Grows.refl (hclosed node hvisited)).trans hgrows⟩
    · exact absurd (h.length_lt hfew) (Nat.not_lt.2 hfull)
    · have hedges : ∀ m ∈ edgesOf store relationJson node, m ∈ relationEdges store relationJson :=
        fun m hm => ((mem_edgesOf hfew).1 hm).1
      obtain ⟨hkept, hgrows, hnodes⟩ := foldl_push_spec (h.visit node) hedges
      rw [← edgesOf, takeEdges_eq_foldl (h.visit node) hedges hfew]
      have hclosed' : Closed store relationJson
          ((edgesOf store relationJson node).foldl push (search.visit node)) := by
        intro n hn m hm
        rw [hnodes] at hn
        rcases List.mem_cons.1 hn with rfl | hn
        · exact (hgrows.found m).2 (.inr hm)
        · exact (hgrows.found m).2 (.inl (hclosed n hn m hm))
      obtain ⟨hkept', hclosed'', hgrows'⟩ := ih hkept hclosed'
      exact ⟨hkept', hclosed'', Grows.trans ⟨hgrows.found, hgrows.fresh, hgrows.kept⟩ hgrows'⟩

/-! ### What is found -/

/-- The edges that the source is asked for. -/
def Asks (store : KnowledgeStore) (relationJson source : Option String) (m : GraphMatch) : Prop :=
  m ∈ relationEdges store relationJson ∧ m.source.Meets source

/-- The edges that an edge leads the search to. -/
def Leads (store : KnowledgeStore) (relationJson : Option String) (m m' : GraphMatch) : Prop :=
  Asks store relationJson (some m.target.id) m'

theorem hops_spec {source : Option String} {n left : ℕ} (h : Kept store relationJson search)
    (hclosed : Closed store relationJson search)
    (hfrontier : ∀ node ∈ frontier, ∃ m ∈ search.found, m.target.id = node)
    (hfew : (relationEdges store relationJson).length < maxGraphMatches)
    (hexplored : Explored (Asks store relationJson source) (Leads store relationJson) n
      (· ∈ search.found) (·.target.id ∈ frontier)) :
    Kept store relationJson (hops store relationJson left frontier search) ∧
      ∀ m, m ∈ (hops store relationJson left frontier search).found ↔
        Within (Asks store relationJson source) (Leads store relationJson) (n + left) m := by
  induction left generalizing n frontier search with
  | zero => exact ⟨h, hexplored.found_iff⟩
  | succ left ih =>
    rw [hops, if_neg (Nat.not_le.2 (h.length_lt hfew))]
    dsimp only
    have hstart : Kept store relationJson { search with nextFrontier := [] } :=
      ⟨h.seen, h.nodup, h.edges, fun node hnode => absurd hnode List.not_mem_nil⟩
    obtain ⟨hkept, hclosed', hgrows⟩ :=
      @expand_spec store relationJson _ frontier hstart hclosed hfew
    generalize expand store relationJson frontier { search with nextFrontier := [] } = search' at *
    have hexplored' : Explored (Asks store relationJson source) (Leads store relationJson) (n + 1)
        (· ∈ search'.found) (·.target.id ∈ search'.nextFrontier) := by
      refine hexplored.next (fun m hm => (hgrows.found m).2 (.inl hm)) (fun m hm => ?_)
        fun m m' hm hwaiting hleads => ?_
      · rcases (hgrows.found m).1 hm with hold | ⟨node, hnode, hedge⟩
        · exact .inl hold
        · obtain ⟨d, hd, rfl⟩ := hfrontier node hnode
          exact (hgrows.fresh m hm).imp_right fun hw => ⟨hw, d, hd, (mem_edgesOf hfew).1 hedge⟩
      · exact (hgrows.found m').2 (.inr ⟨_, hwaiting, (mem_edgesOf hfew).2 hleads⟩)
    rw [show n + (left + 1) = n + 1 + left by omega]
    split_ifs with hnone
    · refine ⟨hkept, hexplored'.done (fun m hm => ?_) (Nat.le_add_right _ left)⟩
      rw [hnone] at hm
      exact List.not_mem_nil hm
    · exact ih hkept hclosed' hkept.frontier hexplored'

theorem searchFrom_spec {source : String} {maxDepth : ℕ} (hdepth : 1 < maxDepth)
    (hfew : (relationEdges store relationJson).length < maxGraphMatches) :
    Kept store relationJson (searchFrom store relationJson source maxDepth) ∧
      ∀ m, m ∈ (searchFrom store relationJson source maxDepth).found ↔
        Within (Asks store relationJson (some source)) (Leads store relationJson) maxDepth m := by
  have hempty : Kept store relationJson { visitedNodes := [source] } :=
    ⟨fun m _ => iff_of_false List.not_mem_nil List.not_mem_nil, List.nodup_nil,
      List.forall_mem_nil _, List.forall_mem_nil _⟩
  have hedges : ∀ m ∈ edgesOf store relationJson source, m ∈ relationEdges store relationJson :=
    fun m hm => ((mem_edgesOf hfew).1 hm).1
  obtain ⟨hkept, hgrows, hvisited⟩ := foldl_push_spec hempty hedges
  have hfound : ∀ m, m ∈ ((edgesOf store relationJson source).foldl push
      { visitedNodes := [source] }).found ↔ m ∈ edgesOf store relationJson source := fun m =>
    (hgrows.found m).trans (or_iff_right List.not_mem_nil)
  have hclosed : Closed store relationJson
      ((edgesOf store relationJson source).foldl push { visitedNodes := [source] }) := by
    intro node hnode m hm
    rw [hvisited] at hnode
    rw [List.mem_singleton.1 hnode] at hm
    exact (hfound m).2 hm
  have hexplored := @explored_one _ (Asks store relationJson (some source))
    (Leads store relationJson) _ _ (fun m => (hfound m).trans (mem_edgesOf hfew))
    fun m hm => (hgrows.fresh m hm).resolve_left List.not_mem_nil
  have hhops := @hops_spec _ _ _ _ _ _ (maxDepth - 1) hkept hclosed hkept.frontier hfew hexplored
  rwa [show 1 + (maxDepth - 1) = maxDepth by omega] at hhops

/-! ### The query -/

/-- The edges that are counted against the limit: those of all filters for a query of a single hop,
else those of the relation filter. -/
def matching (store : KnowledgeStore) (pattern : GraphPattern) : List GraphMatch :=
  if pattern.source = none ∨ pattern.maxDepth ≤ 1 then
    store.selected pattern.source pattern.relationJson pattern.target
  else relationEdges store pattern.relationJson

variable {pattern : GraphPattern}

theorem nodup_ids {ms : List GraphMatch} (h : ms.Nodup) (hms : ∀ m ∈ ms, m ∈ store.joined) :
    (ms.map (·.relation.id)).Nodup :=
  h.map_on fun m hm m' hm' hid => joined_inj (hms m hm) (hms m' hm') hid

/-- A query of a single hop. -/
theorem fetchHop_spec {source target : Option String}
    (h : (store.selected source relationJson target).length < maxGraphMatches) :
    ((store.fetchHop source relationJson target maxGraphMatches).map (·.relation.id)).Nodup ∧
      ∀ m, m ∈ store.fetchHop source relationJson target maxGraphMatches ↔
        Asks store relationJson source m ∧ m.target.Meets target := by
  have hperm := fetchHop_perm h.le
  have hmem : ∀ m, m ∈ store.fetchHop source relationJson target maxGraphMatches ↔
      Asks store relationJson source m ∧ m.target.Meets target := fun m => by
    rw [hperm.mem_iff, mem_selected, Asks, mem_relationEdges]
    tauto
  have hjoined : ∀ m ∈ store.fetchHop source relationJson target maxGraphMatches,
      m ∈ store.joined := fun m hm => (mem_relationEdges.1 ((hmem m).1 hm).1.1).1
  exact ⟨nodup_ids (hperm.nodup_iff.2 ((nodup_joined store).filter _)) hjoined, hmem⟩

/-- What a query returns: what the search is led to, each match once. -/
theorem queryGraph_spec (h : (matching store pattern).length < maxGraphMatches) :
    ((queryGraph store pattern).map (·.relation.id)).Nodup ∧
      ∀ m, m ∈ queryGraph store pattern ↔
        Within (Asks store pattern.relationJson pattern.source) (Leads store pattern.relationJson)
          (max pattern.maxDepth 1) m ∧ m.target.Meets pattern.target := by
  unfold queryGraph
  unfold matching at h
  cases hsource : pattern.source with
  | none =>
    rw [hsource, if_pos (.inl rfl)] at h
    obtain ⟨hnodup, hmem⟩ := fetchHop_spec h
    refine ⟨hnodup, fun m => (hmem m).trans (and_congr_left fun _ => ⟨fun hm => ?_, fun hm => ?_⟩)⟩
    · exact (within_one.2 hm).le (le_max_right _ _)
    · exact ⟨hm.last.elim And.left fun ⟨_, h⟩ => h.1, Meets_none _⟩
  | some source =>
    dsimp only
    by_cases hdepth : pattern.maxDepth ≤ 1
    · rw [if_pos (.inr hdepth), hsource] at h
      rw [max_eq_right hdepth, if_pos le_rfl]
      obtain ⟨hnodup, hmem⟩ := fetchHop_spec h
      exact ⟨hnodup, fun m => (hmem m).trans (and_congr_left fun _ => within_one.symm)⟩
    · rw [if_neg (by simp [hsource, hdepth])] at h
      have hone : 1 < pattern.maxDepth := Nat.lt_of_not_le hdepth
      rw [max_eq_left hone.le, if_neg hdepth]
      obtain ⟨hkept, hfound⟩ := @searchFrom_spec _ _ source _ hone h
      have hjoined : ∀ m ∈ (searchFrom store pattern.relationJson source pattern.maxDepth).found,
          m ∈ store.joined := fun m hm => (mem_relationEdges.1 (hkept.edges m hm)).1
      refine ⟨nodup_ids (hkept.nodup.filter _) fun m hm => hjoined m (List.mem_filter.1 hm).1,
        fun m => ?_⟩
      rw [List.mem_filter, hfound, decide_eq_true_iff]

/-! ### Walks -/

/-- An edge of the relation filter that follows another one. -/
def Follows (store : KnowledgeStore) (relationJson : Option String) (m m' : GraphMatch) : Prop :=
  m' ∈ relationEdges store relationJson ∧ m'.source.id = m.target.id

/-- An edge on a walk of at most so many hops from an entity whose id or name is the source. -/
def OnWalk (store : KnowledgeStore) (pattern : GraphPattern) : ℕ → GraphMatch → Prop :=
  Within (Asks store pattern.relationJson pattern.source) (Follows store pattern.relationJson)

/-- An edge whose source has the id of a reached entity for its name is reached itself, a hop
later. -/
def NamesApart (store : KnowledgeStore) (pattern : GraphPattern) : Prop :=
  ∀ k < max pattern.maxDepth 1, ∀ m m', OnWalk store pattern k m →
    m' ∈ relationEdges store pattern.relationJson → m'.source.name = m.target.id →
      OnWalk store pattern (k + 1) m'

theorem led_of_onWalk {k : ℕ} (h : OnWalk store pattern k m) :
    Within (Asks store pattern.relationJson pattern.source) (Leads store pattern.relationJson) k
      m :=
  h.mono (fun _ => id) fun _ _ _ _ he hf => he.next ⟨hf.1, fun _ htext =>
    .inl (hf.2.trans (Option.some.inj htext))⟩

/-- Names are apart just if the search is led, for each number of hops, along walks only. -/
theorem namesApart_iff : NamesApart store pattern ↔
    ∀ k ≤ max pattern.maxDepth 1, ∀ m,
      Within (Asks store pattern.relationJson pattern.source) (Leads store pattern.relationJson) k
        m → OnWalk store pattern k m := by
  constructor
  · intro h k hk m hm
    refine hm.mono (fun _ => id) fun j hj e f he hf => ?_
    rcases hf.2 _ rfl with hid | hname
    · exact he.next ⟨hf.1, hid⟩
    · exact h j (hj.trans_le hk) e f he hf.1 hname
  · intro h k hk m m' hm hm' hname
    refine h (k + 1) hk m' ((led_of_onWalk hm).next ⟨hm', fun text htext => .inr ?_⟩)
    exact hname.trans (Option.some.inj htext)

/-- A query returns the edges on walks from the source, each once; and no others, if no name is
taken for an id. -/
theorem queryGraph_walks (h : (matching store pattern).length < maxGraphMatches) :
    ((queryGraph store pattern).map (·.relation.id)).Nodup ∧
      (∀ m, OnWalk store pattern (max pattern.maxDepth 1) m → m.target.Meets pattern.target →
        m ∈ queryGraph store pattern) ∧
      (NamesApart store pattern → ∀ m ∈ queryGraph store pattern,
        OnWalk store pattern (max pattern.maxDepth 1) m ∧ m.target.Meets pattern.target) := by
  obtain ⟨hnodup, hmem⟩ := queryGraph_spec h
  refine ⟨hnodup, fun m hm htarget => (hmem m).2 ⟨led_of_onWalk hm, htarget⟩, fun hapart m hm => ?_⟩
  exact ((hmem m).1 hm).imp_left (namesApart_iff.1 hapart _ le_rfl m)

/-- An entity of some id and name. -/
def concept (id name : String) : EntityRow := ⟨id, "\"concept\"", name, "\x7b\x7d", "", ""⟩

/-- A relation of some id between two entities. -/
def related (id source target : String) : RelationRow :=
  ⟨id, source, "\"related_to\"", target, "\x7b\x7d", ⟨0x3FF0000000000000⟩, ""⟩

/-- An entity that has another one's id for its name. -/
def namesakes : KnowledgeStore where
  entities := [concept "a" "Ann", concept "b" "Bob", concept "c" "b", concept "d" "Dan"]
  relations := [related "ab" "a" "b", related "cd" "c" "d"]
  order := id
  uniqueEntities := by unfold Table.UniqueKeys; decide
  uniqueRelations := by unfold Table.UniqueKeys; decide
  order_perm _ := .refl _

/-- What is around an entity. -/
def around (source : String) (maxDepth : ℕ) : GraphPattern := ⟨some source, none, none, maxDepth⟩

/-- A query of one hop. -/
theorem queryGraph_walks_one :
    ⟨concept "a" "Ann", related "ab" "a" "b", concept "b" "Bob"⟩ ∈
        queryGraph namesakes (around "a" 1) ∧
      OnWalk namesakes (around "a" 1) 1
        ⟨concept "a" "Ann", related "ab" "a" "b", concept "b" "Bob"⟩ := by
  obtain ⟨-, hall, honly⟩ := @queryGraph_walks namesakes (around "a" 1) (by decide)
  have hmem := hall ⟨concept "a" "Ann", related "ab" "a" "b", concept "b" "Bob"⟩
    (within_one.2 ⟨by decide, by decide⟩) (Meets_none _)
  have hapart : NamesApart namesakes (around "a" 1) := fun k hk m m' hm => by
    rw [Nat.lt_one_iff.1 hk] at hm
    exact absurd hm not_within_zero
  exact ⟨hmem, (honly hapart _ hmem).1⟩

/-- A query without a hop returns the edges of one hop; and one of two hops goes on from an entity
that has the id of the entity that is reached for its name. -/
theorem queryGraph_not_walks :
    ¬ (∀ (store : KnowledgeStore) (pattern : GraphPattern),
        (matching store pattern).length < maxGraphMatches → pattern.maxDepth = 0 →
          ∀ m ∈ queryGraph store pattern, OnWalk store pattern pattern.maxDepth m) ∧
      ¬ ∀ (store : KnowledgeStore) (pattern : GraphPattern),
        (matching store pattern).length < maxGraphMatches → 0 < pattern.maxDepth →
          ∀ m ∈ queryGraph store pattern, OnWalk store pattern pattern.maxDepth m := by
  constructor
  · intro h
    exact not_within_zero (h namesakes (around "a" 0) (by decide) rfl
      ⟨concept "a" "Ann", related "ab" "a" "b", concept "b" "Bob"⟩ (by decide))
  · intro h
    have hwalk := h namesakes (around "a" 2) (by decide) (by decide)
      ⟨concept "c" "b", related "cd" "c" "d", concept "d" "Dan"⟩ (by decide)
    have htargets : ∀ m ∈ relationEdges namesakes none, m.target.id ≠ "c" := by decide
    rcases @within_succ _ _ _ 1 _ |>.1 hwalk with ⟨-, hsource⟩ | ⟨m, hm, -, hid⟩
    · exact absurd hsource (by decide)
    · exact htargets m (hm.last.elim And.left fun ⟨_, h⟩ => h.1) hid.symm

end KnowledgeGraph
end RustyHand
