import Mathlib.Data.List.Nodup
import Mathlib.Data.List.Pairwise
import ServiceLint.Proofs.Source.Links
import ServiceLint.Proofs.Source.Parse.Places

/-!
# The representation invariant of syntax trees

How the nodes of a tree are linked and what data they carry is what building the tree preserves
(`SyntaxTree.parse_building`). Where they stand follows from where the declarations of the text stand: the nodes of the
tree are those of the module that is read back from it, and each of them stands for the module, for a declaration or for
a member (`Module.mem_outline`). Together they are the invariant of the tree of a text (`SyntaxTree.parse_wellFormed`).
-/
namespace ServiceLint

/-- Of two elements of a list whose elements are related in order, one is related to the other. -/
theorem rel_of_pairwise {α : Type _} {R : α → α → Prop} {l : List α} (h : l.Pairwise R) {x y : α}
    (hx : x ∈ l) (hy : y ∈ l) : x = y ∨ R x y ∨ R y x := by
  have : Std.Symm fun a b => R a b ∨ R b a := ⟨fun _ _ => Or.symm⟩
  by_cases heq : x = y
  · exact Or.inl heq
  · have hsymm : l.Pairwise fun a b => R a b ∨ R b a := h.imp Or.inl
    exact Or.inr (hsymm.forall hx hy heq)

/-- Where numbers and spans are in order, a smaller number stands before a larger one. -/
theorem stop_le_of_lt {α : Type} {span : α → Span} {l : List (Nat × α)} (hids : (l.map (·.1)).Pairwise (· < ·))
    (hspans : ((l.map (·.2)).map span).Pairwise fun a b => a.stop ≤ b.start) {i j : Nat} {x y : α}
    (hx : (i, x) ∈ l) (hy : (j, y) ∈ l) (hij : i < j) : (span x).stop ≤ (span y).start := by
  rw [List.pairwise_map] at hids
  rw [List.map_map, List.pairwise_map] at hspans
  rcases rel_of_pairwise (hids.and hspans) hx hy with heq | ⟨-, hle⟩ | ⟨hlt, -⟩
  · cases heq
    omega
  · exact hle
  · simp only at hlt
    omega

/-! ## Numbers -/

theorem Decl.nodes_ids (id : Nat) (d : Decl) : (d.nodes id).map (·.id) = List.range' id d.nodeCount := by
  cases d with
  | importDecl d => rfl
  | listenerDecl d => rfl
  | serviceDecl s =>
    have h := s.numbered_fst id
    simp only [Decl.nodes, Decl.nodeCount, List.map_cons, List.map_map, Nat.add_comm 1, List.range'_succ]
    rw [← h]
    rfl

theorem nodes_ids_from (next : Nat) (ds : List Decl) :
    ∃ n, ((numberFrom next ds).flatMap fun (id, d) => d.nodes id).map (·.id) = List.range' next n := by
  induction ds generalizing next with
  | nil => exact ⟨0, rfl⟩
  | cons d ds ih =>
    obtain ⟨n, hn⟩ := ih (next + d.nodeCount)
    have happ := @List.range'_append next d.nodeCount n 1
    rw [Nat.one_mul] at happ
    refine ⟨d.nodeCount + n, ?_⟩
    simp only [numberFrom, List.flatMap_cons, List.map_append, d.nodes_ids, hn]
    exact happ

/-- The nodes of a module are numbered one after the other. -/
theorem Module.outline_ids (m : Module) (size : Nat) :
    ∃ n, (m.outline size).map (·.id) = List.range' 0 n := by
  obtain ⟨n, hn⟩ := nodes_ids_from 1 m.decls
  refine ⟨n + 1, ?_⟩
  rw [Module.outline, List.map_cons, List.range'_succ, Module.numbered]
  congr 1

/-- A number stands for one node. -/
theorem Module.outline_unique {m : Module} {size : Nat} {a b : Node} (ha : a ∈ m.outline size)
    (hb : b ∈ m.outline size) (h : a.id = b.id) : a = b := by
  obtain ⟨n, hn⟩ := m.outline_ids size
  have hnodup : ((m.outline size).map (·.id)).Nodup := hn ▸ List.nodup_range'
  exact List.inj_on_of_nodup_map hnodup ha hb h

/-- Numbers of declarations leave room for the members of the services before them. -/
theorem numberFrom_pairwise (next : Nat) (ds : List Decl) :
    (numberFrom next ds).Pairwise (fun a b => a.1 + a.2.nodeCount ≤ b.1) ∧
      ∀ x ∈ numberFrom next ds, next ≤ x.1 := by
  induction ds generalizing next with
  | nil => exact ⟨.nil, by simp [numberFrom]⟩
  | cons d ds ih =>
    obtain ⟨hpair, hlow⟩ := ih (next + d.nodeCount)
    refine ⟨.cons (fun b hb => hlow b hb) hpair, ?_⟩
    intro x hx
    rcases List.mem_cons.1 hx with rfl | hx
    · exact Nat.le_refl _
    · exact Nat.le_trans (Nat.le_add_right _ _) (hlow x hx)

namespace Module

variable {m : Module} {i j size : Nat} {d e : Decl}

theorem mem_decls_of_numbered (h : (i, d) ∈ m.numbered) : d ∈ m.decls := by
  have := List.mem_map_of_mem (f := (·.2)) h
  rwa [numbered, numberFrom_snd] at this

theorem numbered_pos (h : (i, d) ∈ m.numbered) : 1 ≤ i := (numberFrom_pairwise 1 m.decls).2 _ h

/-- A number stands for one declaration. -/
theorem numbered_unique (hi : (i, d) ∈ m.numbered) (hj : (i, e) ∈ m.numbered) : d = e := by
  rcases rel_of_pairwise (numberFrom_pairwise 1 m.decls).1 hi hj with heq | hlt | hlt
  · exact (Prod.mk.inj heq).2
  · have := d.nodeCount_pos
    simp only at hlt
    omega
  · have := e.nodeCount_pos
    simp only at hlt
    omega

theorem numbered_fst_lt : (m.numbered.map (·.1)).Pairwise (· < ·) := by
  rw [List.pairwise_map]
  refine (numberFrom_pairwise 1 m.decls).1.imp ?_
  intro a b hab
  have := a.2.nodeCount_pos
  omega

/-! ## Nodes -/

def declNode (i : Nat) : Decl → Node
  | .importDecl d => ⟨i, .importDecl, d.span, some 0, []⟩
  | .listenerDecl d => ⟨i, .listenerDecl, d.span, some 0, []⟩
  | .serviceDecl d => ⟨i, .serviceDecl, d.span, some 0, (d.numbered i).map (·.1)⟩

def memberNode (i j : Nat) (x : Member) : Node := ⟨j, x.kind, x.span, some i, []⟩

def rootNode (m : Module) (size : Nat) : Node := ⟨0, .module, ⟨0, size⟩, none, m.numbered.map (·.1)⟩

/-- The node stands for the module, for a declaration or for a member. -/
inductive NodeOf (m : Module) (size : Nat) : Node → Prop
  | root : NodeOf m size (m.rootNode size)
  | decl {i : Nat} {d : Decl} (h : (i, d) ∈ m.numbered) : NodeOf m size (declNode i d)
  | member {i j : Nat} {s : Service} {x : Member} (h : (i, .serviceDecl s) ∈ m.numbered)
      (hx : (j, x) ∈ s.numbered i) : NodeOf m size (memberNode i j x)

theorem mem_outline {n : Node} : n ∈ m.outline size ↔ NodeOf m size n := by
  have hroot : m.outline size = m.rootNode size :: m.numbered.flatMap fun (id, d) => d.nodes id := rfl
  rw [hroot, List.mem_cons, List.mem_flatMap]
  constructor
  · rintro (rfl | ⟨⟨i, d⟩, hd, hn⟩)
    · exact .root
    · cases d with
      | importDecl d =>
        obtain rfl := List.mem_singleton.1 hn
        exact .decl hd
      | listenerDecl d =>
        obtain rfl := List.mem_singleton.1 hn
        exact .decl hd
      | serviceDecl s =>
        rcases List.mem_cons.1 hn with rfl | hn
        · exact .decl hd
        · obtain ⟨⟨j, x⟩, hx, rfl⟩ := List.mem_map.1 hn
          exact .member hd hx
  · rintro (_ | ⟨h⟩ | ⟨h, hx⟩)
    · exact Or.inl rfl
    · next i d =>
      refine Or.inr ⟨(i, d), h, ?_⟩
      cases d with
      | importDecl d => exact List.mem_singleton.2 rfl
      | listenerDecl d => exact List.mem_singleton.2 rfl
      | serviceDecl s => exact List.mem_cons_self
    · next i j s x =>
      exact Or.inr ⟨(i, .serviceDecl s), h, List.mem_cons_of_mem _ (List.mem_map.2 ⟨(j, x), hx, rfl⟩)⟩

end Module

theorem Service.mem_of_numbered {s : Service} {i j : Nat} {x : Member} (h : (j, x) ∈ s.numbered i) :
    x ∈ s.members := by
  have := List.mem_map_of_mem (f := (·.2)) h
  rwa [s.numbered_snd] at this

namespace Module

variable {text : List Char} {m : Module}

/-- A member lies between the braces of its service. -/
theorem member_fits (h : ∀ d ∈ m.decls, d.WellRead text) {i j : Nat} {s : Service} {x : Member}
    (hs : (i, .serviceDecl s) ∈ m.numbered) (hx : (j, x) ∈ s.numbered i) :
    x.span.Fits text s.openBrace.stop s.closeBrace.start := by
  have hwell : s.WellLaid text := h _ (mem_decls_of_numbered hs)
  exact hwell.members.fits (List.mem_map_of_mem (Service.mem_of_numbered hx))

theorem declNode_span (i : Nat) (d : Decl) : (declNode i d).span = d.span := by
  cases d <;> rfl

theorem declNode_parent (i : Nat) (d : Decl) : (declNode i d).parent = some 0 := by
  cases d <;> rfl

theorem declNode_id (i : Nat) (d : Decl) : (declNode i d).id = i := by
  cases d <;> rfl

theorem decl_stop_le (h : InOrder text 0 (m.decls.map (·.span)) (Text.size text)) {i j : Nat} {d e : Decl}
    (hi : (i, d) ∈ m.numbered) (hj : (j, e) ∈ m.numbered) (hij : i < j) : d.span.stop ≤ e.span.start := by
  have hspans := h.pairwise
  rw [← numberFrom_snd 1 m.decls] at hspans
  exact stop_le_of_lt numbered_fst_lt hspans hi hj hij

theorem member_stop_le {s : Service} (h : s.WellLaid text) {i j k : Nat} {x y : Member}
    (hx : (j, x) ∈ s.numbered i) (hy : (k, y) ∈ s.numbered i) (hjk : j < k) : x.span.stop ≤ y.span.start := by
  have hspans := h.members.pairwise
  rw [← s.numbered_snd i] at hspans
  have hids : ((s.numbered i).map (·.1)).Pairwise (· < ·) := by
    rw [s.numbered_fst]
    exact List.pairwise_lt_range'
  exact stop_le_of_lt hids hspans hx hy hjk

/-- The node of a service stands for a service of the module. -/
theorem exists_service_of_kind {size : Nat} {n : Node} (hn : n ∈ m.outline size) (hkind : n.kind = .serviceDecl) :
    ∃ s, (n.id, .serviceDecl s) ∈ m.numbered ∧ n.span = s.span ∧ n.children = (s.numbered n.id).map (·.1) := by
  rcases mem_outline.1 hn with _ | ⟨hd⟩ | ⟨hd, hx⟩
  · cases hkind
  · next i d =>
    cases d with
    | importDecl d => cases hkind
    | listenerDecl d => cases hkind
    | serviceDecl s => exact ⟨s, hd, rfl, rfl⟩
  · next i j s x =>
    have hmember : (memberNode i j x).kind.isMember = true := x.kind_isMember
    rw [hkind] at hmember
    cases hmember

/-! ### Places -/

section

variable (horder : InOrder text 0 (m.decls.map (·.span)) (Text.size text))
  (hwell : ∀ d ∈ m.decls, d.WellRead text)

include horder hwell

/-- The node covers something between two characters of the text, or it is the module. -/
theorem node_fits {n : Node} (hn : n ∈ m.outline (Text.size text)) :
    n = m.rootNode (Text.size text) ∨ ∃ lo hi, n.span.Fits text lo hi := by
  rcases mem_outline.1 hn with _ | ⟨hd⟩ | ⟨hd, hx⟩
  · exact Or.inl rfl
  · next i d =>
    rw [declNode_span]
    exact Or.inr ⟨_, _, horder.fits (List.mem_map_of_mem (mem_decls_of_numbered hd))⟩
  · exact Or.inr ⟨_, _, member_fits hwell hd hx⟩

theorem node_covers {n : Node} (hn : n ∈ m.outline (Text.size text)) :
    n.span.start < n.span.stop ∨ n.id = 0 ∧ text = [] := by
  rcases node_fits horder hwell hn with rfl | ⟨lo, hi, hfit⟩
  · by_cases ht : text = []
    · exact Or.inr ⟨rfl, ht⟩
    · exact Or.inl (Text.size_pos ht)
  · exact Or.inl hfit.lt

theorem node_boundaries {n : Node} (hn : n ∈ m.outline (Text.size text)) :
    Text.isBoundary n.span.start text = true ∧ Text.isBoundary n.span.stop text = true := by
  rcases node_fits horder hwell hn with rfl | ⟨lo, hi, hfit⟩
  · have hend := Text.isBoundary_size text []
    rw [List.append_nil] at hend
    exact ⟨Text.isBoundary_size [] text, hend⟩
  · exact ⟨hfit.start.isBoundary, hfit.stop.isBoundary⟩

/-- A node lies inside its parent: a declaration in the text, and a member between the braces of its service. -/
theorem node_inside {p n : Node} (hp : p ∈ m.outline (Text.size text)) (hn : n ∈ m.outline (Text.size text))
    (hparent : n.parent = some p.id) : p.span.start ≤ n.span.start ∧ n.span.stop ≤ p.span.stop := by
  rcases mem_outline.1 hn with _ | ⟨hd⟩ | ⟨hd, hx⟩
  · cases hparent
  · next i d =>
    rw [declNode_parent] at hparent
    obtain rfl : p = m.rootNode (Text.size text) :=
      outline_unique hp (mem_outline.2 .root) (Option.some.inj hparent).symm
    have hfit := horder.fits (List.mem_map_of_mem (mem_decls_of_numbered hd))
    rw [declNode_span]
    exact ⟨Nat.zero_le _, hfit.le_hi⟩
  · next i j s x =>
    obtain rfl : p = declNode i (.serviceDecl s) :=
      outline_unique hp (mem_outline.2 (.decl hd)) (Option.some.inj hparent).symm
    have hfit := member_fits hwell hd hx
    have hs : s.WellLaid text := hwell _ (mem_decls_of_numbered hd)
    have hlo := hs.openBrace.lo_le
    have hopen := hs.openBrace.lt
    have hclose := hs.closeBrace.lt
    have hhi := hs.closeBrace.le_hi
    have hmlo := hfit.lo_le
    have hmhi := hfit.le_hi
    show s.span.start ≤ x.span.start ∧ x.span.stop ≤ s.span.stop
    omega

/-- Nodes with one parent are declarations of the module or members of one service. -/
theorem siblings_apart {a b : Node} (ha : a ∈ m.outline (Text.size text)) (hb : b ∈ m.outline (Text.size text))
    (hparent : a.parent = b.parent) (hlt : a.id < b.id) : a.span.stop ≤ b.span.start := by
  rcases mem_outline.1 ha with _ | ⟨hd⟩ | ⟨hd, hx⟩ <;> rcases mem_outline.1 hb with _ | ⟨he⟩ | ⟨he, hy⟩
  case root.root => exact absurd hlt (Nat.lt_irrefl _)
  case root.decl =>
    rw [declNode_parent] at hparent
    cases hparent
  case root.member => cases hparent
  case decl.root =>
    rw [declNode_parent] at hparent
    cases hparent
  case decl.decl =>
    rw [declNode_id, declNode_id] at hlt
    rw [declNode_span, declNode_span]
    exact decl_stop_le horder hd he hlt
  case decl.member =>
    -- a service does not have the number of the module
    rw [declNode_parent] at hparent
    have hpos := numbered_pos he
    have hzero := Option.some.inj hparent
    omega
  case member.root => cases hparent
  case member.decl =>
    rw [declNode_parent] at hparent
    have hpos := numbered_pos hd
    have hzero := Option.some.inj hparent
    omega
  case member.member =>
    obtain rfl := Option.some.inj hparent
    obtain ⟨rfl⟩ := Decl.serviceDecl.inj (numbered_unique hd he)
    exact member_stop_le (hwell _ (mem_decls_of_numbered hd)) hx hy hlt

end

end Module

/-! ## The invariant -/

/-- The invariant of the tree of a text. The first part is about the numbers of the nodes, the second about their kinds
and data, and the third about their places. -/
structure SyntaxTree.WellFormed (text : List Char) (tree : SyntaxTree) : Prop where
  /-- The first node is the module, and it covers the text. -/
  root : ∃ children, tree.nodes[0]? = some ⟨.module, ⟨0, Text.size text⟩, none, children, .module⟩
  /-- Numbers of nodes fit where offsets fit. -/
  count : tree.nodes.length ≤ Text.size text + 1
  /-- Every other node has a parent with a smaller number, which lists it once, and nothing else lists it. -/
  parent : ∀ (i : Nat) n, tree.nodes[i]? = some n → i ≠ 0 →
    ∃ (j : Nat) (p : TreeNode), n.parent = some j ∧ j < i ∧ tree.nodes[j]? = some p ∧ p.children.count i = 1 ∧
      ∀ (k : Nat) q, tree.nodes[k]? = some q → i ∈ q.children → k = j
  child : ∀ (j : Nat) p, tree.nodes[j]? = some p → ∀ i ∈ p.children, ∃ n, tree.nodes[i]? = some n ∧ n.parent = some j
  increasing : ∀ (j : Nat) p, tree.nodes[j]? = some p → p.children.Pairwise (· < ·)
  declaration : ∀ (i : Nat) n, tree.nodes[i]? = some n → n.kind.isDeclaration = true → n.parent = some SyntaxTree.root
  member : ∀ (i : Nat) n, tree.nodes[i]? = some n → n.kind.isMember = true →
    ∃ (j : Nat) (p : TreeNode), n.parent = some j ∧ tree.nodes[j]? = some p ∧ p.kind = .serviceDecl
  /-- Every node has the data of its kind, so no service is left as a placeholder. -/
  suits : ∀ (i : Nat) n, tree.nodes[i]? = some n → n.data.Suits n.kind
  /-- Behind the node of a service there is a service, with a member for each child. Its parts, and those of each
  function in it, stand in order and between the right braces. -/
  service : ∀ (i : Nat) n, tree.nodes[i]? = some n → n.kind = .serviceDecl →
    ∃ s, tree.decl? i = some (.serviceDecl s) ∧ s.span = n.span ∧ n.children.map tree.member? = s.members.map some ∧
      s.WellLaid text
  /-- Only the module of an empty text covers nothing. -/
  covers : ∀ (i : Nat) n, tree.nodes[i]? = some n → n.span.start < n.span.stop ∨ i = 0 ∧ text = []
  boundaries : ∀ (i : Nat) n, tree.nodes[i]? = some n →
    Text.isBoundary n.span.start text = true ∧ Text.isBoundary n.span.stop text = true
  /-- Children lie inside their parent. -/
  inside : ∀ (j : Nat) p (i : Nat) n, tree.nodes[j]? = some p → tree.nodes[i]? = some n → n.parent = some j →
    p.span.start ≤ n.span.start ∧ n.span.stop ≤ p.span.stop
  /-- Children of one parent do not overlap and are numbered in source order. -/
  siblings : ∀ (i : Nat) a (j : Nat) b, tree.nodes[i]? = some a → tree.nodes[j]? = some b → a.parent = b.parent →
    i < j → a.span.stop ≤ b.span.start

namespace SyntaxTree

variable {text : List Char} {tree : SyntaxTree}

/-- A node of the tree of some declarations is listed in the outline of the module that they make. -/
theorem mem_outline_of_grown {size i : Nat} {ds : List Decl} {n : TreeNode} (h : (grown size ds).nodes[i]? = some n) :
    (⟨i, n.kind, n.span, n.parent, n.children⟩ : Node) ∈ (Module.mk ds).outline size := by
  rw [← outline_grown, outline, List.mem_map]
  exact ⟨(n, i), List.mk_mem_zipIdx_iff_getElem?.2 h, rfl⟩

/-- The tree of a text is that of its declarations, which stand in the text one after the other. -/
theorem parse_laid (h : SyntaxTree.parse text = .ok tree) :
    ∃ ds, tree = grown (Text.size text) ds ∧ InOrder text 0 (ds.map (·.span)) (Text.size text) ∧
      ∀ d ∈ ds, d.WellRead text := by
  obtain ⟨tokens, htok, hm⟩ := parse_eq_ok h
  rw [Parse.moduleInto_eq] at hm
  cases hds : Parse.declarations text tokens with
  | error f =>
    rw [hds] at hm
    cases hm
  | ok ds =>
    rw [hds] at hm
    cases hm
    obtain ⟨horder, hwell⟩ := Parse.declarations_laid hds (tokenize_laid htok)
    exact ⟨ds, rfl, horder, hwell⟩

theorem parse_count (h : SyntaxTree.parse text = .ok tree) : tree.nodes.length ≤ Text.size text + 1 := by
  obtain ⟨tokens, htok, hm⟩ := parse_eq_ok h
  have hcount : tree.nodes.length ≤ 1 + tokens.length := Parse.moduleInto_count hm
  have hlength := (tokenize_laid htok).length_le
  omega

/-- Every tree that was built from a text satisfies the invariant. -/
theorem parse_wellFormed (h : SyntaxTree.parse text = .ok tree) : tree.WellFormed text := by
  have hb := parse_building h
  obtain ⟨ds, rfl, horder, hwell⟩ := parse_laid h
  constructor
  case root => exact hb.root
  case count => exact parse_count h
  case parent =>
    intro i n hn hi
    obtain ⟨j, p, hj, hlt, hp, hcount, -⟩ := hb.parent i n hn hi
    exact ⟨j, p, hj, hlt, hp, hcount, fun k q hq hmem => hb.parent_unique hn hj hq hmem⟩
  case child => exact hb.child
  case increasing => exact hb.increasing
  case declaration => exact fun i n hn hkind => hb.parent_of_declaration hn hkind
  case member => exact fun i n hn hkind => hb.exists_service_of_member hn hkind
  case suits => exact fun i n hn => hb.suits i n hn nofun
  case service =>
    intro i n hn hkind
    obtain ⟨s, hs, hspan, hchildren⟩ := Module.exists_service_of_kind (mem_outline_of_grown hn) hkind
    refine ⟨s, decl?_grown hs, hspan.symm, ?_, hwell _ (Module.mem_decls_of_numbered hs)⟩
    rw [show n.children = (s.numbered i).map (·.1) from hchildren, List.map_map, ← s.numbered_snd i, List.map_map]
    exact List.map_congr_left fun x hx => member?_grown hs hx
  case covers => exact fun i n hn => Module.node_covers horder hwell (mem_outline_of_grown hn)
  case boundaries => exact fun i n hn => Module.node_boundaries horder hwell (mem_outline_of_grown hn)
  case inside =>
    exact fun j p i n hp hn hparent =>
      Module.node_inside horder hwell (mem_outline_of_grown hp) (mem_outline_of_grown hn) hparent
  case siblings =>
    exact fun i a j b ha hb hparent hlt =>
      Module.siblings_apart horder hwell (mem_outline_of_grown ha) (mem_outline_of_grown hb) hparent hlt

/-- A text with every kind of declaration, and a service that has a field and a function. -/
theorem parse_wellFormed_mqtt :
    ∃ text tree, SyntaxTree.parse text = .ok tree ∧ tree.nodes.map (·.kind) =
      [.module, .importDecl, .listenerDecl, .serviceDecl, .field, .remoteMethod] ∧ tree.WellFormed text := by
  let text := "import ballerina/mqtt as q;\r\nlistener q:Listener l = new (1);\r\n".toList ++
    "service on l, new q:Listener() \x7b int n = 0; remote function f(q:Message m) \x7b\x7d \x7d".toList
  have hkinds : (SyntaxTree.parse text).toOption.map (fun tree => tree.nodes.map (·.kind)) =
      some [.module, .importDecl, .listenerDecl, .serviceDecl, .field, .remoteMethod] := by
    decide +kernel
  cases htree : SyntaxTree.parse text with
  | error e =>
    rw [htree] at hkinds
    cases hkinds
  | ok tree =>
    rw [htree] at hkinds
    exact ⟨text, tree, htree, Option.some.inj hkinds, parse_wellFormed htree⟩

end SyntaxTree

end ServiceLint
