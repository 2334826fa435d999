import Mathlib.Data.List.Count
import ServiceLint.Source.Parse.Build

/-!
# A tree under construction

The parser allocates a node, lists it with its parent, and finishes a service only after its members. What holds of the
tree at every moment is `SyntaxTree.Building`: parents come before their children, a node is listed once, by its parent,
and every node has the data of its kind, except for the one service that may be open. Allocating and finishing keep this
(`Building.add`, `Building.openService`, `Building.finish`), so each routine of the parser does, and so does a whole run
(`Parse.moduleInto_building`).
-/
namespace ServiceLint

/-- Whether nodes of the kind stand directly in the module. -/
def NodeKind.isDeclaration : NodeKind → Bool
  | .importDecl | .listenerDecl | .serviceDecl => true
  | _ => false

theorem NodeKind.isMember_of_isDeclaration {kind : NodeKind} (h : kind.isDeclaration = true) :
    kind.isMember = false := by
  cases kind <;> first | rfl | cases h

/-- A declaration stands in the module, and a member in a service. -/
def NodeKind.StandsIn (kind : NodeKind) (j : Nat) (p : TreeNode) : Prop :=
  kind.isDeclaration = true ∧ j = SyntaxTree.root ∨ kind.isMember = true ∧ p.kind = .serviceDecl

/-- The data is that of a node of the kind. -/
def NodeData.Suits : NodeData → NodeKind → Prop
  | .module, kind => kind = .module
  | .importDecl _, kind => kind = .importDecl
  | .listenerDecl _, kind => kind = .listenerDecl
  | .serviceDecl _, kind => kind = .serviceDecl
  | .function _, kind => kind = .remoteMethod ∨ kind = .resourceMethod ∨ kind = .method
  | .field _, kind => kind = .field

/-! ## The two steps -/

/-- What a node with number `i` becomes when the number `id` is listed with `parent`. -/
def TreeNode.listing (n : TreeNode) (i parent id : Nat) : TreeNode := if i = parent then n.addChild id else n

section

variable (n : TreeNode) (i parent id : Nat)

@[simp] theorem TreeNode.listing_kind : (n.listing i parent id).kind = n.kind := by
  rw [listing]
  split <;> rfl

@[simp] theorem TreeNode.listing_parent : (n.listing i parent id).parent = n.parent := by
  rw [listing]
  split <;> rfl

@[simp] theorem TreeNode.listing_data : (n.listing i parent id).data = n.data := by
  rw [listing]
  split <;> rfl

theorem TreeNode.listing_children :
    (n.listing i parent id).children = if i = parent then n.children ++ [id] else n.children := by
  rw [listing]
  split <;> rfl

variable {n i parent id} {j : Nat}

theorem TreeNode.mem_listing :
    j ∈ (n.listing i parent id).children ↔ j ∈ n.children ∨ i = parent ∧ j = id := by
  rw [listing_children]
  split
  · next h => simp [h]
  · next h => simp [h]

theorem TreeNode.count_listing_self (h : id ∉ n.children) :
    (n.listing parent parent id).children.count id = 1 := by
  rw [listing_children, if_pos rfl, List.count_append, List.count_eq_zero.2 h, List.count_singleton_self]

theorem TreeNode.count_listing_of_ne (h : id ≠ j) :
    (n.listing i parent id).children.count j = n.children.count j := by
  rw [listing_children]
  split
  · rw [List.count_append, List.count_singleton, if_neg (by simpa using h)]
    rfl
  · rfl

/-- A number larger than those of all children goes to the end of an increasing list. -/
theorem TreeNode.pairwise_listing (h : n.children.Pairwise (· < ·)) (hlt : ∀ j ∈ n.children, j < id) :
    (n.listing i parent id).children.Pairwise (· < ·) := by
  rw [listing_children]
  split
  · refine List.pairwise_append.2 ⟨h, List.pairwise_singleton _ _, fun a ha b hb => ?_⟩
    rw [List.mem_singleton.1 hb]
    exact hlt a ha
  · exact h

theorem NodeKind.standsIn_listing {kind : NodeKind} :
    kind.StandsIn j (n.listing i parent id) ↔ kind.StandsIn j n := by
  rw [StandsIn, StandsIn, TreeNode.listing_kind]

end

namespace SyntaxTree

variable {tree : SyntaxTree} {kind : NodeKind} {span : Span} {parent size i id : Nat} {data : NodeData}
  {n p : TreeNode}

/-- After allocating there is the new node, and the old ones, of which the parent lists the new one. -/
theorem getElem?_add (hparent : parent < tree.nodes.length) :
    (tree.add kind span parent data).nodes[i]? =
      if i = tree.nodes.length then some ⟨kind, span, some parent, [], data⟩
      else (tree.nodes[i]?).map fun n => n.listing i parent tree.nodes.length := by
  rw [add, alloc, List.getElem?_modify]
  rcases Nat.lt_trichotomy i tree.nodes.length with hlt | rfl | hgt
  · rw [List.getElem?_append_left hlt, if_neg (Nat.ne_of_lt hlt)]
    cases tree.nodes[i]? with
    | none => rfl
    | some n => simp [TreeNode.listing, eq_comm]
  · simp [Nat.ne_of_lt hparent]
  · have hnew : (tree.nodes ++ [(⟨kind, span, some parent, [], data⟩ : TreeNode)])[i]? = none :=
      List.getElem?_eq_none (by rw [List.length_append]; exact hgt)
    rw [hnew, if_neg (Nat.ne_of_gt hgt), List.getElem?_eq_none (Nat.le_of_lt hgt)]
    rfl

theorem getElem?_finish :
    (tree.finish id span data).nodes[i]? =
      (tree.nodes[i]?).map fun n => if i = id then { n with span, data } else n := by
  rw [finish, List.getElem?_modify]
  cases tree.nodes[i]? with
  | none => rfl
  | some n => simp [eq_comm]

theorem length_add : (tree.add kind span parent data).nodes.length = tree.nodes.length + 1 := by
  simp [add, alloc]

theorem length_finish : (tree.finish id span data).nodes.length = tree.nodes.length := by
  simp [finish]

/-- A node after allocating is the new one or an old one. -/
theorem eq_of_getElem?_add (hparent : parent < tree.nodes.length)
    (h : (tree.add kind span parent data).nodes[i]? = some n) :
    i = tree.nodes.length ∧ n = ⟨kind, span, some parent, [], data⟩ ∨
      ∃ old, tree.nodes[i]? = some old ∧ n = old.listing i parent tree.nodes.length := by
  rw [getElem?_add hparent] at h
  split at h
  · next hi => exact Or.inl ⟨hi, (Option.some.inj h).symm⟩
  · obtain ⟨old, hold, rfl⟩ := Option.map_eq_some_iff.1 h
    exact Or.inr ⟨old, hold, rfl⟩

theorem getElem?_add_of_old (hparent : parent < tree.nodes.length) (h : tree.nodes[i]? = some n) :
    (tree.add kind span parent data).nodes[i]? = some (n.listing i parent tree.nodes.length) := by
  have hlt := (List.getElem?_eq_some_iff.1 h).1
  rw [getElem?_add hparent, if_neg (Nat.ne_of_lt hlt), h]
  rfl

theorem getElem?_add_new (hparent : parent < tree.nodes.length) :
    (tree.add kind span parent data).nodes[tree.nodes.length]? = some ⟨kind, span, some parent, [], data⟩ := by
  rw [getElem?_add hparent, if_pos rfl]

/-- A node after finishing another is an old one, with a new span and new data if it is the finished one. -/
theorem eq_of_getElem?_finish (h : (tree.finish id span data).nodes[i]? = some n) :
    ∃ old, tree.nodes[i]? = some old ∧ n.kind = old.kind ∧ n.parent = old.parent ∧ n.children = old.children ∧
      n.data = if i = id then data else old.data := by
  rw [getElem?_finish] at h
  obtain ⟨old, hold, rfl⟩ := Option.map_eq_some_iff.1 h
  refine ⟨old, hold, ?_⟩
  split <;> exact ⟨rfl, rfl, rfl, rfl⟩

/-! ## Links -/

/-- Every node but the module has a parent with a smaller number, which lists it once, and nothing else is listed. -/
structure Linked (size : Nat) (tree : SyntaxTree) : Prop where
  root : ∃ children, tree.nodes[0]? = some ⟨.module, ⟨0, size⟩, none, children, .module⟩
  parent : ∀ (i : Nat) n, tree.nodes[i]? = some n → i ≠ 0 →
    ∃ (j : Nat) (p : TreeNode), n.parent = some j ∧ j < i ∧ tree.nodes[j]? = some p ∧ p.children.count i = 1 ∧
      n.kind.StandsIn j p
  child : ∀ (j : Nat) p, tree.nodes[j]? = some p → ∀ i ∈ p.children, ∃ n, tree.nodes[i]? = some n ∧ n.parent = some j
  increasing : ∀ (j : Nat) p, tree.nodes[j]? = some p → p.children.Pairwise (· < ·)

theorem linked_withRoot (size : Nat) : (withRoot size).Linked size where
  root := ⟨[], rfl⟩
  parent i n hn hi := by
    obtain ⟨hlt, -⟩ := List.getElem?_eq_some_iff.1 hn
    exact absurd (Nat.lt_one_iff.1 hlt) hi
  child j p hp i hi := by
    cases j with
    | zero => cases hp; cases hi
    | succ j => cases hp
  increasing j p hp := by
    cases j with
    | zero => cases hp; exact .nil
    | succ j => cases hp

theorem Linked.child_lt (h : tree.Linked size) {j : Nat} (hp : tree.nodes[j]? = some p) (hi : i ∈ p.children) :
    i < tree.nodes.length := by
  obtain ⟨n, hn, -⟩ := h.child j p hp i hi
  exact (List.getElem?_eq_some_iff.1 hn).1

/-- No other node lists a child of a node. -/
theorem Linked.parent_unique (h : tree.Linked size) {j k : Nat} {q : TreeNode} (hn : tree.nodes[i]? = some n)
    (hparent : n.parent = some j) (hq : tree.nodes[k]? = some q) (hi : i ∈ q.children) : k = j := by
  obtain ⟨n', hn', hk⟩ := h.child k q hq i hi
  rw [hn] at hn'
  cases hn'
  exact Option.some.inj (hk.symm.trans hparent)

/-- What is a declaration or a member has a parent where it may stand. -/
theorem Linked.standsIn (h : tree.Linked size) (hn : tree.nodes[i]? = some n)
    (hkind : n.kind.isDeclaration = true ∨ n.kind.isMember = true) :
    ∃ (j : Nat) (p : TreeNode), n.parent = some j ∧ tree.nodes[j]? = some p ∧ n.kind.StandsIn j p := by
  have hi : i ≠ 0 := fun hzero => by
    obtain ⟨children, hroot⟩ := h.root
    rw [hzero, hroot] at hn
    cases hn
    rcases hkind with hkind | hkind <;> cases hkind
  obtain ⟨j, p, hj, -, hp, -, hin⟩ := h.parent i n hn hi
  exact ⟨j, p, hj, hp, hin⟩

theorem Linked.parent_of_declaration (h : tree.Linked size) (hn : tree.nodes[i]? = some n)
    (hkind : n.kind.isDeclaration = true) : n.parent = some SyntaxTree.root := by
  obtain ⟨j, p, hj, -, ⟨-, rfl⟩ | ⟨hmember, -⟩⟩ := h.standsIn hn (Or.inl hkind)
  · exact hj
  · rw [NodeKind.isMember_of_isDeclaration hkind] at hmember
    cases hmember

theorem Linked.exists_service_of_member (h : tree.Linked size) (hn : tree.nodes[i]? = some n)
    (hkind : n.kind.isMember = true) :
    ∃ (j : Nat) (p : TreeNode), n.parent = some j ∧ tree.nodes[j]? = some p ∧ p.kind = .serviceDecl := by
  obtain ⟨j, p, hj, hp, ⟨hdecl, -⟩ | ⟨-, hservice⟩⟩ := h.standsIn hn (Or.inr hkind)
  · rw [NodeKind.isMember_of_isDeclaration hdecl] at hkind
    cases hkind
  · exact ⟨j, p, hj, hp, hservice⟩

/-- A node with a place in the tree can be added: its number is new, and larger than those of all others. -/
theorem Linked.add (h : tree.Linked size) (hp : tree.nodes[parent]? = some p) (hstands : kind.StandsIn parent p) :
    (tree.add kind span parent data).Linked size := by
  have hparent := (List.getElem?_eq_some_iff.1 hp).1
  constructor
  case root =>
    obtain ⟨children, hroot⟩ := h.root
    rw [getElem?_add_of_old hparent hroot, TreeNode.listing]
    split <;> exact ⟨_, rfl⟩
  case parent =>
    intro i n hn hi
    rcases eq_of_getElem?_add hparent hn with ⟨rfl, rfl⟩ | ⟨old, hold, rfl⟩
    · have hfresh : tree.nodes.length ∉ p.children := fun hmem => Nat.lt_irrefl _ (h.child_lt hp hmem)
      exact ⟨parent, _, rfl, hparent, getElem?_add_of_old hparent hp, TreeNode.count_listing_self hfresh,
        NodeKind.standsIn_listing.2 hstands⟩
    · obtain ⟨j, q, hj, hji, hq, hcount, hin⟩ := h.parent i old hold hi
      have hne : tree.nodes.length ≠ i := Nat.ne_of_gt (List.getElem?_eq_some_iff.1 hold).1
      refine ⟨j, _, (old.listing_parent ..).trans hj, hji, getElem?_add_of_old hparent hq,
        (TreeNode.count_listing_of_ne hne).trans hcount, ?_⟩
      rw [TreeNode.listing_kind]
      exact NodeKind.standsIn_listing.2 hin
  case child =>
    intro j q hq i hi
    rcases eq_of_getElem?_add hparent hq with ⟨rfl, rfl⟩ | ⟨old, hold, rfl⟩
    · cases hi
    · rcases TreeNode.mem_listing.1 hi with hi | ⟨rfl, rfl⟩
      · obtain ⟨n, hn, hnj⟩ := h.child j old hold i hi
        exact ⟨_, getElem?_add_of_old hparent hn, (n.listing_parent ..).trans hnj⟩
      · exact ⟨_, getElem?_add_new hparent, rfl⟩
  case increasing =>
    intro j q hq
    rcases eq_of_getElem?_add hparent hq with ⟨rfl, rfl⟩ | ⟨old, hold, rfl⟩
    · exact .nil
    · exact TreeNode.pairwise_listing (h.increasing j old hold) fun i hi => h.child_lt hold hi

theorem Linked.finish (h : tree.Linked size) (hid : id ≠ 0) : (tree.finish id span data).Linked size := by
  have hkeep : ∀ {j : Nat} {q : TreeNode}, tree.nodes[j]? = some q →
      ∃ q', (tree.finish id span data).nodes[j]? = some q' ∧
        q'.kind = q.kind ∧ q'.parent = q.parent ∧ q'.children = q.children := fun hq => by
    rw [getElem?_finish, hq]
    refine ⟨_, rfl, ?_⟩
    split <;> exact ⟨rfl, rfl, rfl⟩
  constructor
  case root =>
    obtain ⟨children, hroot⟩ := h.root
    refine ⟨children, ?_⟩
    rw [getElem?_finish, hroot, Option.map_some, if_neg hid.symm]
  case parent =>
    intro i n hn hi
    obtain ⟨old, hold, hkind, hparent, -, -⟩ := eq_of_getElem?_finish hn
    obtain ⟨j, q, hj, hji, hq, hcount, hin⟩ := h.parent i old hold hi
    obtain ⟨q', hq', hqkind, -, hqchildren⟩ := hkeep hq
    refine ⟨j, q', hparent.trans hj, hji, hq', hqchildren ▸ hcount, ?_⟩
    rw [NodeKind.StandsIn, hkind, hqkind]
    exact hin
  case child =>
    intro j q hq i hi
    obtain ⟨old, hold, -, -, hchildren, -⟩ := eq_of_getElem?_finish hq
    obtain ⟨n, hn, hnj⟩ := h.child j old hold i (hchildren ▸ hi)
    obtain ⟨n', hn', -, hparent, -⟩ := hkeep hn
    exact ⟨n', hn', hparent.trans hnj⟩
  case increasing =>
    intro j q hq
    obtain ⟨old, hold, -, -, hchildren, -⟩ := eq_of_getElem?_finish hq
    exact hchildren ▸ h.increasing j old hold

/-! ## Data -/

/-- The tree while it is built. The service with the number `pending` is not finished. -/
structure Building (size : Nat) (pending : Option Nat) (tree : SyntaxTree) : Prop extends Linked size tree where
  suits : ∀ (i : Nat) n, tree.nodes[i]? = some n → pending ≠ some i → n.data.Suits n.kind
  placeholder : ∀ i, pending = some i → ∃ n, tree.nodes[i]? = some n ∧ n.kind = .serviceDecl ∧ n.data = .module

variable {pending : Option Nat}

theorem building_withRoot (size : Nat) : (withRoot size).Building size none where
  toLinked := linked_withRoot size
  suits i n hn _ := by
    cases i with
    | zero => cases hn; rfl
    | succ i => cases hn
  placeholder i hi := by cases hi

/-- Adding a node keeps the invariant, if its data is that of its kind. -/
theorem Building.add (h : tree.Building size pending) (hp : tree.nodes[parent]? = some p)
    (hstands : kind.StandsIn parent p) (hsuits : data.Suits kind) :
    (tree.add kind span parent data).Building size pending := by
  have hparent := (List.getElem?_eq_some_iff.1 hp).1
  refine ⟨h.toLinked.add hp hstands, fun i n hn hi => ?_, fun i hi => ?_⟩
  · rcases eq_of_getElem?_add hparent hn with ⟨rfl, rfl⟩ | ⟨old, hold, rfl⟩
    · exact hsuits
    · rw [TreeNode.listing_data, TreeNode.listing_kind]
      exact h.suits i old hold hi
  · obtain ⟨n, hn, hkind, hdata⟩ := h.placeholder i hi
    exact ⟨_, getElem?_add_of_old hparent hn, (n.listing_kind ..).trans hkind, (n.listing_data ..).trans hdata⟩

/-- A declaration with the data of its kind can be added. -/
theorem Building.addDeclaration (h : tree.Building size pending) (hkind : kind.isDeclaration = true)
    (hsuits : data.Suits kind) : (tree.add kind span SyntaxTree.root data).Building size pending := by
  obtain ⟨children, hroot⟩ := h.root
  exact h.add hroot (Or.inl ⟨hkind, rfl⟩) hsuits

/-- A member can be added to the service that is open. -/
theorem Building.addMember (h : tree.Building size (some id)) (hkind : kind.isMember = true)
    (hsuits : data.Suits kind) : (tree.add kind span id data).Building size (some id) := by
  obtain ⟨n, hn, hservice, -⟩ := h.placeholder id rfl
  exact h.add hn (Or.inr ⟨hkind, hservice⟩) hsuits

/-- A service is allocated without data. -/
theorem Building.openService (h : tree.Building size none) :
    (tree.add .serviceDecl span SyntaxTree.root .module).Building size (some tree.nodes.length) := by
  obtain ⟨children, hroot⟩ := h.root
  have hparent := (List.getElem?_eq_some_iff.1 hroot).1
  refine ⟨h.toLinked.add hroot (Or.inl ⟨rfl, rfl⟩), fun i n hn hi => ?_, fun i hi => ?_⟩
  · rcases eq_of_getElem?_add hparent hn with ⟨rfl, -⟩ | ⟨old, hold, rfl⟩
    · exact absurd rfl hi
    · rw [TreeNode.listing_data, TreeNode.listing_kind]
      exact h.suits i old hold nofun
  · cases hi
    exact ⟨_, getElem?_add_new hparent, rfl, rfl⟩

/-- The open service gets its data, and no service is open after that. -/
theorem Building.finish (h : tree.Building size (some id)) (hsuits : data.Suits .serviceDecl) :
    (tree.finish id span data).Building size none := by
  obtain ⟨service, hservice, hkind, -⟩ := h.placeholder id rfl
  have hid : id ≠ 0 := fun hzero => by
    obtain ⟨children, hroot⟩ := h.root
    rw [hzero, hroot] at hservice
    cases hservice
    cases hkind
  refine ⟨h.toLinked.finish hid, fun i n hn _ => ?_, nofun⟩
  obtain ⟨old, hold, holdKind, -, -, hdata⟩ := eq_of_getElem?_finish hn
  rw [hdata, holdKind]
  split
  · next hi =>
    subst hi
    obtain rfl := Option.some.inj (hold.symm.trans hservice)
    rw [hkind]
    exact hsuits
  · next hi => exact h.suits i old hold fun heq => hi (Option.some.inj heq).symm

end SyntaxTree

/-! ## Runs -/

theorem Member.kind_isMember (m : Member) : m.kind.isMember = true := by
  rcases m with ⟨span, f | name⟩
  · simp only [Member.kind]
    split
    · rfl
    · split <;> rfl
  · rfl

theorem Member.data_suits (m : Member) : m.body.data.Suits m.kind := by
  rcases m with ⟨span, f | name⟩
  · simp only [Member.kind]
    split
    · exact Or.inl rfl
    · split
      · exact Or.inr (Or.inl rfl)
      · exact Or.inr (Or.inr rfl)
  · rfl

namespace Parse

variable {text : List Char} {tree tree' : SyntaxTree} {tokens rest : List Token} {size service start : Nat}

theorem importInto_building (hb : tree.Building size none) (h : importInto tree tokens = .ok (tree', rest)) :
    tree'.Building size none := by
  obtain ⟨⟨d, r⟩, -, h⟩ := bind_eq_ok.1 h
  cases h
  exact hb.addDeclaration rfl rfl

theorem listenerInto_building (hb : tree.Building size none) (h : listenerInto start tree tokens = .ok (tree', rest)) :
    tree'.Building size none := by
  obtain ⟨⟨d, r⟩, -, h⟩ := bind_eq_ok.1 h
  cases h
  exact hb.addDeclaration rfl rfl

theorem memberInto_building (hb : tree.Building size (some service))
    (h : memberInto text service tree tokens = .ok (tree', rest)) : tree'.Building size (some service) := by
  obtain ⟨⟨m, r⟩, -, h⟩ := bind_eq_ok.1 h
  cases h
  exact hb.addMember m.kind_isMember m.data_suits

/-- The service stays open while its members are read. -/
theorem membersInto_building (hb : tree.Building size (some service))
    (h : membersInto text service tree tokens = .ok (tree', rest)) : tree'.Building size (some service) := by
  fun_induction membersInto text service tree tokens with
  | case1 => cases h
  | case2 => cases h; exact hb
  | case3 => cases h
  | case4 _ _ _ _ _ _ hm _ ih => exact ih (memberInto_building hb hm) h

/-- A service is opened and finished in between two moments at which none is open. -/
theorem serviceInto_building (hb : tree.Building size none)
    (h : serviceInto text start tree tokens = .ok (tree', rest)) : tree'.Building size none := by
  obtain ⟨_, _, _, _, _, _, -, -, hmembers, rfl⟩ := serviceInto_eq_ok h
  exact (membersInto_building hb.openService hmembers).finish rfl

theorem declarationInto_building {first : Token} {tail : List Token} (hb : tree.Building size none)
    (h : declarationInto text tree first tail = .ok (tree', rest)) : tree'.Building size none := by
  rcases declarationInto_eq_ok h with ⟨tokens, -, h | h | h⟩ | ⟨rfl, -⟩
  · exact importInto_building hb h
  · exact listenerInto_building hb h
  · exact serviceInto_building hb h
  · exact hb

/-- No service is open before and after a run. -/
theorem moduleInto_building (hb : tree.Building size none) (h : moduleInto text tree tokens = .ok tree') :
    tree'.Building size none := by
  fun_induction moduleInto text tree tokens with
  | case1 => cases h; exact hb
  | case2 => cases h
  | case3 _ _ _ _ _ _ _ ih => exact ih hb h
  | case4 => cases h
  | case5 _ _ _ _ _ _ hd _ ih => exact ih (declarationInto_building hb hd) h

/-! ## Numbers -/

theorem importInto_count (h : importInto tree tokens = .ok (tree', rest)) :
    tree'.nodes.length + rest.length ≤ tree.nodes.length + tokens.length := by
  obtain ⟨⟨d, r⟩, hd, h⟩ := bind_eq_ok.1 h
  cases h
  have := importDecl_length hd
  rw [SyntaxTree.length_add]
  omega

theorem listenerInto_count (h : listenerInto start tree tokens = .ok (tree', rest)) :
    tree'.nodes.length + rest.length ≤ tree.nodes.length + tokens.length := by
  obtain ⟨⟨d, r⟩, hd, h⟩ := bind_eq_ok.1 h
  cases h
  have := listenerDecl_length hd
  rw [SyntaxTree.length_add]
  omega

theorem memberInto_count (h : memberInto text service tree tokens = .ok (tree', rest)) :
    tree'.nodes.length + rest.length ≤ tree.nodes.length + tokens.length := by
  obtain ⟨⟨m, r⟩, hm, h⟩ := bind_eq_ok.1 h
  cases h
  have := member_length hm
  rw [SyntaxTree.length_add]
  omega

theorem membersInto_count (h : membersInto text service tree tokens = .ok (tree', rest)) :
    tree'.nodes.length + rest.length ≤ tree.nodes.length + tokens.length := by
  fun_induction membersInto text service tree tokens with
  | case1 => cases h
  | case2 => cases h; exact Nat.le_refl _
  | case3 => cases h
  | case4 _ _ _ _ _ _ hm _ ih => exact Nat.le_trans (ih h) (memberInto_count hm)

theorem serviceInto_count (h : serviceInto text start tree tokens = .ok (tree', rest)) :
    tree'.nodes.length + rest.length ≤ tree.nodes.length + tokens.length := by
  obtain ⟨_, _, _, filled, inner, outer, hinner, houter, hmembers, rfl⟩ := serviceInto_eq_ok h
  have hcount := membersInto_count hmembers
  rw [SyntaxTree.length_add] at hcount
  rw [SyntaxTree.length_finish]
  omega

theorem declarationInto_count {first : Token} {tail : List Token}
    (h : declarationInto text tree first tail = .ok (tree', rest)) :
    tree'.nodes.length + rest.length ≤ tree.nodes.length + (first :: tail).length := by
  rcases declarationInto_eq_ok h with ⟨tokens, hle, h | h | h⟩ | ⟨rfl, hlt⟩
  · exact Nat.le_trans (importInto_count h) (Nat.add_le_add_left hle _)
  · exact Nat.le_trans (listenerInto_count h) (Nat.add_le_add_left hle _)
  · exact Nat.le_trans (serviceInto_count h) (Nat.add_le_add_left hle _)
  · exact Nat.add_le_add_left (Nat.le_of_lt hlt) _

/-- A run adds no more nodes than there are tokens. -/
theorem moduleInto_count (h : moduleInto text tree tokens = .ok tree') :
    tree'.nodes.length ≤ tree.nodes.length + tokens.length := by
  fun_induction moduleInto text tree tokens with
  | case1 => cases h; exact Nat.le_refl _
  | case2 => cases h
  | case3 _ _ _ _ _ _ hlt ih =>
    have := ih h
    omega
  | case4 => cases h
  | case5 _ _ _ _ _ _ hd _ ih => exact Nat.le_trans (ih h) (declarationInto_count hd)

end Parse

theorem SyntaxTree.parse_eq_ok {text : List Char} {tree : SyntaxTree} (h : SyntaxTree.parse text = .ok tree) :
    ∃ tokens, tokenize text = .ok tokens ∧ Parse.moduleInto text (.withRoot (Text.size text)) tokens = .ok tree := by
  unfold SyntaxTree.parse at h
  split at h
  · cases h
  · next tokens htok =>
    split at h
    · cases h
    · next hm =>
      cases h
      exact ⟨tokens, htok, hm⟩

/-- A tree that was parsed satisfies the invariant, and none of its services is left open. -/
theorem SyntaxTree.parse_building {text : List Char} {tree : SyntaxTree} (h : SyntaxTree.parse text = .ok tree) :
    tree.Building (Text.size text) none := by
  obtain ⟨tokens, -, hm⟩ := SyntaxTree.parse_eq_ok h
  exact Parse.moduleInto_building (building_withRoot _) hm

end ServiceLint
