import Mathlib.Data.List.Basic
import ServiceLint.Source.Outline
import ServiceLint.Source.Parse.Build

/-!
# The nodes of a tree

What adding a declaration does to a tree (`SyntaxTree.addDecl`), and the tree that a list of declarations makes. Its
nodes are those of the declarations one after the other (`SyntaxTree.nodes_foldl_addDecl`), so each declaration and each
member is found at its number, and the module that is read back from the tree is made of the declarations that were
added (`SyntaxTree.module_grown`).
-/
namespace ServiceLint

/-! ## Numbers -/

theorem Service.numbered_fst (s : Service) (id : Nat) :
    (s.numbered id).map (·.1) = List.range' (id + 1) s.members.length := by
  have h := List.zipIdx_map_snd 0 s.members
  have hmap : (s.numbered id).map (·.1) = (s.members.zipIdx.map Prod.snd).map (id + 1 + ·) := by
    rw [Service.numbered, List.map_map, List.map_map]
    rfl
  rw [hmap, h, List.map_add_range', Nat.add_zero]

theorem Service.numbered_snd (s : Service) (id : Nat) : (s.numbered id).map (·.2) = s.members := by
  have h := List.zipIdx_map_fst 0 s.members
  rw [Service.numbered, List.map_map]
  exact h

theorem Service.getElem?_numbered (s : Service) (id k : Nat) :
    (s.numbered id)[k]? = (s.members[k]?).map fun m => (id + 1 + k, m) := by
  simp [Service.numbered, List.getElem?_zipIdx, Function.comp_def]

theorem numberFrom_snd (next : Nat) (ds : List Decl) : (numberFrom next ds).map (·.2) = ds := by
  induction ds generalizing next with
  | nil => rfl
  | cons d ds ih => simp [numberFrom, ih]

theorem Decl.nodeCount_pos (d : Decl) : 0 < d.nodeCount := by
  cases d with
  | importDecl => exact Nat.one_pos
  | listenerDecl => exact Nat.one_pos
  | serviceDecl s =>
    rw [Decl.nodeCount]
    omega

/-! ## The nodes that are added -/

namespace SyntaxTree

def addMember (service : Nat) (tree : SyntaxTree) (m : Member) : SyntaxTree :=
  tree.add m.kind m.span service m.body.data

/-- What a declaration adds. A service stands in the tree without data while its members are added. -/
def addDecl (tree : SyntaxTree) : Decl → SyntaxTree
  | .importDecl d => tree.add .importDecl d.span root (.importDecl d.data)
  | .listenerDecl d => tree.add .listenerDecl d.span root (.listenerDecl d.data)
  | .serviceDecl s =>
    let (id, tree) := tree.alloc .serviceDecl ⟨s.span.start, s.openBrace.stop⟩ root .module
    (s.members.foldl (addMember id) tree).finish id s.span (.serviceDecl s.data)

/-- The tree of a text of `size` bytes with these declarations. -/
def grown (size : Nat) (ds : List Decl) : SyntaxTree := ds.foldl addDecl (withRoot size)

/-- The node of a member of the service with number `id`. -/
def memberNode (id : Nat) (m : Member) : TreeNode := ⟨m.kind, m.span, some id, [], m.body.data⟩

end SyntaxTree

open SyntaxTree in
/-- The finished nodes of the declaration with number `id`. -/
def Decl.entries (id : Nat) : Decl → List TreeNode
  | .importDecl d => [⟨.importDecl, d.span, some root, [], .importDecl d.data⟩]
  | .listenerDecl d => [⟨.listenerDecl, d.span, some root, [], .listenerDecl d.data⟩]
  | .serviceDecl s =>
    ⟨.serviceDecl, s.span, some root, (s.numbered id).map (·.1), .serviceDecl s.data⟩ :: s.members.map (memberNode id)

theorem Decl.length_entries (id : Nat) (d : Decl) : (d.entries id).length = d.nodeCount := by
  cases d with
  | importDecl d => rfl
  | listenerDecl d => rfl
  | serviceDecl s => simp [Decl.entries, Decl.nodeCount, Nat.add_comm]

namespace SyntaxTree

theorem modify_append_cons {α : Type} (f : α → α) (a b : List α) (x : α) :
    (a ++ x :: b).modify a.length f = a ++ f x :: b := by
  induction a with
  | nil => rfl
  | cons y a ih => simpa using ih

/-- Members stand at the end of the tree, and their service lists them in order. -/
theorem nodes_foldl_addMember (pre post : List TreeNode) (service : TreeNode) (ms : List Member) :
    (ms.foldl (addMember pre.length) ⟨pre ++ service :: post⟩).nodes =
      pre ++ { service with children := service.children ++ List.range' (pre.length + post.length + 1) ms.length } ::
        (post ++ ms.map (memberNode pre.length)) := by
  induction ms generalizing post service with
  | nil => simp
  | cons m ms ih =>
    have hadd : addMember pre.length ⟨pre ++ service :: post⟩ m =
        ⟨pre ++ service.addChild (pre.length + post.length + 1) :: (post ++ [memberNode pre.length m])⟩ := by
      simp only [addMember, add, alloc, List.append_assoc, List.cons_append, modify_append_cons, List.length_append,
        List.length_cons, Nat.add_assoc]
      rfl
    rw [List.foldl_cons, hadd, ih]
    simp [TreeNode.addChild, List.range'_succ, Nat.add_assoc]

/-- A declaration adds its nodes at the end, and the module lists the first of them. -/
theorem nodes_addDecl (r : TreeNode) (rest : List TreeNode) (d : Decl) :
    (addDecl ⟨r :: rest⟩ d).nodes = r.addChild (rest.length + 1) :: (rest ++ d.entries (rest.length + 1)) := by
  cases d with
  | importDecl d => rfl
  | listenerDecl d => rfl
  | serviceDecl s =>
    -- the placeholder stands at the end, then its members after it, and then it is finished
    let pre := r.addChild (rest.length + 1) :: rest
    let placeholder : TreeNode := ⟨.serviceDecl, ⟨s.span.start, s.openBrace.stop⟩, some root, [], .module⟩
    have hmembers := nodes_foldl_addMember pre [] placeholder s.members
    have hfinish : (addDecl ⟨r :: rest⟩ (.serviceDecl s)).nodes =
        (s.members.foldl (addMember pre.length) ⟨pre ++ [placeholder]⟩).nodes.modify pre.length fun n =>
          { n with span := s.span, data := .serviceDecl s.data } := rfl
    rw [hfinish, hmembers, modify_append_cons]
    simp [pre, placeholder, Decl.entries, Service.numbered_fst]

/-- The nodes of a tree to which declarations were added: those that it had, and those of the declarations. -/
theorem nodes_foldl_addDecl (r : TreeNode) (rest : List TreeNode) (ds : List Decl) :
    (ds.foldl addDecl ⟨r :: rest⟩).nodes =
      { r with children := r.children ++ (numberFrom (rest.length + 1) ds).map (·.1) } ::
        (rest ++ (numberFrom (rest.length + 1) ds).flatMap fun (i, d) => d.entries i) := by
  induction ds generalizing r rest with
  | nil => simp [numberFrom]
  | cons d ds ih =>
    have hadd : addDecl ⟨r :: rest⟩ d = ⟨r.addChild (rest.length + 1) :: (rest ++ d.entries (rest.length + 1))⟩ :=
      congrArg SyntaxTree.mk (nodes_addDecl r rest d)
    have hnext : (rest ++ d.entries (rest.length + 1)).length + 1 = rest.length + 1 + d.nodeCount := by
      rw [List.length_append, d.length_entries]
      omega
    rw [List.foldl_cons, hadd, ih, hnext]
    simp [numberFrom, TreeNode.addChild]

theorem nodes_grown (size : Nat) (ds : List Decl) :
    (grown size ds).nodes = ⟨.module, ⟨0, size⟩, none, (numberFrom 1 ds).map (·.1), .module⟩ ::
      (numberFrom 1 ds).flatMap fun (i, d) => d.entries i :=
  nodes_foldl_addDecl _ [] ds

/-! ## Reading back -/

/-- The nodes of a declaration stand from its number on. -/
theorem getElem?_flatMap_entries (pre : List TreeNode) {next i k : Nat} {ds : List Decl} {d : Decl}
    (hpre : pre.length = next) (h : (i, d) ∈ numberFrom next ds) (hk : k < d.nodeCount) :
    (pre ++ (numberFrom next ds).flatMap fun (i, d) => d.entries i)[i + k]? = (d.entries i)[k]? := by
  induction ds generalizing pre next with
  | nil => cases h
  | cons d' ds ih =>
    rcases List.mem_cons.1 h with heq | h
    · obtain ⟨rfl, rfl⟩ := Prod.mk.inj heq
      simp only [numberFrom, List.flatMap_cons]
      rw [List.getElem?_append_right (by omega), List.getElem?_append_left (by rw [d.length_entries]; omega)]
      congr 1
      omega
    · have hlength : (pre ++ d'.entries next).length = next + d'.nodeCount := by
        rw [List.length_append, hpre, d'.length_entries]
      have hrec := ih _ hlength h
      rwa [List.append_assoc] at hrec

variable {size i j k : Nat} {ds : List Decl} {d : Decl} {s : Service} {m : Member}

theorem getElem?_grown (h : (i, d) ∈ numberFrom 1 ds) (hk : k < d.nodeCount) :
    (grown size ds).nodes[i + k]? = (d.entries i)[k]? := by
  rw [nodes_grown]
  exact getElem?_flatMap_entries [_] rfl h hk

/-- A member is found at its number. -/
theorem member?_grown (h : (i, .serviceDecl s) ∈ numberFrom 1 ds) (hm : (j, m) ∈ s.numbered i) :
    (grown size ds).member? j = some m := by
  obtain ⟨k, hk⟩ := List.mem_iff_getElem?.1 hm
  rw [s.getElem?_numbered] at hk
  obtain ⟨m', hm', heq⟩ := Option.map_eq_some_iff.1 hk
  obtain ⟨rfl, rfl⟩ := Prod.mk.inj heq
  have hlt := (List.getElem?_eq_some_iff.1 hm').1
  have hnode : (grown size ds).nodes[i + 1 + k]? = some (memberNode i m') := by
    have hcount : 1 + k < (Decl.serviceDecl s).nodeCount := by
      rw [Decl.nodeCount]
      omega
    rw [Nat.add_assoc, getElem?_grown h hcount, Nat.add_comm 1 k, Decl.entries, List.getElem?_cons_succ,
      List.getElem?_map, hm']
    rfl
  rw [member?, hnode]
  obtain ⟨span, f | name⟩ := m' <;> rfl

/-- A declaration is found at its number. -/
theorem decl?_grown (h : (i, d) ∈ numberFrom 1 ds) : (grown size ds).decl? i = some d := by
  have hnode : (grown size ds).nodes[i]? = (d.entries i)[0]? := getElem?_grown h d.nodeCount_pos
  rw [decl?, hnode]
  cases d with
  | importDecl d => rfl
  | listenerDecl d => rfl
  | serviceDecl s =>
    have hmembers : ((s.numbered i).map (·.1)).filterMap (grown size ds).member? = s.members := by
      rw [List.filterMap_map, ← List.filterMap_some (l := s.members), ← s.numbered_snd i, List.filterMap_map]
      exact List.filterMap_congr fun x hx => member?_grown h hx
    simp only [Decl.entries, List.getElem?_cons_zero, Option.bind_some, hmembers]
    rfl

/-- The declarations of the tree are those that were added. -/
theorem module_grown (size : Nat) (ds : List Decl) : (grown size ds).module = ⟨ds⟩ := by
  have hroot : (grown size ds).children root = (numberFrom 1 ds).map (·.1) := by
    rw [children, nodes_grown]
    rfl
  have hdecls : ((numberFrom 1 ds).map (·.1)).filterMap (grown size ds).decl? = (numberFrom 1 ds).map (·.2) := by
    rw [List.filterMap_map, ← List.filterMap_eq_map]
    exact List.filterMap_congr fun x hx => decl?_grown hx
  rw [module, hroot, hdecls, numberFrom_snd]

/-! ## Listing -/

theorem zipIdx_entries (i : Nat) (d : Decl) :
    ((d.entries i).zipIdx i).map (fun (n, i) => (⟨i, n.kind, n.span, n.parent, n.children⟩ : Node)) =
      d.nodes i := by
  cases d with
  | importDecl d => rfl
  | listenerDecl d => rfl
  | serviceDecl s =>
    simp only [Decl.entries, Decl.nodes, List.zipIdx_cons, List.map_cons, List.cons.injEq]
    refine ⟨rfl, List.ext_getElem? fun k => ?_⟩
    simp only [List.getElem?_map, List.getElem?_zipIdx, s.getElem?_numbered, Option.map_map]
    rfl

theorem zipIdx_flatMap_entries (next : Nat) (ds : List Decl) :
    (((numberFrom next ds).flatMap fun (i, d) => d.entries i).zipIdx next).map
        (fun (n, i) => (⟨i, n.kind, n.span, n.parent, n.children⟩ : Node)) =
      (numberFrom next ds).flatMap fun (i, d) => d.nodes i := by
  induction ds generalizing next with
  | nil => rfl
  | cons d ds ih =>
    simp only [numberFrom, List.flatMap_cons, List.zipIdx_append, List.map_append, zipIdx_entries, d.length_entries, ih]

/-- The tree has the nodes that the declarations have. -/
theorem outline_grown (size : Nat) (ds : List Decl) : (grown size ds).outline = (Module.mk ds).outline size := by
  rw [outline, nodes_grown, List.zipIdx_cons, List.map_cons, zipIdx_flatMap_entries]
  rfl

end SyntaxTree

end ServiceLint
