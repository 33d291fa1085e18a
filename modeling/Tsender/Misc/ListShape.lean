/- Tsender/Misc/ListShape
   source: src/misc.h (CMyList)
   digest: What each operation of the list makes of its chain of nodes and of its count. -/

import Tsender.Misc.MyList

set_option autoImplicit false
set_option relaxedAutoImplicit false

namespace Tsender.Misc.CMyList

open Tsender.Lib.Links

variable {V : Type} {list : CMyList V} {nodes : List (Addr × V)} {b : POSITION}

/-- The nodes are chained behind `b`, and both ends of the list are known. -/
structure Shape (list : CMyList V) (b : POSITION) (nodes : List (Addr × V)) : Prop where
  chain : Chain (Holds list.heap) b nodes none
  head : list.pHead = firstOf nodes none
  tail : list.pTail = lastOf nodes none

section Equations

variable {pp a z : Addr} {prior : Pos V} {p : V} {pos : POSITION} {node : Pos V}

private theorem addHead_of_empty (head : list.pHead = none) (tail : list.pTail = none) :
    list.addHead pp prior p =
      some ⟨list.heap.insert pp ⟨p, none, none⟩, some pp, some pp, list.nCount + 1⟩ := by
  simp [addHead, head, tail, store]

private theorem addTail_of_empty (head : list.pHead = none) (tail : list.pTail = none) :
    list.addTail pp prior p =
      some ⟨list.heap.insert pp ⟨p, none, none⟩, some pp, some pp, list.nCount + 1⟩ := by
  simp [addTail, head, tail, store]

private theorem addHead_of_nodes (head : list.pHead = some a) (tail : list.pTail = some z) :
    list.addHead pp prior p = (do
      let heap ← setPrev (list.heap.insert pp ⟨p, prior.prev, some a⟩) (some a) (some pp)
      some ⟨heap, some pp, some z, list.nCount + 1⟩) := by
  simp [addHead, head, tail, store, setPrev]

private theorem addTail_of_nodes (head : list.pHead = some a) (tail : list.pTail = some z) :
    list.addTail pp prior p = (do
      let heap ← setNext (list.heap.insert pp ⟨p, some z, none⟩) (some z) (some pp)
      some ⟨heap, some a, some pp, list.nCount + 1⟩) := by
  simp [addTail, head, tail, store, setNext]

private theorem removeAt_eq (found : load list.heap pos = some node) : list.removeAt pos = (do
    let heap ← setNext list.heap node.prev node.next
    let heap ← setPrev heap node.next node.prev
    let heap ← delete heap pos
    some { heap := heap
           pHead := if node.prev = none then node.next else list.pHead
           pTail := if node.next = none then node.prev else list.pTail
           nCount := list.nCount - 1 }) := by
  obtain ⟨v, p1, p2⟩ := node
  cases p1 <;> cases p2 <;> simp [removeAt, found, setNext, setPrev]

private theorem removeHead_eq (found : load list.heap list.pHead = some node)
    (first : node.prev = none)
    (last : node.next = none → list.pTail = list.pHead) : list.removeHead = (do
      let rest ← list.removeAt list.pHead
      some (rest, node.p)) := by
  rw [removeAt_eq found]
  obtain ⟨v, p1, p2⟩ := node
  obtain rfl : p1 = none := first
  cases p2 with
  | none => simp [removeHead, found, setNext, setPrev, last rfl, Option.bind_assoc]
  | some a => simp [removeHead, found, setNext, setPrev, Option.bind_assoc]

end Equations

section Operations

theorem Shape.addHead (shape : Shape list none nodes) {pp : Addr} (fresh : pp ∉ list.heap)
    (prior : Pos V) (p : V) : ∃ list', list.addHead pp prior p = some list' ∧
      Shape list' (if nodes = [] then none else prior.prev) ((pp, p) :: nodes) ∧
      list'.nCount = list.nCount + 1 := by
  have apart := notMem_of_fresh shape.chain fresh
  have head := shape.head
  have tail := shape.tail
  cases nodes with
  | nil =>
    refine ⟨_, addHead_of_empty head tail, ⟨⟨?_, trivial⟩, rfl, rfl⟩, rfl⟩
    exact AList.lookup_insert _
  | cons x rest =>
    obtain ⟨z, ends⟩ := exists_lastOf x rest none
    have others := chain_insert ⟨p, prior.prev, some x.1⟩ shape.chain apart
    obtain ⟨heap, set, chain, same⟩ := exists_setPrev others (some pp)
    refine ⟨⟨heap, some pp, some z, list.nCount + 1⟩, ?_, ⟨⟨?_, chain⟩, rfl, ?_⟩, rfl⟩
    · rw [addHead_of_nodes head (tail.trans ends), show setPrev _ (some x.1) _ = _ from set]
      rfl
    · exact (same pp apart).trans (AList.lookup_insert _)
    · exact ends.symm

theorem Shape.addTail (shape : Shape list none nodes) {pp : Addr} (fresh : pp ∉ list.heap)
    (prior : Pos V) (p : V) : ∃ list', list.addTail pp prior p = some list' ∧
      Shape list' none (nodes ++ [(pp, p)]) ∧ list'.nCount = list.nCount + 1 := by
  have apart := notMem_of_fresh shape.chain fresh
  have head := shape.head
  have tail := shape.tail
  cases nodes with
  | nil =>
    refine ⟨_, addTail_of_empty head tail, ⟨⟨?_, trivial⟩, rfl, rfl⟩, rfl⟩
    exact AList.lookup_insert _
  | cons x rest =>
    obtain ⟨z, ends⟩ := exists_lastOf x rest none
    have others := chain_insert ⟨p, some z, none⟩ shape.chain apart
    obtain ⟨heap, set, chain, same⟩ := exists_setNext others (nodup others) (some pp)
    rw [ends] at set
    refine ⟨⟨heap, some x.1, some pp, list.nCount + 1⟩, ?_, ⟨?_, rfl, ?_⟩, rfl⟩
    · rw [addTail_of_nodes head (tail.trans ends), set]
      rfl
    · refine chain_append.mpr ⟨chain, ?_, trivial⟩
      rw [ends]
      exact (same pp apart).trans (AList.lookup_insert _)
    · simp

theorem Shape.removeAt {front back : List (Addr × V)} {x : Addr × V}
    (shape : Shape list none (front ++ x :: back)) :
    ∃ list', list.removeAt (some x.1) = some list' ∧ Shape list' none (front ++ back) ∧
      list'.nCount = list.nCount - 1 := by
  have distinct := nodup shape.chain
  obtain ⟨before, held, after⟩ := chain_append.mp shape.chain
  rw [List.map_append, List.map_cons] at distinct
  obtain ⟨distinctFront, distinctBack, disjoint⟩ := List.nodup_append.mp distinct
  have notFront : x.1 ∉ front.map Prod.fst := fun mem => disjoint x.1 mem x.1 (by simp) rfl
  have notBack : x.1 ∉ back.map Prod.fst := (List.nodup_cons.mp distinctBack).1
  -- the node before is turned to the rest, the rest is turned to the node before
  obtain ⟨heap₁, set₁, chain₁, same₁⟩ := exists_setNext before distinctFront (firstOf back none)
  have after₁ : Chain (Holds heap₁) (some x.1) back none := by
    refine chain_frame after fun a mem => same₁ a fun inFront => ?_
    exact disjoint a inFront a (List.mem_cons_of_mem _ mem) rfl
  obtain ⟨heap₂, set₂, chain₂, same₂⟩ := exists_setPrev after₁ (lastOf front none)
  have before₂ : Chain (Holds heap₂) none front (firstOf back none) := by
    refine chain_frame chain₁ fun a mem => same₂ a fun inBack => ?_
    exact disjoint a mem a (List.mem_cons_of_mem _ inBack) rfl
  have held₂ : Holds heap₂ x.1 x.2 (lastOf front none) (firstOf back none) :=
    (same₂ x.1 notBack).trans ((same₁ x.1 notFront).trans held)
  refine ⟨⟨heap₂.erase x.1, firstOf (front ++ back) none, lastOf (front ++ back) none,
    list.nCount - 1⟩, ?_, ⟨?_, rfl, rfl⟩, rfl⟩
  · rw [removeAt_eq (load_eq held)]
    rw [firstOf_without x, lastOf_without x, ← shape.head, ← shape.tail]
    simp only [set₁, set₂, delete_eq held₂, Option.bind_eq_bind, Option.bind_some]
  · exact chain_append.mpr ⟨chain_erase before₂ notFront, chain_erase chain₂ notBack⟩

theorem Shape.removeHead {x : Addr × V} (shape : Shape list none (x :: nodes)) :
    ∃ list', list.removeHead = some (list', x.2) ∧ Shape list' none nodes ∧
      list'.nCount = list.nCount - 1 := by
  have split : Shape list none ([] ++ x :: nodes) := shape
  obtain ⟨list', removed, shape', count⟩ := split.removeAt
  have found : load list.heap list.pHead = some ⟨x.2, none, firstOf nodes none⟩ := by
    rw [shape.head]
    exact shape.chain.1
  refine ⟨list', ?_, shape', count⟩
  rw [removeHead_eq found rfl, shape.head]
  · simp [removed]
  · intro last
    rw [shape.head, shape.tail, firstOf_eq_none.mp last]
    rfl

private theorem walk_eq {heap : Heap V} {e : POSITION} (chain : Chain (Holds heap) b nodes e)
    {n : ℕ} (inside : n ≤ nodes.length) :
    walk heap n (firstOf nodes e) = some (firstOf (nodes.drop n) e) := by
  induction nodes generalizing b n with
  | nil =>
    obtain rfl : n = 0 := Nat.le_zero.mp inside
    rfl
  | cons x rest ih =>
    cases n with
    | zero => rfl
    | succ n =>
      have later := ih chain.2 (Nat.le_of_succ_le_succ inside)
      rw [firstOf_cons, walk, load_eq chain.1]
      simpa using later

private theorem Shape.walk_eq (shape : Shape list b nodes) {n : ℕ} (inside : n < nodes.length) :
    walk list.heap n list.pHead = some (some nodes[n].1) := by
  rw [shape.head, CMyList.walk_eq shape.chain (Nat.le_of_lt inside), List.drop_eq_getElem_cons inside]
  rfl

theorem Shape.removeAtIndex (shape : Shape list none nodes) {nIndex : Int32}
    (inside : nIndex.toNatClampNeg < nodes.length) :
    ∃ list', list.removeAtIndex nIndex = some list' ∧
      Shape list' none (nodes.eraseIdx nIndex.toNatClampNeg) ∧ list'.nCount = list.nCount - 1 := by
  have split := List.take_append_drop nIndex.toNatClampNeg nodes
  rw [List.drop_eq_getElem_cons inside] at split
  rw [List.eraseIdx_eq_take_drop_succ]
  rw [← split] at shape
  obtain ⟨list', removed, shape', count⟩ := shape.removeAt
  rw [split] at shape
  refine ⟨list', ?_, shape', count⟩
  rw [CMyList.removeAtIndex, shape.walk_eq inside]
  exact removed

private theorem exists_deleteFrom {heap : Heap V} (chain : Chain (Holds heap) b nodes none) {n : ℕ}
    (enough : nodes.length ≤ n) :
    ∃ heap', deleteFrom heap n (firstOf nodes none) = some heap' := by
  induction nodes generalizing heap b n with
  | nil => exact ⟨heap, by cases n <;> rfl⟩
  | cons x rest ih =>
    obtain ⟨n, rfl⟩ := Nat.exists_eq_succ_of_ne_zero (Nat.ne_zero_of_lt enough)
    have apart : x.1 ∉ rest.map Prod.fst := (List.nodup_cons.mp (nodup chain)).1
    obtain ⟨heap', deleted⟩ := ih (chain_erase chain.2 apart) (Nat.le_of_succ_le_succ enough)
    refine ⟨heap', ?_⟩
    rw [firstOf_cons, deleteFrom, load_eq chain.1, delete_eq chain.1]
    simpa using deleted

private theorem length_le_keys {heap : Heap V} (chain : Chain (Holds heap) b nodes none) :
    nodes.length ≤ heap.keys.length := by
  have inside : nodes.map Prod.fst ⊆ heap.keys := by
    intro a mem
    obtain ⟨x, member, rfl⟩ := List.mem_map.mp mem
    obtain ⟨p, n, held⟩ := chain.exists_cell member
    exact AList.lookup_isSome.mp (by rw [show heap.lookup x.1 = _ from held]; rfl)
  simpa using (List.subperm_of_subset (nodup chain) inside).length_le

theorem Shape.removeAll (shape : Shape list none nodes) :
    ∃ list', list.removeAll = some list' ∧ Shape list' none [] ∧ list'.nCount = list.nCount := by
  obtain ⟨heap, deleted⟩ := exists_deleteFrom shape.chain (length_le_keys shape.chain)
  refine ⟨⟨heap, none, none, list.nCount⟩, ?_, ⟨trivial, rfl, rfl⟩, rfl⟩
  rw [CMyList.removeAll, shape.head, deleted]
  rfl

end Operations

end Tsender.Misc.CMyList
