/- Tsender/Misc/MyList
   source: src/misc.h (Pos, CMyList)
   digest: The doubly linked list over its nodes on the heap: what each operation does to
   the links between them. -/

import Mathlib.Data.List.AList
import Tsender.Lib.Links

set_option autoImplicit false
set_option relaxedAutoImplicit false

namespace Tsender.Misc

open Tsender.Lib.Links

abbrev Addr := ℕ

/-- A `Pos` pointer; `none` is NULL. -/
abbrev POSITION := Option Addr

structure Pos (V : Type) where
  p : V
  prev : POSITION
  next : POSITION
deriving Repr, DecidableEq

/-- The nodes that `new Pos` returned and that are not deleted yet. -/
abbrev Heap (V : Type) := AList fun _ : Addr => Pos V

variable {V : Type}

section Heap

/-- The node behind `pos->`; `none` where no node is at `pos`. -/
def load (heap : Heap V) (pos : POSITION) : Option (Pos V) := pos.bind heap.lookup

/-- Assign to fields of the node at `pos`. -/
def store (heap : Heap V) (pos : POSITION) (assign : Pos V → Pos V) : Option (Heap V) := do
  let a ← pos
  let node ← heap.lookup a
  some (heap.insert a (assign node))

/-- `delete pos` -/
def delete (heap : Heap V) (pos : POSITION) : Option (Heap V) := do
  let a ← pos
  let _ ← heap.lookup a
  some (heap.erase a)

end Heap

structure CMyList (V : Type) where
  heap : Heap V
  pHead : POSITION := none
  pTail : POSITION := none
  nCount : Int32 := 0

namespace CMyList

def getCount (list : CMyList V) : Int32 := list.nCount

def getHeadPosition (list : CMyList V) : POSITION := list.pHead

def getTailPosition (list : CMyList V) : POSITION := list.pTail

/-- `new` returns the address `pp` with the bytes `prior`, of which only `p` is assigned at
once: on a list that has nodes, `prev` is left as it was. -/
def addHead (list : CMyList V) (pp : Addr) (prior : Pos V) (p : V) : Option (CMyList V) := do
  let heap := list.heap.insert pp { prior with p := p }
  let heap ← match list.pHead with
    | some _ => do
        let heap ← store heap (some pp) fun node => { node with next := list.pHead }
        store heap list.pHead fun node => { node with prev := some pp }
    | none => some heap
  let list := { list with heap := heap, pHead := some pp }
  let list ← match list.pTail with
    | none => do
        let heap ← store heap (some pp) fun node => { node with prev := none, next := none }
        some { list with heap := heap, pTail := list.pHead }
    | some _ => some list
  some { list with nCount := list.nCount + 1 }

def addTail (list : CMyList V) (pp : Addr) (prior : Pos V) (p : V) : Option (CMyList V) := do
  let heap := list.heap.insert pp { prior with p := p, next := none }
  let list ← match list.pTail with
    | some _ => do
        let heap ← store heap (some pp) fun node => { node with prev := list.pTail }
        let heap ← store heap list.pTail fun node => { node with next := some pp }
        some { list with heap := heap, pTail := some pp }
    | none => some { list with heap := heap }
  let list ← match list.pHead with
    | none => do
        let heap ← store list.heap (some pp) fun node => { node with prev := none, next := none }
        some { list with heap := heap, pHead := some pp, pTail := some pp }
    | some _ => some list
  some { list with nCount := list.nCount + 1 }

def removeAt (list : CMyList V) (pos : POSITION) : Option (CMyList V) := do
  let node ← load list.heap pos
  let p1 := node.prev
  let p2 := node.next
  let list ← match p1 with
    -- in case of head
    | none => match p2 with
        | some _ => do
            let heap ← store list.heap p2 fun node => { node with prev := none }
            some { list with heap := heap, pHead := p2 }
        | none => some { list with pHead := none, pTail := none }
    | some _ => do
        let heap ← store list.heap p1 fun node => { node with next := p2 }
        match p2 with
        | some _ => do
            let heap ← store heap p2 fun node => { node with prev := p1 }
            some { list with heap := heap }
        | none => some { list with heap := heap, pTail := p1 }
  let list := { list with nCount := list.nCount - 1 }
  let heap ← delete list.heap pos
  some { list with heap := heap }

def removeHead (list : CMyList V) : Option (CMyList V × V) := do
  let head ← load list.heap list.pHead
  let p := head.p
  let pp := list.pHead
  let list ← match head.next with
    | some _ => do
        let heap ← store list.heap head.next fun node => { node with prev := none }
        some { list with heap := heap, pHead := head.next }
    | none => some { list with pHead := none, pTail := if list.pTail = pp then none else list.pTail }
  let heap ← delete list.heap pp
  some ({ list with heap := heap, nCount := list.nCount - 1 }, p)

/-- `n` times `pos = pos->next` -/
def walk (heap : Heap V) : ℕ → POSITION → Option POSITION
  | 0, pos => some pos
  | n + 1, pos => do
      let node ← load heap pos
      walk heap n node.next

/-- `RemoveAt(int)` -/
def removeAtIndex (list : CMyList V) (nIndex : Int32) : Option (CMyList V) := do
  let pos ← walk list.heap nIndex.toNatClampNeg list.pHead
  list.removeAt pos

/-- The loop of `RemoveAll`, for as many rounds as there are nodes: each round deletes one. -/
def deleteFrom (heap : Heap V) : ℕ → POSITION → Option (Heap V)
  | _, none => some heap
  | 0, some _ => none
  | n + 1, some a => do
      let node ← load heap (some a)
      let heap ← delete heap (some a)
      deleteFrom heap n node.next

/-- `nCount` is not reset. -/
def removeAll (list : CMyList V) : Option (CMyList V) := do
  let heap ← deleteFrom list.heap list.heap.keys.length list.pHead
  some { list with heap := heap, pHead := none, pTail := none }

def getNext (list : CMyList V) (pos : POSITION) : Option (V × POSITION) := do
  let node ← load list.heap pos
  some (node.p, node.next)

def getPrev (list : CMyList V) (pos : POSITION) : Option (V × POSITION) := do
  let node ← load list.heap pos
  some (node.p, node.prev)

end CMyList

section Links

variable {heap : Heap V} {a : Addr} {node : Pos V} {b e : POSITION} {l : List (Addr × V)}

/-- The node at `a` holds the item `v` between `p` and `n`. -/
def Holds (heap : Heap V) (a : Addr) (v : V) (p n : POSITION) : Prop :=
  heap.lookup a = some ⟨v, p, n⟩

theorem Holds.next_unique {v v' : V} {p p' n n' : POSITION} (held : Holds heap a v p n)
    (other : Holds heap a v' p' n') : n = n' :=
  congrArg Pos.next (Option.some.inj (held.symm.trans other))

theorem Holds.prev_unique {v v' : V} {p p' n n' : POSITION} (held : Holds heap a v p n)
    (other : Holds heap a v' p' n') : p = p' :=
  congrArg Pos.prev (Option.some.inj (held.symm.trans other))

theorem nodup (chain : Chain (Holds heap) b l none) : (l.map Prod.fst).Nodup :=
  chain.nodup fun _ _ _ _ _ _ _ held other => held.next_unique other

theorem notMem_of_fresh (chain : Chain (Holds heap) b l e) (fresh : a ∉ heap) :
    a ∉ l.map Prod.fst := by
  intro mem
  obtain ⟨x, inside, rfl⟩ := List.mem_map.mp mem
  obtain ⟨p, n, held⟩ := chain.exists_cell inside
  exact fresh (AList.lookup_isSome.mp (by rw [show heap.lookup x.1 = _ from held]; rfl))

theorem chain_frame {heap' : Heap V} (chain : Chain (Holds heap) b l e)
    (same : ∀ a ∈ l.map Prod.fst, heap'.lookup a = heap.lookup a) :
    Chain (Holds heap') b l e := by
  refine chain.frame fun x mem p n held => ?_
  exact (same x.1 (List.mem_map_of_mem mem)).trans held

theorem chain_insert (node : Pos V) (chain : Chain (Holds heap) b l e)
    (other : a ∉ l.map Prod.fst) :
    Chain (Holds (heap.insert a node)) b l e :=
  chain_frame chain fun _ mem => AList.lookup_insert_ne fun same => other (same ▸ mem)

theorem chain_erase (chain : Chain (Holds heap) b l e) (other : a ∉ l.map Prod.fst) :
    Chain (Holds (heap.erase a)) b l e :=
  chain_frame chain fun _ mem => AList.lookup_erase_ne fun same => other (same ▸ mem)

theorem load_eq (held : heap.lookup a = some node) : load heap (some a) = some node := held

theorem store_eq (held : heap.lookup a = some node) (assign : Pos V → Pos V) :
    store heap (some a) assign = some (heap.insert a (assign node)) := by
  simp [store, held]

theorem delete_eq (held : heap.lookup a = some node) :
    delete heap (some a) = some (heap.erase a) := by
  simp [delete, held]

/-- `pos->next = q` where there is a node at `pos` -/
def setNext (heap : Heap V) (pos q : POSITION) : Option (Heap V) :=
  match pos with
  | none => some heap
  | some _ => store heap pos fun node => { node with next := q }

/-- `pos->prev = q` where there is a node at `pos` -/
def setPrev (heap : Heap V) (pos q : POSITION) : Option (Heap V) :=
  match pos with
  | none => some heap
  | some _ => store heap pos fun node => { node with prev := q }

theorem exists_setNext (chain : Chain (Holds heap) none l e) (distinct : (l.map Prod.fst).Nodup)
    (q : POSITION) : ∃ heap', setNext heap (lastOf l none) q = some heap' ∧
      Chain (Holds heap') none l q ∧
      ∀ a ∉ l.map Prod.fst, heap'.lookup a = heap.lookup a := by
  rcases List.eq_nil_or_concat l with rfl | ⟨front, x, rfl⟩
  · exact ⟨heap, rfl, trivial, fun _ _ => rfl⟩
  · rw [List.concat_eq_append] at chain distinct ⊢
    obtain ⟨before, held, -⟩ := chain_append.mp chain
    rw [List.map_append, List.nodup_append] at distinct
    have apart : x.1 ∉ front.map Prod.fst := fun mem => distinct.2.2 x.1 mem x.1 (by simp) rfl
    refine ⟨heap.insert x.1 ⟨x.2, lastOf front none, q⟩, ?_, chain_append.mpr ⟨?_, ?_, trivial⟩, ?_⟩
    · simpa [setNext] using store_eq held fun node => { node with next := q }
    · exact chain_insert _ before apart
    · exact AList.lookup_insert heap
    · intro a other
      exact AList.lookup_insert_ne fun same => other (by simp [same])

theorem exists_setPrev (chain : Chain (Holds heap) b l none) (q : POSITION) :
    ∃ heap', setPrev heap (firstOf l none) q = some heap' ∧ Chain (Holds heap') q l none ∧
      ∀ a ∉ l.map Prod.fst, heap'.lookup a = heap.lookup a := by
  cases l with
  | nil => exact ⟨heap, rfl, trivial, fun _ _ => rfl⟩
  | cons x rest =>
    have apart : x.1 ∉ rest.map Prod.fst := (List.nodup_cons.mp (nodup chain)).1
    refine ⟨heap.insert x.1 ⟨x.2, q, firstOf rest none⟩, ?_, ⟨?_, ?_⟩, ?_⟩
    · simpa [setPrev] using store_eq chain.1 fun node => { node with prev := q }
    · exact AList.lookup_insert heap
    · exact chain_insert _ chain.2 apart
    · intro a other
      exact AList.lookup_insert_ne fun same => other (by simp [same])

end Links

end Tsender.Misc
