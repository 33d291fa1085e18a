/- Tsender/Misc/ListRefinement
   source: src/misc.h (CMyList)
   digest: Against the sequence of its nodes, the list stays right in a run exactly when no
   node goes in front of others with a stale back link, RemoveAll finds no node to remove
   and the count does not overflow. -/

import Mathlib.Algebra.Order.Group.Nat
import Tsender.Lib.Transition
import Tsender.Misc.ListShape

set_option autoImplicit false
set_option relaxedAutoImplicit false

namespace Tsender.Misc.CMyList

open Tsender.Lib.Links Tsender.Lib.Transition

variable {V : Type} {list : CMyList V} {nodes : List (Addr × V)}

section Specification

/-- What a user of the list sees of it is the sequence `nodes`. -/
structure Refines (list : CMyList V) (nodes : List (Addr × V)) : Prop where
  forward : Follows (fun a q => ∃ p, list.getNext (some a) = some (p, q)) list.getHeadPosition
    (nodes.map Prod.fst) none
  backward : Follows (fun a q => ∃ p, list.getPrev (some a) = some (p, q)) list.getTailPosition
    (nodes.map Prod.fst).reverse none
  items : ∀ x ∈ nodes, ∃ q, list.getNext (some x.1) = some (x.2, q)
  head : list.getHeadPosition = none ↔ nodes = []
  tail : list.getTailPosition = none ↔ nodes = []
  count : list.getCount.toInt = nodes.length

private theorem getNext_eq_some {a : Addr} {v : V} {q : POSITION} :
    list.getNext (some a) = some (v, q) ↔ ∃ p, Holds list.heap a v p q := by
  unfold getNext load Holds
  cases found : list.heap.lookup a with
  | none => simp [found]
  | some node =>
    obtain ⟨v', p', n'⟩ := node
    simp [found]

private theorem getPrev_eq_some {a : Addr} {v : V} {q : POSITION} :
    list.getPrev (some a) = some (v, q) ↔ ∃ n, Holds list.heap a v q n := by
  unfold getPrev load Holds
  cases found : list.heap.lookup a with
  | none => simp [found]
  | some node =>
    obtain ⟨v', p', n'⟩ := node
    simp [found]

theorem Refines.shape (refines : Refines list nodes) : Shape list none nodes := by
  refine ⟨?_, ?_, ?_⟩
  · have builds : ∀ a v p n, (∃ q, list.getNext (some a) = some (v, q)) →
        (∃ v', list.getPrev (some a) = some (v', p)) →
        (∃ v', list.getNext (some a) = some (v', n)) → Holds list.heap a v p n := by
      rintro a v p n ⟨q, item⟩ ⟨v₁, back⟩ ⟨v₂, on⟩
      obtain ⟨p₁, held⟩ := getNext_eq_some.mp item
      obtain ⟨n₁, heldBack⟩ := getPrev_eq_some.mp back
      obtain ⟨p₂, heldOn⟩ := getNext_eq_some.mp on
      rwa [held.next_unique heldOn, held.prev_unique heldBack] at held
    exact Chain.of_follows builds refines.items refines.forward refines.backward
  · have start : list.pHead = _ := refines.forward.start_eq
    rw [start]
    cases nodes <;> rfl
  · have start : list.pTail = _ := refines.backward.start_eq
    rw [start]
    rcases List.eq_nil_or_concat nodes with rfl | ⟨front, x, rfl⟩ <;> simp

private theorem refines_iff_shape :
    Refines list nodes ↔ Shape list none nodes ∧ list.nCount.toInt = nodes.length := by
  constructor
  · exact fun refines => ⟨refines.shape, refines.count⟩
  · rintro ⟨⟨chain, head, tail⟩, count⟩
    refine ⟨?_, ?_, ?_, ?_, ?_, count⟩
    · rw [getHeadPosition, head]
      exact chain.follows_next fun a v p n held => ⟨v, getNext_eq_some.mpr ⟨p, held⟩⟩
    · rw [getTailPosition, tail]
      exact chain.follows_prev fun a v p n held => ⟨v, getPrev_eq_some.mpr ⟨n, held⟩⟩
    · intro x mem
      obtain ⟨p, n, held⟩ := chain.exists_cell mem
      exact ⟨n, getNext_eq_some.mpr ⟨p, held⟩⟩
    · rw [getHeadPosition, head, firstOf_eq_none]
    · rw [getTailPosition, tail, lastOf_eq_none]

end Specification

section Count

private theorem toInt_add_one_iff {c : Int32} {n : ℕ} (count : c.toInt = n) :
    (c + 1).toInt = ((n + 1 : ℕ) : ℤ) ↔ n + 1 < 2 ^ 31 := by
  rw [Int32.toInt_add, count, Int32.toInt_one]
  have := c.toInt_lt
  constructor
  · intro same
    have := Int.bmod_lt (x := (n : ℤ) + 1) (m := 2 ^ 32) (by decide)
    omega
  · intro small
    rw [Int.bmod_eq_of_le] <;> omega

private theorem toInt_sub_one {c : Int32} {n : ℕ} (count : c.toInt = ((n + 1 : ℕ) : ℤ)) :
    (c - 1).toInt = n := by
  have := c.toInt_lt
  rw [Int32.toInt_sub, count, Int32.toInt_one, Int.bmod_eq_of_le] <;> omega

end Count

section Machine

/-- A call of the list; those that add a node carry what `new` returned to them. -/
inductive Call (V : Type)
  | addHead (pp : Addr) (prior : Pos V) (p : V)
  | addTail (pp : Addr) (prior : Pos V) (p : V)
  | removeHead
  | removeAt (pos : Addr)
  | removeAtIndex (nIndex : Int32)
  | removeAll

/-- `new` returns the address of no other node. -/
def Call.fresh (heap : Heap V) : Call V → Bool
  | .addHead pp _ _ => pp ∉ heap
  | .addTail pp _ _ => pp ∉ heap
  | _ => true

def perform (list : CMyList V) : Call V → Option (CMyList V × Option V)
  | .addHead pp prior p => (list.addHead pp prior p).map (·, none)
  | .addTail pp prior p => (list.addTail pp prior p).map (·, none)
  | .removeHead => list.removeHead.map fun next => (next.1, some next.2)
  | .removeAt pos => (list.removeAt (some pos)).map (·, none)
  | .removeAtIndex nIndex => (list.removeAtIndex nIndex).map (·, none)
  | .removeAll => list.removeAll.map (·, none)

/-- What the call means for a sequence, where its position or its index is valid. -/
def Call.onSequence (nodes : List (Addr × V)) : Call V → Option (List (Addr × V) × Option V)
  | .addHead pp _ p => some ((pp, p) :: nodes, none)
  | .addTail pp _ p => some (nodes ++ [(pp, p)], none)
  | .removeHead =>
      match nodes with
      | [] => none
      | x :: rest => some (rest, some x.2)
  | .removeAt pos =>
      if pos ∈ nodes.map Prod.fst then some (nodes.eraseP fun x => x.1 = pos, none) else none
  | .removeAtIndex nIndex =>
      if 0 ≤ nIndex.toInt ∧ nIndex.toInt < nodes.length then
        some (nodes.eraseIdx nIndex.toNatClampNeg, none)
      else none
  | .removeAll => some ([], none)

structure Paired (V : Type) where
  list : Option (CMyList V)
  nodes : List (Addr × V)

/-- A call of both, with what each of them returned. -/
def step : Machine (Paired V) (Call V) (Option V × Option V) := fun s call =>
  match s.list with
  | none => none
  | some list =>
      if call.fresh list.heap then
        match call.onSequence s.nodes with
        | none => none
        | some (nodes, expected) =>
            match list.perform call with
            | none => some (⟨none, nodes⟩, [])
            | some (list, returned) => some (⟨some list, nodes⟩, [(returned, expected)])
      else none

def start (heap : Heap V) : Paired V := ⟨some { heap := heap }, []⟩

def Right (returns : List (Option V × Option V)) (s : Paired V) : Prop :=
  (∀ r ∈ returns, r.1 = r.2) ∧ ∃ list, s.list = some list ∧ Refines list s.nodes

/-- A node goes in front of others only with a back link that happens to be NULL, `RemoveAll`
has nothing to remove, and the count has room for another node. -/
def Harmless (_ : List (Option V × Option V)) (s : Paired V) : Call V → Prop
  | .addHead _ prior _ => (s.nodes = [] ∨ prior.prev = none) ∧ s.nodes.length + 1 < 2 ^ 31
  | .addTail _ _ _ => s.nodes.length + 1 < 2 ^ 31
  | .removeAll => s.nodes = []
  | _ => True

end Machine

section Calls

variable {pp : Addr}

theorem Refines.addHead (refines : Refines list nodes) (fresh : pp ∉ list.heap) (prior : Pos V)
    (p : V) : ∃ list', list.addHead pp prior p = some list' ∧ (Refines list' ((pp, p) :: nodes) ↔
      (nodes = [] ∨ prior.prev = none) ∧ nodes.length + 1 < 2 ^ 31) := by
  obtain ⟨list', added, shape, count⟩ := refines.shape.addHead fresh prior p
  refine ⟨list', added, refines_iff_shape.trans (and_congr ?_ ?_)⟩
  · constructor
    · intro other
      have back := shape.chain.1.prev_unique other.chain.1
      simpa [or_iff_not_imp_left] using back
    · intro clean
      have back : (if nodes = [] then none else prior.prev) = none := by
        simpa [or_iff_not_imp_left] using clean
      rwa [back] at shape
  · rw [count]
    exact toInt_add_one_iff refines.count

theorem Refines.addTail (refines : Refines list nodes) (fresh : pp ∉ list.heap) (prior : Pos V)
    (p : V) : ∃ list', list.addTail pp prior p = some list' ∧
      (Refines list' (nodes ++ [(pp, p)]) ↔ nodes.length + 1 < 2 ^ 31) := by
  obtain ⟨list', added, shape, count⟩ := refines.shape.addTail fresh prior p
  refine ⟨list', added, refines_iff_shape.trans ((and_iff_right shape).trans ?_)⟩
  rw [count, List.length_append, List.length_singleton]
  exact toInt_add_one_iff refines.count

private theorem Refines.of_removed {list' : CMyList V} {rest : List (Addr × V)}
    (refines : Refines list nodes) (shape : Shape list' none rest)
    (fewer : nodes.length = rest.length + 1) (count : list'.nCount = list.nCount - 1) :
    Refines list' rest := by
  refine refines_iff_shape.mpr ⟨shape, ?_⟩
  rw [count]
  exact toInt_sub_one (refines.count.trans (congrArg Nat.cast fewer))

theorem Refines.removeHead {x : Addr × V} (refines : Refines list (x :: nodes)) :
    ∃ list', list.removeHead = some (list', x.2) ∧ Refines list' nodes := by
  obtain ⟨list', removed, shape, count⟩ := refines.shape.removeHead
  exact ⟨list', removed, refines.of_removed shape rfl count⟩

theorem Refines.removeAt (refines : Refines list nodes) {pos : Addr}
    (valid : pos ∈ nodes.map Prod.fst) : ∃ list', list.removeAt (some pos) = some list' ∧
      Refines list' (nodes.eraseP fun x => x.1 = pos) := by
  obtain ⟨y, mem, at_pos⟩ := List.mem_map.mp valid
  obtain ⟨x, front, back, -, here, rfl, erased⟩ :=
    List.exists_of_eraseP (p := fun x => x.1 = pos) mem (decide_eq_true at_pos)
  obtain rfl := of_decide_eq_true here
  obtain ⟨list', removed, shape, count⟩ := refines.shape.removeAt
  rw [erased]
  have fewer : (front ++ x :: back).length = (front ++ back).length + 1 := by
    simp only [List.length_append, List.length_cons]
    omega
  exact ⟨list', removed, refines.of_removed shape fewer count⟩

theorem Refines.removeAtIndex (refines : Refines list nodes) {nIndex : Int32}
    (inside : nIndex.toNatClampNeg < nodes.length) :
    ∃ list', list.removeAtIndex nIndex = some list' ∧
      Refines list' (nodes.eraseIdx nIndex.toNatClampNeg) := by
  obtain ⟨list', removed, shape, count⟩ := refines.shape.removeAtIndex inside
  have fewer : nodes.length = (nodes.eraseIdx nIndex.toNatClampNeg).length + 1 := by
    rw [List.length_eraseIdx_of_lt inside]
    omega
  exact ⟨list', removed, refines.of_removed shape fewer count⟩

theorem Refines.removeAll (refines : Refines list nodes) :
    ∃ list', list.removeAll = some list' ∧ (Refines list' [] ↔ nodes = []) := by
  obtain ⟨list', removed, shape, count⟩ := refines.shape.removeAll
  refine ⟨list', removed, refines_iff_shape.trans ((and_iff_right shape).trans ?_)⟩
  have before : list.nCount.toInt = nodes.length := refines.count
  rw [count, before, List.length_nil, Int.ofNat_inj, List.length_eq_zero_iff]

theorem Refines.perform (refines : Refines list nodes) {call : Call V}
    (fresh : call.fresh list.heap = true) {nodes' : List (Addr × V)} {expected : Option V}
    (meant : call.onSequence nodes = some (nodes', expected))
    (returns : List (Option V × Option V)) :
    ∃ list', list.perform call = some (list', expected) ∧
      (Refines list' nodes' ↔ Harmless returns ⟨some list, nodes⟩ call) := by
  cases call with
  | addHead pp prior p =>
    obtain ⟨rfl, rfl⟩ := Prod.mk.inj (Option.some.inj meant)
    obtain ⟨list', added, right⟩ := refines.addHead (of_decide_eq_true fresh) prior p
    exact ⟨list', by simp [CMyList.perform, added], right⟩
  | addTail pp prior p =>
    obtain ⟨rfl, rfl⟩ := Prod.mk.inj (Option.some.inj meant)
    obtain ⟨list', added, right⟩ := refines.addTail (of_decide_eq_true fresh) prior p
    exact ⟨list', by simp [CMyList.perform, added], right⟩
  | removeHead =>
    cases nodes with
    | nil => cases meant
    | cons x rest =>
      obtain ⟨rfl, rfl⟩ := Prod.mk.inj (Option.some.inj meant)
      obtain ⟨list', removed, right⟩ := refines.removeHead
      exact ⟨list', by simp [CMyList.perform, removed], fun _ => trivial, fun _ => right⟩
  | removeAt pos =>
    obtain ⟨valid, meant⟩ := Option.ite_none_right_eq_some.mp meant
    obtain ⟨rfl, rfl⟩ := Prod.mk.inj (Option.some.inj meant)
    obtain ⟨list', removed, right⟩ := refines.removeAt valid
    exact ⟨list', by simp [CMyList.perform, removed], fun _ => trivial, fun _ => right⟩
  | removeAtIndex nIndex =>
    obtain ⟨valid, meant⟩ := Option.ite_none_right_eq_some.mp meant
    obtain ⟨rfl, rfl⟩ := Prod.mk.inj (Option.some.inj meant)
    have inside : nIndex.toNatClampNeg < nodes.length := by
      have := Int32.toNat_toInt nIndex
      omega
    obtain ⟨list', removed, right⟩ := refines.removeAtIndex inside
    exact ⟨list', by simp [CMyList.perform, removed], fun _ => trivial, fun _ => right⟩
  | removeAll =>
    obtain ⟨rfl, rfl⟩ := Prod.mk.inj (Option.some.inj meant)
    obtain ⟨list', removed, right⟩ := refines.removeAll
    exact ⟨list', by simp [CMyList.perform, removed], right⟩

end Calls

section Runs

variable {returns given : List (Option V × Option V)} {s t : Paired V} {call : Call V}

/-- The step lemma: after a call of a list that is right, it is right exactly when the call
was harmless. -/
private theorem right_step_iff (right : Right returns s) (taken : step s call = some (t, given)) :
    Right (returns ++ given) t ↔ Harmless returns s call := by
  obtain ⟨agree, list, here, refines⟩ := right
  obtain ⟨_, nodes⟩ := s
  obtain rfl := here
  unfold step at taken
  obtain ⟨fresh, taken⟩ := Option.ite_none_right_eq_some.mp taken
  cases meant : call.onSequence nodes with
  | none => simp [meant] at taken
  | some next =>
    obtain ⟨nodes', expected⟩ := next
    obtain ⟨list', done, sharp⟩ := refines.perform fresh meant returns
    simp only [meant, done, Option.some.injEq, Prod.mk.injEq] at taken
    obtain ⟨rfl, rfl⟩ := taken
    rw [← sharp]
    constructor
    · rintro ⟨-, _, same, refines'⟩
      obtain rfl := Option.some.inj same
      exact refines'
    · refine fun refines' => ⟨?_, list', rfl, refines'⟩
      intro r mem
      rcases List.mem_append.mp mem with old | new
      · exact agree r old
      · rw [List.mem_singleton.mp new]

private theorem right_start (heap : Heap V) : Right [] (start heap) := by
  refine ⟨by simp, { heap := heap }, rfl, refines_iff_shape.mpr ⟨⟨trivial, rfl, rfl⟩, rfl⟩⟩

/-- The list is right throughout a sequence of calls exactly when every call is harmless. -/
theorem right_iff (heap : Heap V) (calls : List (Call V)) :
    Throughout step Right (start heap) calls ↔ Meets step Harmless (start heap) calls :=
  throughout_iff_meets_of_step (right_start heap) fun _ _ _ _ _ => right_step_iff

/-- In front of the node 1 the node 2 keeps the back link 7 of its bytes; and a list that had
a node counts it after `RemoveAll`. -/
theorem addHead_and_removeAll_go_wrong :
    ¬ Throughout step Right (start ∅)
        [.addTail 1 ⟨0, none, none⟩ 10, .addHead 2 ⟨0, some 7, none⟩ 20] ∧
      ¬ Throughout step Right (start ∅) [.addTail 1 ⟨0, none, none⟩ 10, .removeAll] := by
  constructor
  · intro all
    have reached : (exec step (start ∅)
        [.addTail 1 ⟨0, none, none⟩ 10, .addHead 2 ⟨0, some 7, none⟩ 20]).map
          (fun next => decide (next.1.nodes.map Prod.fst = [2, 1] ∧
            (next.1.list.bind fun list => list.getPrev (some 2)) = some (20, some 7))) =
        some true := by decide
    obtain ⟨t, es, run, seen⟩ := Run.exists_of_exec reached
    obtain ⟨order, back⟩ := of_decide_eq_true seen
    obtain ⟨-, list, here, refines⟩ := all _ [] es t (by simp) run
    rw [here] at back
    have walk := refines.backward
    rw [order] at walk
    obtain ⟨-, _, -, -, q, ⟨_, first⟩, ends⟩ := walk
    have ends : q = none := ends
    have stale : some (20, some 7) = some (_, q) := back.symm.trans first
    simp [ends] at stale
  · intro all
    have reached : (exec step (start ∅) [.addTail 1 ⟨0, none, none⟩ 10, .removeAll]).map
        (fun next => decide (next.1.nodes = [] ∧ next.1.list.map getCount = some 1)) =
        some true := by decide
    obtain ⟨t, es, run, seen⟩ := Run.exists_of_exec reached
    obtain ⟨none_left, counted⟩ := of_decide_eq_true seen
    obtain ⟨-, list, here, refines⟩ := all _ [] es t (by simp) run
    have count := refines.count
    rw [here] at counted
    rw [Option.some.inj counted, none_left] at count
    cases count

end Runs

end Tsender.Misc.CMyList
