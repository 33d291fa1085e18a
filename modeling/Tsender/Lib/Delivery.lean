/- Tsender/Lib/Delivery
   digest: A network that hands each message over at most once: what has been handled and what
   can still be handled is accounted for by what has been issued. -/

import Mathlib.Data.List.Perm.Basic
import Mathlib.Data.List.Perm.Subperm
import Mathlib.Tactic.Common

set_option autoImplicit false
set_option relaxedAutoImplicit false

namespace Tsender.Lib.Delivery

open scoped List

universe u

variable {P : Type u}

/-- Every message that was handled or is in flight and would be `acting` was issued, each of them
once. -/
def Accounted (acting : P → Bool) (handled inFlight issued : List P) : Prop :=
  handled ++ inFlight.filter acting <+~ issued

namespace Accounted

variable {acting : P → Bool} {handled inFlight issued : List P}

theorem start : Accounted acting [] [] [] := List.nil_subperm

theorem length_le (h : Accounted acting handled inFlight issued) :
    handled.length ≤ issued.length := by
  have total := List.Subperm.length_le h
  rw [List.length_append] at total
  omega

theorem mem_issued (h : Accounted acting handled inFlight issued) {p : P} (mem : p ∈ inFlight)
    (acts : acting p = true) : p ∈ issued := by
  apply List.Subperm.subset h
  exact List.mem_append_right _ (List.mem_filter.mpr ⟨mem, acts⟩)

theorem issue (h : Accounted acting handled inFlight issued) (p : P) :
    Accounted acting handled (inFlight ++ [p]) (issued ++ [p]) := by
  unfold Accounted
  rw [List.filter_append, ← List.append_assoc]
  have last : [p].filter acting <+~ [p] := List.filter_sublist.subperm
  exact List.Subperm.append h last

theorem lose (h : Accounted acting handled inFlight issued) (n : ℕ) :
    Accounted acting handled (inFlight.eraseIdx n) issued := by
  have fewer : (inFlight.eraseIdx n).filter acting <+ inFlight.filter acting :=
    (List.eraseIdx_sublist inFlight n).filter acting
  exact (List.Sublist.append_left fewer handled).subperm.trans h

theorem handle (h : Accounted acting handled inFlight issued) {n : ℕ} {p : P}
    (found : inFlight[n]? = some p) (acts : acting p = true) :
    Accounted acting (handled ++ [p]) (inFlight.eraseIdx n) issued := by
  obtain ⟨within, rfl⟩ := List.getElem?_eq_some_iff.mp found
  have moved := (List.getElem_cons_eraseIdx_perm within).filter acting
  rw [List.filter_cons_of_pos acts] at moved
  unfold Accounted
  rw [List.append_assoc]
  exact (moved.append_left handled).subperm.trans h

theorem send (h : Accounted acting handled inFlight issued) {sent : List P}
    (inert : ∀ p ∈ sent, acting p = false) :
    Accounted acting handled (inFlight ++ sent) issued := by
  have nothing : sent.filter acting = [] := by
    rw [List.filter_eq_nil_iff]
    intro p mem acts
    rw [inert p mem] at acts
    cases acts
  unfold Accounted
  rwa [List.filter_append, nothing, List.append_nil]

end Accounted

section Classes

variable {ofClass : P → Bool} {inFlight : List P} {n : ℕ} {p : P}

theorem countP_eraseIdx (found : inFlight[n]? = some p) :
    (inFlight.eraseIdx n).countP ofClass + (if ofClass p then 1 else 0) =
      inFlight.countP ofClass := by
  obtain ⟨within, rfl⟩ := List.getElem?_eq_some_iff.mp found
  rw [← List.countP_cons]
  exact (List.getElem_cons_eraseIdx_perm within).countP_eq ofClass

theorem countP_sendAgain {again : P} (found : inFlight[n]? = some p)
    (same : ofClass again = ofClass p) (more : List P) :
    (inFlight.eraseIdx n ++ again :: more).countP ofClass =
      inFlight.countP ofClass + more.countP ofClass := by
  rw [List.countP_append, List.countP_cons, same, ← countP_eraseIdx found]
  omega

end Classes

end Tsender.Lib.Delivery
