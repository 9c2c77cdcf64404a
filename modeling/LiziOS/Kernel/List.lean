import LiziOS.Types
import Mathlib.Data.List.Perm.Basic

namespace LiziOS

variable {T : Type*}

/-! The doubly linked lists of tags, as the sequences of their owners from head to tail. -/

def listPush (plist : List T) (elem : T) : List T := elem :: plist

def listAppend (plist : List T) (elem : T) : List T := plist ++ [elem]

def listPop : List T → Option (T × List T)
  | [] => none
  | elem :: rest => some (elem, rest)

def elemFind [DecidableEq T] (plist : List T) (elem : T) : Bool := elem ∈ plist

def listEmpty (plist : List T) : Bool := plist.isEmpty

/-- `listPop`, except that a thread named by the environment is taken out instead of the first
    one when it is in the list. The kernel's own choice is `none`. -/
def listTake [DecidableEq T] (wanted : Option T) (plist : List T) : Option (T × List T) :=
  match wanted with
  | none => listPop plist
  | some elem => if elem ∈ plist then some (elem, plist.erase elem) else listPop plist

@[simp] theorem elemFind_iff [DecidableEq T] {plist : List T} {elem : T} :
    elemFind plist elem = true ↔ elem ∈ plist := by simp [elemFind]

theorem listPop_perm {plist rest : List T} {elem : T} (popped : listPop plist = some (elem, rest)) :
    plist.Perm (elem :: rest) := by
  cases plist with
  | nil => simp [listPop] at popped
  | cons head tail =>
    simp only [listPop, Option.some.injEq, Prod.mk.injEq] at popped
    obtain ⟨rfl, rfl⟩ := popped
    exact .refl _

theorem listTake_perm [DecidableEq T] {wanted : Option T} {plist rest : List T} {elem : T}
    (taken : listTake wanted plist = some (elem, rest)) : plist.Perm (elem :: rest) := by
  cases wanted with
  | none => exact listPop_perm taken
  | some pick =>
    simp only [listTake] at taken
    split at taken
    · rename_i member
      simp only [Option.some.injEq, Prod.mk.injEq] at taken
      obtain ⟨rfl, rfl⟩ := taken
      exact List.perm_cons_erase member
    · exact listPop_perm taken

theorem listTake_none [DecidableEq T] {wanted : Option T} {plist : List T} :
    listTake wanted plist = none ↔ plist = [] := by
  have popped : listPop plist = none ↔ plist = [] := by cases plist <;> simp [listPop]
  cases wanted with
  | none => exact popped
  | some pick =>
    simp only [listTake]
    split
    · rename_i member
      simp only [reduceCtorEq, false_iff]
      exact List.ne_nil_of_mem member
    · exact popped

end LiziOS
