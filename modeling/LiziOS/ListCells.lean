import LiziOS.Library.Links
import Mathlib.Algebra.Group.Nat.Defs
import Mathlib.Data.Fintype.Card
import LiziOS.Kernel.List

namespace LiziOS

open Links

/-! The lists of `list.c` as cells in memory. -/

/-- A pointer to a `struct list_elem`: the two in each `struct list`, and the nodes. -/
inductive Ptr (L N : Type)
  | null
  | head (plist : L)
  | tail (plist : L)
  | elem (node : N)
  deriving DecidableEq

variable {L N : Type} [DecidableEq L] [DecidableEq N]

structure Cells (L N : Type) where
  prev : Ptr L N → Ptr L N
  next : Ptr L N → Ptr L N

namespace Cells

/-! Through the null pointer nothing is read or written. -/

def getPrev (m : Cells L N) (p : Ptr L N) : Option (Ptr L N) := if p = .null then none else some (m.prev p)

def getNext (m : Cells L N) (p : Ptr L N) : Option (Ptr L N) := if p = .null then none else some (m.next p)

def setPrev (m : Cells L N) (p q : Ptr L N) : Option (Cells L N) :=
  if p = .null then none else some { m with prev := Function.update m.prev p q }

def setNext (m : Cells L N) (p q : Ptr L N) : Option (Cells L N) :=
  if p = .null then none else some { m with next := Function.update m.next p q }

def listInit (m : Cells L N) (list : L) : Option (Cells L N) := do
  let m ← m.setPrev (.head list) .null
  let m ← m.setNext (.head list) (.tail list)
  let m ← m.setPrev (.tail list) (.head list)
  m.setNext (.tail list) .null

def listInsertBefore (m : Cells L N) (before elem : Ptr L N) : Option (Cells L N) := do
  let m ← m.setNext (← m.getPrev before) elem
  let m ← m.setPrev elem (← m.getPrev before)
  let m ← m.setNext elem before
  m.setPrev before elem

def listPush (m : Cells L N) (plist : L) (elem : Ptr L N) : Option (Cells L N) := do
  m.listInsertBefore (← m.getNext (.head plist)) elem

def listAppend (m : Cells L N) (plist : L) (elem : Ptr L N) : Option (Cells L N) :=
  m.listInsertBefore (.tail plist) elem

def listRemove (m : Cells L N) (pelem : Ptr L N) : Option (Cells L N) := do
  let m ← m.setNext (← m.getPrev pelem) (← m.getNext pelem)
  m.setPrev (← m.getNext pelem) (← m.getPrev pelem)

def listPop (m : Cells L N) (plist : L) : Option (Ptr L N × Cells L N) := do
  let elem ← m.getNext (.head plist)
  let m ← m.listRemove elem
  some (elem, m)

def listEmpty (m : Cells L N) (plist : L) : Option Bool := do
  let first ← m.getNext (.head plist)
  some (if first = Ptr.tail plist then true else false)

/-! The `while` loops take as many turns as they are given; `none` when these do not suffice. -/

def elemFindLoop (m : Cells L N) (plist : L) (objElem : Ptr L N) : Nat → Ptr L N → Option Bool
  | 0, _ => none
  | turns + 1, elem =>
    if elem ≠ .tail plist then
      if elem = objElem then some true
      else do elemFindLoop m plist objElem turns (← m.getNext elem)
    else some false

def elemFind (m : Cells L N) (plist : L) (objElem : Ptr L N) (turns : Nat) : Option Bool := do
  elemFindLoop m plist objElem turns (← m.getNext (.head plist))

def listTraversalLoop (m : Cells L N) (plist : L) (func : Ptr L N → U32 → Bool) (arg : U32) :
    Nat → Ptr L N → Option (Ptr L N)
  | 0, _ => none
  | turns + 1, elem =>
    if elem ≠ .tail plist then
      if func elem arg then some elem
      else do listTraversalLoop m plist func arg turns (← m.getNext elem)
    else some .null

def listTraversal (m : Cells L N) (plist : L) (func : Ptr L N → U32 → Bool) (arg : U32) (turns : Nat) :
    Option (Ptr L N) := do
  let elem ← m.getNext (.head plist)
  if ← m.listEmpty plist then some .null
  else listTraversalLoop m plist func arg turns elem

def listLenLoop (m : Cells L N) (plist : L) : Nat → Ptr L N → U32 → Option U32
  | 0, _, _ => none
  | turns + 1, elem, length =>
    if elem ≠ .tail plist then do listLenLoop m plist turns (← m.getNext elem) (length + 1)
    else some length

def listLen (m : Cells L N) (plist : L) (turns : Nat) : Option U32 := do
  listLenLoop m plist turns (← m.getNext (.head plist)) 0

end Cells

/-- Where the cells are: different cells, and the null pointer, have different addresses. -/
structure Placement (L N : Type) where
  address : Ptr L N → U32
  injective : Function.Injective address

/-! The operations and the sequences they are for. -/

inductive ListOp (L N : Type)
  | init (plist : L)
  | push (plist : L) (elem : N)
  | append (plist : L) (elem : N)
  | insertBefore (before elem : N)
  | remove (pelem : N)
  | pop (plist : L)

/-- What an operation does to the cells, and the pointer `list_pop` returns. -/
def ListOp.exec (op : ListOp L N) (m : Cells L N) : Option (Ptr L N × Cells L N) :=
  match op with
  | .init plist => (m.listInit plist).map (.null, ·)
  | .push plist elem => (m.listPush plist (.elem elem)).map (.null, ·)
  | .append plist elem => (m.listAppend plist (.elem elem)).map (.null, ·)
  | .insertBefore before elem => (m.listInsertBefore (.elem before) (.elem elem)).map (.null, ·)
  | .remove pelem => (m.listRemove (.elem pelem)).map (.null, ·)
  | .pop plist => m.listPop plist

/-- The lists that there are, each with its nodes from head to tail. -/
abbrev Sequences (L N : Type) := L → Option (List N)

/-- In no list. -/
def Sequences.Free (lists : Sequences L N) (node : N) : Prop := ∀ l ns, lists l = some ns → node ∉ ns

/-- `lists` and what becomes of `plist` in an operation. -/
inductive Meant : ListOp L N → Sequences L N → L → List N → Ptr L N → Prop
  | init {lists : Sequences L N} {plist : L} : Meant (.init plist) lists plist [] .null
  | push {lists : Sequences L N} {plist : L} {ns : List N} {elem : N} (is : lists plist = some ns)
      (free : lists.Free elem) : Meant (.push plist elem) lists plist (listPush ns elem) .null
  | append {lists : Sequences L N} {plist : L} {ns : List N} {elem : N} (is : lists plist = some ns)
      (free : lists.Free elem) : Meant (.append plist elem) lists plist (listAppend ns elem) .null
  | insertBefore {lists : Sequences L N} {plist : L} {us vs : List N} {before elem : N}
      (is : lists plist = some (us ++ before :: vs)) (free : lists.Free elem) :
      Meant (.insertBefore before elem) lists plist (us ++ elem :: before :: vs) .null
  | remove {lists : Sequences L N} {plist : L} {us vs : List N} {pelem : N}
      (is : lists plist = some (us ++ pelem :: vs)) : Meant (.remove pelem) lists plist (us ++ vs) .null
  | pop {lists : Sequences L N} {plist : L} {ns rest : List N} {first : N} (is : lists plist = some ns)
      (popped : LiziOS.listPop ns = some (first, rest)) : Meant (.pop plist) lists plist rest (.elem first)

/-- The states that the operations lead to from any memory and no list. -/
inductive ListRun (start : Cells L N) : Cells L N → Sequences L N → Prop
  | start : ListRun start start fun _ => none
  | step {m m' : Cells L N} {lists : Sequences L N} {op : ListOp L N} {plist : L} {ns : List N}
      {result : Ptr L N} (run : ListRun start m lists) (meant : Meant op lists plist ns result)
      (done : op.exec m = some (result, m')) : ListRun start m' (Function.update lists plist (some ns))

/-- The cells of a list, sentinels included. -/
def cellsOf (l : L) (ns : List N) : List (Ptr L N) := .head l :: ns.map .elem ++ [.tail l]

/-- What the links and the functions that only read them make of a list. -/
structure Shows (m : Cells L N) (l : L) (ns : List N) : Prop where
  forward : ∀ turns, ns.length < turns → walk m.next (.tail l) turns (m.next (.head l)) = some (ns.map .elem)
  backward : ∀ turns, ns.length < turns →
    walk m.prev (.head l) turns (m.prev (.tail l)) = some (ns.map .elem).reverse
  find : ∀ turns, ns.length < turns → ∀ objElem, m.elemFind l objElem turns =
      some (decide (objElem ∈ ns.map .elem))
  len : ∀ turns, ns.length < turns → ∃ length, m.listLen l turns = some length ∧ length.toNat = ns.length
  empty : m.listEmpty l = some (listEmpty ns)
  traversal : ∀ turns, ns.length < turns → ∀ func arg,
    m.listTraversal l func arg turns = some (((ns.map .elem).find? fun elem => func elem arg).getD .null)

/-- The cells represent the sequences. -/
structure Represented (m : Cells L N) (lists : Sequences L N) : Prop where
  linked : ∀ l ns, lists l = some ns → Linked m.next m.prev (cellsOf l ns)
  nodup : ∀ l ns, lists l = some ns → ns.Nodup
  apart : ∀ l l' ns ns', l ≠ l' → lists l = some ns → lists l' = some ns' → ∀ n ∈ ns, n ∉ ns'

variable {m m' start : Cells L N} {lists : Sequences L N} {op : ListOp L N} {l l' plist : L}
  {ns ns' us vs : List N} {a b x p result : Ptr L N} {bs cs : List (Ptr L N)}

omit [DecidableEq L] [DecidableEq N] in
theorem mem_cellsOf : p ∈ cellsOf l ns ↔ p = .head l ∨ p = .tail l ∨ ∃ n ∈ ns, p = .elem n := by
  simp only [cellsOf, List.cons_append, List.mem_cons, List.mem_append, List.mem_map,
      List.not_mem_nil, or_false]
  constructor
  · rintro (is | ⟨n, member, is⟩ | is)
    · exact .inl is
    · exact .inr (.inr ⟨n, member, is.symm⟩)
    · exact .inr (.inl is)
  · rintro (is | is | ⟨n, member, is⟩)
    · exact .inl is
    · exact .inr (.inr is)
    · exact .inr (.inl ⟨n, member, is.symm⟩)

omit [DecidableEq L] [DecidableEq N] in
theorem cellsOf_null : Ptr.null ∉ cellsOf l ns := by
  intro member
  rcases mem_cellsOf.mp member with is | is | ⟨n, _, is⟩ <;> cases is

omit [DecidableEq L] [DecidableEq N] in
theorem cellsOf_nodup (l : L) (nodup : ns.Nodup) : (cellsOf l ns).Nodup := by
  have elems : (ns.map (@Ptr.elem L N)).Nodup := List.Nodup.map (fun _ _ same => Ptr.elem.inj same) nodup
  simp [cellsOf, List.nodup_append, elems]

omit [DecidableEq L] [DecidableEq N] in
theorem cellsOf_apart (different : l ≠ l') (apart : ∀ n ∈ ns, n ∉ ns') (member : p ∈ cellsOf l ns) :
    p ∉ cellsOf l' ns' := by
  intro member'
  rcases mem_cellsOf.mp member with rfl | rfl | ⟨n, inside, rfl⟩
  · rcases mem_cellsOf.mp member' with is | is | ⟨_, _, is⟩
    · exact different (Ptr.head.inj is)
    · cases is
    · cases is
  · rcases mem_cellsOf.mp member' with is | is | ⟨_, _, is⟩
    · cases is
    · exact different (Ptr.tail.inj is)
    · cases is
  · rcases mem_cellsOf.mp member' with is | is | ⟨n', inside', is⟩
    · cases is
    · cases is
    · rw [← Ptr.elem.inj is] at inside'
      exact apart n inside inside'

namespace Cells

/-- Cells outside `changed` point where they did. -/
def Kept (m m' : Cells L N) (changed : List (Ptr L N)) : Prop :=
  ∀ p, p ∉ changed → m'.next p = m.next p ∧ m'.prev p = m.prev p

theorem listInit_spec (m : Cells L N) (list : L) : ∃ m', m.listInit list = some m' ∧
    Linked m'.next m'.prev (cellsOf list []) ∧ Kept m m' (cellsOf list []) := by
  refine ⟨_, rfl, ?_, ?_⟩
  · refine List.isChain_cons_cons.mpr ⟨⟨?_, ?_⟩, .singleton _⟩
    · simp
    · simp
  · intro p outside
    rw [mem_cellsOf, not_or, not_or] at outside
    simp [outside.1, outside.2.1]

theorem listInsertBefore_eq (prior : m.prev b = a) (ha : a ≠ .null) (hb : b ≠ .null) (hx : x ≠ .null) :
    m.listInsertBefore b x = some
      { next := Function.update (Function.update m.next a x) x b
        prev := Function.update (Function.update m.prev x a) b x } := by
  simp [listInsertBefore, getPrev, setNext, setPrev, prior, ha, hb, hx]

theorem listRemove_eq (prior : m.prev x = a) (later : m.next x = b) (ha : a ≠ .null) (hb : b ≠ .null)
    (hx : x ≠ .null) (apart : x ≠ a) : m.listRemove x = some
      { next := Function.update m.next a b, prev := Function.update m.prev b a } := by
  simp [listRemove, getPrev, getNext, setNext, setPrev, prior, later, ha, hb, hx, apart]

theorem insert_between (linked : Linked m.next m.prev (bs ++ b :: cs)) (some_ : bs ≠ [])
    (nodup : (bs ++ b :: cs).Nodup) (notNull : Ptr.null ∉ bs ++ b :: cs) (outside : x ∉ bs ++ b :: cs)
    (hx : x ≠ .null) : ∃ m', m.listInsertBefore b x = some m' ∧
      Linked m'.next m'.prev (bs ++ x :: b :: cs) ∧ Kept m m' (bs ++ x :: b :: cs) := by
  obtain ⟨us, a, rfl⟩ := (List.eq_nil_or_concat bs).resolve_left some_
  simp only [List.concat_eq_append, List.append_assoc, List.cons_append, List.nil_append]
    at linked nodup notNull outside ⊢
  have prior := (List.isChain_append_cons_cons.mp linked).2.1.2
  refine ⟨_, listInsertBefore_eq prior ?_ ?_ hx, linked.insert nodup outside, ?_⟩
  · rintro rfl
    exact notNull (by simp)
  · rintro rfl
    exact notNull (by simp)
  · intro p outside
    simp only [List.mem_append, List.mem_cons, not_or] at outside
    simp [outside.2.1, outside.2.2.1, outside.2.2.2.1]

theorem remove_between (linked : Linked m.next m.prev (bs ++ x :: cs)) (before : bs ≠ []) (after : cs ≠ [])
    (nodup : (bs ++ x :: cs).Nodup) (notNull : Ptr.null ∉ bs ++ x :: cs) : ∃ m', m.listRemove x = some m' ∧
      Linked m'.next m'.prev (bs ++ cs) ∧ Kept m m' (bs ++ cs) := by
  obtain ⟨us, a, rfl⟩ := (List.eq_nil_or_concat bs).resolve_left before
  obtain ⟨b, vs, rfl⟩ := List.exists_cons_of_ne_nil after
  simp only [List.concat_eq_append, List.append_assoc, List.cons_append, List.nil_append]
    at linked nodup notNull ⊢
  obtain ⟨_, link, rest⟩ := List.isChain_append_cons_cons.mp linked
  have link' := (List.isChain_cons_cons.mp rest).1
  refine ⟨_, listRemove_eq link.2 link'.1 ?_ ?_ ?_ ?_, linked.remove nodup, ?_⟩
  · rintro rfl
    exact notNull (by simp)
  · rintro rfl
    exact notNull (by simp)
  · rintro rfl
    exact notNull (by simp)
  · rintro rfl
    simp [List.nodup_append] at nodup
  · intro p outside
    simp only [List.mem_append, List.mem_cons, not_or] at outside
    simp [outside.2.1, outside.2.2.1]

end Cells

omit [DecidableEq L] [DecidableEq N] in
theorem cellsOf_split (l : L) (us vs : List N) (p : N) : cellsOf l (us ++ p :: vs) =
    (.head l :: us.map .elem) ++ .elem p :: (vs.map .elem ++ [.tail l]) := by
  simp [cellsOf]

/-- A free node goes between `us` and `vs`: before the first of `vs`, or the tail. -/
theorem Represented.insert (rep : Represented m lists) (is : lists plist = some (us ++ vs)) {n : N}
    (free : lists.Free n) (first : (vs.map Ptr.elem ++ [Ptr.tail plist]).head (by simp) = b) :
    ∃ m', m.listInsertBefore b (.elem n) = some m' ∧
      Linked m'.next m'.prev (cellsOf plist (us ++ n :: vs)) ∧ m.Kept m' (cellsOf plist (us ++ n :: vs)) := by
  obtain ⟨after, split⟩ : ∃ after, vs.map Ptr.elem ++ [Ptr.tail plist] = b :: after := by
    rw [← first]
    exact ⟨_, (List.cons_head_tail _).symm⟩
  have cells : cellsOf plist (us ++ vs) = (Ptr.head plist :: us.map .elem) ++ b :: after := by
    rw [← split]
    simp [cellsOf]
  rw [cellsOf_split, split]
  refine Cells.insert_between ?_ (by simp) ?_ ?_ ?_ (by simp)
  · rw [← cells]
    exact rep.linked plist _ is
  · rw [← cells]
    exact cellsOf_nodup plist (rep.nodup plist _ is)
  · rw [← cells]
    exact cellsOf_null
  · rw [← cells, mem_cellsOf]
    rintro (same | same | ⟨n', member, same⟩)
    · cases same
    · cases same
    · rw [← Ptr.elem.inj same] at member
      exact free plist _ is member

theorem Represented.remove (rep : Represented m lists) {n : N} (is : lists plist = some (us ++ n :: vs)) :
    ∃ m', m.listRemove (.elem n) = some m' ∧
      Linked m'.next m'.prev (cellsOf plist (us ++ vs)) ∧ m.Kept m' (cellsOf plist (us ++ vs)) := by
  have linked := rep.linked plist _ is
  have nodup := cellsOf_nodup plist (rep.nodup plist _ is)
  have notNull : Ptr.null ∉ cellsOf plist (us ++ n :: vs) := cellsOf_null
  rw [cellsOf_split] at linked nodup notNull
  have cells : cellsOf plist (us ++ vs) = (Ptr.head plist :: us.map .elem) ++
      (vs.map .elem ++ [.tail plist]) := by
    simp [cellsOf]
  rw [cells]
  exact Cells.remove_between linked (by simp) (by simp) nodup notNull

theorem Represented.first (rep : Represented m lists) (is : lists plist = some ns) :
    m.getNext (.head plist) = some ((ns.map Ptr.elem ++ [Ptr.tail plist]).head (by simp)) := by
  have linked := rep.linked plist _ is
  unfold cellsOf at linked
  unfold Cells.getNext
  rw [if_neg (by simp)]
  cases ns with
  | nil => rw [(List.isChain_cons_cons.mp linked).1.1]; rfl
  | cons n ns => rw [(List.isChain_cons_cons.mp linked).1.1]; rfl

/-- Each operation does what it is meant to do, and touches the cells of no other list. -/
theorem Represented.exec (rep : Represented m lists) (meant : Meant op lists plist ns result) :
    ∃ m', op.exec m = some (result, m') ∧ Linked m'.next m'.prev (cellsOf plist ns) ∧
      m.Kept m' (cellsOf plist ns) := by
  cases meant with
  | init =>
    obtain ⟨m', done, linked, kept⟩ := Cells.listInit_spec m plist
    exact ⟨m', by rw [ListOp.exec, done]; rfl, linked, kept⟩
  | @push _ _ ns n is free =>
    obtain ⟨m', done, linked, kept⟩ := rep.insert (show lists plist = some ([] ++ ns) from is) free rfl
    refine ⟨m', ?_, linked, kept⟩
    rw [ListOp.exec, Cells.listPush, rep.first is, Option.bind_eq_bind, Option.bind_some, done]
    rfl
  | @append _ _ ns n is free =>
    have is' : lists plist = some (ns ++ []) := by rw [List.append_nil, is]
    obtain ⟨m', done, linked, kept⟩ := rep.insert is' free rfl
    change m.listInsertBefore (.tail plist) (.elem n) = _ at done
    exact ⟨m', by rw [ListOp.exec, Cells.listAppend, done]; rfl, linked, kept⟩
  | @insertBefore _ _ us vs before n is free =>
    obtain ⟨m', done, linked, kept⟩ := rep.insert is free rfl
    change m.listInsertBefore (.elem before) (.elem n) = _ at done
    exact ⟨m', by rw [ListOp.exec, done]; rfl, linked, kept⟩
  | remove is =>
    obtain ⟨m', done, linked, kept⟩ := rep.remove is
    exact ⟨m', by rw [ListOp.exec, done]; rfl, linked, kept⟩
  | @pop _ _ ns rest n is popped =>
    cases ns with
    | nil => cases popped
    | cons n' rest' =>
      simp only [LiziOS.listPop, Option.some.injEq, Prod.mk.injEq] at popped
      obtain ⟨rfl, rfl⟩ := popped
      obtain ⟨m', done, linked, kept⟩ := rep.remove (show lists plist = some ([] ++ n' :: rest') from is)
      refine ⟨m', ?_, linked, kept⟩
      rw [ListOp.exec, Cells.listPop, rep.first is, Option.bind_eq_bind, Option.bind_some]
      simp only [List.map_cons, List.cons_append, List.head_cons, done]
      rfl

omit [DecidableEq L] [DecidableEq N] in
theorem Meant.members (meant : Meant op lists plist ns result) {n : N} (member : n ∈ ns) :
    (∃ ns', lists plist = some ns' ∧ n ∈ ns') ∨ lists.Free n := by
  cases meant with
  | init => cases member
  | @push _ _ ns _ is free =>
    rcases List.mem_cons.mp member with rfl | member
    · exact .inr free
    · exact .inl ⟨ns, is, member⟩
  | @append _ _ ns _ is free =>
    rcases List.mem_append.mp member with member | member
    · exact .inl ⟨ns, is, member⟩
    · rw [List.mem_singleton.mp member]
      exact .inr free
  | @insertBefore _ _ us vs _ _ is free =>
    rcases List.mem_append.mp member with member | member
    · exact .inl ⟨_, is, by simp [member]⟩
    · rcases List.mem_cons.mp member with rfl | member
      · exact .inr free
      · exact .inl ⟨_, is, by simp_all⟩
  | @remove _ _ us vs _ is =>
    refine .inl ⟨_, is, ?_⟩
    rcases List.mem_append.mp member with member | member <;> simp [member]
  | @pop _ _ ns rest first is popped =>
    exact .inl ⟨ns, is, (listPop_perm popped).symm.subset (List.mem_cons_of_mem _ member)⟩

omit [DecidableEq L] [DecidableEq N] in
theorem Meant.nodup (rep : Represented m lists) (meant : Meant op lists plist ns result) : ns.Nodup := by
  cases meant with
  | init => exact .nil
  | push is free => exact List.nodup_cons.mpr ⟨free _ _ is, rep.nodup _ _ is⟩
  | append is free =>
    refine List.nodup_append.mpr ⟨rep.nodup _ _ is, List.nodup_singleton _, ?_⟩
    intro n member n' member' same
    rw [List.mem_singleton.mp member'] at same
    exact free _ _ is (same ▸ member)
  | insertBefore is free =>
    refine (List.nodup_middle).mpr (List.nodup_cons.mpr ⟨free _ _ is, rep.nodup _ _ is⟩)
  | remove is => exact (List.nodup_cons.mp (List.nodup_middle.mp (rep.nodup _ _ is))).2
  | pop is popped => exact (List.nodup_cons.mp ((listPop_perm popped).nodup_iff.mp (rep.nodup _ _ is))).2

omit [DecidableEq L] [DecidableEq N] in
theorem Meant.apart (rep : Represented m lists) (meant : Meant op lists plist ns result) (other : l ≠ plist)
    (is : lists l = some ns') : ∀ n ∈ ns', n ∉ ns := by
  intro n member member'
  rcases meant.members member' with ⟨old, was, inside⟩ | free
  · exact rep.apart l plist _ _ other is was n member inside
  · exact free l _ is member

omit [DecidableEq L] [DecidableEq N] in
theorem Represented.others (rep : Represented m lists) (meant : Meant op lists plist ns result)
    (kept : m.Kept m' (cellsOf plist ns)) (other : l ≠ plist) (is : lists l = some ns') :
    ∀ p ∈ cellsOf l ns', m'.next p = m.next p ∧ m'.prev p = m.prev p := fun p member =>
  kept p (cellsOf_apart other (meant.apart rep other is) member)

theorem Represented.step (rep : Represented m lists) (meant : Meant op lists plist ns result)
    (done : op.exec m = some (result, m')) : Represented m' (Function.update lists plist (some ns)) := by
  obtain ⟨m'', done', linked, kept⟩ := rep.exec meant
  rw [done, Option.some.injEq, Prod.mk.injEq] at done'
  obtain ⟨_, rfl⟩ := done'
  refine ⟨?_, ?_, ?_⟩
  · intro l ns' is
    by_cases other : l = plist
    · rw [other, Function.update_self, Option.some.injEq] at is
      rw [other, ← is]
      exact linked
    · rw [Function.update_of_ne other] at is
      have same := rep.others meant kept other is
      exact (rep.linked l ns' is).frame
        (fun c member => (same c ((List.dropLast_sublist _).subset member)).1)
        (fun c member => (same c (List.mem_of_mem_tail member)).2)
  · intro l ns' is
    by_cases other : l = plist
    · rw [other, Function.update_self, Option.some.injEq] at is
      rw [← is]
      exact meant.nodup rep
    · rw [Function.update_of_ne other] at is
      exact rep.nodup l ns' is
  · intro l l' ns₁ ns₂ different is is'
    by_cases other : l = plist
    · have other' : l' ≠ plist := fun same => different (other.trans same.symm)
      rw [other, Function.update_self, Option.some.injEq] at is
      rw [Function.update_of_ne other'] at is'
      rw [← is]
      exact fun n member member' => meant.apart rep other' is' n member' member
    · rw [Function.update_of_ne other] at is
      by_cases other' : l' = plist
      · rw [other', Function.update_self, Option.some.injEq] at is'
        rw [← is']
        exact meant.apart rep other is
      · rw [Function.update_of_ne other'] at is'
        exact rep.apart l l' _ _ different is is'

theorem ListRun.represented (run : ListRun start m lists) : Represented m lists := by
  induction run with
  | start => exact ⟨fun l ns is => (nomatch is), fun l ns is => (nomatch is), fun l l' ns ns' _ is =>
      (nomatch is)⟩
  | step _ meant done ih => exact ih.step meant done

namespace Cells

theorem elemFindLoop_eq (linked : Linked m.next m.prev (p :: ns.map .elem ++ [.tail l])) (objElem : Ptr L N)
    {turns : Nat} (enough : ns.length < turns) :
    m.elemFindLoop l objElem turns (m.next p) = some (decide (objElem ∈ ns.map Ptr.elem)) := by
  induction ns generalizing p turns with
  | nil =>
    obtain ⟨turns, rfl⟩ := Nat.exists_eq_succ_of_ne_zero (Nat.ne_zero_of_lt enough)
    simp [elemFindLoop, (List.isChain_cons_cons.mp linked).1.1]
  | cons n ns ih =>
    obtain ⟨turns, rfl⟩ := Nat.exists_eq_succ_of_ne_zero (Nat.ne_zero_of_lt enough)
    obtain ⟨⟨forward, _⟩, rest⟩ := List.isChain_cons_cons.mp linked
    have less : ns.length < turns := by
      rw [List.length_cons] at enough
      omega
    have found := ih rest less
    rw [forward, elemFindLoop, if_pos (by simp)]
    by_cases same : Ptr.elem n = objElem
    · simp [same]
    · have other : objElem ≠ .elem n := Ne.symm same
      simp [same, other, getNext, found]

theorem listTraversalLoop_eq (linked : Linked m.next m.prev (p :: ns.map .elem ++ [.tail l]))
    (func : Ptr L N → U32 → Bool) (arg : U32) {turns : Nat} (enough : ns.length < turns) :
    m.listTraversalLoop l func arg turns (m.next p) =
      some (((ns.map Ptr.elem).find? fun elem => func elem arg).getD .null) := by
  induction ns generalizing p turns with
  | nil =>
    obtain ⟨turns, rfl⟩ := Nat.exists_eq_succ_of_ne_zero (Nat.ne_zero_of_lt enough)
    simp [listTraversalLoop, (List.isChain_cons_cons.mp linked).1.1]
  | cons n ns ih =>
    obtain ⟨turns, rfl⟩ := Nat.exists_eq_succ_of_ne_zero (Nat.ne_zero_of_lt enough)
    obtain ⟨⟨forward, _⟩, rest⟩ := List.isChain_cons_cons.mp linked
    have less : ns.length < turns := by
      rw [List.length_cons] at enough
      omega
    have found := ih rest less
    rw [forward, listTraversalLoop, if_pos (by simp), List.map_cons, List.find?_cons]
    by_cases hit : func (.elem n) arg = true
    · simp [hit]
    · simp [hit, getNext, found]

theorem listLenLoop_eq (linked : Linked m.next m.prev (p :: ns.map .elem ++ [.tail l])) (length : U32)
    {turns : Nat} (enough : ns.length < turns) :
    m.listLenLoop l turns (m.next p) length = some (length + BitVec.ofNat 32 ns.length) := by
  induction ns generalizing p turns length with
  | nil =>
    obtain ⟨turns, rfl⟩ := Nat.exists_eq_succ_of_ne_zero (Nat.ne_zero_of_lt enough)
    simp [listLenLoop, (List.isChain_cons_cons.mp linked).1.1]
  | cons n ns ih =>
    obtain ⟨turns, rfl⟩ := Nat.exists_eq_succ_of_ne_zero (Nat.ne_zero_of_lt enough)
    obtain ⟨⟨forward, _⟩, rest⟩ := List.isChain_cons_cons.mp linked
    have less : ns.length < turns := by
      rw [List.length_cons] at enough
      omega
    have counted := ih rest (length + 1) less
    rw [forward, listLenLoop, if_pos (by simp), getNext, if_neg (by simp), Option.bind_eq_bind,
      Option.bind_some, counted, List.length_cons, Nat.add_comm ns.length 1, BitVec.ofNat_add,
          BitVec.add_assoc]
    rfl

end Cells

omit [DecidableEq L] [DecidableEq N] in
/-- There are fewer nodes than addresses. -/
theorem Placement.length_lt (place : Placement L N) (nodup : ns.Nodup) : ns.length < 2 ^ 32 := by
  have pointers : (Ptr.null :: ns.map (@Ptr.elem L N)).Nodup := by
    refine List.nodup_cons.mpr ⟨by simp, List.Nodup.map (fun _ _ same => Ptr.elem.inj same) nodup⟩
  have addresses := List.Nodup.map (f := fun q => (place.address q).toFin)
    (fun q q' same => place.injective (BitVec.toFin_inj.mp same)) pointers
  have bound := addresses.length_le_card
  rw [Fintype.card_fin, List.length_map, List.length_cons, List.length_map] at bound
  omega

theorem Represented.shows (rep : Represented m lists) (place : Placement L N) (is : lists l = some ns) :
    Shows m l ns := by
  have linked := rep.linked l ns is
  have backward := linked.reverse
  have first := rep.first is
  have start : m.getNext (.head l) = some (m.next (.head l)) := if_neg (by simp)
  have empty : m.listEmpty l = some (listEmpty ns) := by
    rw [Cells.listEmpty, first]
    cases ns <;> simp [listEmpty]
  refine ⟨?_, ?_, ?_, ?_, empty, ?_⟩
  · intro turns enough
    exact linked.walk (by simp) (by rw [List.length_map]; exact enough)
  · intro turns enough
    have split : (cellsOf l ns).reverse = .tail l :: (ns.map Ptr.elem).reverse ++ [.head l] := by
      simp [cellsOf]
    rw [split] at backward
    exact backward.walk (by simp) (by rw [List.length_reverse, List.length_map]; exact enough)
  · intro turns enough objElem
    rw [Cells.elemFind, start, Option.bind_eq_bind, Option.bind_some]
    exact Cells.elemFindLoop_eq linked objElem enough
  · intro turns enough
    refine ⟨BitVec.ofNat 32 ns.length, ?_, ?_⟩
    · rw [Cells.listLen, start, Option.bind_eq_bind, Option.bind_some, Cells.listLenLoop_eq linked 0 enough]
      exact congrArg some (BitVec.zero_add _)
    · rw [BitVec.toNat_ofNat]
      exact Nat.mod_eq_of_lt (place.length_lt (rep.nodup l ns is))
  · intro turns enough func arg
    have loop := Cells.listTraversalLoop_eq linked func arg enough
    rw [Cells.listTraversal, start, empty]
    cases ns with
    | nil => rfl
    | cons n ns => exact loop

/-- The pointer operations do to the cells what the sequence operations do to the sequences. -/
theorem listRun_refines (place : Placement L N) (run : ListRun start m lists) :
    (∀ l ns, lists l = some ns → Shows m l ns) ∧
    ∀ op plist ns result, Meant op lists plist ns result → ∃ m', op.exec m = some (result, m') ∧
      ListRun start m' (Function.update lists plist (some ns)) ∧ Shows m' plist ns ∧
      ∀ l, l ≠ plist → ∀ ns', lists l = some ns' →
        Shows m' l ns' ∧ ∀ p ∈ cellsOf l ns', m'.next p = m.next p ∧ m'.prev p = m.prev p := by
  have rep := run.represented
  refine ⟨fun l ns is => rep.shows place is, ?_⟩
  intro op plist ns result meant
  obtain ⟨m', done, _, kept⟩ := rep.exec meant
  have rep' := rep.step meant done
  refine ⟨m', done, run.step meant done, rep'.shows place (Function.update_self ..), ?_⟩
  intro l other ns' is
  refine ⟨rep'.shows place ?_, rep.others meant kept other is⟩
  rw [Function.update_of_ne other, is]

/-- One list and two nodes, somewhere in memory. -/
def samplePlacement : Placement Unit Bool where
  address
    | .null => 0
    | .head _ => 0x1000
    | .tail _ => 0x1008
    | .elem false => 0x2000
    | .elem true => 0x3000
  injective := by
    rintro (_ | l | l | (_ | _)) (_ | l' | l' | (_ | _)) same <;> first | rfl | simp at same

theorem listRun_refines_pushed : ∃ m m' : Cells Unit Bool, Shows m () [] ∧
    (ListOp.push () true).exec m = some (.null, m') ∧ Shows m' () [true] := by
  have run : ListRun (L := Unit) (N := Bool) ⟨fun _ => .null, fun _ => .null⟩ _ _ :=
    .step .start (Meant.init : Meant (.init ()) _ () [] .null) rfl
  obtain ⟨shows, steps⟩ := listRun_refines samplePlacement run
  have free : Sequences.Free (Function.update (fun _ : Unit => none) () (some [])) true := by
    intro l ns is
    rw [Function.update_self, Option.some.injEq] at is
    simp [← is]
  obtain ⟨m', done, _, after, _⟩ := steps (.push () true) () [true] .null (.push rfl free)
  exact ⟨_, m', shows () [] rfl, done, after⟩

end LiziOS
