import LiziOS.Process

namespace LiziOS.Memory

/-! What the memory system leaves alone: a relation between the machine before and after that no
store breaks holds across all of its programs that complete. -/

def Within (R : Machine → Machine → Prop) {α : Type} (c : M α) : Prop := ∀ s a t, c s = .ok a t → R s t

/-- A relation that a store and the record of frames do not break. -/
structure Tolerant (R : Machine → Machine → Prop) : Prop where
  refl : ∀ s, R s s
  trans : ∀ s t u, R s t → R t u → R s u
  write : ∀ (s : Machine) (a : U32) (phys : ByteMemory.Memory), R s (s.write a phys)
  hand : ∀ (s : Machine) (handed : List U32), R s { s with handed := handed }

variable {R : Machine → Machine → Prop} {α β : Type}

theorem Within.bind {c : M α} {f : α → M β} (first : Within R c) (tol : Tolerant R)
    (second : ∀ a, Within R (f a)) : Within R (c >>= f) := by
  intro s b u completed
  obtain ⟨a, t, done, rest⟩ := Program.bind_completed completed
  exact tol.trans s t u (first s a t done) (second a t b u rest)

theorem within_pure (tol : Tolerant R) (a : α) : Within R (pure a : M α) := by
  intro s b t done
  cases done
  exact tol.refl s

theorem within_get {f : Machine → M α} (each : ∀ s, Within R (f s)) :
    Within R ((get : M Machine) >>= f) := fun s a t done => each s s a t done

theorem within_modify {f : Machine → Machine} (each : ∀ s, R s (f s)) : Within R (modify f : M Unit) := by
  intro s a t done
  cases done
  exact each s

variable (tol : Tolerant R)

include tol

theorem within_physical (a : U32) : Within R (physical a) := by
  intro s p t done
  unfold physical at done
  split at done
  · cases done
    exact tol.refl _
  · contradiction

theorem within_assert (condition : Bool) (site : LiziOS.Site) : Within R (assert condition site) := by
  intro s a t done
  unfold assert at done
  split at done
  · cases done
    exact tol.refl _
  · contradiction

theorem within_load8 (a : U32) : Within R (load8 a) :=
  (within_physical tol a).bind tol fun _ => within_get fun _ => within_pure tol _

theorem within_store8 (a : U32) (byte : U8) : Within R (store8 a byte) :=
  (within_physical tol a).bind tol fun _ => within_modify fun s => tol.write s a _

theorem within_load32 (a : U32) : Within R (load32 a) :=
  (within_load8 tol a).bind tol fun _ => (within_load8 tol _).bind tol fun _ =>
      (within_load8 tol _).bind tol fun _ =>
    (within_load8 tol _).bind tol fun _ => within_pure tol _

theorem within_store32 (a w : U32) : Within R (store32 a w) :=
  (within_physical tol a).bind tol fun _ => (within_physical tol _).bind tol fun _ =>
    (within_physical tol _).bind tol fun _ => (within_physical tol _).bind tol fun _ =>
      within_modify fun s => tol.write s a _

theorem within_memset (a : U32) (ch : U8) (count : Nat) : Within R (memset a ch count) := by
  induction count generalizing a with
  | zero => exact within_pure tol _
  | succ count ih => exact (within_store8 tol a ch).bind tol fun _ => ih _

theorem within_memcpy (dest src : U32) (count : Nat) : Within R (memcpy dest src count) := by
  induction count generalizing dest src with
  | zero => exact within_pure tol _
  | succ count ih =>
    exact (within_load8 tol src).bind tol fun _ => (within_store8 tol dest _).bind tol fun _ => ih _ _

theorem within_strcpy (dest : U32) (src : List U8) : Within R (strcpy dest src) := by
  induction src generalizing dest with
  | nil => exact within_store8 tol dest 0
  | cons c src ih => exact (within_store8 tol dest c).bind tol fun _ => ih _

theorem within_threadCreate (pthread function funcArg : U32) :
    Within R (threadCreate pthread function funcArg) :=
  (within_load32 tol _).bind tol fun _ => (within_store32 tol _ _).bind tol fun _ =>
      (within_load32 tol _).bind tol fun _ =>
    (within_store32 tol _ _).bind tol fun _ => (within_load32 tol _).bind tol fun _ =>
        (within_store32 tol _ _).bind tol fun _ =>
      (within_store32 tol _ _).bind tol fun _ => (within_store32 tol _ _).bind tol fun _ =>
        (within_store32 tol _ _).bind tol fun _ => within_get fun _ =>
            (within_store32 tol _ _).bind tol fun _ =>
          (within_store32 tol _ _).bind tol fun _ => within_store32 tol _ _

theorem within_initThread (pthread : U32) (name : List U8) (prio : U32) :
    Within R (initThread pthread name prio) := by
  refine (within_memset tol _ _ _).bind tol fun _ => (within_strcpy tol _ _).bind tol fun _ =>
      within_get fun s => ?_
  have rest : Within R (do
      store32 (pthread + Pcb.selfKstack) (pthread + pgSize)
      store8 (pthread + Pcb.priority) (prio.setWidth 8)
      store8 (pthread + Pcb.ticks) (prio.setWidth 8)
      store32 (pthread + Pcb.pgdir) 0
      store32 (pthread + Pcb.stackMagic) 0x19870916) :=
    (within_store32 tol _ _).bind tol fun _ => (within_store8 tol _ _).bind tol fun _ =>
        (within_store8 tol _ _).bind tol
      fun _ => (within_store32 tol _ _).bind tol fun _ => within_store32 tol _ _
  split
  · exact (within_store32 tol _ _).bind tol fun _ => rest
  · exact (within_store32 tol _ _).bind tol fun _ => rest

theorem within_bitmapRequestBits (bitmap : Bitmap) (n : U32) : Within R (bitmapRequestBits bitmap n) := by
  intro s a t done
  unfold bitmapRequestBits at done
  split at done
  · cases done
    exact tol.refl _
  · contradiction

theorem within_bitmapSetBit (bitmap : Bitmap) (i : U32) (value : U8) :
    Within R (bitmapSetBit bitmap i value) :=
  (within_load8 tol _).bind tol fun _ => within_store8 tol _ _

theorem within_userBitmap (cur : U32) : Within R (userBitmap cur) :=
  (within_load32 tol _).bind tol fun _ => (within_load32 tol _).bind tol fun _ => within_pure tol _

theorem within_markBits {setBit : U32 → M Unit} (each : ∀ i, Within R (setBit i)) (i bound : U32) :
    Within R (markBits setBit i bound) := by
  fun_induction markBits setBit i bound with
  | case1 i less ih => exact (each i).bind tol fun _ => ih
  | case2 i done => exact within_pure tol _

theorem within_vaddrGetPages (type : PoolType) (count : U32) : Within R (vaddrGetPages type count) := by
  cases type with
  | kernelPool =>
    refine within_get fun s => (within_bitmapRequestBits tol _ _).bind tol fun found => ?_
    split
    · exact within_pure tol _
    · exact (within_markBits tol (fun i => within_bitmapSetBit tol _ i 1) _ _).bind tol fun _ =>
        within_pure tol _
  | userPool =>
    refine within_get fun s => (within_userBitmap tol _).bind tol fun _ =>
      (within_bitmapRequestBits tol _ _).bind tol fun found => ?_
    split
    · exact within_pure tol _
    · exact (within_markBits tol (fun i => (within_userBitmap tol _).bind tol fun _ =>
        within_bitmapSetBit tol _ i 1) _ _).bind tol fun _ => (within_load32 tol _).bind tol fun _ =>
          (within_assert tol _ _).bind tol fun _ => within_pure tol _

theorem within_paddrGetPage (type : PoolType) : Within R (paddrGetPage type) := by
  refine within_get fun s => (within_bitmapRequestBits tol _ _).bind tol fun found => ?_
  split
  · exact within_pure tol _
  · refine (within_bitmapSetBit tol _ _ _).bind tol fun _ => (within_modify ?_).bind tol fun _ =>
      within_pure tol _
    exact fun s => tol.hand s _

theorem within_bindVaddrPaddrPage (vaddr pagePhyaddr : U32) :
    Within R (bindVaddrPaddrPage vaddr pagePhyaddr) := by
  refine (within_load32 tol _).bind tol fun pde => ?_
  split
  · refine (within_load32 tol _).bind tol fun _ => (within_assert tol _ _).bind tol fun _ =>
      (within_load32 tol _).bind tol fun _ => ?_
    split
    · exact within_store32 tol _ _
    · exact fun _ _ _ done => nomatch done
  · exact (within_paddrGetPage tol _).bind tol fun _ => (within_store32 tol _ _).bind tol fun _ =>
      (within_memset tol _ _ _).bind tol fun _ => (within_load32 tol _).bind tol fun _ =>
        (within_assert tol _ _).bind tol fun _ => within_store32 tol _ _

theorem within_mapPages (type : PoolType) (vaddr : U32) (count : Nat) :
    Within R (mapPages type vaddr count) := by
  induction count generalizing vaddr with
  | zero => exact within_pure tol _
  | succ count ih =>
    refine (within_paddrGetPage tol _).bind tol fun _ => ?_
    split
    · exact within_pure tol _
    · exact (within_bindVaddrPaddrPage tol _ _).bind tol fun _ => ih _

theorem within_mallocPages (type : PoolType) (count : U32) : Within R (mallocPages type count) := by
  refine (within_assert tol _ _).bind tol fun _ => (within_vaddrGetPages tol _ _).bind tol fun _ => ?_
  split
  · exact within_pure tol _
  · refine (within_mapPages tol _ _ _).bind tol fun mapped => ?_
    split
    · exact (within_memset tol _ _ _).bind tol fun _ => within_pure tol _
    · exact within_pure tol _

end LiziOS.Memory
