import CspProc.Lib.Bytes
import CspProc.Lib.Heap
import CspProc.Lib.Machine

/-! # Memory on FreeRTOS

`proc_memory_FreeRTOS.c`: FreeRTOS has no `realloc`, so every block that
`pvPortMalloc` returns has its size in front of what the caller gets. The functions
are modelled on these raw blocks, and compared with what they are documented to do, on
a heap of blocks of just the bytes that were asked for.

A `size_t` is an unsigned number of `sizeofSizeT` bytes. A pointer into a raw block is
the block and an offset. No result stands for behaviour that is not defined: an access
outside a live block, or a pointer freed that is not to a block.

* `Framed` — the raw heap has the documented blocks, each behind its size;
* `procMemory_refines` — over any sequence of calls the functions do what is documented,
  as long as no size wraps;
* `conforms_iff` — a single call does so exactly when its size does not wrap, or there
  is no memory: the sizes are not checked.
-/

namespace CspProc

/-- The size of a `size_t`, which calls of `pvPortMalloc` return a block, by their number,
and what is in it. -/
structure PortEnv where
  sizeofSizeT : Nat
  ok : Nat → Bool
  fill : Nat → Nat → UInt8
  size_pos : 0 < sizeofSizeT

namespace PortEnv

/-- A number as a `size_t`. -/
def sizeT (env : PortEnv) (n : Nat) : Nat := n % 256 ^ env.sizeofSizeT

/-- What the caller finds in a block of so many bytes that is new. -/
def fresh (env : PortEnv) (call size : Nat) : List UInt8 :=
  (List.range size).map fun i => env.fill call (env.sizeofSizeT + i)

end PortEnv

namespace Port

/-! ## The functions -/

/-- A pointer into a raw block, or null. -/
abbrev Address : Type := Option (Nat × Nat)

/-- A heap of blocks of bytes. -/
abbrev ByteHeap : Type := Heap (List UInt8)

/-- `pvPortMalloc`. -/
def pvPortMalloc (env : PortEnv) (h : ByteHeap) (size : Nat) : Ptr × ByteHeap :=
  h.alloc env.ok ((List.range size).map (env.fill h.calls))

/-- Bytes are written into a block. -/
def writeBytes (h : ByteHeap) (block offset : Nat) (bs : List UInt8) : Option ByteHeap := do
  let buf ← h.blocks block
  let buf ← ByteBuf.write buf offset bs
  h.store (some block) buf

/-- Bytes are read from a block. -/
def readBytes (h : ByteHeap) (block offset n : Nat) : Option (List UInt8) := do
  let buf ← h.blocks block
  ByteBuf.read buf offset n

/-- `proc_malloc`. -/
def procMalloc (env : PortEnv) (h : ByteHeap) (size : Nat) : Option (Address × ByteHeap) :=
  match pvPortMalloc env h (env.sizeT (size + env.sizeofSizeT)) with
  | (none, h) => some (none, h)
  | (some actualPtr, h) => do
      let h ← writeBytes h actualPtr 0 (leBytes env.sizeofSizeT size)
      return (some (actualPtr, env.sizeofSizeT), h)

/-- `proc_calloc`. -/
def procCalloc (env : PortEnv) (h : ByteHeap) (num size : Nat) : Option (Address × ByteHeap) :=
  let totalSize := env.sizeT (num * size)
  match pvPortMalloc env h (env.sizeT (totalSize + env.sizeofSizeT)) with
  | (none, h) => some (none, h)
  | (some actualPtr, h) => do
      let h ← writeBytes h actualPtr 0 (leBytes env.sizeofSizeT totalSize)
      let h ← writeBytes h actualPtr env.sizeofSizeT (List.replicate totalSize 0)
      return (some (actualPtr, env.sizeofSizeT), h)

/-- `proc_free`. What is freed is what stands one `size_t` in front of the pointer. -/
def procFree (env : PortEnv) (h : ByteHeap) : Address → Option ByteHeap
  | none => some h
  | some (block, offset) => if offset = env.sizeofSizeT then h.free (some block) else none

/-- `proc_realloc`. -/
def procRealloc (env : PortEnv) (h : ByteHeap) (ptr : Address) (size : Nat) :
    Option (Address × ByteHeap) :=
  if size = 0 then (procFree env h ptr).map fun h => (none, h)
  else
    match ptr with
    | none => procMalloc env h size
    | some (block, offset) => do
        if offset < env.sizeofSizeT then none
        let header ← readBytes h block (offset - env.sizeofSizeT) env.sizeofSizeT
        let oldSize := leValue header
        match pvPortMalloc env h (env.sizeT (size + env.sizeofSizeT)) with
        | (none, h) => return (none, h)
        | (some newPtr, h) =>
            let h ← writeBytes h newPtr 0 (leBytes env.sizeofSizeT size)
            let bytes ← readBytes h block offset (if oldSize < size then oldSize else size)
            let h ← writeBytes h newPtr env.sizeofSizeT bytes
            let h ← procFree env h (some (block, offset))
            return (some (newPtr, env.sizeofSizeT), h)

/-- `proc_strdup`. -/
def procStrdup (env : PortEnv) (h : ByteHeap) (s : CStr) : Option (Address × ByteHeap) := do
  let len := env.sizeT (s.strlen + 1)
  let (new, h) ← procMalloc env h len
  match new with
  | none => return (none, h)
  | some (block, offset) =>
      let h ← writeBytes h block offset (s.withNul.take len)
      return (some (block, offset), h)

/-! ## What they are documented to do -/

namespace Documented

/-- A block of the size, with anything in it. -/
def malloc (env : PortEnv) (h : ByteHeap) (size : Nat) : Ptr × ByteHeap :=
  h.alloc env.ok (env.fresh h.calls size)

/-- A block for `num` elements of the size, all of it zero. -/
def calloc (env : PortEnv) (h : ByteHeap) (num size : Nat) : Ptr × ByteHeap :=
  h.alloc env.ok (List.replicate (num * size) 0)

/-- A block of the size with the content of the old one up to the lesser of both sizes,
and anything behind it. Size 0 frees, and the null pointer makes it an allocation. -/
def realloc (env : PortEnv) (h : ByteHeap) (p : Ptr) (size : Nat) : Option (Ptr × ByteHeap) :=
  if size = 0 then (h.free p).map fun h => (none, h)
  else
    match p with
    | none => some (malloc env h size)
    | some b => do
        let old ← h.blocks b
        h.realloc env.ok p (old.take size ++ (env.fresh h.calls size).drop old.length)

/-- A block with the string and its NUL. -/
def strdup (env : PortEnv) (h : ByteHeap) (s : CStr) : Ptr × ByteHeap :=
  h.alloc env.ok s.withNul

end Documented

/-! ## Both as machines -/

/-- A call of the functions, or an access of their caller to a byte of a block. -/
inductive AllocOp (π : Type) where
  | malloc (size : Nat)
  | calloc (num size : Nat)
  | realloc (p : π) (size : Nat)
  | free (p : π)
  | strdup (s : CStr)
  | write (p : π) (i : Nat) (b : UInt8)
  | read (p : π) (i : Nat)

/-- A pointer, a byte, or nothing. -/
inductive AllocResult (π : Type) where
  | pointer (p : π)
  | byte (b : UInt8)
  | done

section Pointers

variable {π ρ : Type}

def AllocOp.map (f : π → ρ) : AllocOp π → AllocOp ρ
  | .malloc size => .malloc size
  | .calloc num size => .calloc num size
  | .realloc p size => .realloc (f p) size
  | .free p => .free (f p)
  | .strdup s => .strdup s
  | .write p i b => .write (f p) i b
  | .read p i => .read (f p) i

def AllocResult.map (f : π → ρ) : AllocResult π → AllocResult ρ
  | .pointer p => .pointer (f p)
  | .byte b => .byte b
  | .done => .done

/-- The sizes are numbers that a `size_t` holds. -/
def AllocOp.Sized (env : PortEnv) : AllocOp π → Prop
  | .malloc size | .realloc _ size => size < 256 ^ env.sizeofSizeT
  | .calloc num size => num < 256 ^ env.sizeofSizeT ∧ size < 256 ^ env.sizeofSizeT
  | .strdup s => s.strlen + 1 < 256 ^ env.sizeofSizeT
  | .free _ | .write .. | .read .. => True

/-- Neither the product of the sizes nor their sum with that of a `size_t` wraps. -/
def AllocOp.NoWrap (env : PortEnv) : AllocOp π → Prop
  | .malloc size | .realloc _ size => size + env.sizeofSizeT < 256 ^ env.sizeofSizeT
  | .calloc num size => num * size + env.sizeofSizeT < 256 ^ env.sizeofSizeT
  | .strdup s => s.strlen + 1 + env.sizeofSizeT < 256 ^ env.sizeofSizeT
  | .free _ | .write .. | .read .. => True

instance (env : PortEnv) : (op : AllocOp π) → Decidable (op.Sized env)
  | .malloc _ | .realloc _ _ | .strdup _ => inferInstanceAs (Decidable (_ < _))
  | .calloc _ _ => inferInstanceAs (Decidable (_ ∧ _))
  | .free _ | .write .. | .read .. => inferInstanceAs (Decidable True)

instance (env : PortEnv) : (op : AllocOp π) → Decidable (op.NoWrap env)
  | .malloc _ | .realloc _ _ | .calloc _ _ | .strdup _ => inferInstanceAs (Decidable (_ < _))
  | .free _ | .write .. | .read .. => inferInstanceAs (Decidable True)

end Pointers

/-- The functions of `proc_memory_FreeRTOS.c`, and accesses through their pointers. -/
def portMachine (env : PortEnv) :
    Machine ByteHeap (AllocOp Address) (AllocResult Address) where
  step h
    | .malloc size => (procMalloc env h size).map fun (p, h) => (h, .pointer p)
    | .calloc num size => (procCalloc env h num size).map fun (p, h) => (h, .pointer p)
    | .realloc p size => (procRealloc env h p size).map fun (p, h) => (h, .pointer p)
    | .free p => (procFree env h p).map fun h => (h, .done)
    | .strdup s => (procStrdup env h s).map fun (p, h) => (h, .pointer p)
    | .write p i b => do
        let (block, offset) ← p
        let h ← writeBytes h block (offset + i) [b]
        return (h, .done)
    | .read p i => do
        let (block, offset) ← p
        let bytes ← readBytes h block (offset + i) 1
        let b ← bytes.head?
        return (h, .byte b)

/-- What is documented, and accesses to the bytes that were asked for. -/
def documentedMachine (env : PortEnv) : Machine ByteHeap (AllocOp Ptr) (AllocResult Ptr) where
  step h
    | .malloc size =>
        let (p, h) := Documented.malloc env h size
        some (h, .pointer p)
    | .calloc num size =>
        let (p, h) := Documented.calloc env h num size
        some (h, .pointer p)
    | .realloc p size => (Documented.realloc env h p size).map fun (p, h) => (h, .pointer p)
    | .free p => (h.free p).map fun h => (h, .done)
    | .strdup s =>
        let (p, h) := Documented.strdup env h s
        some (h, .pointer p)
    | .write p i b => do
        let bytes ← h.load p
        if i < bytes.length then
          let h ← h.store p (bytes.set i b)
          return (h, .done)
        else none
    | .read p i => do
        let bytes ← h.load p
        let b ← bytes[i]?
        return (h, .byte b)

/-! ## Framed blocks -/

/-- A block behind its size. -/
def framed (env : PortEnv) (bytes : List UInt8) : List UInt8 :=
  leBytes env.sizeofSizeT bytes.length ++ bytes

/-- The pointer that the caller has of a block. -/
def address (env : PortEnv) (p : Ptr) : Address := p.map fun b => (b, env.sizeofSizeT)

/-- The raw heap has the documented blocks, each behind its size. -/
structure Framed (env : PortEnv) (raw doc : ByteHeap) : Prop where
  calls : raw.calls = doc.calls
  blocks : ∀ b, raw.blocks b = (doc.blocks b).map (framed env)
  sized : ∀ b bytes, doc.blocks b = some bytes → bytes.length < 256 ^ env.sizeofSizeT

section Blocks

variable {env : PortEnv}

theorem Framed.empty : Framed env Heap.empty Heap.empty where
  calls := rfl
  blocks _ := rfl
  sized _ _ h := by cases h

@[simp] theorem fresh_length (call size : Nat) : (env.fresh call size).length = size := by
  rw [PortEnv.fresh, List.length_map, List.length_range]

/-- A write into a block, when there is room. -/
theorem writeBytes_spec {h : ByteHeap} {b off : Nat} {bs pre old : List UInt8}
    (hb : h.blocks b = some (pre ++ old)) (hoff : pre.length = off)
    (hle : bs.length ≤ old.length) :
    ∃ h', writeBytes h b off bs = some h' ∧ h'.calls = h.calls ∧
      h'.blocks b = some (pre ++ (bs ++ old.drop bs.length)) ∧
      ∀ c, c ≠ b → h'.blocks c = h.blocks c := by
  subst hoff
  rcases Heap.store_spec hb (pre ++ (bs ++ old.drop bs.length)) with ⟨h', hstore, hspec⟩
  refine ⟨h', ?_, hspec⟩
  have hwrite : ByteBuf.write (pre ++ old) pre.length bs =
      some (pre ++ (bs ++ old.drop bs.length)) := by
    rw [ByteBuf.write, if_pos (by rw [List.length_append]; omega), List.take_left,
      ← List.drop_drop, List.drop_left, List.append_assoc]
  simp only [writeBytes, hb, hwrite, Option.bind_eq_bind, Option.bind_some, hstore]

/-- A write that has no room. -/
theorem writeBytes_none {h : ByteHeap} {b off : Nat} {bs buf : List UInt8}
    (hb : h.blocks b = some buf) (hlt : buf.length < off + bs.length) :
    writeBytes h b off bs = none := by
  simp only [writeBytes, hb, ByteBuf.write, if_neg (Nat.not_le.mpr hlt), Option.bind_eq_bind,
    Option.bind_some, Option.bind_none]

/-- What is read from a block. -/
theorem readBytes_eq {h : ByteHeap} {b off n : Nat} {pre bytes : List UInt8}
    (hb : h.blocks b = some (pre ++ bytes)) (hoff : pre.length = off) (hle : n ≤ bytes.length) :
    readBytes h b off n = some (bytes.take n) := by
  subst hoff
  simp only [readBytes, hb, Option.bind_eq_bind, Option.bind_some, ByteBuf.read]
  rw [if_pos (by rw [List.length_append]; omega), List.drop_left]

/-- What `pvPortMalloc` returns has room for the size, and then for what was asked for. -/
theorem range_fill (env : PortEnv) (call size : Nat) :
    ∃ header : List UInt8, header.length = env.sizeofSizeT ∧
      (List.range (size + env.sizeofSizeT)).map (env.fill call) =
        header ++ env.fresh call size := by
  refine ⟨(List.range env.sizeofSizeT).map (env.fill call), by simp, ?_⟩
  rw [Nat.add_comm, List.range_add, List.map_append, List.map_map]
  rfl

variable {raw doc : ByteHeap} {size : Nat}

/-- The beginning of the three functions that allocate, when the size does not wrap: the
new block has its size in front. -/
theorem newBlock (hok : env.ok raw.calls = true)
    (hsize : size + env.sizeofSizeT < 256 ^ env.sizeofSizeT) :
    ∃ raw₁ raw₂, pvPortMalloc env raw (env.sizeT (size + env.sizeofSizeT)) =
        (some raw.calls, raw₁) ∧
      writeBytes raw₁ raw.calls 0 (leBytes env.sizeofSizeT size) = some raw₂ ∧
      raw₂.calls = raw.calls + 1 ∧
      raw₂.blocks raw.calls = some (leBytes env.sizeofSizeT size ++ env.fresh raw.calls size) ∧
      ∀ c, c ≠ raw.calls → raw₂.blocks c = raw.blocks c := by
  rcases range_fill env raw.calls size with ⟨header, hheader, hfill⟩
  rcases Heap.alloc_spec hok (header ++ env.fresh raw.calls size) with
    ⟨raw₁, halloc, hcalls, hself, hother⟩
  have hlen :
      (leBytes env.sizeofSizeT size).length ≤ (header ++ env.fresh raw.calls size).length := by
    rw [leBytes_length, List.length_append, hheader]
    exact Nat.le_add_right _ _
  have hnew : raw₁.blocks raw.calls = some ([] ++ (header ++ env.fresh raw.calls size)) := hself
  rcases writeBytes_spec hnew rfl hlen with ⟨raw₂, hwrite, hcalls₂, hself₂, hother₂⟩
  refine ⟨raw₁, raw₂, ?_, hwrite, hcalls₂.trans hcalls, ?_, ?_⟩
  · rw [pvPortMalloc, PortEnv.sizeT, Nat.mod_eq_of_lt hsize, hfill, halloc]
  · rw [hself₂, leBytes_length, ← hheader, List.drop_left]
    rfl
  · intro c hc
    rw [hother₂ c hc, hother c hc]

/-- Both heaps get a new block. -/
theorem Framed.alloc (h : Framed env raw doc) {raw' : ByteHeap} {bytes : List UInt8}
    (hok : env.ok doc.calls = true) (hlt : bytes.length < 256 ^ env.sizeofSizeT)
    (hcalls : raw'.calls = raw.calls + 1) (hself : raw'.blocks raw.calls = some (framed env bytes))
    (hother : ∀ c, c ≠ raw.calls → raw'.blocks c = raw.blocks c) :
    ∃ doc', doc.alloc env.ok bytes = (some doc.calls, doc') ∧ Framed env raw' doc' := by
  rcases Heap.alloc_spec hok bytes with ⟨doc', halloc, hcalls', hself', hother'⟩
  refine ⟨doc', halloc, ⟨?_, ?_, ?_⟩⟩
  · rw [hcalls, hcalls', h.calls]
  · intro b
    by_cases hb : b = doc.calls
    · rw [hb, hself', ← h.calls, hself]
      rfl
    · rw [hother' b hb, hother b (h.calls ▸ hb), h.blocks b]
  · intro b c hc
    by_cases hb : b = doc.calls
    · rw [hb, hself', Option.some.injEq] at hc
      exact hc ▸ hlt
    · rw [hother' b hb] at hc
      exact h.sized b c hc

/-- Neither heap gets a block when there is no memory. -/
theorem Framed.alloc_failed (h : Framed env raw doc) (hok : env.ok doc.calls = false)
    (v w : List UInt8) :
    ∃ raw' doc', raw.alloc env.ok v = (none, raw') ∧ doc.alloc env.ok w = (none, doc') ∧
      Framed env raw' doc' := by
  rcases Heap.alloc_failed hok w with ⟨doc', hdoc, hdcalls, hdblocks⟩
  rw [← h.calls] at hok
  rcases Heap.alloc_failed hok v with ⟨raw', hraw, hrcalls, hrblocks⟩
  refine ⟨raw', doc', hraw, hdoc, ?_, ?_, ?_⟩
  · rw [hrcalls, hdcalls, h.calls]
  · intro b
    rw [hrblocks, hdblocks, h.blocks]
  · intro b c hc
    rw [hdblocks] at hc
    exact h.sized b c hc

/-- Both heaps lose a block. -/
theorem Framed.free (h : Framed env raw doc) {p : Ptr} {doc' : ByteHeap}
    (hfree : doc.free p = some doc') :
    ∃ raw', procFree env raw (address env p) = some raw' ∧ Framed env raw' doc' := by
  cases p with
  | none =>
      obtain rfl := Option.some.inj hfree
      exact ⟨raw, rfl, h⟩
  | some b =>
      cases hb : doc.blocks b with
      | none => simp [Heap.free, hb] at hfree
      | some bytes =>
          rcases Heap.free_spec hb with ⟨doc'', hdoc, hdcalls, hdgone, hdkept⟩
          obtain rfl := Option.some.inj (hfree.symm.trans hdoc)
          have hraw : raw.blocks b = some (framed env bytes) := by rw [h.blocks, hb]; rfl
          rcases Heap.free_spec hraw with ⟨raw', hfree', hrcalls, hrgone, hrkept⟩
          refine ⟨raw', (if_pos rfl).trans hfree', ?_, ?_, ?_⟩
          · rw [hrcalls, hdcalls, h.calls]
          · intro c
            by_cases hc : c = b
            · rw [hc, hrgone, hdgone]
              rfl
            · rw [hrkept c hc, hdkept c hc, h.blocks]
          · intro c bytes' hc
            by_cases hcb : c = b
            · rw [hcb, hdgone] at hc
              cases hc
            · rw [hdkept c hcb] at hc
              exact h.sized c bytes' hc

end Blocks

/-! ## Call by call -/

section Calls

variable {env : PortEnv} {raw doc : ByteHeap} {size : Nat}

/-- A new block with its size in front, and then other bytes over the first of it. -/
theorem Framed.writtenBlock (h : Framed env raw doc) (hok : env.ok raw.calls = true)
    (hsize : size + env.sizeofSizeT < 256 ^ env.sizeofSizeT) {bs : List UInt8}
    (hle : bs.length ≤ size) :
    ∃ raw₁ raw₂ raw₃ doc', pvPortMalloc env raw (env.sizeT (size + env.sizeofSizeT)) =
        (some raw.calls, raw₁) ∧
      writeBytes raw₁ raw.calls 0 (leBytes env.sizeofSizeT size) = some raw₂ ∧
      writeBytes raw₂ raw.calls env.sizeofSizeT bs = some raw₃ ∧
      doc.alloc env.ok (bs ++ (env.fresh doc.calls size).drop bs.length) =
        (some doc.calls, doc') ∧
      (∀ c, c ≠ raw.calls → raw₂.blocks c = raw.blocks c) ∧ Framed env raw₃ doc' := by
  rcases newBlock hok hsize with ⟨raw₁, raw₂, hmalloc, hheader, hcalls₂, hself₂, hother₂⟩
  rcases writeBytes_spec hself₂ (leBytes_length _ _)
    (hle.trans_eq (fresh_length raw.calls size).symm) with ⟨raw₃, hwrite, hcalls₃, hself₃, hother₃⟩
  have hlen : (bs ++ (env.fresh doc.calls size).drop bs.length).length = size := by
    rw [List.length_append, List.length_drop, fresh_length]
    omega
  have hframed : raw₃.blocks raw.calls =
      some (framed env (bs ++ (env.fresh doc.calls size).drop bs.length)) := by
    rw [hself₃, framed, hlen, h.calls]
  rcases h.alloc (h.calls ▸ hok) (by rw [hlen]; omega) (hcalls₃.trans hcalls₂) hframed
    (fun c hc => (hother₃ c hc).trans (hother₂ c hc)) with ⟨doc', halloc, hrel⟩
  exact ⟨raw₁, raw₂, raw₃, doc', hmalloc, hheader, hwrite, halloc, hother₂, hrel⟩

theorem Framed.procMalloc (h : Framed env raw doc)
    (hsize : size + env.sizeofSizeT < 256 ^ env.sizeofSizeT ∨ env.ok doc.calls = false) :
    ∃ raw', Port.procMalloc env raw size =
        some (address env (Documented.malloc env doc size).1, raw') ∧
      Framed env raw' (Documented.malloc env doc size).2 := by
  cases hok : env.ok raw.calls with
  | false =>
      rcases h.alloc_failed (h.calls ▸ hok) ((List.range (env.sizeT (size + env.sizeofSizeT))).map
        (env.fill raw.calls)) (env.fresh doc.calls size) with ⟨raw', doc', hraw, hdoc, hrel⟩
      refine ⟨raw', ?_, ?_⟩
      · rw [Port.procMalloc, pvPortMalloc, hraw, Documented.malloc, hdoc]
        rfl
      · rw [Documented.malloc, hdoc]
        exact hrel
  | true =>
      replace hsize := hsize.resolve_right (by simp [← h.calls, hok])
      rcases newBlock hok hsize with ⟨raw₁, raw₂, hmalloc, hheader, hcalls, hself, hother⟩
      have hframed : raw₂.blocks raw.calls = some (framed env (env.fresh doc.calls size)) := by
        rw [hself, framed, fresh_length, h.calls]
      rcases h.alloc (h.calls ▸ hok) (by rw [fresh_length]; omega) hcalls hframed hother with
        ⟨doc', hdoc, hrel⟩
      refine ⟨raw₂, ?_, ?_⟩
      · simp only [Port.procMalloc, hmalloc, hheader, Option.bind_eq_bind, Option.bind_some,
          Documented.malloc, hdoc]
        rw [← h.calls]
        rfl
      · rw [Documented.malloc, hdoc]
        exact hrel

theorem Framed.procCalloc (h : Framed env raw doc) {num : Nat}
    (hsize : num * size + env.sizeofSizeT < 256 ^ env.sizeofSizeT ∨ env.ok doc.calls = false) :
    ∃ raw', Port.procCalloc env raw num size =
        some (address env (Documented.calloc env doc num size).1, raw') ∧
      Framed env raw' (Documented.calloc env doc num size).2 := by
  cases hok : env.ok raw.calls with
  | false =>
      rcases h.alloc_failed (h.calls ▸ hok) ((List.range (env.sizeT
        (env.sizeT (num * size) + env.sizeofSizeT))).map (env.fill raw.calls))
        (List.replicate (num * size) 0) with ⟨raw', doc', hraw, hdoc, hrel⟩
      refine ⟨raw', ?_, ?_⟩
      · rw [Port.procCalloc, pvPortMalloc, hraw, Documented.calloc, hdoc]
        rfl
      · rw [Documented.calloc, hdoc]
        exact hrel
  | true =>
      replace hsize := hsize.resolve_right (by simp [← h.calls, hok])
      have htotal : env.sizeT (num * size) = num * size := Nat.mod_eq_of_lt (by omega)
      rcases h.writtenBlock hok hsize (List.length_replicate (n := num * size) (a := 0)).le with
        ⟨raw₁, raw₂, raw₃, doc', hmalloc, hheader, hwrite, hdoc, -, hrel⟩
      rw [List.length_replicate, List.drop_eq_nil_of_le (fresh_length _ _).le,
        List.append_nil] at hdoc
      refine ⟨raw₃, ?_, ?_⟩
      · simp only [Port.procCalloc, htotal, hmalloc, hheader, hwrite, Option.bind_eq_bind,
          Option.bind_some, Documented.calloc, hdoc]
        rw [← h.calls]
        rfl
      · rw [Documented.calloc, hdoc]
        exact hrel

theorem Framed.procStrdup (h : Framed env raw doc) {s : CStr}
    (hsize : s.strlen + 1 + env.sizeofSizeT < 256 ^ env.sizeofSizeT ∨
      env.ok doc.calls = false) :
    ∃ raw', Port.procStrdup env raw s =
        some (address env (Documented.strdup env doc s).1, raw') ∧
      Framed env raw' (Documented.strdup env doc s).2 := by
  cases hok : env.ok raw.calls with
  | false =>
      rcases h.alloc_failed (h.calls ▸ hok) ((List.range (env.sizeT
        (env.sizeT (s.strlen + 1) + env.sizeofSizeT))).map (env.fill raw.calls))
        s.withNul with ⟨raw', doc', hraw, hdoc, hrel⟩
      refine ⟨raw', ?_, ?_⟩
      · simp only [Port.procStrdup, Port.procMalloc, pvPortMalloc, hraw, Documented.strdup,
          hdoc, Option.bind_eq_bind, Option.bind_some]
        rfl
      · rw [Documented.strdup, hdoc]
        exact hrel
  | true =>
      replace hsize := hsize.resolve_right (by simp [← h.calls, hok])
      have hlen : env.sizeT (s.strlen + 1) = s.strlen + 1 := Nat.mod_eq_of_lt (by omega)
      rcases h.writtenBlock hok hsize s.withNul_length.le with
        ⟨raw₁, raw₂, raw₃, doc', hmalloc, hheader, hwrite, hdoc, -, hrel⟩
      rw [s.withNul_length, List.drop_eq_nil_of_le (fresh_length _ _).le,
        List.append_nil] at hdoc
      have htake : s.withNul.take (s.strlen + 1) = s.withNul :=
        List.take_of_length_le s.withNul_length.le
      refine ⟨raw₃, ?_, ?_⟩
      · simp only [Port.procStrdup, hlen, Port.procMalloc, hmalloc, hheader, htake, hwrite,
          Option.bind_eq_bind, Option.bind_some, pure, Documented.strdup, hdoc]
        rw [← h.calls]
        rfl
      · rw [Documented.strdup, hdoc]
        exact hrel

/-- The content is preserved up to the lesser of both sizes. -/
theorem Framed.procRealloc (h : Framed env raw doc) {p p' : Ptr} {doc' : ByteHeap}
    (hsize : size + env.sizeofSizeT < 256 ^ env.sizeofSizeT ∨ env.ok doc.calls = false)
    (hdoc : Documented.realloc env doc p size = some (p', doc')) :
    ∃ raw', Port.procRealloc env raw (address env p) size = some (address env p', raw') ∧
      Framed env raw' doc' := by
  unfold Documented.realloc at hdoc
  by_cases hzero : size = 0
  · rw [if_pos hzero] at hdoc
    rcases Option.map_eq_some_iff.mp hdoc with ⟨doc'', hfree, heq⟩
    cases heq
    rcases h.free hfree with ⟨raw', hfree', hrel⟩
    refine ⟨raw', ?_, hrel⟩
    simp only [Port.procRealloc, if_pos hzero, hfree']
    rfl
  rw [if_neg hzero] at hdoc
  cases p with
  | none =>
      rcases h.procMalloc hsize with ⟨raw', hmalloc, hrel⟩
      obtain heq := Option.some.inj hdoc
      rw [heq] at hmalloc hrel
      refine ⟨raw', ?_, hrel⟩
      simp only [Port.procRealloc, if_neg hzero]
      exact hmalloc
  | some b =>
      rcases Option.bind_eq_some_iff.mp hdoc with ⟨old, hold, hrealloc⟩
      have hraw : raw.blocks b = some (framed env old) := by rw [h.blocks, hold]; rfl
      have hheader : readBytes raw b 0 env.sizeofSizeT =
          some (leBytes env.sizeofSizeT old.length) := by
        have hnew : raw.blocks b = some ([] ++ framed env old) := hraw
        have hle : env.sizeofSizeT ≤ (framed env old).length := by
          rw [framed, List.length_append, leBytes_length]
          exact Nat.le_add_right _ _
        have htake : (framed env old).take env.sizeofSizeT = leBytes env.sizeofSizeT old.length :=
          List.take_left' (leBytes_length _ _)
        rw [readBytes_eq hnew List.length_nil hle, htake]
      have hsizeof : leValue (leBytes env.sizeofSizeT old.length) = old.length :=
        leValue_leBytes _ _ (h.sized b old hold)
      have hmin : (if old.length < size then old.length else size) ≤ old.length := by
        split <;> omega
      have htake : old.take (if old.length < size then old.length else size) = old.take size := by
        split
        · rw [List.take_length, List.take_of_length_le (by omega)]
        · rfl
      cases hok : env.ok raw.calls with
      | false =>
          rcases h.alloc_failed (h.calls ▸ hok)
            ((List.range (env.sizeT (size + env.sizeofSizeT))).map (env.fill raw.calls))
            (old.take size ++ (env.fresh doc.calls size).drop old.length) with
            ⟨raw', doc'', hmalloc, halloc, hrel⟩
          rw [Heap.realloc, halloc] at hrealloc
          cases hrealloc
          refine ⟨raw', ?_, hrel⟩
          simp only [Port.procRealloc, if_neg hzero, address, Option.map_some, Nat.lt_irrefl,
            if_false, Nat.sub_self, hheader, Option.bind_eq_bind, Option.bind_some,
            pvPortMalloc, hmalloc]
          rfl
      | true =>
          replace hsize := hsize.resolve_right (by simp [← h.calls, hok])
          have hlen : (old.take size).length ≤ size := List.length_take_le _ _
          rcases h.writtenBlock hok hsize hlen with
            ⟨raw₁, raw₂, raw₃, doc₁, hmalloc, hwrite, hcopy, halloc, hother, hrel⟩
          have hdrop : (env.fresh doc.calls size).drop (old.take size).length =
              (env.fresh doc.calls size).drop old.length := by
            rw [List.length_take]
            rcases Nat.le_total old.length size with hle | hle
            · rw [Nat.min_eq_right hle]
            · rw [Nat.min_eq_left hle, List.drop_eq_nil_of_le (fresh_length _ _).le,
                List.drop_eq_nil_of_le ((fresh_length _ _).le.trans hle)]
          rw [hdrop] at halloc
          rw [Heap.realloc, halloc] at hrealloc
          rcases Option.map_eq_some_iff.mp hrealloc with ⟨doc₂, hfree, heq⟩
          cases heq
          -- the old block is where it was when its bytes are read
          have hne : b ≠ raw.calls := Heap.ne_calls hraw
          have hread : readBytes raw₂ b env.sizeofSizeT
              (if old.length < size then old.length else size) = some (old.take size) := by
            rw [readBytes_eq ((hother b hne).trans hraw) (leBytes_length _ _) hmin, htake]
          rcases hrel.free hfree with ⟨raw₄, hfree', hrel'⟩
          refine ⟨raw₄, ?_, hrel'⟩
          simp only [address, Option.map_some] at hfree'
          simp only [Port.procRealloc, if_neg hzero, address, Option.map_some, Nat.lt_irrefl,
            if_false, Nat.sub_self, hheader, hsizeof, Option.bind_eq_bind, Option.bind_some,
            hmalloc, hwrite, hread, hcopy, hfree']
          rw [← h.calls]
          rfl

/-- A byte of a block is written. -/
theorem Framed.writeByte (h : Framed env raw doc) {c i : Nat} {bytes : List UInt8}
    (hc : doc.blocks c = some bytes) (hi : i < bytes.length) (b : UInt8) :
    ∃ raw' doc', writeBytes raw c (env.sizeofSizeT + i) [b] = some raw' ∧
      doc.store (some c) (bytes.set i b) = some doc' ∧ Framed env raw' doc' := by
  let header := leBytes env.sizeofSizeT bytes.length ++ bytes.take i
  have hraw : raw.blocks c = some (header ++ bytes.drop i) := by
    rw [h.blocks, hc, List.append_assoc, List.take_append_drop]
    rfl
  have hheader : header.length = env.sizeofSizeT + i := by
    rw [List.length_append, leBytes_length, List.length_take_of_le hi.le]
  have hroom : [b].length ≤ (bytes.drop i).length := by
    rw [List.length_drop, List.length_singleton]
    omega
  have hset : header ++ ([b] ++ (bytes.drop i).drop [b].length) =
      framed env (bytes.set i b) := by
    rw [framed, List.length_set, List.set_eq_take_append_cons_drop, if_pos hi, List.drop_drop,
      List.append_assoc]
    rfl
  rcases writeBytes_spec hraw hheader hroom with ⟨raw', hwrite, hrcalls, hrself, hrother⟩
  rcases Heap.store_spec hc (bytes.set i b) with ⟨doc', hstore, hdcalls, hdself, hdother⟩
  refine ⟨raw', doc', hwrite, hstore, ?_, ?_, ?_⟩
  · rw [hrcalls, hdcalls, h.calls]
  · intro d
    by_cases hd : d = c
    · rw [hd, hrself, hdself, hset]
      rfl
    · rw [hrother d hd, hdother d hd, h.blocks]
  · intro d bytes' hd
    by_cases hdc : d = c
    · rw [hdc, hdself, Option.some.injEq] at hd
      rw [← hd, List.length_set]
      exact h.sized c bytes hc
    · rw [hdother d hdc] at hd
      exact h.sized d bytes' hd

/-- A byte of a block is read. -/
theorem Framed.readByte (h : Framed env raw doc) {c i : Nat} {b : UInt8} {bytes : List UInt8}
    (hc : doc.blocks c = some bytes) (hi : bytes[i]? = some b) :
    readBytes raw c (env.sizeofSizeT + i) 1 = some [b] := by
  rcases List.getElem?_eq_some_iff.mp hi with ⟨hlt, hget⟩
  have hraw : raw.blocks c =
      some ((leBytes env.sizeofSizeT bytes.length ++ bytes.take i) ++ bytes.drop i) := by
    rw [h.blocks, hc, List.append_assoc, List.take_append_drop]
    rfl
  rw [readBytes_eq hraw (by rw [List.length_append, leBytes_length, List.length_take_of_le hlt.le])
    (by rw [List.length_drop]; omega), List.drop_eq_getElem_cons hlt, hget]
  rfl

end Calls

/-! ## Refinement -/

section Refines

variable (env : PortEnv)

/-- One step: what is documented of a call whose size does not wrap, or for which there is
no memory, is what happens. -/
theorem Framed.step {raw doc doc' : ByteHeap} (h : Framed env raw doc) {op : AllocOp Ptr}
    {r : AllocResult Ptr} (hop : op.NoWrap env ∨ env.ok doc.calls = false)
    (hdoc : (documentedMachine env).step doc op = some (doc', r)) :
    ∃ raw', (portMachine env).step raw (op.map (address env)) =
        some (raw', r.map (address env)) ∧ Framed env raw' doc' := by
  cases op with
  | malloc size =>
      rcases h.procMalloc hop with ⟨raw', hraw, hrel⟩
      cases hdoc
      exact ⟨raw', by simp only [portMachine, AllocOp.map, hraw]; rfl, hrel⟩
  | calloc num size =>
      rcases h.procCalloc hop with ⟨raw', hraw, hrel⟩
      cases hdoc
      exact ⟨raw', by simp only [portMachine, AllocOp.map, hraw]; rfl, hrel⟩
  | realloc p size =>
      rcases Option.map_eq_some_iff.mp hdoc with ⟨⟨p', doc''⟩, hrealloc, heq⟩
      cases heq
      rcases h.procRealloc hop hrealloc with ⟨raw', hraw, hrel⟩
      exact ⟨raw', by simp only [portMachine, AllocOp.map, hraw]; rfl, hrel⟩
  | free p =>
      rcases Option.map_eq_some_iff.mp hdoc with ⟨doc'', hfree, heq⟩
      cases heq
      rcases h.free hfree with ⟨raw', hraw, hrel⟩
      exact ⟨raw', by simp only [portMachine, AllocOp.map, hraw]; rfl, hrel⟩
  | strdup s =>
      rcases h.procStrdup hop with ⟨raw', hraw, hrel⟩
      cases hdoc
      exact ⟨raw', by simp only [portMachine, AllocOp.map, hraw]; rfl, hrel⟩
  | write p i b =>
      rcases Option.bind_eq_some_iff.mp hdoc with ⟨bytes, hload, hstep⟩
      rcases Option.bind_eq_some_iff.mp hload with ⟨c, rfl, hc⟩
      by_cases hi : i < bytes.length
      · rcases h.writeByte hc hi b with ⟨raw', doc'', hwrite, hstore, hrel⟩
        simp only [if_pos hi, hstore, Option.bind_eq_bind, Option.bind_some] at hstep
        cases hstep
        refine ⟨raw', ?_, hrel⟩
        simp only [portMachine, AllocOp.map, address, Option.map_some, Option.bind_eq_bind,
          Option.bind_some, hwrite]
        rfl
      · rw [if_neg hi] at hstep
        cases hstep
  | read p i =>
      rcases Option.bind_eq_some_iff.mp hdoc with ⟨bytes, hload, hstep⟩
      rcases Option.bind_eq_some_iff.mp hload with ⟨c, rfl, hc⟩
      rcases Option.bind_eq_some_iff.mp hstep with ⟨b, hi, hdone⟩
      cases hdone
      refine ⟨raw, ?_, h⟩
      simp only [portMachine, AllocOp.map, address, Option.map_some, Option.bind_eq_bind,
        Option.bind_some, h.readByte hc hi]
      rfl

/-- The functions simulate what they are documented to do, call by call. -/
def portSimulation : Simulation (portMachine env) (documentedMachine env) where
  Rel := Framed env
  In i k := i = k.map (address env) ∧ k.NoWrap env
  Out o p := o = p.map (address env)
  step := by
    rintro raw doc i k doc' r hrel ⟨rfl, hk⟩ hdoc
    rcases hrel.step env (.inl hk) hdoc with ⟨raw', hraw, hrel'⟩
    exact ⟨raw', r.map (address env), hraw, hrel', rfl⟩

/-- Over any sequence of calls and accesses that has a documented outcome, and of which no
size wraps, the functions have that outcome: every pointer is to the same block, and every
byte that is read is the same. -/
theorem procMemory_refines {ops : List (AllocOp Ptr)} {doc' : ByteHeap}
    {results : List (AllocResult Ptr)} (hops : ∀ op ∈ ops, op.NoWrap env)
    (hdoc : (documentedMachine env).run Heap.empty ops = some (doc', results)) :
    ∃ raw', (portMachine env).run Heap.empty (ops.map (AllocOp.map (address env))) =
        some (raw', results.map (AllocResult.map (address env))) ∧ Framed env raw' doc' := by
  have hin : List.Forall₂ (portSimulation env).In (ops.map (AllocOp.map (address env))) ops := by
    rw [List.forall₂_map_left_iff, List.forall₂_same]
    exact fun op hop => ⟨rfl, hops op hop⟩
  rcases (portSimulation env).run Framed.empty hin hdoc with ⟨raw', os, hrun, hrel, hout⟩
  refine ⟨raw', ?_, hrel⟩
  have hos : os = results.map (AllocResult.map (address env)) := by
    rw [← List.forall₂_eq_eq_eq, List.forall₂_map_right_iff]
    exact hout
  rw [hrun, hos]

/-- A string is duplicated, its copy grown, written and read, and all of it freed: with one
byte for a `size_t`. -/
theorem procMemory_refines_grown :
    ∃ raw', (portMachine ⟨1, fun _ => true, fun _ _ => 7, by decide⟩).run Heap.empty
        [.strdup ⟨[104, 105], by decide⟩, .realloc (some (0, 1)) 4, .write (some (1, 1)) 3 33,
          .read (some (1, 1)) 1, .read (some (1, 1)) 3, .free (some (1, 1))] =
      some (raw', [.pointer (some (0, 1)), .pointer (some (1, 1)), .done, .byte 105, .byte 33,
        .done]) := by
  let ops : List (AllocOp Ptr) := [.strdup ⟨[104, 105], by decide⟩, .realloc (some 0) 4,
    .write (some 1) 3 33, .read (some 1) 1, .read (some 1) 3, .free (some 1)]
  have hops : ∀ op ∈ ops, op.NoWrap ⟨1, fun _ => true, fun _ _ => 7, by decide⟩ := by
    decide
  rcases procMemory_refines ⟨1, fun _ => true, fun _ _ => 7, by decide⟩ hops rfl with
    ⟨raw', hrun, -⟩
  exact ⟨raw', hrun⟩

/-! ## Sizes that wrap -/

/-- A call does what is documented: where that is defined, the result is the same, and so
are all blocks. -/
def Conforms (raw doc : ByteHeap) (op : AllocOp Ptr) : Prop :=
  ∀ doc' r, (documentedMachine env).step doc op = some (doc', r) →
    ∃ raw', (portMachine env).step raw (op.map (address env)) =
        some (raw', r.map (address env)) ∧
      ∀ b, raw'.blocks b = (doc'.blocks b).map (framed env)

variable {env} {raw doc : ByteHeap} {size : Nat}

/-- When the size wraps, the new block has no room for it. -/
theorem wrapped_block (hok : env.ok raw.calls = true) (hlt : size < 256 ^ env.sizeofSizeT)
    (hwrap : ¬ size + env.sizeofSizeT < 256 ^ env.sizeofSizeT) :
    ∃ raw₁, pvPortMalloc env raw (env.sizeT (size + env.sizeofSizeT)) =
        (some raw.calls, raw₁) ∧
      writeBytes raw₁ raw.calls 0 (leBytes env.sizeofSizeT size) = none := by
  have hpow : env.sizeofSizeT < 256 ^ env.sizeofSizeT := Nat.lt_pow_self (by decide)
  have hmod : env.sizeT (size + env.sizeofSizeT) < env.sizeofSizeT := by
    rw [PortEnv.sizeT, Nat.mod_eq_sub_mod (Nat.not_lt.mp hwrap), Nat.mod_eq_of_lt (by omega)]
    omega
  rcases Heap.alloc_spec hok
    ((List.range (env.sizeT (size + env.sizeofSizeT))).map (env.fill raw.calls)) with
    ⟨raw₁, halloc, -, hself, -⟩
  refine ⟨raw₁, halloc, writeBytes_none hself ?_⟩
  rw [List.length_map, List.length_range, leBytes_length]
  omega

theorem procMalloc_wrapped (hok : env.ok raw.calls = true) (hlt : size < 256 ^ env.sizeofSizeT)
    (hwrap : ¬ size + env.sizeofSizeT < 256 ^ env.sizeofSizeT) :
    procMalloc env raw size = none := by
  rcases wrapped_block hok hlt hwrap with ⟨raw₁, halloc, hwrite⟩
  simp only [procMalloc, halloc, hwrite, Option.bind_eq_bind, Option.bind_none]

theorem procStrdup_wrapped (hok : env.ok raw.calls = true) {s : CStr}
    (hlt : s.strlen + 1 < 256 ^ env.sizeofSizeT)
    (hwrap : ¬ s.strlen + 1 + env.sizeofSizeT < 256 ^ env.sizeofSizeT) :
    procStrdup env raw s = none := by
  have hlen : env.sizeT (s.strlen + 1) = s.strlen + 1 := Nat.mod_eq_of_lt hlt
  simp only [procStrdup, hlen, procMalloc_wrapped hok hlt hwrap, Option.bind_eq_bind,
    Option.bind_none]

theorem procRealloc_wrapped (hok : env.ok raw.calls = true) (p : Address)
    (hlt : size < 256 ^ env.sizeofSizeT)
    (hwrap : ¬ size + env.sizeofSizeT < 256 ^ env.sizeofSizeT) :
    procRealloc env raw p size = none := by
  have hpow : env.sizeofSizeT < 256 ^ env.sizeofSizeT := Nat.lt_pow_self (by decide)
  have hzero : size ≠ 0 := by omega
  cases p with
  | none =>
      simp only [procRealloc, if_neg hzero]
      exact procMalloc_wrapped hok hlt hwrap
  | some p =>
      rcases wrapped_block hok hlt hwrap with ⟨raw₁, halloc, hwrite⟩
      simp only [procRealloc, if_neg hzero, halloc, hwrite, Option.bind_eq_bind, Option.bind_none,
        Option.bind_fun_none, ite_self]

/-- When the product wraps, what is returned has fewer bytes than were asked for. -/
theorem procCalloc_wrapped (h : Framed env raw doc) {num : Nat} {raw' : ByteHeap} {p : Address}
    (hok : env.ok raw.calls = true)
    (hwrap : ¬ num * size + env.sizeofSizeT < 256 ^ env.sizeofSizeT)
    (hraw : procCalloc env raw num size = some (p, raw')) :
    ∃ bytes, raw'.blocks doc.calls = some (framed env bytes) ∧ bytes.length < num * size := by
  let total := env.sizeT (num * size)
  let zeros : List UInt8 := List.replicate total 0
  have hzeros : zeros.length = total := List.length_replicate
  have htotal : total < 256 ^ env.sizeofSizeT :=
    Nat.mod_lt _ (Nat.pow_pos (by decide))
  by_cases hwrap' : total + env.sizeofSizeT < 256 ^ env.sizeofSizeT
  · rcases h.writtenBlock hok hwrap' hzeros.le with
      ⟨raw₁, raw₂, raw₃, doc', hmalloc, hheader, hwrite, hdoc, -, hrel⟩
    have heq : procCalloc env raw num size =
        some (some (raw.calls, env.sizeofSizeT), raw₃) := by
      simp only [procCalloc, hmalloc, hheader, hwrite, zeros, total, Option.bind_eq_bind,
        Option.bind_some]
      rfl
    rw [heq] at hraw
    cases hraw
    rcases Heap.alloc_spec (h.calls ▸ hok : env.ok doc.calls = true)
      (zeros ++ (env.fresh doc.calls total).drop zeros.length)
      with ⟨doc'', hdoc', -, hself, -⟩
    rw [hdoc] at hdoc'
    cases hdoc'
    refine ⟨_, (hrel.blocks doc.calls).trans (congrArg _ hself), ?_⟩
    rw [List.length_append, List.length_drop, hzeros, fresh_length, Nat.sub_self]
    have hle : total ≤ num * size := Nat.mod_le _ _
    rcases Nat.lt_or_ge (num * size) (256 ^ env.sizeofSizeT) with hlt | hge
    · rw [show total = num * size from Nat.mod_eq_of_lt hlt] at hwrap'
      exact absurd hwrap' hwrap
    · omega
  · rcases wrapped_block hok htotal hwrap' with ⟨raw₁, halloc, hwrite⟩
    simp only [procCalloc, halloc, hwrite, total, Option.bind_eq_bind, Option.bind_none] at hraw
    cases hraw

/-- A call with sizes that a `size_t` holds does what is documented exactly when they do not
wrap, or there is no memory. The functions do not check their sizes. -/
theorem conforms_iff (h : Framed env raw doc) {op : AllocOp Ptr} (hop : op.Sized env)
    (hdef : ((documentedMachine env).step doc op).isSome = true) :
    Conforms env raw doc op ↔ op.NoWrap env ∨ env.ok doc.calls = false := by
  rcases Option.isSome_iff_exists.mp hdef with ⟨⟨doc', r⟩, hdoc⟩
  constructor
  · intro hconf
    rcases hconf doc' r hdoc with ⟨raw', hraw, hblocks⟩
    cases hok : env.ok doc.calls with
    | false => exact .inr rfl
    | true =>
        rw [← h.calls] at hok
        refine .inl (not_not.mp fun hwrap => ?_)
        cases op with
        | malloc size =>
            simp only [portMachine, AllocOp.map, procMalloc_wrapped hok hop hwrap] at hraw
            cases hraw
        | calloc num size =>
            rcases Option.map_eq_some_iff.mp hraw with ⟨⟨p, raw''⟩, hcalloc, heq⟩
            obtain rfl : raw'' = raw' := congrArg Prod.fst heq
            rcases procCalloc_wrapped h hok hwrap hcalloc with ⟨bytes, hself, hlt⟩
            rcases Heap.alloc_spec (h.calls ▸ hok : env.ok doc.calls = true)
              (List.replicate (num * size) 0) with ⟨doc'', halloc, -, hdself, -⟩
            have hblock : doc'.blocks doc.calls = some (List.replicate (num * size) 0) := by
              have hstep : some ((Documented.calloc env doc num size).2,
                  AllocResult.pointer (Documented.calloc env doc num size).1) =
                some (doc', r) := hdoc
              obtain rfl : (Documented.calloc env doc num size).2 = doc' :=
                congrArg Prod.fst (Option.some.inj hstep)
              rw [← hdself]
              exact congrArg (fun x => x.2.blocks doc.calls) halloc
            rw [hblocks, hblock, Option.map_some, Option.some.injEq] at hself
            have hlen := congrArg List.length hself
            simp only [framed, List.length_append, leBytes_length, List.length_replicate] at hlen
            omega
        | realloc p size =>
            simp only [portMachine, AllocOp.map, procRealloc_wrapped hok _ hop hwrap] at hraw
            cases hraw
        | strdup s =>
            simp only [portMachine, AllocOp.map, procStrdup_wrapped hok hop hwrap] at hraw
            cases hraw
        | free p => exact hwrap trivial
        | write p i b => exact hwrap trivial
        | read p i => exact hwrap trivial
  · intro hwhen doc'' r' hdoc'
    rcases h.step env hwhen hdoc' with ⟨raw', hraw, hrel⟩
    exact ⟨raw', hraw, hrel.blocks⟩

/-- With `size_t` of four bytes and memory for every block, an array of which the size is
2^32 is not what it is documented to be. -/
theorem conforms_iff_product : ¬ Conforms ⟨4, fun _ => true, fun _ _ => 7, by decide⟩
    Heap.empty Heap.empty (.calloc 65536 65536) := by
  rw [conforms_iff Framed.empty (by decide) rfl]
  decide

end Refines

end Port

end CspProc
